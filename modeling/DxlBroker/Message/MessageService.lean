import DxlBroker.Core.Settings
import DxlBroker.Message.DxlMessage

/-!
# The message service

`DxlMessageService` makes the messages that the broker itself sends: events, requests, responses and
error responses.  A message that is sent is put into a work queue and later stored as a message of
the local broker; a response goes to the reply-to topic of its request.
-/

namespace DxlBroker

open Bytes Msgpack Unordered

/-- What the message service uses: the codec, the iteration order of the other fields, and the
identifiers it generates. -/
structure MessageEnv where
  codec : Codec
  fieldOrder : IterOrder (Bytes × Bytes)
  newMessageId : Bytes

/-- A message in the work queue of the broker: a topic and a payload. -/
abbrev OwnMessage := Bytes × Bytes

/-! ### Error codes -/

def fabricServiceUnavailable : UInt32 := 0x80000001

def fabricServiceOverloaded : UInt32 := 0x80000002

def fabricServiceLimitExceeded : UInt32 := 0x80000011

/-- `getMessage`, for the codes that the broker sends. -/
def getMessage (code : UInt32) : Bytes :=
  if code = fabricServiceUnavailable then lit "unable to locate service for request"
  else if code = fabricServiceOverloaded then lit "service is overloaded"
  else if code = fabricServiceLimitExceeded then lit "service limit exceeded"
  else lit "unknown error code"

namespace MessageEnv

variable (settings : BrokerSettings) (env : MessageEnv)

/-- The source fields of a message that the broker makes. -/
def ofBroker (m : DxlMessageT) : DxlMessage :=
  (({ msg := m } : DxlMessage).setSourceBrokerGuid settings.guid).setSourceTenantGuid
    settings.tenantGuid

/-- `createEvent` -/
def createEvent : DxlMessage :=
  ofBroker settings (createDxlMessage .event settings.guid settings.guid env.newMessageId)

/-- `createRequest` -/
def createRequest (messageId replyToTopic : Bytes) : DxlMessage :=
  ofBroker settings { createDxlMessage .request settings.guid settings.guid messageId with
    specificData := .requestData (cstr replyToTopic) [] }

/-- The constructor of `DxlResponse`: the response goes back to the source of the request, with the
service that the request was for. -/
def responseTo (request : DxlMessage) (m : DxlMessageT) : DxlMessage :=
  let m : DxlMessage := { msg := m }
  let m := if request.getSourceBrokerGuid = [] then m
    else m.setDestinationBrokerGuid request.getSourceBrokerGuid
  let m := if request.getSourceClientInstanceId = [] then m
    else m.setDestinationClientGuid request.getSourceClientInstanceId
  if request.getDestinationServiceId = [] then m
  else m.setDestinationServiceId request.getDestinationServiceId

/-- `createResponse` -/
def createResponse (request : DxlMessage) : DxlMessage :=
  ((responseTo request { createDxlMessage .response settings.guid settings.guid env.newMessageId with
    specificData := .responseData (cstr request.msg.messageId) [] }).setSourceBrokerGuid
      settings.guid).setSourceTenantGuid settings.tenantGuid

/-- `createErrorResponse` -/
def createErrorResponse (request : DxlMessage) (code : UInt32) (errorMessage : Bytes) : DxlMessage :=
  ((responseTo request
    { createDxlMessage .responseError settings.guid settings.guid env.newMessageId with
      specificData := .responseErrorData (cstr request.msg.messageId) [] (cstr errorMessage)
        code.toInt32 }).setSourceBrokerGuid settings.guid).setSourceTenantGuid settings.tenantGuid

/-- `sendMessage`: the bytes are put into the queue.  A message made here has a payload, so that there
are bytes. -/
def sendMessage (channel : Bytes) (m : DxlMessage) (outbox : List OwnMessage) : List OwnMessage :=
  ((m.toBytes env.codec env.fieldOrder false).2).elim outbox fun bytes =>
    outbox ++ [(cstr channel, bytes)]

/-- A fabric error for a request, sent to its reply-to topic. -/
def sendError (request : DxlMessage) (code : UInt32) (outbox : List OwnMessage) : List OwnMessage :=
  env.sendMessage request.getReplyToTopic
    (env.createErrorResponse settings request code (getMessage code)) outbox

/-- `sendServiceNotFoundErrorMessage` -/
def sendServiceNotFoundErrorMessage (request : DxlMessage) (outbox : List OwnMessage) :
    List OwnMessage :=
  env.sendError settings request fabricServiceUnavailable outbox

/-- `sendServiceOverloadedErrorMessage` -/
def sendServiceOverloadedErrorMessage (request : DxlMessage) (outbox : List OwnMessage) :
    List OwnMessage :=
  env.sendError settings request fabricServiceOverloaded outbox

end MessageEnv

/-! ### What is sent -/

/-- A message as the service makes it: of the current version and with a payload. -/
structure DxlMessage.Made (m : DxlMessage) : Prop where
  version : m.msg.version = dxlMsgVersion
  payload : ∃ b, m.msg.payload = .buf b

/-- The other fields are all that changes before a message is converted to bytes. -/
theorem DxlMessage.onPreToBytes_msg (order : IterOrder (Bytes × Bytes)) (m : DxlMessage) :
    ∃ fields, (m.onPreToBytes order).msg = { m.msg with otherFields := fields } := by
  unfold DxlMessage.onPreToBytes
  split_ifs
  · split
    · split_ifs
      · exact ⟨_, rfl⟩
      · exact ⟨m.msg.otherFields, rfl⟩
    · exact ⟨m.msg.otherFields, rfl⟩
  · exact ⟨m.msg.otherFields, rfl⟩

namespace MessageEnv

variable {settings : BrokerSettings} {env : MessageEnv}

/-- The bytes of a message that is sent are read as the message, if they are read back at all. -/
theorem sendMessage_spec {m : DxlMessage} (hm : m.Made) (channel : Bytes)
    (outbox : List OwnMessage) :
    ∃ bytes fields, env.sendMessage channel m outbox = outbox ++ [(cstr channel, bytes)] ∧
      (ReadsBack env.codec bytes → createDxlMessageFromBytes env.codec bytes =
        .ok ({ m.msg with otherFields := fields } : DxlMessageT).norm) := by
  obtain ⟨b, hb⟩ := hm.payload
  obtain ⟨fields, hfields⟩ := m.onPreToBytes_msg env.fieldOrder
  obtain ⟨bytes, hbytes⟩ := exists_toBytes env.codec
    (show ({ m.msg with otherFields := fields } : DxlMessageT).payload = .buf b from hb) false
  refine ⟨bytes, fields, ?_, fun hback =>
    hback ({ m.msg with otherFields := fields } : DxlMessageT) false hm.version hbytes⟩
  have htoBytes : (m.toBytes env.codec env.fieldOrder false).2 = some bytes := by
    rw [DxlMessage.toBytes, hfields]
    exact hbytes
  rw [sendMessage, htoBytes]
  rfl

theorem made_responseTo (request : DxlMessage) {m : DxlMessageT} (hv : m.version = dxlMsgVersion)
    (hp : m.payload = .buf []) : (responseTo request m).Made ∧
      (responseTo request m).msg.payload = .buf [] := by
  unfold responseTo
  simp only
  split_ifs <;> exact ⟨⟨hv, ⟨[], hp⟩⟩, hp⟩

/-- The answer to a request names the service of the request. -/
theorem responseTo_specificData (request : DxlMessage) (m : DxlMessageT) :
    (responseTo request m).msg.specificData =
      if request.getDestinationServiceId = [] then m.specificData
      else (({ msg := m } : DxlMessage).setDestinationServiceId
        request.getDestinationServiceId).msg.specificData := by
  unfold responseTo
  simp only
  split_ifs <;> rfl

theorem createEvent_spec (settings : BrokerSettings) (env : MessageEnv) :
    (env.createEvent settings).Made ∧
    (env.createEvent settings).msg.payload = .buf [] ∧
    (env.createEvent settings).msg.specificData = .eventData :=
  ⟨⟨rfl, ⟨[], rfl⟩⟩, rfl, rfl⟩

theorem createResponse_spec (request : DxlMessage) : (env.createResponse settings request).Made ∧
    (env.createResponse settings request).msg.payload = .buf [] ∧
    (env.createResponse settings request).msg.messageType = .response := by
  obtain ⟨hmade, hpayload⟩ := made_responseTo request (m :=
    { createDxlMessage .response settings.guid settings.guid env.newMessageId with
      specificData := .responseData (cstr request.msg.messageId) [] }) rfl rfl
  refine ⟨⟨hmade.version, hmade.payload⟩, hpayload, ?_⟩
  show SpecificData.messageType (responseTo request _).msg.specificData = .response
  rw [responseTo_specificData]
  split_ifs <;> rfl

/-- An error response names the service of its request, or none. -/
theorem createErrorResponse_spec (request : DxlMessage) (code : UInt32) (errorMessage : Bytes) :
    (env.createErrorResponse settings request code errorMessage).Made ∧
    (env.createErrorResponse settings request code errorMessage).msg.specificData =
      .responseErrorData (cstr request.msg.messageId) request.getDestinationServiceId
        (cstr errorMessage) code.toInt32 := by
  obtain ⟨hmade, -⟩ := made_responseTo request (m :=
    { createDxlMessage .responseError settings.guid settings.guid env.newMessageId with
      specificData := .responseErrorData (cstr request.msg.messageId) [] (cstr errorMessage)
        code.toInt32 }) rfl rfl
  refine ⟨⟨hmade.version, hmade.payload⟩, ?_⟩
  show (responseTo request _).msg.specificData = _
  rw [responseTo_specificData]
  split_ifs with hservice
  · rw [hservice]
  · show SpecificData.responseErrorData _ (cstr request.getDestinationServiceId) _ _ = _
    rw [request.cstr_getDestinationServiceId]

end MessageEnv

theorem DxlMessage.Made.setPayload {m : DxlMessage} (h : m.Made) (hp : m.msg.payload = .buf [])
    (payload : Bytes) : (m.setPayload payload).Made := by
  refine ⟨h.version, ?_⟩
  simp only [DxlMessage.setPayload, hp]
  split_ifs
  · exact ⟨payload, rfl⟩
  · exact ⟨[], rfl⟩

end DxlBroker
