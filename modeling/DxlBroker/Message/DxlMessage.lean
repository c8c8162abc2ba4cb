import DxlBroker.Lib.Unordered
import DxlBroker.Message.Wire

/-!
# The message class

`DxlMessage` wraps a `DxlMessageT` and keeps a dirty flag and the *other fields*, which are loaded
from the name/value array into a hash map on first use and written back just before the message is
converted to bytes.  The sets of destination GUIDs are read from the arrays: each write of an array
drops the set that was built from it.
-/

namespace DxlBroker

open Bytes Msgpack Unordered

/-- `DxlMessage` and its four subclasses (the subclass is the message type). -/
structure DxlMessage where
  msg : DxlMessageT
  isDirty : Bool := false
  otherFields : Option (Map Bytes Bytes) := none
  otherFieldsPending : Bool := false

/-! ### Topic prefixes -/

def dxlBrokerEventPrefix : Bytes := lit "/mcafee/event/dxl/"

def dxlBrokerRequestPrefix : Bytes := lit "/mcafee/service/dxl/"

def dxlClientPrefix : Bytes := lit "/mcafee/client/"

def dxlClientPrefixBracket : Bytes := lit "/mcafee/client/\x7b"

namespace DxlMessage

def isEventMessage (m : DxlMessage) : Bool := m.msg.messageType == .event

def isRequestMessage (m : DxlMessage) : Bool := m.msg.messageType == .request

def isErrorMessage (m : DxlMessage) : Bool := m.msg.messageType == .responseError

/-- A request is of no other kind. -/
theorem not_other_of_isRequestMessage {m : DxlMessage} (h : m.isRequestMessage = true) :
    m.isEventMessage = false ∧ m.isErrorMessage = false := by
  rw [isRequestMessage, beq_iff_eq] at h
  rw [isEventMessage, isErrorMessage, h]
  exact ⟨rfl, rfl⟩

/-! ### Source fields -/

/-- The source broker GUID becomes a copy of the given string. -/
def setSourceBrokerGuid (m : DxlMessage) (guid : Bytes) : DxlMessage :=
  { m with msg := { m.msg with sourceBrokerGuid := cstr guid }, isDirty := true }

def setSourceClientId (m : DxlMessage) (id : Bytes) : DxlMessage :=
  { m with msg := { m.msg with sourceClientId := cstr id }, isDirty := true }

def setSourceClientInstanceId (m : DxlMessage) (id : Bytes) : DxlMessage :=
  { m with msg := { m.msg with sourceClientInstanceId := cstr id }, isDirty := true }

def setSourceTenantGuid (m : DxlMessage) (guid : Bytes) : DxlMessage :=
  { m with msg := { m.msg with sourceTenantGuid := cstr guid }, isDirty := true }

/-- `getSourceBrokerGuid` -/
def getSourceBrokerGuid (m : DxlMessage) : Bytes := cstr m.msg.sourceBrokerGuid

/-- The instance id, or the client id when there is none. -/
def getSourceClientInstanceId (m : DxlMessage) : Bytes :=
  if 0 < (cstr m.msg.sourceClientInstanceId).length then cstr m.msg.sourceClientInstanceId
  else cstr m.msg.sourceClientId

/-! ### Destinations -/

/-- The set of strings of an array; there is no set for an empty array. -/
def guidSet (guids : List Bytes) : Option (List Bytes) :=
  if guids = [] then none else some (guids.map cstr).dedup

/-- `find` in such a set. -/
def hasGuid (guids : List Bytes) (guid : Bytes) : Bool := guids.any fun g => g == guid

@[simp] theorem hasGuid_iff {guids : List Bytes} {guid : Bytes} :
    hasGuid guids guid = true ↔ guid ∈ guids := by
  simp [hasGuid]

def getDestinationBrokerGuids (m : DxlMessage) : Option (List Bytes) := guidSet m.msg.brokerGuids

def getDestinationClientGuids (m : DxlMessage) : Option (List Bytes) := guidSet m.msg.clientGuids

def getDestinationTenantGuids (m : DxlMessage) : Option (List Bytes) := guidSet m.msg.tenantGuids

def setDestinationBrokerGuid (m : DxlMessage) (guid : Bytes) : DxlMessage :=
  { m with msg := { m.msg with brokerGuids := [cstr guid] }, isDirty := true }

def setDestinationClientGuid (m : DxlMessage) (guid : Bytes) : DxlMessage :=
  { m with msg := { m.msg with clientGuids := [cstr guid] }, isDirty := true }

/-- `setDestinationTenantGuids` -/
def setDestinationTenantGuids (m : DxlMessage) (guids : List Bytes) : DxlMessage :=
  { m with msg := { m.msg with tenantGuids := guids.map cstr }, isDirty := true }

/-! ### Requests and responses -/

/-- `getReplyToTopic` of a request. -/
def getReplyToTopic (m : DxlMessage) : Bytes :=
  match m.msg.specificData with
  | .requestData replyTo _ => cstr replyTo
  | _ => []

/-- `getDestinationServiceId` of a request, a response or an error response. -/
def getDestinationServiceId (m : DxlMessage) : Bytes :=
  match m.msg.specificData with
  | .requestData _ service | .responseData _ service | .responseErrorData _ service _ _ =>
      cstr service
  | .eventData => []

theorem cstr_getDestinationServiceId (m : DxlMessage) :
    cstr m.getDestinationServiceId = m.getDestinationServiceId := by
  unfold getDestinationServiceId
  cases m.msg.specificData <;> simp

/-- `setDestinationServiceId` of a request, a response or an error response. -/
def setDestinationServiceId (m : DxlMessage) (serviceId : Bytes) : DxlMessage :=
  { m with
    msg := { m.msg with
      specificData := match m.msg.specificData with
        | .requestData replyTo _ => .requestData replyTo (cstr serviceId)
        | .responseData request _ => .responseData request (cstr serviceId)
        | .responseErrorData request _ error code =>
            .responseErrorData request (cstr serviceId) error code
        | .eventData => .eventData }
    isDirty := true }

/-- `getErrorCode` of an error response. -/
def getErrorCode (m : DxlMessage) : UInt32 :=
  match m.msg.specificData with
  | .responseErrorData _ _ _ code => code.toUInt32
  | _ => 0

/-! ### Payload -/

/-- The bytes of the payload. -/
def getPayloadStr (m : DxlMessage) : Bytes :=
  match m.msg.payload with
  | .buf b => b
  | .freed _ => []

/-- `setDxlMessagePayload`: the buffer is given back; an empty payload is not allocated and leaves
the size as it was. -/
def setPayload (m : DxlMessage) (payload : Bytes) : DxlMessage :=
  { m with
    msg := { m.msg with
      payload := if payload ≠ [] then .buf payload else
        match m.msg.payload with
        | .buf [] => .buf []
        | .buf b => .freed b.length
        | .freed n => .freed n }
    isDirty := true }

/-! ### Other fields -/

/-- The name/value pairs of an array. -/
def fieldPairs : List Bytes → List (Bytes × Bytes)
  | name :: value :: l => (cstr name, cstr value) :: fieldPairs l
  | _ => []

/-- `getOtherFields`: an array of even length is loaded, another one is ignored. -/
def getOtherFields (m : DxlMessage) : DxlMessage :=
  match m.otherFields with
  | some _ => m
  | none =>
      if 0 < m.msg.otherFields.length ∧ m.msg.otherFields.length % 2 = 0 then
        { m with otherFields := some (.ofPairs (fieldPairs m.msg.otherFields)) }
      else m

/-- `setOtherField`: the value goes in by `insert`, and the write-back is pending. -/
def setOtherField (m : DxlMessage) (name value : Bytes) : DxlMessage :=
  let m := m.getOtherFields
  { m with
    otherFields := some ((m.otherFields.getD ∅).emplace name value)
    otherFieldsPending := true
    isDirty := true }

/-- `onPreToBytes`: the pending fields replace the array, in the order of the hash map. -/
def onPreToBytes (order : IterOrder (Bytes × Bytes)) (m : DxlMessage) : DxlMessage :=
  if m.otherFieldsPending then
    match m.otherFields with
    | some fields =>
        if 0 < fields.pairs.length then
          { m with
            msg := { m.msg with
              otherFields := (order.arrange fields.pairs).flatMap fun p => [cstr p.1, cstr p.2] }
            otherFieldsPending := false }
        else { m with otherFieldsPending := false }
    | none => { m with otherFieldsPending := false }
  else m

/-- `DxlMessageService::toBytes`: the message after `onPreToBytes`, and its bytes. -/
def toBytes (c : Codec) (order : IterOrder (Bytes × Bytes)) (m : DxlMessage) (strip : Bool) :
    DxlMessage × Option Bytes :=
  let m := m.onPreToBytes order
  (m, dxlMessageToBytes c m.msg strip)

/-- `DxlMessageService::fromBytes`. -/
def fromBytes (c : Codec) (bytes : Bytes) : Except DxlMessageError DxlMessage :=
  (createDxlMessageFromBytes c bytes).map fun m => { msg := m }

end DxlMessage

end DxlBroker
