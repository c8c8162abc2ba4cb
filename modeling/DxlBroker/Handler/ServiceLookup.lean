import DxlBroker.Core.MessageFields
import DxlBroker.Registry.EventHandlers
import DxlBroker.Service.ServiceRegistry

/-!
# The service lookup handler

`ServiceLookupHandler` sees every stored message.  It finds the service for a request, unless the
request has all routing information already; it turns an event into a request where a service asked
for that; and it removes a service that is reported as unavailable.
-/

namespace DxlBroker

open Bytes Unordered

/-- What the handlers of one stored message work on; there is no message when it is not a DXL
message. -/
structure StoreState where
  ctx : CoreMessageContext
  message : Option DxlMessage
  core : BrokerCore

namespace StoreState

/-- `getDxlMessage` -/
def getDxlMessage (st : StoreState) : Except String DxlMessage :=
  st.message.elim (.error "Message payload is not a DXL message") .ok

/-- `getDxlRequest` -/
def getDxlRequest (st : StoreState) : Except String DxlMessage := do
  let m ← st.getDxlMessage
  if m.isRequestMessage then return m else throw "Message payload is not a DXL request"

/-- `getDxlEvent` -/
def getDxlEvent (st : StoreState) : Except String DxlMessage := do
  let m ← st.getDxlMessage
  if m.isEventMessage then return m else throw "Message payload is not a DXL event"

end StoreState

/-- `isDxlBrokerServiceRequest`: a request for the brokers themselves. -/
def CoreMessageContext.isDxlBrokerServiceRequest (ctx : CoreMessageContext) : Bool :=
  startsWith dxlBrokerRequestPrefix ctx.topic

/-- A request names its service, and the brokers and clients it goes to. -/
def DxlMessage.hasRoutingInformation (m : DxlMessage) : Bool :=
  !m.getDestinationServiceId.isEmpty && m.getDestinationClientGuids.isSome &&
    m.getDestinationBrokerGuids.isSome

section

variable (settings : BrokerSettings) (env : ServiceEnv)

/-- The first of some topics that has a service for the tenant. -/
def BrokerCore.findServiceForTopics (tenantGuid : Bytes) :
    List Bytes → BrokerCore → Option ServiceRegistration × BrokerCore
  | [], core => (none, core)
  | topic :: topics, core =>
      let res := core.services.getNextService settings env topic tenantGuid core.registry
      let core := { core with services := res.2.1, registry := res.2.2 }
      if res.1.isSome then (res.1, core) else core.findServiceForTopics tenantGuid topics

/-- `findServiceForTopic`: the topic itself, then its wildcard ancestors. -/
def BrokerCore.findServiceForTopic (topic tenantGuid : Bytes) (core : BrokerCore) :
    Option ServiceRegistration × BrokerCore :=
  core.findServiceForTopics settings env tenantGuid (cstr topic :: wildcardAncestors topic)

/-- The request is directed to a service. -/
def DxlMessage.routeTo (reg : ServiceRegistration) (m : DxlMessage) : DxlMessage :=
  ((m.setDestinationBrokerGuid reg.brokerGuid).setDestinationClientGuid
    reg.getClientInstanceGuid).setDestinationServiceId reg.serviceGuid

/-- The service that `handleRequest` looks up. -/
def lookupService (ctx : CoreMessageContext) (m : DxlMessage) (core : BrokerCore) :
    Option ServiceRegistration × BrokerCore :=
  if m.getDestinationServiceId = [] then
    core.findServiceForTopic settings env ctx.topic m.msg.sourceTenantGuid
  else
    (core.services.findServiceFor settings m.getDestinationServiceId m.msg.sourceTenantGuid, core)

/-- `handleRequest`: in multi-tenant mode a service that is not found is not named in the error. -/
def handleRequest (m : DxlMessage) (st : StoreState) : Bool × StoreState :=
  if m.hasRoutingInformation then (true, st)
  else
    let res := lookupService settings env st.ctx m st.core
    match res.1 with
    | some reg => (true, { st with message := some (m.routeTo reg), core := res.2 })
    | none =>
        let m := if m.getDestinationServiceId ≠ [] ∧ settings.multiTenantModeEnabled then
          m.setDestinationServiceId [] else m
        (false, { st with
          message := some m
          core := { res.2 with
            outbox := env.sendServiceNotFoundErrorMessage settings m res.2.outbox } })

/-- The prefix for an event: that of the topic, or of the first wildcard ancestor with one. -/
def requestPrefix (r : ServiceRegistry) (topic : Bytes) : Bytes :=
  (((cstr topic :: wildcardAncestors topic).map r.getRequestPrefixForEvent).find? fun p =>
    !p.isEmpty).getD []

/-- The request that an event is turned into. -/
def requestForEvent (m : DxlMessage) (reg : ServiceRegistration) : DxlMessage :=
  ((((((MessageEnv.createRequest settings m.msg.messageId
    (dxlClientPrefix ++ cstr m.msg.sourceClientId)).setSourceBrokerGuid
      m.msg.sourceBrokerGuid).setSourceClientId m.msg.sourceClientId).setSourceClientInstanceId
        m.getSourceClientInstanceId).setSourceTenantGuid m.msg.sourceTenantGuid).routeTo
          reg).setPayload m.getPayloadStr

/-- `handleEvent` -/
def handleEvent (m : DxlMessage) (st : StoreState) : StoreState :=
  let requestTopic := requestPrefix st.core.services st.ctx.topic
  if requestTopic = [] then st
  else
    let topic := requestTopic ++ cstr st.ctx.topic
    let res := st.core.findServiceForTopic settings env topic m.msg.sourceTenantGuid
    { st with
      core := match res.1 with
        | none => res.2
        | some reg => res.2.send env topic (requestForEvent settings m reg) }

/-- The sender of an error response may remove the service: it is a broker or local, or the client
of the service. -/
def mayRemoveService (ctx : CoreMessageContext) (reg : ServiceRegistration) : Bool :=
  ctx.isSourceBridge || ctx.contextFlags &&& dxlFlagLocal != 0 ||
    reg.clientGuid == cstr ctx.canonicalSourceId ||
    reg.getClientInstanceGuid == cstr ctx.sourceId

/-- `handleErrorResponse` -/
def handleErrorResponse (m : DxlMessage) (st : StoreState) : StoreState :=
  if m.getErrorCode = fabricServiceUnavailable ∧ m.getDestinationServiceId ≠ [] then
    match st.core.services.findService m.getDestinationServiceId with
    | none => st
    | some reg =>
        if mayRemoveService st.ctx reg then
          { st with
            core := st.core.unregisterService settings env m.getDestinationServiceId true }
        else st
  else st

/-- `ServiceLookupHandler::onStoreMessage` -/
def serviceLookupHandler (st : StoreState) : Bool × StoreState :=
  match st.message with
  | none => (true, st)
  | some m =>
      if m.isRequestMessage && !st.ctx.isDxlBrokerServiceRequest then
        handleRequest settings env m st
      else if st.core.services.isEventToRequestEnabled && m.isEventMessage &&
          m.getSourceBrokerGuid == cstr settings.guid then
        (true, handleEvent settings env m st)
      else if m.isErrorMessage then (true, handleErrorResponse settings env m st)
      else (true, st)

end

end DxlBroker
