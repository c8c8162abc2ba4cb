import DxlBroker.Core.MessageFields
import DxlBroker.Mqtt.Subs
import DxlBroker.Registry.BrokerRegistry

/-!
# The message routing handler

`MessageRoutingHandler` decides for each bridge and each client with a matching subscription whether
a stored message is inserted into its queue.  A message with destination brokers goes to the bridges
that are next on the way to them, another event to the bridges that lead to a subscriber.  Clients
get a message when the broker and the client are among its destinations, and in multi-tenant mode
when their tenant is.
-/

namespace DxlBroker

open Bytes Unordered

/-- What the insert handlers are given of a destination. -/
structure InsertTarget where
  destId : Bytes
  canonicalDestId : Bytes
  isBridge : Bool
  contextFlags : UInt8
  targetTenantGuid : Bytes

/-- What the handlers keep while one message is inserted: the next brokers, once they were found, and
the registry with its caches. -/
structure InsertState where
  nextBrokerGuids : Option (List Bytes) := none
  registry : BrokerRegistry

/-- Whether a message is inserted, and if so, in the version made for listed clients or not. -/
inductive InsertDecision
  | reject
  | insert (clientMessage : Bool)
  deriving DecidableEq

section

variable (settings : BrokerSettings) (env : RegistryEnv)

/-- The loop of `getNextBrokerGuids`. -/
def addNextBroker (acc : List Bytes × BrokerRegistry) (guid : Bytes) :
    List Bytes × BrokerRegistry :=
  let res := acc.2.getNextBroker env (cstr settings.guid) guid
  (if res.1 = [] then acc.1 else acc.1.insert res.1, res.2)

/-- `getNextBrokerGuids`: found once for a message. -/
def DxlMessage.getNextBrokerGuids (m : DxlMessage) (st : InsertState) : InsertState :=
  match st.nextBrokerGuids, m.getDestinationBrokerGuids with
  | none, some guids =>
      let res := (env.iter.arrange guids).foldl (addNextBroker settings env) ([], st.registry)
      { nextBrokerGuids := some res.1, registry := res.2 }
  | _, _ => st

/-- The decision for a bridge. -/
def allowBridge (ctx : CoreMessageContext) (m : DxlMessage) (destId : Bytes) (st : InsertState) :
    Bool × InsertState :=
  let st := m.getNextBrokerGuids settings env st
  match st.nextBrokerGuids with
  | some guids => (DxlMessage.hasGuid guids destId, st)
  | none =>
      if settings.topicRoutingEnabled && m.isEventMessage then
        if startsWith dxlClientPrefixBracket ctx.topic ||
            startsWith dxlBrokerEventPrefix ctx.topic then (true, st)
        else
          let res := st.registry.isSubscriberInHierarchy settings env (cstr settings.guid) destId
            ctx.topic
          (res.1, { st with registry := res.2 })
      else (true, st)

/-- `onInsertMultiTenantMessage` -/
def onInsertMultiTenantMessage (ctx : CoreMessageContext) (m : DxlMessage)
    (targetContextFlags : UInt8) (targetTenantGuid : Bytes) : Bool :=
  match m.getDestinationTenantGuids with
  | some guids => DxlMessage.hasGuid guids (cstr targetTenantGuid)
  | none =>
      targetContextFlags &&& dxlFlagOps != 0 || ctx.isSourceOps ||
        cstr targetTenantGuid == cstr m.msg.sourceTenantGuid

/-- The decision for a client: the local broker and the client must be destinations, if there are
any.  A client with the local flag also answers to the broker's identifiers. -/
def allowClient (ctx : CoreMessageContext) (m : DxlMessage) (t : InsertTarget) : Bool :=
  (m.getDestinationBrokerGuids.elim true fun guids =>
    DxlMessage.hasGuid guids (cstr settings.guid)) &&
  (m.getDestinationClientGuids.elim true fun guids =>
    DxlMessage.hasGuid guids (cstr t.destId) || DxlMessage.hasGuid guids (cstr t.canonicalDestId) ||
      (t.contextFlags &&& dxlFlagLocal != 0 && (DxlMessage.hasGuid guids (cstr settings.guid) ||
        DxlMessage.hasGuid guids (cstr settings.instanceGuid)))) &&
  (!settings.multiTenantModeEnabled ||
    onInsertMultiTenantMessage ctx m t.contextFlags t.targetTenantGuid)

/-- `MessageRoutingHandler::onInsertMessage`; there is no message when it is not a DXL message. -/
def messageRoutingHandler (ctx : CoreMessageContext) (message : Option DxlMessage)
    (t : InsertTarget) (st : InsertState) : InsertDecision × InsertState :=
  match message with
  | some m =>
      if t.isBridge then
        let res := allowBridge settings env ctx m t.destId st
        (if res.1 then .insert false else .reject, res.2)
      else if allowClient settings ctx m t then
        (.insert (m.getDestinationClientGuids.isSome && m.isEventMessage), st)
      else (.reject, st)
  | none => (if settings.multiTenantModeEnabled then .reject else .insert false, st)

end

/-! ### Bridges -/

/-- `getBridgeBrokerIdFromContext`: a bridge is named `host.child:parent:parent..`; the broker at the
other end is the child, or the parent with the index of the current address. -/
def getBridgeBrokerIdFromContext (brokerId contextId : Bytes) (curAddress : Option ℕ) :
    Except String Bytes :=
  if 0x2e ∉ contextId then .error "Unable to find host delimiter"
  else
    let start := (contextId.reverse.takeWhile fun c => c != 0x2e).reverse
    if 0x3a ∉ start then .error "Unable to find first broker delimiter"
    else
      let ids := start.splitOn 0x3a
      let child := ids.headD []
      let found : Except String Bytes :=
        if brokerId.take child.length ≠ child then .ok child
        else
          match curAddress with
          | none => .error "Unable to find bridge structure"
          | some i => ((ids.tail)[i]?).elim (.error "Unable to find broker delimiter for parent") .ok
      found.bind fun id => if id = [] then .error "Broker identifier is empty" else .ok id

/-- `MqttCoreInterface::onInsertMessage`: what is known of the destination's connection. -/
def insertTarget (settings : BrokerSettings) (curAddress : Option ℕ) (context : MqttContext) :
    Except String InsertTarget :=
  if context.isBridge then
    (getBridgeBrokerIdFromContext (cstr settings.guid) context.id curAddress).map fun id =>
      ⟨id, id, true, context.dxlFlags, context.dxlTenantGuid⟩
  else .ok ⟨context.id, context.canonicalId, false, context.dxlFlags, context.dxlTenantGuid⟩

end DxlBroker
