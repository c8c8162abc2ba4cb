import DxlBroker.Handler.MessageRouting
import DxlBroker.Handler.TopicHandlers

/-!
# Messages in the broker

The life of a message in a broker.  `onStoreMessage` sets its fields and runs the handlers, and may
replace its payload; `insertMessage` decides for one destination after the other whether it gets the
message; `onFinalizeMessage` comes after the last of them.
-/

namespace DxlBroker

open Bytes Msgpack Unordered

/-- Where a message comes from: the broker itself, or a connection. -/
inductive MessageSource
  | localBroker
  | connection (context : MqttContext) (curAddress : Option ℕ) (certChain : Option Bytes)

/-- A message in the store, with its context if there is one: the payload that is sent, and what the
insert handlers keep. -/
structure StoredMessage where
  ctx : CoreMessageContext
  message : Option DxlMessage
  payload : Bytes
  nextBrokerGuids : Option (List Bytes) := none

section

variable (settings : BrokerSettings) (env : HandlerEnv)

/-! ### Storing -/

/-- The reply-to topics that a client may not use. -/
def isInvalidReplyTo (replyTo : Bytes) : Bool :=
  replyTo.isEmpty || startsWith dxlBrokerEventPrefix replyTo ||
    startsWith (lit "/mcafee/service/") replyTo || replyTo.any fun c => c == 0x23 || c == 0x2b

/-- The message is not inserted into any queue. -/
def StoreState.disableInsert (st : StoreState) : StoreState :=
  { st with ctx := { st.ctx with messageInsertEnabled := false } }

/-- `fireOnStoreMessage` for the handler of a topic. -/
def fireOnStoreMessage (handler : TopicHandler) (st : StoreState) :
    Except String Unit × StoreState :=
  if handler.isBridgeSourceRequired && !st.ctx.isSourceBridge then (.ok (), st.disableInsert)
  else
    let res := handler.onStoreMessage settings env st
    match res.1 with
    | .error e => (.error e, res.2)
    | .ok true => (.ok (), res.2)
    | .ok false => (.ok (), res.2.disableInsert)

/-- The topics of test events, which clients may use in test mode. -/
def isTestTopic (topic : Bytes) : Bool :=
  settings.testModeEnabled && (topic == dxlBrokerEventPrefix ++ lit "dumpbrokerstate" ||
    topic == dxlBrokerEventPrefix ++ lit "dumpservicestate")

/-- The global handler, then the handler of the topic; without one a client may not use the topics of
broker events. -/
def runStoreHandlers (st : StoreState) : Except String Unit × StoreState :=
  let res := serviceLookupHandler settings env.toServiceEnv st
  let st := if res.1 then res.2 else res.2.disableInsert
  match topicHandler settings st.ctx.topic with
  | some handler => fireOnStoreMessage settings env handler st
  | none =>
      (.ok (), if !st.ctx.isSourceBridge && startsWith dxlBrokerEventPrefix st.ctx.topic &&
        !isTestTopic settings st.ctx.topic then st.disableInsert else st)

/-- The message as it is after the handlers, with new bytes if it was changed. -/
def rewriteMessage (payload : Bytes) (st : StoreState) : StoredMessage :=
  match st.message with
  | none => ⟨st.ctx, none, payload, none⟩
  | some m =>
      if m.isDirty then
        let res := m.toBytes env.codec env.fieldOrder false
        match res.2 with
        | some bytes => ⟨st.ctx, some res.1, if bytes = [] then payload else bytes, none⟩
        | none => ⟨{ st.ctx with messageInsertEnabled := false }, some res.1, payload, none⟩
      else ⟨st.ctx, some m, payload, none⟩

/-- The handlers are run and the message is rewritten; after an error it is not inserted. -/
def handleStored (payload : Bytes) (st : StoreState) : StoredMessage × BrokerCore :=
  let res := runStoreHandlers settings env st
  match res.1 with
  | .error _ => (⟨res.2.disableInsert.ctx, res.2.message, payload, none⟩, res.2.core)
  | .ok () => (rewriteMessage env payload res.2, res.2.core)

/-- `CoreMessageHandlerService::onStoreMessage` -/
def storeMessage (ctx : CoreMessageContext) (sourceTenantGuid : Bytes) (certChain : Option Bytes)
    (payload : Bytes) (core : BrokerCore) : StoredMessage × BrokerCore :=
  let rejected := fun ctx m =>
    (StoredMessage.mk { ctx with messageInsertEnabled := false } (some m) payload none, core)
  match DxlMessage.fromBytes env.codec payload with
  | .error _ => handleStored settings env payload ⟨ctx, none, core⟩
  | .ok m =>
      if !ctx.isSourceBridge && m.isRequestMessage && isInvalidReplyTo m.getReplyToTopic then
        rejected ctx m
      else
        let res := setDxlMessageFields settings ctx sourceTenantGuid m certChain
        match res.1 with
        | .ok true => handleStored settings env payload ⟨res.2.1, some res.2.2, core⟩
        | _ => rejected res.2.1 res.2.2

/-- What is known of the source of a message: its context and its tenant.  A connection that is not
the one of a known broker has none. -/
def sourceContext (source : MessageSource) (topic : Bytes) :
    Except String (CoreMessageContext × Bytes × Option Bytes) :=
  match source with
  | .localBroker =>
      .ok (⟨cstr settings.guid, cstr settings.guid, true,
        if settings.multiTenantModeEnabled then dxlFlagOps else 0, cstr topic, true, true, 0⟩,
        if settings.multiTenantModeEnabled then cstr settings.tenantGuid else [], none)
  | .connection context curAddress certChain =>
      if context.isBridge then
        (getBridgeBrokerIdFromContext (cstr settings.guid) context.id curAddress).map fun id =>
          (⟨id, id, true, if settings.multiTenantModeEnabled then context.dxlFlags &&& ~~~dxlFlagOps
            else context.dxlFlags, cstr topic, true, true, 0⟩, [], none)
      else
        .ok (⟨context.id, context.canonicalId, false, context.dxlFlags, cstr topic, true, true, 0⟩,
          if settings.multiTenantModeEnabled then context.dxlTenantGuid else [], certChain)

/-- `MqttCoreInterface::onStoreMessage`: without a context nothing can be inserted. -/
def onStoreMessage (source : MessageSource) (topic payload : Bytes) (core : BrokerCore) :
    Option StoredMessage × BrokerCore :=
  match sourceContext settings source topic with
  | .error _ => (none, core)
  | .ok (ctx, sourceTenantGuid, certChain) =>
      let res := storeMessage settings env ctx sourceTenantGuid certChain payload core
      (some res.1, res.2)

/-! ### Inserting -/

/-- One destination of a message: what is known of its connection, whether its packet queue is full,
whether it is dropped by the limits of MQTT, and the answer of the authorization handler. -/
structure InsertAttempt where
  target : InsertTarget
  packetQueueExceeded : Bool := false
  dropped : Bool := false
  authorized : Bool := true

/-- The destinations and messages that get a message although the packet queue is full. -/
def overridesPacketQueue (isBridge : Bool) (sm : StoredMessage) : Bool :=
  isBridge || sm.message.isNone || startsWith dxlBrokerEventPrefix sm.ctx.topic ||
    startsWith dxlBrokerRequestPrefix sm.ctx.topic || startsWith dxlClientPrefix sm.ctx.topic

/-- `onPreInsertPacketQueueExceeded`: whether the message is rejected.  For a request an overloaded
error is sent instead of the not found error. -/
def onPreInsertPacketQueueExceeded (isBridge : Bool) (sm : StoredMessage) (core : BrokerCore) :
    Bool × StoredMessage × BrokerCore :=
  if overridesPacketQueue isBridge sm then (false, sm, core)
  else
    match sm.message with
    | none => (true, sm, core)
    | some m =>
        if m.isRequestMessage then
          (true, { sm with ctx := { sm.ctx with serviceNotFoundEnabled := false } },
            { core with
              outbox := env.sendServiceOverloadedErrorMessage settings m core.outbox })
        else (true, sm, core)

/-- `CoreMessageHandlerService::onInsertMessage`: the decision, and the count of destinations. -/
def onInsertMessage (attempt : InsertAttempt) (sm : StoredMessage) (core : BrokerCore) :
    InsertDecision × StoredMessage × BrokerCore :=
  if !sm.ctx.messageInsertEnabled then (.reject, sm, core)
  else
    let res := messageRoutingHandler settings env.registryEnv sm.ctx sm.message attempt.target
      ⟨sm.nextBrokerGuids, core.registry⟩
    let sm := { sm with nextBrokerGuids := res.2.nextBrokerGuids }
    let core := { core with registry := res.2.registry }
    match res.1 with
    | .reject => (.reject, sm, core)
    | .insert clientMessage =>
        if attempt.authorized then
          (.insert clientMessage, { sm with ctx := { sm.ctx with destCount := sm.ctx.destCount + 1 } },
            core)
        else (.reject, sm, core)

/-- `mqtt3_db_message_insert` -/
def insertMessage (attempt : InsertAttempt) (sm : StoredMessage) (core : BrokerCore) :
    InsertDecision × StoredMessage × BrokerCore :=
  let res := if attempt.packetQueueExceeded then
    onPreInsertPacketQueueExceeded settings env attempt.target.isBridge sm core
    else (false, sm, core)
  if res.1 || attempt.dropped then (.reject, res.2)
  else onInsertMessage settings env attempt res.2.1 res.2.2

/-! ### Finalizing -/

/-- `NoRequestDestinationHandler::onFinalizeMessage` -/
def noRequestDestinationHandler (sm : StoredMessage) (core : BrokerCore) : BrokerCore :=
  match sm.message with
  | none => core
  | some m =>
      if sm.ctx.serviceNotFoundEnabled && sm.ctx.destCount == 0 && sm.ctx.messageInsertEnabled &&
          m.isRequestMessage then
        { core with outbox := env.sendServiceNotFoundErrorMessage settings m core.outbox }
      else core

def channelDxlEventSubscriberNotFoundEvent : Bytes :=
  dxlBrokerEventPrefix ++ lit "eventsubscribernotfound"

/-- `NoEventDestinationHandler::onFinalizeMessage`, in test mode. -/
def noEventDestinationHandler (subscriberNotFoundPayload : Bytes → Bytes) (sm : StoredMessage)
    (core : BrokerCore) : BrokerCore :=
  match sm.message with
  | none => core
  | some m =>
      if settings.testModeEnabled && sm.ctx.destCount == 0 && sm.ctx.messageInsertEnabled &&
          m.getSourceBrokerGuid != cstr settings.guid && m.isEventMessage &&
          !startsWith dxlClientPrefixBracket sm.ctx.topic &&
          !startsWith dxlBrokerEventPrefix sm.ctx.topic then
        core.send env.toServiceEnv channelDxlEventSubscriberNotFoundEvent
          ((env.createEvent settings).setPayload (subscriberNotFoundPayload sm.ctx.topic))
      else core

/-- `onFinalizeMessage` -/
def onFinalizeMessage (subscriberNotFoundPayload : Bytes → Bytes) (sm : StoredMessage)
    (core : BrokerCore) : BrokerCore :=
  noEventDestinationHandler settings env subscriberNotFoundPayload sm
    (noRequestDestinationHandler settings env sm core)

end

end DxlBroker
