import DxlBroker.Handler.ServiceLookup
import Mathlib.Data.List.DropRight

/-!
# The handlers of topics

Besides the service lookup, a stored message is given to the handler of its topic, if there is one.
Most handlers of events require that a broker sent them; the handlers of requests answer for the
local broker.  What is in the answer to a query is a parameter, like all JSON.
-/

namespace DxlBroker

open Bytes Unordered

/-! ### The handlers -/

/-- The requests for information. -/
inductive Query
  | clientRegistry
  | brokerRegistry
  | brokerTopics
  | serviceRegistry
  | brokerHealth
  | brokerSubs
  | testMode
  deriving DecidableEq

/-- The handlers of topics. -/
inductive TopicHandler
  | brokerEvent (event : BrokerEvent)
  | clientConnectEvent
  | fabricChangeEvent
  | serviceRegisterEvent
  | serviceUnregisterEvent
  | serviceRegisterRequest
  | serviceUnregisterRequest
  | tenantExceedsLimitEvent
  | tenantLimitResetEvent
  | revocationListEvent
  | query (kind : Query)
  deriving DecidableEq

/-- `isBridgeSourceRequired` -/
def TopicHandler.isBridgeSourceRequired : TopicHandler → Bool
  | .serviceRegisterRequest | .serviceUnregisterRequest | .query _ => false
  | _ => true

/-- The topics of `registerHandlers`, and of `registerTestHandlers` in test mode. -/
def topicHandlers (settings : BrokerSettings) : List (Bytes × TopicHandler) :=
  let event := fun s => dxlBrokerEventPrefix ++ lit s
  let request := fun s => dxlBrokerRequestPrefix ++ lit s
  [(event "brokerregistry/brokerstate", .brokerEvent .brokerState),
    (event "brokerregistry/brokerstatetopics", .brokerEvent .brokerStateTopics),
    (event "brokerregistry/topicadded", .brokerEvent .topicAdded),
    (event "brokerregistry/topicremoved", .brokerEvent .topicRemoved),
    (request "clientregistry/query", .query .clientRegistry),
    (event "clientregistry/connect", .clientConnectEvent),
    (event "fabricchange", .fabricChangeEvent),
    (event "svcregistry/register", .serviceRegisterEvent),
    (request "svcregistry/register", .serviceRegisterRequest),
    (event "svcregistry/unregister", .serviceUnregisterEvent),
    (request "svcregistry/unregister", .serviceUnregisterRequest),
    (request "brokerregistry/query", .query .brokerRegistry),
    (request "svcregistry/query", .query .serviceRegistry),
    (request "broker/health", .query .brokerHealth),
    (request "broker/subs", .query .brokerSubs),
    (request "brokerregistry/topicquery", .query .brokerTopics),
    (event "tenant/limit/exceeded", .tenantExceedsLimitEvent),
    (event "tenant/limit/reset", .tenantLimitResetEvent),
    (event "revocation/list", .revocationListEvent)] ++
  if settings.testModeEnabled then
    [(request "broker/testmode/disable", .query .testMode),
      (request "broker/testmode/enable", .query .testMode)]
  else []

/-- The handler of a topic. -/
def topicHandler (settings : BrokerSettings) (topic : Bytes) : Option TopicHandler :=
  ((topicHandlers settings).find? fun e => e.1 == topic).map Prod.snd

/-- The payload of an event about a tenant: the tenant, and whether its bytes are the limit. -/
structure TenantExceedsLimitPayload where
  tenantId : Bytes
  isByteLimit : Bool

/-- What the handlers read from outside, besides what the operations on services read. -/
structure HandlerEnv extends ServiceEnv where
  reader : PayloadReader
  readTenantExceedsLimit : Bytes → Except String TenantExceedsLimitPayload
  readClientConnect : Bytes → Except String Bytes
  /-- The payload of the response to a query, if one is sent. -/
  answer : Query → StoreState → DxlMessage → Except String (Option Bytes)
  /-- The payloads of the events with the state and the topics of the local broker, the latter with
  the start time and the change count. -/
  brokerStatePayload : BrokerRegistry → Bytes
  brokerTopicsPayloads : BrokerRegistry → List (Bytes × Bytes × Bytes)
  /-- The address of a registration that is made. -/
  newService : ServicePtr
  /-- The certificates of the sender's connection. -/
  certHashes : List Bytes

section

variable (settings : BrokerSettings) (env : HandlerEnv)

/-- A response is sent to the reply-to topic. -/
def StoreState.respond (request response : DxlMessage) (st : StoreState) : StoreState :=
  { st with core := st.core.send env.toServiceEnv request.getReplyToTopic response }

/-! ### Services -/

/-- The registration of a register request: the payload, with the fields of the sender. -/
def registrationOf (ctx : CoreMessageContext) (request : DxlMessage) (reg : ServiceRegistration) :
    ServiceRegistration :=
  let isLocal := ctx.contextFlags &&& dxlFlagLocal != 0
  let isManaged := ctx.contextFlags &&& dxlFlagManaged != 0
  let reg := { reg with
    brokerGuid := cstr settings.guid
    clientGuid := if isLocal then cstr settings.guid else cstr ctx.canonicalSourceId
    clientInstanceGuid := if isLocal then cstr settings.instanceGuid else cstr ctx.sourceId
    managedClient := isManaged
    certificates := if isManaged then reg.certificates else env.certHashes.map cstr
    regTime := env.time
    brokerService := isLocal }
  if settings.multiTenantModeEnabled then
    { reg with
      clientTenantGuid := cstr request.msg.sourceTenantGuid
      targetTenantGuids := if ctx.isSourceOps then request.getDestinationTenantGuids.getD []
        else [cstr request.msg.sourceTenantGuid] }
  else reg

/-- In multi-tenant mode a registration cannot be made without the tenant of the broker. -/
def checkTenantGuid : Except String Unit :=
  if settings.multiTenantModeEnabled then settings.getTenantGuid.map fun _ => () else .ok ()

/-- The registration and the response of a register request. -/
def registerAndRespond (request : DxlMessage) (reg : ServiceRegistration) (st : StoreState) :
    StoreState :=
  if !settings.multiTenantModeEnabled || st.ctx.isSourceOps ||
      st.core.isServiceRegistrationAllowed settings reg.clientTenantGuid then
    match st.core.registerService settings env.toServiceEnv env.newService reg with
    | (.ok _, core) => StoreState.respond env request (env.createResponse settings request)
        { st with core := core }
    | (.error e, core) => StoreState.respond env request
        (env.createErrorResponse settings request fabricServiceUnavailable (lit e))
        { st with core := core }
  else
    st.respond env request (env.createErrorResponse settings request fabricServiceLimitExceeded
      (getMessage fabricServiceLimitExceeded))

/-- `ServiceRegistryRegisterRequestHandler::onStoreMessage` -/
def serviceRegisterRequestHandler (st : StoreState) : Except String Bool × StoreState :=
  let parsed := do
    let request ← st.getDxlRequest
    checkTenantGuid settings
    return (request, ← env.readRegister request.getPayloadStr)
  match parsed with
  | .error e => (.error e, st)
  | .ok (request, payload) =>
      (.ok false, registerAndRespond settings env request
        (registrationOf settings env st.ctx request payload) st)

/-- `ServiceRegistryUnregisterRequestHandler::onStoreMessage` -/
def serviceUnregisterRequestHandler (st : StoreState) : Except String Bool × StoreState :=
  let parsed := do
    let request ← st.getDxlRequest
    return (request, ← env.readUnregister request.getPayloadStr)
  match parsed with
  | .error e => (.error e, st)
  | .ok (request, serviceGuid) =>
      let clientGuid := if st.ctx.contextFlags &&& dxlFlagLocal != 0 then cstr settings.guid
        else cstr st.ctx.canonicalSourceId
      let core := st.core.unregisterServiceOf settings env.toServiceEnv serviceGuid clientGuid
        (cstr request.msg.sourceTenantGuid) true
      (.ok false, StoreState.respond env request (env.createResponse settings request)
        { st with core := core })

/-- `ServiceRegistryRegisterEventHandler::onStoreMessage`: an invalid registration is not
propagated. -/
def serviceRegisterEventHandler (st : StoreState) : Except String Bool × StoreState :=
  if st.ctx.isLocalBrokerSource settings then (.ok true, st)
  else
    let parsed := do
      let event ← st.getDxlEvent
      checkTenantGuid settings
      env.readRegister event.getPayloadStr
    match parsed with
    | .error e => (.error e, st)
    | .ok payload =>
        match st.core.registerService settings env.toServiceEnv env.newService
          { payload with regTime := env.time, brokerService := false } with
        | (.ok _, core) => (.ok true, { st with core := core })
        | (.error _, core) => (.ok false, { st with core := core })

/-- `ServiceRegistryUnregisterEventHandler::onStoreMessage` -/
def serviceUnregisterEventHandler (st : StoreState) : Except String Bool × StoreState :=
  if st.ctx.isLocalBrokerSource settings then (.ok true, st)
  else
    let parsed := do
      let event ← st.getDxlEvent
      env.readUnregister event.getPayloadStr
    match parsed with
    | .error e => (.error e, st)
    | .ok serviceGuid => (.ok true, { st with
        core := st.core.unregisterService settings env.toServiceEnv serviceGuid true })

/-! ### Events of brokers -/

/-- The handlers of the events about brokers and their topics. -/
def brokerEventHandler (event : BrokerEvent) (st : StoreState) : Except String Bool × StoreState :=
  let active := !st.ctx.isLocalBrokerSource settings &&
    (event == .brokerState || settings.topicRoutingEnabled)
  let handled := do
    if active then
      let m ← st.getDxlEvent
      onStoreBrokerEvent settings env.registryEnv env.reader st.ctx m st.core.registry event
    else return st.core.registry
  match handled with
  | .error e => (.error e, st)
  | .ok registry => (.ok true, { st with core := { st.core with registry := registry } })

/-- `ClientRegistryConnectEventHandler::onStoreMessage`: a client of the same name is disconnected,
which is not part of the state here. -/
def clientConnectEventHandler (st : StoreState) : Except String Bool × StoreState :=
  if settings.uniqueClientIdPerFabricEnabled && !st.ctx.isLocalBrokerSource settings then
    ((do
      let event ← st.getDxlEvent
      let _ ← env.readClientConnect event.getPayloadStr
      return true), st)
  else (.ok true, st)

def channelDxlBrokerStateEvent : Bytes := dxlBrokerEventPrefix ++ lit "brokerregistry/brokerstate"

def channelDxlBrokerStateTopicsEvent : Bytes :=
  dxlBrokerEventPrefix ++ lit "brokerregistry/brokerstatetopics"

/-- `sendLocalBrokerStateEvent` -/
def BrokerCore.sendLocalBrokerStateEvent (core : BrokerCore) : BrokerCore :=
  let core := core.send env.toServiceEnv channelDxlBrokerStateEvent
    ((env.createEvent settings).setPayload (env.brokerStatePayload core.registry))
  if settings.topicRoutingEnabled then
    (env.brokerTopicsPayloads core.registry).foldl (fun core batch =>
      core.send env.toServiceEnv channelDxlBrokerStateTopicsEvent
        ((((env.createEvent settings).setOtherField propStartTime batch.2.1).setOtherField
          propChangeCount batch.2.2).setPayload batch.1)) core
  else core

/-- `FabricChangeEventHandler::onStoreMessage` -/
def fabricChangeEventHandler (st : StoreState) : Except String Bool × StoreState :=
  match st.getDxlEvent with
  | .error e => (.error e, st)
  | .ok _ => (.ok true, { st with
      core := (st.core.sendLocalBrokerStateEvent settings env).sendServiceRegistrationEvents settings
        env.toServiceEnv })

/-- `markTenantExceedsByteCount` -/
def BrokerCore.markTenantExceedsByteCount (tenantId : Bytes) (core : BrokerCore) : BrokerCore :=
  if settings.tenantByteLimit = 0 then core
  else { core with sentBytesPerTenant :=
    core.sentBytesPerTenant.insert (cstr tenantId) (settings.tenantByteLimit + 1) }

/-- `TenantExceedsLimitEventHandler::onStoreMessage` -/
def tenantExceedsLimitEventHandler (st : StoreState) : Except String Bool × StoreState :=
  if st.ctx.isLocalBrokerSource settings then (.ok true, st)
  else
    let parsed := do
      let event ← st.getDxlEvent
      env.readTenantExceedsLimit event.getPayloadStr
    match parsed with
    | .error e => (.error e, st)
    | .ok payload => (.ok true, if payload.isByteLimit then
        { st with core := st.core.markTenantExceedsByteCount settings payload.tenantId } else st)

/-- The sender is a broker, an ops client, or a local or administrative connection. -/
def CoreMessageContext.isPrivileged (ctx : CoreMessageContext) : Bool :=
  ctx.isSourceBridge || ctx.isSourceOps ||
    ctx.contextFlags &&& (dxlFlagLocal ||| dxlFlagAdmin) != 0

/-- `TenantLimitResetEventHandler::onStoreMessage` -/
def tenantLimitResetEventHandler (st : StoreState) : Except String Bool × StoreState :=
  if !st.ctx.isPrivileged then (.ok false, st)
  else
    match st.getDxlEvent with
    | .error e => (.error e, st)
    | .ok _ => (.ok true, { st with core := { st.core with sentBytesPerTenant := ∅ } })

/-- The certificates of a revocation list: its lines without the white space at their ends. -/
def certificatesOf (payload : Bytes) : List Bytes :=
  ((payload.splitOn 0x0a).map fun line =>
    line.rdropWhile fun c => c == 0x0d || c == 0x20 || c == 0x09).filter fun line => !line.isEmpty

/-- `RevocationListEventHandler::onStoreMessage` -/
def revocationListEventHandler (st : StoreState) : Except String Bool × StoreState :=
  if !st.ctx.isPrivileged then (.ok false, st)
  else
    match st.getDxlEvent with
    | .error e => (.error e, st)
    | .ok event => (.ok true, { st with
        core := { st.core with
          revokedCerts := (certificatesOf event.getPayloadStr).foldl
            (fun certs cert => certs.insert (cstr cert)) st.core.revokedCerts } })

/-! ### Queries -/

/-- A request for other brokers only. -/
def DxlMessage.isForOtherBrokers (request : DxlMessage) : Bool :=
  request.getDestinationBrokerGuids.elim false fun guids =>
    !DxlMessage.hasGuid guids (cstr settings.guid)

/-- The number of brokers that a request names. -/
def DxlMessage.namesMoreBrokers (request : DxlMessage) : Bool :=
  request.getDestinationBrokerGuids.elim false fun guids => 1 < guids.length

/-- The answer to a query is sent, if there is one, and whether it was. -/
def answerQuery (kind : Query) (request : DxlMessage) (st : StoreState) :
    Except String Bool × StoreState :=
  match env.answer kind st request with
  | .error e => (.error e, st)
  | .ok none => (.ok false, st)
  | .ok (some payload) => (.ok true, st.respond env request
      ((env.createResponse settings request).setPayload payload))

/-- The request does not get a service not found error. -/
def StoreState.disableServiceNotFound (st : StoreState) : StoreState :=
  { st with ctx := { st.ctx with serviceNotFoundEnabled := false } }

/-- The queries that one broker answers: the request goes on if it names other brokers. -/
def directedQueryHandler (kind : Query) (propagate : DxlMessage → Bool → Bool) (st : StoreState) :
    Except String Bool × StoreState :=
  match st.getDxlRequest with
  | .error e => (.error e, st)
  | .ok request =>
      if request.isForOtherBrokers settings then (.ok true, st)
      else
        let res := answerQuery settings env kind request st
        (res.1.map (propagate request), res.2)

/-- The queries that every broker answers, and those for the test mode. -/
def broadcastQueryHandler (kind : Query) (propagate : Bool) (st : StoreState) :
    Except String Bool × StoreState :=
  match st.getDxlRequest with
  | .error e => (.error e, st)
  | .ok request =>
      let res := answerQuery settings env kind request st
      (res.1.map fun _ => propagate, res.2)

/-- The handlers of queries.  A client query that is answered stops here. -/
def queryHandler : Query → StoreState → Except String Bool × StoreState
  | .serviceRegistry => directedQueryHandler settings env .serviceRegistry fun request _ =>
      request.namesMoreBrokers
  | .brokerRegistry => directedQueryHandler settings env .brokerRegistry fun request _ =>
      request.namesMoreBrokers
  | .brokerTopics => directedQueryHandler settings env .brokerTopics fun request _ =>
      request.namesMoreBrokers
  | .clientRegistry => fun st => directedQueryHandler settings env .clientRegistry
      (fun request answered => !answered && (request.getDestinationBrokerGuids.isNone ||
        request.namesMoreBrokers)) st.disableServiceNotFound
  | .brokerHealth => fun st =>
      broadcastQueryHandler settings env .brokerHealth true st.disableServiceNotFound
  | .brokerSubs => fun st =>
      match st.getDxlRequest with
      | .error e => (.error e, st)
      | .ok _ => broadcastQueryHandler settings env .brokerSubs true st.disableServiceNotFound
  | .testMode => broadcastQueryHandler settings env .testMode false

/-- `onStoreMessage` of each handler. -/
def TopicHandler.onStoreMessage : TopicHandler → StoreState → Except String Bool × StoreState
  | .brokerEvent event => brokerEventHandler settings env event
  | .clientConnectEvent => clientConnectEventHandler settings env
  | .fabricChangeEvent => fabricChangeEventHandler settings env
  | .serviceRegisterEvent => serviceRegisterEventHandler settings env
  | .serviceUnregisterEvent => serviceUnregisterEventHandler settings env
  | .serviceRegisterRequest => serviceRegisterRequestHandler settings env
  | .serviceUnregisterRequest => serviceUnregisterRequestHandler settings env
  | .tenantExceedsLimitEvent => tenantExceedsLimitEventHandler settings env
  | .tenantLimitResetEvent => tenantLimitResetEventHandler
  | .revocationListEvent => revocationListEventHandler
  | .query kind => queryHandler settings env kind

end

end DxlBroker
