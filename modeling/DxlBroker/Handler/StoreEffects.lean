import DxlBroker.Core.StoreMessage
import DxlBroker.Handler.LocalRegistration

/-!
# What a stored message can change

A message of a client changes no entry of the broker registry, no tenant's bytes and no revoked
certificate, and of the services only those of the client itself.  The handlers of the broker events
require a broker, and the other ones compare the client with that of the service.
-/

namespace DxlBroker

open Bytes Unordered

namespace BrokerCore

/-- Of the services only some were changed, and nothing else besides caches and counts. -/
structure Keeps (Mine : ServiceRegistration → Prop) (core core' : BrokerCore) : Prop where
  indexed : core'.services.Indexed
  services : ∀ g reg, ¬ Mine reg →
    (core'.services.findService g = some reg ↔ core.services.findService g = some reg)
  brokers : core'.registry.brokers = core.registry.brokers
  sentBytes : core'.sentBytesPerTenant = core.sentBytesPerTenant
  revoked : core'.revokedCerts = core.revokedCerts

variable {Mine : ServiceRegistration → Prop}

theorem Keeps.refl {core : BrokerCore} (h : core.services.Indexed) : Keeps Mine core core :=
  ⟨h, fun _ _ _ => Iff.rfl, rfl, rfl, rfl⟩

theorem Keeps.trans {a b c : BrokerCore} (hab : Keeps Mine a b) (hbc : Keeps Mine b c) :
    Keeps Mine a c :=
  ⟨hbc.indexed, fun g reg h => (hbc.services g reg h).trans (hab.services g reg h),
    hbc.brokers.trans hab.brokers, hbc.sentBytes.trans hab.sentBytes,
    hbc.revoked.trans hab.revoked⟩

/-- The services changed as an operation on services says. -/
theorem Keeps.of_others {core core' : BrokerCore} (hothers : core'.others = core.others)
    (hindexed : core'.services.Indexed)
    (hservices : ∀ g reg, ¬ Mine reg →
      (core'.services.findService g = some reg ↔ core.services.findService g = some reg)) :
    Keeps Mine core core' := by
  simp only [others, Prod.mk.injEq] at hothers
  exact ⟨hindexed, hservices, congrArg _ hothers.1, hothers.2.1, hothers.2.2⟩

/-- A message was sent, and nothing else happened. -/
theorem Keeps.of_outbox {core : BrokerCore} (h : core.services.Indexed) (outbox : List OwnMessage) :
    Keeps Mine core { core with outbox := outbox } :=
  ⟨h, fun _ _ _ => Iff.rfl, rfl, rfl, rfl⟩

section

variable {settings : BrokerSettings} {env : ServiceEnv} {core : BrokerCore}

/-- A search changes no service, and finds a service that is registered and available. -/
theorem findServiceForTopics_spec (hindexed : core.services.Indexed) (tenantGuid : Bytes)
    (topics : List Bytes) :
    Keeps Mine core (core.findServiceForTopics settings env tenantGuid topics).2 ∧
      (core.findServiceForTopics settings env tenantGuid topics).2.services.servicesById =
        core.services.servicesById ∧
      (core.findServiceForTopics settings env tenantGuid topics).2.outbox = core.outbox ∧
      ∀ reg, (core.findServiceForTopics settings env tenantGuid topics).1 = some reg →
        core.services.findService reg.serviceGuid = some reg ∧
          reg.isServiceAvailable settings tenantGuid = true := by
  induction topics generalizing core with
  | nil => exact ⟨.refl hindexed, rfl, rfl, fun _ h => nomatch h⟩
  | cons topic topics ih =>
    have hkeeps : Keeps Mine core { core with
        services := (core.services.getNextService settings env topic tenantGuid
          core.registry).2.1
        registry := (core.services.getNextService settings env topic tenantGuid
          core.registry).2.2 } :=
      ⟨hindexed.getNextService _, fun g reg _ => by
        rw [ServiceRegistry.findService_getNextService],
        ServiceRegistry.getNextService_brokers _, rfl, rfl⟩
    unfold findServiceForTopics
    simp only
    split_ifs
    · exact ⟨hkeeps, ServiceRegistry.getNextService_servicesById _, rfl,
        fun reg hreg => hindexed.getNextService_spec hreg⟩
    · obtain ⟨hrest, hids, houtbox, hreg⟩ := ih hkeeps.indexed
      refine ⟨hkeeps.trans hrest,
        hids.trans (ServiceRegistry.getNextService_servicesById _), houtbox, fun reg h => ?_⟩
      obtain ⟨hfind, havailable⟩ := hreg reg h
      rw [ServiceRegistry.findService_getNextService] at hfind
      exact ⟨hfind, havailable⟩

end

end BrokerCore

/-! ### The service lookup -/

section

variable {settings : BrokerSettings} {env : ServiceEnv}

/-- What the service lookup does to the services: it may remove one that the sender of an error
response may remove. -/
structure LookupKeeps (st st' : StoreState) : Prop where
  keeps : BrokerCore.Keeps (fun reg => mayRemoveService st.ctx reg = true) st.core st'.core
  unused : ∀ {ptr}, st.core.services.Unused ptr → st'.core.services.Unused ptr
  ctx : st'.ctx = st.ctx

theorem lookupService_spec {ctx : CoreMessageContext} {core : BrokerCore}
    {Mine : ServiceRegistration → Prop} (hindexed : core.services.Indexed) (m : DxlMessage) :
    BrokerCore.Keeps Mine core (lookupService settings env ctx m core).2 ∧
      (lookupService settings env ctx m core).2.services.servicesById =
        core.services.servicesById ∧
      (lookupService settings env ctx m core).2.outbox = core.outbox ∧
      ∀ reg, (lookupService settings env ctx m core).1 = some reg →
        (∃ g, core.services.findService g = some reg) ∧
          reg.isServiceAvailable settings m.msg.sourceTenantGuid = true := by
  unfold lookupService
  split_ifs
  · obtain ⟨hkeeps, hids, houtbox, hreg⟩ := @BrokerCore.findServiceForTopics_spec Mine settings
      env core hindexed m.msg.sourceTenantGuid (cstr ctx.topic :: wildcardAncestors ctx.topic)
    exact ⟨hkeeps, hids, houtbox, fun reg h => ⟨⟨_, (hreg reg h).1⟩, (hreg reg h).2⟩⟩
  · refine ⟨.refl hindexed, rfl, rfl, fun reg h => ?_⟩
    obtain ⟨hfind, havailable⟩ := Option.filter_eq_some_iff.mp h
    exact ⟨⟨_, hfind⟩, havailable⟩

theorem handleRequest_keeps {st : StoreState} (hindexed : st.core.services.Indexed)
    (m : DxlMessage) : LookupKeeps st (handleRequest settings env m st).2 := by
  unfold handleRequest
  split
  · exact ⟨.refl hindexed, id, rfl⟩
  · obtain ⟨hkeeps, hids, -, -⟩ := @lookupService_spec settings env st.ctx st.core
      (fun reg => mayRemoveService st.ctx reg = true) hindexed m
    have hunused : ∀ {ptr}, st.core.services.Unused ptr →
        (lookupService settings env st.ctx m st.core).2.services.Unused ptr := by
      intro ptr h g
      rw [hids]
      exact h g
    simp only
    split
    · exact ⟨hkeeps, hunused, rfl⟩
    · exact ⟨hkeeps.trans (.of_outbox hkeeps.indexed _), hunused, rfl⟩

theorem handleEvent_keeps {st : StoreState} (hindexed : st.core.services.Indexed)
    (m : DxlMessage) : LookupKeeps st (handleEvent settings env m st) := by
  unfold handleEvent
  simp only
  split_ifs
  · exact ⟨.refl hindexed, id, rfl⟩
  · unfold BrokerCore.findServiceForTopic
    obtain ⟨hkeeps, hids, -, -⟩ := @BrokerCore.findServiceForTopics_spec
      (fun reg => mayRemoveService st.ctx reg = true) settings env st.core hindexed
      m.msg.sourceTenantGuid (cstr (requestPrefix st.core.services st.ctx.topic ++
        cstr st.ctx.topic) :: wildcardAncestors (requestPrefix st.core.services st.ctx.topic ++
        cstr st.ctx.topic))
    refine ⟨?_, fun {ptr} h g => ?_, rfl⟩
    · simp only
      split
      · exact hkeeps
      · exact hkeeps.trans (.of_outbox hkeeps.indexed _)
    · simp only
      split
      · rw [hids]
        exact h g
      · rw [BrokerCore.send_services, hids]
        exact h g

theorem handleErrorResponse_keeps {st : StoreState} (hindexed : st.core.services.Indexed)
    (m : DxlMessage) : LookupKeeps st (handleErrorResponse settings env m st) := by
  have hsame : LookupKeeps st st := ⟨.refl hindexed, id, rfl⟩
  unfold handleErrorResponse
  split_ifs
  · split
    · exact hsame
    · next found hfound =>
      split_ifs with hmay
      · obtain ⟨hindexed', hfind⟩ := @BrokerCore.unregisterService_spec settings env st.core
          hindexed m.getDestinationServiceId true
        refine ⟨.of_others (BrokerCore.unregisterService_others _ _) hindexed' fun g reg hreg => ?_,
          fun h => BrokerCore.unused_unregisterService h _ _, rfl⟩
        rw [hfind]
        split_ifs with hg
        · rw [hg, hfound, Option.some.injEq]
          constructor
          · intro h
            cases h
          · rintro rfl
            exact absurd hmay hreg
        · rfl
      · exact hsame
  · exact hsame

theorem serviceLookupHandler_keeps {st : StoreState} (hindexed : st.core.services.Indexed) :
    LookupKeeps st (serviceLookupHandler settings env st).2 := by
  unfold serviceLookupHandler
  split
  · exact ⟨.refl hindexed, id, rfl⟩
  · split_ifs
    · exact handleRequest_keeps hindexed _
    · exact handleEvent_keeps hindexed _
    · exact handleErrorResponse_keeps hindexed _
    · exact ⟨.refl hindexed, id, rfl⟩

end

/-! ### The handlers of topics -/

section

variable {settings : BrokerSettings} {env : HandlerEnv}

/-- The sender is neither a broker nor flagged local. -/
structure CoreMessageContext.IsClient (ctx : CoreMessageContext) : Prop where
  notBridge : ctx.isSourceBridge = false
  notLocal : (ctx.contextFlags &&& dxlFlagLocal != 0) = false

/-- The services of the sender, by client or by instance. -/
def CoreMessageContext.Owns (ctx : CoreMessageContext) (reg : ServiceRegistration) : Prop :=
  reg.clientGuid = cstr ctx.canonicalSourceId ∨ reg.getClientInstanceGuid = cstr ctx.sourceId

theorem mayRemoveService_client {ctx : CoreMessageContext} (h : ctx.IsClient)
    {reg : ServiceRegistration} : mayRemoveService ctx reg = true ↔ ctx.Owns reg := by
  simp [mayRemoveService, h.notBridge, h.notLocal, CoreMessageContext.Owns]

theorem clientGuid_registrationOf {ctx : CoreMessageContext} (h : ctx.IsClient)
    (request : DxlMessage) (payload : ServiceRegistration) :
    (registrationOf settings env ctx request payload).clientGuid = cstr ctx.canonicalSourceId := by
  unfold registrationOf
  simp only [h.notLocal, Bool.false_eq_true, if_false]
  split <;> rfl

/-- What belongs to one client and tenant belongs to the client. -/
theorem keeps_of_sameForeign {ctx : CoreMessageContext} {core core' : BrokerCore}
    {tenantGuid : Bytes} (hothers : core'.others = core.others)
    (hindexed : core'.services.Indexed)
    (hforeign : core.SameForeign (cstr ctx.canonicalSourceId) tenantGuid core') :
    BrokerCore.Keeps ctx.Owns core core' :=
  .of_others hothers hindexed fun g reg hreg => hforeign g reg fun h => hreg (.inl h.1)

theorem registerAndRespond_keeps {st : StoreState} (hctx : st.ctx.IsClient)
    (hindexed : st.core.services.Indexed) (hptr : st.core.services.Unused env.newService)
    (request : DxlMessage) (payload : ServiceRegistration) :
    BrokerCore.Keeps st.ctx.Owns st.core (registerAndRespond settings env request
      (registrationOf settings env st.ctx request payload) st).core := by
  unfold registerAndRespond
  split
  · split
    · next core' hres =>
      obtain ⟨hindexed', hforeign⟩ := BrokerCore.registerService_spec hindexed hptr hres
      rw [clientGuid_registrationOf hctx] at hforeign
      have hothers := @BrokerCore.registerService_others settings env.toServiceEnv st.core
        env.newService (registrationOf settings env st.ctx request payload)
      rw [hres] at hothers
      exact (keeps_of_sameForeign hothers hindexed' hforeign).trans (.of_outbox hindexed' _)
    · next hres =>
      rw [BrokerCore.registerService_error hres]
      exact .of_outbox hindexed _
  · exact .of_outbox hindexed _

theorem serviceRegisterRequestHandler_keeps {st : StoreState} (hctx : st.ctx.IsClient)
    (hindexed : st.core.services.Indexed) (hptr : st.core.services.Unused env.newService) :
    BrokerCore.Keeps st.ctx.Owns st.core (serviceRegisterRequestHandler settings env st).2.core := by
  unfold serviceRegisterRequestHandler
  simp only
  split
  · exact .refl hindexed
  · exact registerAndRespond_keeps hctx hindexed hptr _ _

theorem serviceUnregisterRequestHandler_keeps {st : StoreState} (hctx : st.ctx.IsClient)
    (hindexed : st.core.services.Indexed) :
    BrokerCore.Keeps st.ctx.Owns st.core
      (serviceUnregisterRequestHandler settings env st).2.core := by
  unfold serviceUnregisterRequestHandler
  simp only [hctx.notLocal]
  split
  · exact .refl hindexed
  · next request guid _ =>
    obtain ⟨hindexed', hforeign⟩ := @BrokerCore.unregisterServiceOf_spec settings env.toServiceEnv
      st.core hindexed guid (cstr st.ctx.canonicalSourceId) (cstr request.msg.sourceTenantGuid) true
    exact (keeps_of_sameForeign (BrokerCore.unregisterServiceOf_others _ _ _ _) hindexed'
      hforeign).trans (.of_outbox hindexed' _)

/-- A query is answered, or nothing is done. -/
def Answered (settings : BrokerSettings) (env : HandlerEnv) (st st' : StoreState) : Prop :=
  st' = st ∨ ∃ request payload, st' = st.respond env request
    ((env.createResponse settings request).setPayload payload)

theorem answered_answerQuery (kind : Query) (request : DxlMessage) (st : StoreState) :
    Answered settings env st (answerQuery settings env kind request st).2 := by
  unfold answerQuery
  split
  · exact .inl rfl
  · exact .inl rfl
  · exact .inr ⟨request, _, rfl⟩

theorem answered_directed (kind : Query) (propagate : DxlMessage → Bool → Bool) (st : StoreState) :
    Answered settings env st (directedQueryHandler settings env kind propagate st).2 := by
  unfold directedQueryHandler
  split
  · exact .inl rfl
  · split_ifs
    · exact .inl rfl
    · exact answered_answerQuery kind _ st

theorem answered_broadcast (kind : Query) (propagate : Bool) (st : StoreState) :
    Answered settings env st (broadcastQueryHandler settings env kind propagate st).2 := by
  unfold broadcastQueryHandler
  split
  · exact .inl rfl
  · exact answered_answerQuery kind _ st

/-- Before the answer at most the not found error is switched off. -/
theorem answered_query (kind : Query) (st : StoreState) :
    ∃ st₀, (st₀ = st ∨ st₀ = st.disableServiceNotFound) ∧
      Answered settings env st₀ (queryHandler settings env kind st).2 := by
  cases kind with
  | serviceRegistry => exact ⟨st, .inl rfl, answered_directed _ _ _⟩
  | brokerRegistry => exact ⟨st, .inl rfl, answered_directed _ _ _⟩
  | brokerTopics => exact ⟨st, .inl rfl, answered_directed _ _ _⟩
  | clientRegistry => exact ⟨_, .inr rfl, answered_directed _ _ _⟩
  | brokerHealth => exact ⟨_, .inr rfl, answered_broadcast _ _ _⟩
  | brokerSubs =>
    unfold queryHandler
    simp only
    split
    · exact ⟨st, .inl rfl, .inl rfl⟩
    · exact ⟨_, .inr rfl, answered_broadcast _ _ _⟩
  | testMode => exact ⟨st, .inl rfl, answered_broadcast _ _ _⟩

theorem queryHandler_keeps {Mine : ServiceRegistration → Prop} {st : StoreState}
    (hindexed : st.core.services.Indexed) (kind : Query) :
    BrokerCore.Keeps Mine st.core (queryHandler settings env kind st).2.core := by
  obtain ⟨st₀, hst₀, hanswer⟩ := @answered_query settings env kind st
  have hcore : st₀.core = st.core := by rcases hst₀ with rfl | rfl <;> rfl
  rw [← hcore] at hindexed ⊢
  rcases hanswer with hsame | ⟨request, payload, hsame⟩
  · rw [hsame]
    exact .refl hindexed
  · rw [hsame]
    exact .of_outbox hindexed _

/-- The handler of a topic, when a client sent the message. -/
theorem fireOnStoreMessage_keeps {st : StoreState} (hctx : st.ctx.IsClient)
    (hindexed : st.core.services.Indexed) (hptr : st.core.services.Unused env.newService)
    (handler : TopicHandler) :
    BrokerCore.Keeps st.ctx.Owns st.core (fireOnStoreMessage settings env handler st).2.core := by
  have hhandler : handler.isBridgeSourceRequired = false →
      BrokerCore.Keeps st.ctx.Owns st.core (handler.onStoreMessage settings env st).2.core := by
    intro hrequired
    cases handler with
    | serviceRegisterRequest => exact serviceRegisterRequestHandler_keeps hctx hindexed hptr
    | serviceUnregisterRequest => exact serviceUnregisterRequestHandler_keeps hctx hindexed
    | query kind => exact queryHandler_keeps hindexed kind
    | _ => cases hrequired
  unfold fireOnStoreMessage
  split
  · exact .refl hindexed
  · next hnot =>
    have hrequired : handler.isBridgeSourceRequired = false := by
      simpa [hctx.notBridge] using hnot
    simp only
    split <;> exact hhandler hrequired

/-- The state after the service lookup. -/
def lookedUp (settings : BrokerSettings) (env : HandlerEnv) (st : StoreState) : StoreState :=
  if (serviceLookupHandler settings env.toServiceEnv st).1 then
    (serviceLookupHandler settings env.toServiceEnv st).2
  else (serviceLookupHandler settings env.toServiceEnv st).2.disableInsert

theorem lookedUp_message (st : StoreState) : (lookedUp settings env st).message =
    (serviceLookupHandler settings env.toServiceEnv st).2.message := by
  unfold lookedUp
  split <;> rfl

theorem lookedUp_core (st : StoreState) : (lookedUp settings env st).core =
    (serviceLookupHandler settings env.toServiceEnv st).2.core := by
  unfold lookedUp
  split <;> rfl

theorem runStoreHandlers_eq (st : StoreState) : runStoreHandlers settings env st =
    match topicHandler settings (lookedUp settings env st).ctx.topic with
    | some handler => fireOnStoreMessage settings env handler (lookedUp settings env st)
    | none => (.ok (), if !(lookedUp settings env st).ctx.isSourceBridge &&
        startsWith dxlBrokerEventPrefix (lookedUp settings env st).ctx.topic &&
        !isTestTopic settings (lookedUp settings env st).ctx.topic then
          (lookedUp settings env st).disableInsert else lookedUp settings env st) := rfl

theorem runStoreHandlers_keeps {st : StoreState} (hctx : st.ctx.IsClient)
    (hindexed : st.core.services.Indexed) (hptr : st.core.services.Unused env.newService) :
    BrokerCore.Keeps st.ctx.Owns st.core (runStoreHandlers settings env st).2.core := by
  have hlookup := @serviceLookupHandler_keeps settings env.toServiceEnv st hindexed
  rw [runStoreHandlers_eq]
  have hcore := @lookedUp_core settings env st
  have hids : (lookedUp settings env st).ctx.canonicalSourceId = st.ctx.canonicalSourceId ∧
      (lookedUp settings env st).ctx.sourceId = st.ctx.sourceId ∧
      (lookedUp settings env st).ctx.IsClient := by
    have hctx' := hlookup.ctx ▸ hctx
    unfold lookedUp
    split_ifs
    · exact ⟨by rw [hlookup.ctx], by rw [hlookup.ctx], hctx'⟩
    · exact ⟨by rw [StoreState.disableInsert, hlookup.ctx], by
        rw [StoreState.disableInsert, hlookup.ctx], ⟨hctx'.notBridge, hctx'.notLocal⟩⟩
  have howns : (lookedUp settings env st).ctx.Owns = st.ctx.Owns := by
    funext reg
    rw [CoreMessageContext.Owns, hids.1, hids.2.1]
    rfl
  have hfirst : BrokerCore.Keeps st.ctx.Owns st.core (lookedUp settings env st).core := by
    rw [hcore]
    have hkeeps := hlookup.keeps
    rwa [show (fun reg => mayRemoveService st.ctx reg = true) = st.ctx.Owns from
      funext fun reg => propext (mayRemoveService_client hctx)] at hkeeps
  have hptr' : (lookedUp settings env st).core.services.Unused env.newService :=
    hcore ▸ hlookup.unused hptr
  split
  · have hsecond := @fireOnStoreMessage_keeps settings env _ hids.2.2 hfirst.indexed hptr'
    rw [howns] at hsecond
    exact hfirst.trans (hsecond _)
  · simp only
    split_ifs <;> exact hfirst

/-! ### Storing a message -/

/-- Rewriting a message leaves the rest of the broker as the handlers left it. -/
theorem handleStored_core (payload : Bytes) (st : StoreState) :
    (handleStored settings env payload st).2 = (runStoreHandlers settings env st).2.core := by
  unfold handleStored
  simp only
  split <;> rfl

theorem storeMessage_keeps {ctx : CoreMessageContext} (hctx : ctx.IsClient) {core : BrokerCore}
    (hindexed : core.services.Indexed) (hptr : core.services.Unused env.newService)
    (sourceTenantGuid : Bytes) (certChain : Option Bytes) (payload : Bytes) :
    BrokerCore.Keeps ctx.Owns core
      (storeMessage settings env ctx sourceTenantGuid certChain payload core).2 := by
  have hstored : ∀ message, BrokerCore.Keeps ctx.Owns core
      (handleStored settings env payload ⟨ctx, message, core⟩).2 := by
    intro message
    rw [handleStored_core]
    exact @runStoreHandlers_keeps settings env ⟨ctx, message, core⟩ hctx hindexed hptr
  unfold storeMessage
  simp only
  split
  · exact hstored none
  · next m _ =>
    split
    · exact .refl hindexed
    · have hsame : (setDxlMessageFields settings ctx sourceTenantGuid m certChain).2.1 = ctx := by
        unfold setDxlMessageFields
        simp only [hctx.notBridge, Bool.false_eq_true, not_false_eq_true, if_true]
        split_ifs <;> rfl
      rw [hsame]
      split
      · exact hstored _
      · exact .refl hindexed

/-- **Only brokers change the fabric.**  A message of a client that is neither a broker nor flagged
local, whatever its topic, its fields and its payload, leaves the entries of the broker registry, the
revoked certificates and the bytes of the tenants as they are, and every service whose client is not
the sender's canonical id and whose instance is not the sender's id. -/
theorem client_store_frame (settings : BrokerSettings) (env : HandlerEnv) {core : BrokerCore}
    (hreached : core.Reached settings) (hptr : core.services.Unused env.newService)
    {context : MqttContext} (hbridge : context.isBridge = false)
    (hlocal : context.dxlFlags &&& dxlFlagLocal = 0) (curAddress : Option ℕ)
    (certChain : Option Bytes) (topic payload : Bytes) :
    (onStoreMessage settings env (.connection context curAddress certChain) topic payload
        core).2.registry.brokers = core.registry.brokers ∧
      (onStoreMessage settings env (.connection context curAddress certChain) topic payload
        core).2.revokedCerts = core.revokedCerts ∧
      (onStoreMessage settings env (.connection context curAddress certChain) topic payload
        core).2.sentBytesPerTenant = core.sentBytesPerTenant ∧
      ∀ guid reg, reg.clientGuid ≠ cstr context.canonicalId →
        reg.getClientInstanceGuid ≠ cstr context.id →
        ((onStoreMessage settings env (.connection context curAddress certChain) topic payload
          core).2.services.findService guid = some reg ↔
            core.services.findService guid = some reg) := by
  have hctx : (CoreMessageContext.mk context.id context.canonicalId false context.dxlFlags
      (cstr topic) true true 0).IsClient := ⟨rfl, by simpa using hlocal⟩
  have hkeeps := @storeMessage_keeps settings env _ hctx core hreached.indexed.1 hptr
    (if settings.multiTenantModeEnabled then context.dxlTenantGuid else []) certChain payload
  unfold onStoreMessage sourceContext
  simp only [hbridge, Bool.false_eq_true, if_false]
  exact ⟨hkeeps.brokers, hkeeps.revoked, hkeeps.sentBytes, fun guid reg hclient hinstance =>
    hkeeps.services guid reg fun howns => howns.elim hclient hinstance⟩

end

/-- A client `D`. -/
def stranger : MqttContext where
  id := lit "D"
  canonicalId := lit "D"

/-- The client reports that the service `S` is unavailable. -/
def unavailableReport : Bytes :=
  (dxlMessageToBytes Msgpack.msgpackC
    { createDxlMessage .responseError (lit "D") (lit "D") (lit "m") with
      payload := .buf []
      specificData := .responseErrorData (lit "r") (lit "S") (lit "e")
        fabricServiceUnavailable.toInt32 } false).getD []

/-- A client cannot remove the service of another one by an error response. -/
theorem client_store_frame_stranger :
    (onStoreMessage plainSettings (plainHandlerEnv 0 1) (.connection stranger none none)
      (lit "/reply") unavailableReport BrokerCore.plainCore).2.services.findService (lit "S") =
        some plainService := by
  have hreached : BrokerCore.plainCore.Reached plainSettings :=
    .step (.init rfl rfl) (plainEnv 0) (.registerService 0 plainService) fun _ h => nomatch h
  have hptr : BrokerCore.plainCore.services.Unused (plainHandlerEnv 0 1).newService := by decide
  obtain ⟨-, -, -, hservices⟩ := client_store_frame plainSettings (plainHandlerEnv 0 1) hreached hptr
    (show stranger.isBridge = false from rfl) rfl none none (lit "/reply") unavailableReport
  exact (hservices (lit "S") plainService (by decide) (by decide)).mpr rfl

end DxlBroker
