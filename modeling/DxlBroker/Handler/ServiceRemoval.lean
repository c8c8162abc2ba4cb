import DxlBroker.Handler.TenantIsolation

/-!
# The removal of services by another tenant

Clients of one tenant publish any messages, and the broker stores the messages that it sends to
itself in between.  The services that the tenant may not use stay, unless an error that tells of one
is trusted: the broker's own, for a registration that is rejected or a request that nobody gets, or
that of a client of the same name.
-/

namespace DxlBroker

open Bytes Msgpack Unordered

section

variable (settings : BrokerSettings) (tenant : Bytes)

/-- A service of another tenant, which this tenant may not use. -/
def IsForeign (reg : ServiceRegistration) : Prop :=
  reg.clientTenantGuid ≠ cstr tenant ∧ reg.isServiceAvailable settings tenant = false

instance (reg : ServiceRegistration) : Decidable (IsForeign settings tenant reg) :=
  inferInstanceAs (Decidable (_ ∧ _))

/-- The identifier is not that of such a service. -/
def Spares (core : BrokerCore) (guid : Bytes) : Prop :=
  ∀ reg, core.services.findService guid = some reg → ¬ IsForeign settings tenant reg

/-- The services of other tenants are the same in both states. -/
structure KeepsForeign (core core' : BrokerCore) : Prop where
  indexed : core'.services.Indexed
  same : ∀ g reg, IsForeign settings tenant reg →
    (core'.services.findService g = some reg ↔ core.services.findService g = some reg)

/-! ### The run -/

/-- The broker, and the messages that were stored and are still offered to subscribers. -/
structure TenantRun where
  core : BrokerCore
  stored : List StoredMessage := []

/-- What happens: a client publishes, the broker stores a message of its own, a stored message is
offered to a subscriber, or no queue holds it any more. -/
inductive TenantAct
  | publish (context : MqttContext) (curAddress : Option ℕ) (certChain : Option Bytes)
      (topic payload : Bytes)
  | storeOwn (i : ℕ)
  | insert (i : ℕ) (attempt : InsertAttempt)
  | finalize (i : ℕ) (subscriberNotFoundPayload : Bytes → Bytes)

def TenantRun.store (env : HandlerEnv) (source : MessageSource) (topic payload : Bytes)
    (run : TenantRun) : TenantRun :=
  let res := onStoreMessage settings env source topic payload run.core
  ⟨res.2, run.stored ++ res.1.toList⟩

def TenantRun.step (env : HandlerEnv) (run : TenantRun) : TenantAct → TenantRun
  | .publish context curAddress certChain topic payload =>
      run.store settings env (.connection context curAddress certChain) topic payload
  | .storeOwn i =>
      match run.core.outbox[i]? with
      | none => run
      | some own => TenantRun.store settings env .localBroker own.1 own.2
          { run with core := { run.core with outbox := run.core.outbox.eraseIdx i } }
  | .insert i attempt =>
      match run.stored[i]? with
      | none => run
      | some sm =>
          let res := insertMessage settings env attempt sm run.core
          ⟨res.2.2, run.stored.set i res.2.1⟩
  | .finalize i subscriberNotFoundPayload =>
      match run.stored[i]? with
      | none => run
      | some sm =>
          ⟨onFinalizeMessage settings env subscriberNotFoundPayload sm run.core,
            run.stored.eraseIdx i⟩

/-- Only clients of the tenant publish. -/
def TenantAct.ByTenant : TenantAct → Prop
  | .publish context _ _ _ _ => context.isBridge = false ∧ cstr context.dxlTenantGuid = cstr tenant
  | _ => True

/-- The broker stores only messages of its own that are shorter than the limit. -/
def TenantAct.Short (limit : ℕ∞) (run : TenantRun) : TenantAct → Prop
  | .storeOwn i => ∀ own, run.core.outbox[i]? = some own → (own.2.length : ℕ∞) < limit
  | _ => True

/-- The runs whose steps all meet a condition. -/
inductive TenantRun.Reached (c : Codec) (limit : ℕ∞)
    (Ok : HandlerEnv → TenantRun → TenantAct → Prop) (start : BrokerCore) : TenantRun → Prop
  | start : Reached c limit Ok start { core := start }
  | step {run : TenantRun} (h : Reached c limit Ok start run) {env : HandlerEnv}
      (hcodec : env.codec = c) (hptr : run.core.services.Unused env.newService) {act : TenantAct}
      (hact : act.ByTenant tenant) (hshort : act.Short limit run) (hok : Ok env run act) :
      Reached c limit Ok start (run.step settings env act)

/-! ### The condition -/

/-- A registration request that is rejected names no foreign service: the broker answers it with an
error about the service that it names. -/
def RejectedSpares (env : HandlerEnv) (st : StoreState) : Prop :=
  ∀ m, st.message = some m → m.isRequestMessage = true →
    topicHandler settings st.ctx.topic = some .serviceRegisterRequest →
    RegistrationRejected settings env st m →
    Spares settings tenant st.core m.getDestinationServiceId

/-- An error is not about a foreign service that its sender may remove. -/
def ErrorSpares (st : StoreState) : Prop :=
  ∀ m, st.message = some m → m.isErrorMessage = true →
    m.getErrorCode = fabricServiceUnavailable → m.getDestinationServiceId ≠ [] →
    ∀ reg, st.core.services.findService m.getDestinationServiceId = some reg →
      IsForeign settings tenant reg → mayRemoveService st.ctx reg = false

/-- A request that nobody got names no foreign service if `noRequestDestinationHandler` answers it
with an error. -/
def UnansweredSpares (core : BrokerCore) (sm : StoredMessage) : Prop :=
  ∀ m, sm.message = some m → m.isRequestMessage = true → sm.ctx.serviceNotFoundEnabled = true →
    sm.ctx.destCount = 0 → sm.ctx.messageInsertEnabled = true →
    Spares settings tenant core m.getDestinationServiceId

/-- What the handlers get of a message meets a condition. -/
def InputMeets (P : StoreState → Prop) (env : HandlerEnv) (source : MessageSource)
    (topic payload : Bytes) (core : BrokerCore) : Prop :=
  ∀ ctx sourceTenantGuid certChain,
    sourceContext settings source topic = .ok (ctx, sourceTenantGuid, certChain) →
    ∀ st, HandlerInput settings env ctx sourceTenantGuid certChain payload core st → P st

/-- The condition on a step. -/
def SparesForeign (env : HandlerEnv) (run : TenantRun) : TenantAct → Prop
  | .publish context curAddress certChain topic payload =>
      InputMeets settings
        (fun st => RejectedSpares settings tenant env st ∧ ErrorSpares settings tenant st) env
        (.connection context curAddress certChain) topic payload run.core
  | .storeOwn i => ∀ own, run.core.outbox[i]? = some own →
      InputMeets settings (RejectedSpares settings tenant env) env .localBroker own.1 own.2
        { run.core with outbox := run.core.outbox.eraseIdx i }
  | .insert _ _ => True
  | .finalize i _ => ∀ sm, run.stored[i]? = some sm → UnansweredSpares settings tenant run.core sm

end

section

variable {settings : BrokerSettings} {tenant : Bytes} {env : HandlerEnv}

theorem KeepsForeign.refl {core : BrokerCore} (h : core.services.Indexed) :
    KeepsForeign settings tenant core core := ⟨h, fun _ _ _ => Iff.rfl⟩

theorem KeepsForeign.trans {a b d : BrokerCore} (hab : KeepsForeign settings tenant a b)
    (hbd : KeepsForeign settings tenant b d) : KeepsForeign settings tenant a d :=
  ⟨hbd.indexed, fun g reg hreg => (hbd.same g reg hreg).trans (hab.same g reg hreg)⟩

theorem KeepsForeign.of_services {core core' : BrokerCore} (h : core.services.Indexed)
    (heq : core'.services = core.services) : KeepsForeign settings tenant core core' := by
  refine ⟨heq ▸ h, fun g reg _ => ?_⟩
  rw [heq]

theorem KeepsForeign.spares {core core' : BrokerCore} (h : KeepsForeign settings tenant core core')
    {guid : Bytes} : Spares settings tenant core' guid ↔ Spares settings tenant core guid := by
  constructor
  · exact fun hspares reg hfind hreg => hspares reg ((h.same guid reg hreg).mpr hfind) hreg
  · exact fun hspares reg hfind hreg => hspares reg ((h.same guid reg hreg).mp hfind) hreg

theorem KeepsForeign.of_keeps {core core' : BrokerCore} {Mine : ServiceRegistration → Prop}
    (h : BrokerCore.Keeps Mine core core')
    (hmine : ∀ reg, IsForeign settings tenant reg → ¬ Mine reg) :
    KeepsForeign settings tenant core core' :=
  ⟨h.indexed, fun g reg hreg => h.services g reg (hmine reg hreg)⟩

/-- What is of the tenant is not foreign. -/
theorem KeepsForeign.of_sameForeign {core core' : BrokerCore} {clientGuid : Bytes}
    (hindexed : core'.services.Indexed)
    (h : core.SameForeign clientGuid (cstr tenant) core') :
    KeepsForeign settings tenant core core' :=
  ⟨hindexed, fun g reg hreg => h g reg fun hsame => hreg.1 hsame.2⟩

/-! ### The handlers of topics -/

theorem clientTenantGuid_registrationOf (hmode : settings.multiTenantModeEnabled = true)
    (ctx : CoreMessageContext) (request : DxlMessage) (payload : ServiceRegistration) :
    (registrationOf settings env ctx request payload).clientTenantGuid =
      cstr request.msg.sourceTenantGuid := by
  unfold registrationOf
  simp only [hmode, if_true]

/-- A client of the tenant, or the local broker, registers services of the tenant. -/
theorem serviceRegisterRequestHandler_foreign (hmode : settings.multiTenantModeEnabled = true)
    {st : StoreState} (hindexed : st.core.services.Indexed)
    (hptr : st.core.services.Unused env.newService)
    (htenant : ∀ m, st.message = some m → m.isRequestMessage = true →
      cstr m.msg.sourceTenantGuid = cstr tenant) :
    KeepsForeign settings tenant st.core
      (serviceRegisterRequestHandler settings env st).2.core := by
  unfold serviceRegisterRequestHandler
  simp only
  split
  · exact .refl hindexed
  · rename_i request payload hparsed
    obtain ⟨request', hget, hparsed⟩ := except_bind_eq_ok hparsed
    obtain ⟨-, -, hparsed⟩ := except_bind_eq_ok hparsed
    obtain ⟨payload', -, hparsed⟩ := except_bind_eq_ok hparsed
    cases hparsed
    obtain ⟨hm, hrequest⟩ := getDxlRequest_ok hget
    simp only
    unfold registerAndRespond
    split
    · split
      · rename_i core hregister
        obtain ⟨hindexed', hforeign⟩ := BrokerCore.registerService_spec hindexed hptr hregister
        rw [clientTenantGuid_registrationOf hmode, htenant request hm hrequest] at hforeign
        exact (KeepsForeign.of_sameForeign hindexed' hforeign).trans (.of_services hindexed' rfl)
      · rename_i e core hregister
        rw [BrokerCore.registerService_error hregister]
        exact .of_services hindexed rfl
    · exact .of_services hindexed rfl

theorem serviceUnregisterRequestHandler_foreign {st : StoreState}
    (hindexed : st.core.services.Indexed)
    (htenant : ∀ m, st.message = some m → m.isRequestMessage = true →
      cstr m.msg.sourceTenantGuid = cstr tenant) :
    KeepsForeign settings tenant st.core
      (serviceUnregisterRequestHandler settings env st).2.core := by
  unfold serviceUnregisterRequestHandler
  simp only
  split
  · exact .refl hindexed
  · rename_i request serviceGuid hparsed
    obtain ⟨request', hget, hparsed⟩ := except_bind_eq_ok hparsed
    obtain ⟨serviceGuid', -, hparsed⟩ := except_bind_eq_ok hparsed
    cases hparsed
    obtain ⟨hm, hrequest⟩ := getDxlRequest_ok hget
    simp only
    generalize (if st.ctx.contextFlags &&& dxlFlagLocal != 0 then cstr settings.guid
      else cstr st.ctx.canonicalSourceId) = clientGuid
    obtain ⟨hindexed', hforeign⟩ := @BrokerCore.unregisterServiceOf_spec settings env.toServiceEnv
      st.core hindexed serviceGuid clientGuid (cstr request.msg.sourceTenantGuid) true
    rw [htenant request hm hrequest] at hindexed' hforeign ⊢
    exact (KeepsForeign.of_sameForeign hindexed' hforeign).trans (.of_services hindexed' rfl)

theorem queryHandler_services (kind : Query) (st : StoreState) :
    (queryHandler settings env kind st).2.core.services = st.core.services := by
  obtain ⟨st₀, hst₀, hanswer⟩ := @answered_query settings env kind st
  have hservices : st₀.core.services = st.core.services := by rcases hst₀ with rfl | rfl <;> rfl
  rw [← hservices]
  rcases hanswer with hsame | ⟨request, payload, hsame⟩
  · rw [hsame]
  · rw [hsame]
    rfl

theorem sendLocalBrokerStateEvent_services (core : BrokerCore) :
    (core.sendLocalBrokerStateEvent settings env).services = core.services := by
  have hbatches : ∀ (batches : List (Bytes × Bytes × Bytes)) (core : BrokerCore),
      (batches.foldl (fun core batch =>
        core.send env.toServiceEnv channelDxlBrokerStateTopicsEvent
          ((((env.createEvent settings).setOtherField propStartTime batch.2.1).setOtherField
            propChangeCount batch.2.2).setPayload batch.1)) core).services = core.services := by
    intro batches
    induction batches with
    | nil => exact fun _ => rfl
    | cons batch batches ih => exact fun core => ih _
  unfold BrokerCore.sendLocalBrokerStateEvent
  simp only
  split
  · exact hbatches _ _
  · rfl

/-- The handlers that are registered for a topic: those for events of other brokers ignore the
message of a client. -/
theorem TopicHandler.onStoreMessage_foreign (hmode : settings.multiTenantModeEnabled = true)
    {st : StoreState} (hindexed : st.core.services.Indexed)
    (hptr : st.core.services.Unused env.newService)
    (htenant : ∀ m, st.message = some m → m.isRequestMessage = true →
      cstr m.msg.sourceTenantGuid = cstr tenant) (handler : TopicHandler)
    (hown : handler.isBridgeSourceRequired = true → st.ctx.isLocalBrokerSource settings) :
    KeepsForeign settings tenant st.core (handler.onStoreMessage settings env st).2.core := by
  cases handler with
  | query kind => exact .of_services hindexed (queryHandler_services kind st)
  | serviceRegisterRequest =>
    exact serviceRegisterRequestHandler_foreign hmode hindexed hptr htenant
  | serviceUnregisterRequest => exact serviceUnregisterRequestHandler_foreign hindexed htenant
  | brokerEvent event =>
    simp only [TopicHandler.onStoreMessage, brokerEventHandler]
    split <;> exact .of_services hindexed rfl
  | clientConnectEvent =>
    simp only [TopicHandler.onStoreMessage, clientConnectEventHandler]
    split <;> exact .refl hindexed
  | fabricChangeEvent =>
    simp only [TopicHandler.onStoreMessage, fabricChangeEventHandler]
    split
    · exact .refl hindexed
    · refine .of_services hindexed ?_
      rw [BrokerCore.sendServiceRegistrationEvents_services, sendLocalBrokerStateEvent_services]
  | serviceRegisterEvent =>
    simp only [TopicHandler.onStoreMessage, serviceRegisterEventHandler]
    rw [if_pos (hown rfl)]
    exact .refl hindexed
  | serviceUnregisterEvent =>
    simp only [TopicHandler.onStoreMessage, serviceUnregisterEventHandler]
    rw [if_pos (hown rfl)]
    exact .refl hindexed
  | tenantExceedsLimitEvent =>
    simp only [TopicHandler.onStoreMessage, tenantExceedsLimitEventHandler]
    rw [if_pos (hown rfl)]
    exact .refl hindexed
  | tenantLimitResetEvent =>
    simp only [TopicHandler.onStoreMessage, tenantLimitResetEventHandler]
    split
    · exact .refl hindexed
    · split <;> exact .of_services hindexed rfl
  | revocationListEvent =>
    simp only [TopicHandler.onStoreMessage, revocationListEventHandler]
    split
    · exact .refl hindexed
    · split <;> exact .of_services hindexed rfl

/-- The handler of a topic, for a message of a client or of the local broker. -/
theorem fireOnStoreMessage_foreign (hmode : settings.multiTenantModeEnabled = true)
    {st : StoreState} (hindexed : st.core.services.Indexed)
    (hptr : st.core.services.Unused env.newService)
    (hsource : st.ctx.isSourceBridge = true → st.ctx.isLocalBrokerSource settings = true)
    (htenant : ∀ m, st.message = some m → m.isRequestMessage = true →
      cstr m.msg.sourceTenantGuid = cstr tenant) (handler : TopicHandler) :
    KeepsForeign settings tenant st.core (fireOnStoreMessage settings env handler st).2.core := by
  unfold fireOnStoreMessage
  split
  · exact .refl hindexed
  · rename_i hbridge
    have hkeeps := handler.onStoreMessage_foreign hmode hindexed hptr htenant fun hrequired =>
      hsource (by simpa [hrequired] using hbridge)
    simp only
    split <;> exact hkeeps

/-! ### The service lookup -/

/-- What is known of a message that the handlers get. -/
structure SafeInput (settings : BrokerSettings) (tenant : Bytes) (env : HandlerEnv)
    (st : StoreState) : Prop where
  indexed : st.core.services.Indexed
  unused : st.core.services.Unused env.newService
  source : st.ctx.isSourceBridge = true → st.ctx.isLocalBrokerSource settings = true
  request : ∀ m, st.message = some m → m.isRequestMessage = true →
    cstr m.msg.sourceTenantGuid = cstr tenant
  event : ∀ m, st.message = some m → m.isEventMessage = true →
    cstr m.msg.sourceTenantGuid = cstr tenant ∨
      startsWith dxlBrokerEventPrefix (cstr st.ctx.topic) = true
  rejected : RejectedSpares settings tenant env st
  error : ErrorSpares settings tenant st

/-- No event becomes a request on a topic of the brokers. -/
theorem requestPrefix_eq_nil {r : ServiceRegistry} (h : r.Indexed) {topic : Bytes}
    (htopic : startsWith dxlBrokerEventPrefix (cstr topic) = true) :
    requestPrefix r topic = [] := by
  have hnone : ∀ t, ServiceRegistry.isEventTopic t = false →
      (r.getRequestPrefixForEvent t).isEmpty = true := by
    intro t ht
    unfold ServiceRegistry.getRequestPrefixForEvent
    cases hlookup : r.eventToRequestPrefix.lookup t with
    | none => rfl
    | some prefix' =>
      have hmem : t ∈ r.eventToRequestPrefix := by
        rw [← AList.lookup_isSome, hlookup]
        rfl
      rw [h.prefixes t hmem] at ht
      cases ht
  unfold requestPrefix
  rw [List.find?_eq_none.mpr]
  · rfl
  · intro p hp
    obtain ⟨t, ht, rfl⟩ := List.mem_map.mp hp
    have hnot : ServiceRegistry.isEventTopic t = false := by
      rcases List.mem_cons.mp ht with rfl | ht
      · simp [ServiceRegistry.isEventTopic, htopic]
      · have hwild := isWildcard_of_mem_wildcardAncestors ht
        have hpound : (0x23 : UInt8) ∈ t := by
          unfold isWildcard at hwild
          exact (cstr_isPrefix t).subset (List.mem_of_getLast? (beq_iff_eq.mp hwild))
        unfold ServiceRegistry.isEventTopic
        have hall : (t.all fun c => c != 0x23 && c != 0x2b) = false := by
          refine Bool.eq_false_iff.mpr fun hall => ?_
          simpa using List.all_eq_true.mp hall 0x23 hpound
        rw [hall]
        simp
    simp [hnone t hnot]

theorem handleErrorResponse_foreign {st : StoreState} {m : DxlMessage}
    (h : SafeInput settings tenant env st) (hm : st.message = some m)
    (herror : m.isErrorMessage = true) :
    KeepsForeign settings tenant st.core
      (handleErrorResponse settings env.toServiceEnv m st).core := by
  unfold handleErrorResponse
  split
  · rename_i hcond
    split
    · exact .refl h.indexed
    · rename_i reg hfind
      split
      · rename_i hmay
        obtain ⟨hindexed, hafter⟩ := @BrokerCore.unregisterService_spec settings env.toServiceEnv
          st.core h.indexed m.getDestinationServiceId true
        refine ⟨hindexed, fun g other hother => ?_⟩
        rw [hafter]
        split
        · rename_i hg
          rw [hg, hfind]
          constructor
          · nofun
          · intro heq
            cases heq
            cases hmay.symm.trans (h.error m hm herror hcond.1 hcond.2 reg hfind hother)
        · rfl
      · exact .refl h.indexed
  · exact .refl h.indexed

/-- What the service lookup leaves behind: a request is still one of the tenant. -/
structure LookedUpSafe (settings : BrokerSettings) (tenant : Bytes) (env : HandlerEnv)
    (st st' : StoreState) : Prop where
  keeps : KeepsForeign settings tenant st.core st'.core
  unused : st'.core.services.Unused env.newService
  request : ∀ m, st'.message = some m → m.isRequestMessage = true →
    cstr m.msg.sourceTenantGuid = cstr tenant

/-- The services that a search leaves as they are. -/
theorem foreign_of_search {core core' : BrokerCore}
    (h : BrokerCore.Keeps (fun _ => False) core core') : KeepsForeign settings tenant core core' :=
  .of_keeps h fun _ _ => id

theorem handleRequest_safe {st : StoreState} {m : DxlMessage}
    (h : SafeInput settings tenant env st) (hm : st.message = some m)
    (hrequest : m.isRequestMessage = true) :
    KeepsForeign settings tenant st.core (handleRequest settings env.toServiceEnv m st).2.core ∧
      ∀ m', (handleRequest settings env.toServiceEnv m st).2.message = some m' →
        cstr m'.msg.sourceTenantGuid = cstr tenant := by
  obtain ⟨hkeeps, -⟩ := @lookupService_spec settings env.toServiceEnv st.ctx st.core
    (fun _ => False) h.indexed m
  have hsource := h.request m hm hrequest
  unfold handleRequest
  split
  · refine ⟨.refl h.indexed, fun m' hm' => ?_⟩
    rw [hm] at hm'
    cases hm'
    exact hsource
  · simp only
    split
    · refine ⟨foreign_of_search hkeeps, fun m' hm' => ?_⟩
      cases hm'
      exact hsource
    · refine ⟨(foreign_of_search hkeeps).trans (.of_services hkeeps.indexed rfl),
        fun m' hm' => ?_⟩
      cases hm'
      split <;> exact hsource

/-- An event that becomes a request changes no service of another tenant. -/
theorem handleEvent_foreign {st : StoreState} (hindexed : st.core.services.Indexed)
    (m : DxlMessage) :
    KeepsForeign settings tenant st.core
      (handleEvent settings env.toServiceEnv m st).core := by
  unfold handleEvent
  simp only
  split
  · exact .refl hindexed
  · obtain ⟨hkeeps, -⟩ := @BrokerCore.findServiceForTopics_spec (fun _ => False) settings
      env.toServiceEnv st.core hindexed m.msg.sourceTenantGuid
      (cstr (requestPrefix st.core.services st.ctx.topic ++ cstr st.ctx.topic) ::
        wildcardAncestors (requestPrefix st.core.services st.ctx.topic ++ cstr st.ctx.topic))
    have hsearch : KeepsForeign settings tenant st.core _ := foreign_of_search hkeeps
    unfold BrokerCore.findServiceForTopic
    split
    · exact hsearch
    · exact hsearch.trans (.of_services hkeeps.indexed rfl)

/-- The lookup, for a message that is no request. -/
theorem serviceLookupHandler_foreign {st : StoreState} {m : DxlMessage}
    (h : SafeInput settings tenant env st) (hm : st.message = some m)
    (hrequest : m.isRequestMessage = false) :
    KeepsForeign settings tenant st.core
      (serviceLookupHandler settings env.toServiceEnv st).2.core := by
  unfold serviceLookupHandler
  simp only [hm, hrequest, Bool.false_and, Bool.false_eq_true, if_false]
  split
  · exact handleEvent_foreign h.indexed m
  · split
    · rename_i herror
      exact handleErrorResponse_foreign h hm herror
    · exact .refl h.indexed

/-- The lookup, for a request. -/
theorem serviceLookupHandler_safe {st : StoreState} {m : DxlMessage}
    (h : SafeInput settings tenant env st) (hm : st.message = some m)
    (hrequest : m.isRequestMessage = true) :
    KeepsForeign settings tenant st.core
        (serviceLookupHandler settings env.toServiceEnv st).2.core ∧
      ∀ m', (serviceLookupHandler settings env.toServiceEnv st).2.message = some m' →
        cstr m'.msg.sourceTenantGuid = cstr tenant := by
  have hother := DxlMessage.not_other_of_isRequestMessage hrequest
  unfold serviceLookupHandler
  simp only [hm, hrequest, hother.1, hother.2, Bool.true_and, Bool.and_false, Bool.false_and,
    Bool.false_eq_true, if_false]
  split
  · exact handleRequest_safe h hm hrequest
  · refine ⟨.refl h.indexed, fun m' hm' => ?_⟩
    have heq : m' = m := Option.some.inj (hm'.symm.trans hm)
    rw [heq]
    exact h.request m hm hrequest

theorem lookedUp_safe {st : StoreState} (h : SafeInput settings tenant env st) :
    LookedUpSafe settings tenant env st (lookedUp settings env st) := by
  have hunused := (@serviceLookupHandler_keeps settings env.toServiceEnv st h.indexed).unused
    h.unused
  suffices hlookup : KeepsForeign settings tenant st.core
      (serviceLookupHandler settings env.toServiceEnv st).2.core ∧
      ∀ m, (serviceLookupHandler settings env.toServiceEnv st).2.message = some m →
        m.isRequestMessage = true → cstr m.msg.sourceTenantGuid = cstr tenant by
    obtain ⟨hkeeps, hrequest⟩ := hlookup
    have hcore := @lookedUp_core settings env st
    refine ⟨hcore ▸ hkeeps, hcore ▸ hunused, fun m hm hisRequest => ?_⟩
    rw [lookedUp_message] at hm
    exact hrequest m hm hisRequest
  cases hm : st.message with
  | none =>
    unfold serviceLookupHandler
    simp only [hm]
    exact ⟨.refl h.indexed, nofun⟩
  | some m =>
    cases hrequest : m.isRequestMessage with
    | true =>
      obtain ⟨hkeeps, hafter⟩ := serviceLookupHandler_safe h hm hrequest
      exact ⟨hkeeps, fun m' hm' _ => hafter m' hm'⟩
    | false =>
      refine ⟨serviceLookupHandler_foreign h hm hrequest, fun m' hm' hrequest' => ?_⟩
      -- The message is the one that came, which is no request.
      rw [@serviceLookupHandler_message settings env st fun m' hm' =>
        Option.some.inj (hm.symm.trans hm') ▸ hrequest, hm] at hm'
      cases hm'
      cases hrequest.symm.trans hrequest'

/-! ### The messages of the broker -/

/-- A message in the queue of the broker that removes no foreign service. -/
structure Harmless (settings : BrokerSettings) (tenant : Bytes) (core : BrokerCore)
    (p : OwnMessage) (m : DxlMessageT) : Prop where
  event : m.messageType = .event → startsWith dxlBrokerEventPrefix p.1 = true
  request : m.messageType = .request → cstr m.sourceTenantGuid = cstr tenant
  error : m.messageType = .responseError →
    ({ msg := m } : DxlMessage).getErrorCode = fabricServiceUnavailable →
    ({ msg := m } : DxlMessage).getDestinationServiceId ≠ [] →
    Spares settings tenant core ({ msg := m } : DxlMessage).getDestinationServiceId

def HarmlessOwn (settings : BrokerSettings) (tenant : Bytes) (c : Codec) (core : BrokerCore)
    (p : OwnMessage) : Prop :=
  ReadAs c (Harmless settings tenant core p) p.2

theorem OwnEvent.harmless {c : Codec} {core : BrokerCore} {p : OwnMessage} (h : OwnEvent c p) :
    HarmlessOwn settings tenant c core p := by
  intro hback m hm
  have htype := h.2 hback m hm
  refine ⟨fun _ => h.1, fun hrequest => ?_, fun herror => ?_⟩
  · cases htype.symm.trans hrequest
  · cases htype.symm.trans herror

theorem IsResponse.harmless {c : Codec} {core : BrokerCore} {p : OwnMessage}
    (h : IsResponse c p) : HarmlessOwn settings tenant c core p := by
  intro hback m hm
  have htype := h hback m hm
  refine ⟨fun hevent => ?_, fun hrequest => ?_, fun herror => ?_⟩
  · cases htype.symm.trans hevent
  · cases htype.symm.trans hrequest
  · cases htype.symm.trans herror

theorem IsError.harmless {c : Codec} {core : BrokerCore} {p : OwnMessage} {request : DxlMessage}
    {code : UInt32} (h : IsError c request code p)
    (hspares : code = fabricServiceUnavailable → request.getDestinationServiceId ≠ [] →
      Spares settings tenant core request.getDestinationServiceId) :
    HarmlessOwn settings tenant c core p := by
  intro hback m hm
  obtain ⟨id, text, hdata⟩ := h hback m hm
  have htype : m.messageType = .responseError := by
    unfold DxlMessageT.messageType
    rw [hdata]
    rfl
  have hservice : ({ msg := m } : DxlMessage).getDestinationServiceId =
      request.getDestinationServiceId := by
    unfold DxlMessage.getDestinationServiceId
    rw [hdata]
    exact request.cstr_getDestinationServiceId
  have hcode : ({ msg := m } : DxlMessage).getErrorCode = code := by
    unfold DxlMessage.getErrorCode
    rw [hdata]
    exact UInt32.toUInt32_toInt32 code
  refine ⟨fun hevent => ?_, fun hrequest => ?_, fun _ hunavailable hne => ?_⟩
  · cases htype.symm.trans hevent
  · cases htype.symm.trans hrequest
  · rw [hservice] at hne ⊢
    exact hspares (hcode.symm.trans hunavailable) hne

theorem IsDerived.harmless {c : Codec} {core : BrokerCore} {p : OwnMessage} {event : DxlMessage}
    {reg : ServiceRegistration} (h : IsDerived settings c event reg p)
    (hsource : cstr event.msg.sourceTenantGuid = cstr tenant) :
    HarmlessOwn settings tenant c core p := by
  obtain ⟨fields, hdecode⟩ := h
  intro hback m hm
  rw [hdecode hback] at hm
  cases hm
  refine ⟨fun hevent => ?_, fun _ => ?_, fun herror => ?_⟩
  · cases hevent
  · show cstr (cstr (cstr event.msg.sourceTenantGuid)) = _
    rw [cstr_cstr, cstr_cstr, hsource]
  · cases herror

/-! ### Storing -/

/-- The service lookup leaves the sender as it is. -/
theorem lookedUp_ctx {st : StoreState} (hindexed : st.core.services.Indexed) :
    (lookedUp settings env st).ctx = st.ctx ∨
      (lookedUp settings env st).ctx = st.disableInsert.ctx := by
  have hctx := (@serviceLookupHandler_keeps settings env.toServiceEnv st hindexed).ctx
  unfold lookedUp
  split
  · exact .inl hctx
  · refine .inr ?_
    unfold StoreState.disableInsert
    rw [hctx]

theorem runStoreHandlers_foreign (hmode : settings.multiTenantModeEnabled = true)
    {st : StoreState} (h : SafeInput settings tenant env st) :
    KeepsForeign settings tenant st.core (runStoreHandlers settings env st).2.core := by
  have hlooked := lookedUp_safe h
  have hsource : (lookedUp settings env st).ctx.isSourceBridge = true →
      (lookedUp settings env st).ctx.isLocalBrokerSource settings = true := by
    rcases @lookedUp_ctx settings env st h.indexed with hctx | hctx
    · rw [hctx]
      exact h.source
    · rw [hctx]
      exact h.source
  rw [runStoreHandlers_eq]
  split
  · exact hlooked.keeps.trans (fireOnStoreMessage_foreign hmode hlooked.keeps.indexed
      hlooked.unused hsource hlooked.request _)
  · dsimp only
    split <;> exact hlooked.keeps

/-- A request for the brokers is not looked up. -/
theorem lookedUp_register {st : StoreState} (hindexed : st.core.services.Indexed) {m : DxlMessage}
    (hm : (lookedUp settings env st).message = some m) (hrequest : m.isRequestMessage = true)
    (htopic : topicHandler settings (lookedUp settings env st).ctx.topic =
      some .serviceRegisterRequest) :
    lookedUp settings env st = st := by
  have hbroker : st.ctx.isDxlBrokerServiceRequest = true := by
    have hsame : (lookedUp settings env st).ctx.topic = st.ctx.topic := by
      rcases @lookedUp_ctx settings env st hindexed with hctx | hctx
      · rw [hctx]
      · rw [hctx]
        rfl
    rw [hsame] at htopic
    have hall : (topicHandlers settings).all fun entry => entry.2 != .serviceRegisterRequest ||
        startsWith dxlBrokerRequestPrefix entry.1 := by
      unfold topicHandlers
      cases settings.testModeEnabled <;> rfl
    unfold topicHandler at htopic
    obtain ⟨entry, hfind, hhandler⟩ := Option.map_eq_some_iff.mp htopic
    have hentry := List.all_eq_true.mp hall entry (List.mem_of_find?_eq_some hfind)
    have heq : entry.1 = st.ctx.topic := by simpa using List.find?_some hfind
    rw [hhandler, heq] at hentry
    exact hentry
  -- The message was a request before, too.
  obtain ⟨m', hm', hrequest'⟩ : ∃ m', st.message = some m' ∧ m'.isRequestMessage = true := by
    by_contra hnone
    have hsame := @serviceLookupHandler_message settings env st fun m' hm' =>
      Bool.eq_false_iff.mpr fun hrequest' => hnone ⟨m', hm', hrequest'⟩
    rw [lookedUp_message, hsame] at hm
    exact hnone ⟨m, hm, hrequest⟩
  have hother := DxlMessage.not_other_of_isRequestMessage hrequest'
  unfold lookedUp serviceLookupHandler
  simp [hm', hrequest', hbroker, hother.1, hother.2]

theorem runStoreHandlers_harmless (hmode : settings.multiTenantModeEnabled = true)
    {st : StoreState} (h : SafeInput settings tenant env st) :
    BrokerCore.Sends (HarmlessOwn settings tenant env.codec st.core) st.core
      (runStoreHandlers settings env st).2.core := by
  refine (runStoreHandlers_sends h.indexed).mono fun p hp => ?_
  obtain (hevent | ⟨request, -, hnone, herror⟩ | ⟨m, reg, hm, hisEvent, hprefix, -, -,
    hderived⟩) | ⟨handler, htopic, hsent⟩ := hp
  · exact hevent.harmless
  · exact herror.harmless fun _ hne => absurd (hnone hmode) hne
  · rcases h.event m hm hisEvent with hsource | hown
    · exact hderived.harmless hsource
    · exact absurd (requestPrefix_eq_nil h.indexed hown) hprefix
  · obtain hevent | hresponse | ⟨request, code, hm, hrequest, herror, hcode⟩ := hsent
    · exact hevent.harmless
    · exact hresponse.harmless
    · refine herror.harmless fun hunavailable _ => ?_
      obtain ⟨rfl, hrejected⟩ := hcode hunavailable
      have hsame := lookedUp_register h.indexed hm hrequest htopic
      rw [hsame] at hm hrejected htopic
      exact h.rejected request hm hrequest htopic hrejected

/-! ### What a step preserves -/

/-- The services of other tenants are those of the start, and nothing that is under way removes
one. -/
structure TenantRun.Safe (settings : BrokerSettings) (tenant : Bytes) (c : Codec)
    (start : BrokerCore) (run : TenantRun) : Prop where
  kept : KeepsForeign settings tenant start run.core
  outbox : ∀ p ∈ run.core.outbox, HarmlessOwn settings tenant c start p

theorem HarmlessOwn.of_keeps {c : Codec} {core core' : BrokerCore}
    (h : KeepsForeign settings tenant core core') {p : OwnMessage} :
    HarmlessOwn settings tenant c core' p ↔ HarmlessOwn settings tenant c core p := by
  have hspares := @KeepsForeign.spares settings tenant core core' h
  constructor
  · intro hown hback m hm
    obtain ⟨hevent, hrequest, herror⟩ := hown hback m hm
    exact ⟨hevent, hrequest, fun htype hcode hne => hspares.mp (herror htype hcode hne)⟩
  · intro hown hback m hm
    obtain ⟨hevent, hrequest, herror⟩ := hown hback m hm
    exact ⟨hevent, hrequest, fun htype hcode hne => hspares.mpr (herror htype hcode hne)⟩

theorem HandlerInput.core_eq {ctx : CoreMessageContext} {sourceTenantGuid : Bytes}
    {certChain : Option Bytes} {payload : Bytes} {core : BrokerCore} {st : StoreState}
    (h : HandlerInput settings env ctx sourceTenantGuid certChain payload core st) :
    st.core = core := by
  obtain ⟨-, rfl⟩ | ⟨_, _, _, -, -, -, rfl⟩ := h <;> rfl

theorem setClientFields_specificData (ctx : CoreMessageContext) (m : DxlMessage)
    (certChain : Option Bytes) :
    (setClientFields settings ctx m certChain).msg.specificData = m.msg.specificData := by
  have hset : ∀ m' : DxlMessage,
      (m'.setOtherField dxlCerts (cstr (certChain.getD []))).msg.specificData =
        m'.msg.specificData := fun m' => by rw [setOtherField_msg]
  unfold setClientFields
  dsimp only
  split <;> exact hset _

/-- The fields that are set leave the topic and the type of the message as they are. -/
theorem setDxlMessageFields_frame {ctx ctx' : CoreMessageContext} {sourceTenantGuid : Bytes}
    {m m' : DxlMessage} {certChain : Option Bytes} {result : Except String Bool}
    (h : setDxlMessageFields settings ctx sourceTenantGuid m certChain = (result, ctx', m')) :
    ctx'.topic = ctx.topic ∧ m'.msg.specificData = m.msg.specificData := by
  have hclient := @setClientFields_specificData settings ctx m certChain
  unfold setDxlMessageFields at h
  split at h
  · dsimp only at h
    split at h <;> cases h <;> exact ⟨rfl, hclient⟩
  · split at h
    · split at h
      · cases h
        exact ⟨rfl, rfl⟩
      · split at h <;> cases h <;> exact ⟨rfl, rfl⟩
    · cases h
      exact ⟨rfl, rfl⟩

theorem sourceContext_topic {source : MessageSource} {topic : Bytes} {ctx : CoreMessageContext}
    {sourceTenantGuid : Bytes} {certChain : Option Bytes}
    (h : sourceContext settings source topic = .ok (ctx, sourceTenantGuid, certChain)) :
    ctx.topic = cstr topic := by
  cases source with
  | localBroker =>
    cases h
    rfl
  | connection context curAddress chain =>
    unfold sourceContext at h
    dsimp only at h
    split at h
    · cases hid : getBridgeBrokerIdFromContext (cstr settings.guid) context.id curAddress with
      | error e =>
        rw [hid] at h
        cases h
      | ok id =>
        rw [hid] at h
        cases h
        rfl
    · cases h
      rfl

/-- No registration is rejected on another topic than that of registrations. -/
theorem rejectedSpares_of_topic {source : MessageSource} {topic payload : Bytes}
    {core : BrokerCore} (htopic : topicHandler settings (cstr topic) ≠ some .serviceRegisterRequest) :
    InputMeets settings (RejectedSpares settings tenant env) env source topic payload core := by
  intro ctx sourceTenantGuid certChain hctx st hst m _ _ hregister
  have hsame : st.ctx.topic = cstr topic := by
    rw [← sourceContext_topic hctx]
    obtain ⟨-, rfl⟩ | ⟨_, _, _, -, -, hfields, rfl⟩ := hst
    · rfl
    · exact (setDxlMessageFields_frame hfields).1
  rw [hsame] at hregister
  exact absurd hregister htopic

/-- What is no error is about no service. -/
theorem errorSpares_of_payload {source : MessageSource} {topic payload : Bytes} {core : BrokerCore}
    (hread : ∀ m, createDxlMessageFromBytes env.codec payload = .ok m →
      m.messageType ≠ .responseError) :
    InputMeets settings (ErrorSpares settings tenant) env source topic payload core := by
  intro ctx sourceTenantGuid certChain hctx st hst m hm herror
  obtain ⟨-, rfl⟩ | ⟨m₀, ctx', m', hdecoded, -, hfields, rfl⟩ := hst
  · cases hm
  · cases hm
    obtain ⟨msg, hmsg, rfl, -⟩ := fromBytes_ok hdecoded
    have hsame : m.msg.messageType = msg.messageType := by
      unfold DxlMessageT.messageType
      rw [(setDxlMessageFields_frame hfields).2]
    exact absurd (hsame.symm.trans (beq_iff_eq.mp herror)) (hread msg hmsg)

/-- A client's message meets the condition if it asks for no registration and is no error. -/
theorem sparesForeign_publish {run : TenantRun} {context : MqttContext} {curAddress : Option ℕ}
    {certChain : Option Bytes} {topic payload : Bytes}
    (htopic : topicHandler settings (cstr topic) ≠ some .serviceRegisterRequest)
    (hread : ∀ m, createDxlMessageFromBytes env.codec payload = .ok m →
      m.messageType ≠ .responseError) :
    SparesForeign settings tenant env run (.publish context curAddress certChain topic payload) :=
  fun ctx sourceTenantGuid certChain' hctx st hst =>
    ⟨rejectedSpares_of_topic htopic ctx sourceTenantGuid certChain' hctx st hst,
      errorSpares_of_payload hread ctx sourceTenantGuid certChain' hctx st hst⟩

theorem TenantRun.Safe.store {c : Codec} (hmode : settings.multiTenantModeEnabled = true)
    (hcodec : env.codec = c) {start : BrokerCore} {run : TenantRun}
    (h : run.Safe settings tenant c start) {source : MessageSource} {topic payload : Bytes}
    (hinput : InputMeets settings (SafeInput settings tenant env) env source topic payload
      run.core) :
    (run.store settings env source topic payload).Safe settings tenant c start := by
  unfold TenantRun.store onStoreMessage
  cases hctx : sourceContext settings source topic with
  | error e => exact ⟨h.kept, h.outbox⟩
  | ok res =>
    obtain ⟨ctx, sourceTenantGuid, certChain⟩ := res
    simp only
    obtain ⟨st, hst, hstored⟩ | ⟨-, hcore⟩ := @storeMessage_cases settings env ctx
      sourceTenantGuid certChain payload run.core
    · have hsafe := hinput ctx sourceTenantGuid certChain hctx st hst
      have hcore := hst.core_eq
      have hkept := runStoreHandlers_foreign hmode hsafe
      have hsent := runStoreHandlers_harmless hmode hsafe
      rw [hcore] at hkept hsent
      rw [hstored, handleStored_core]
      refine ⟨h.kept.trans hkept, fun p hp => ?_⟩
      rcases hsent.mem hp with hp | hp
      · exact h.outbox p hp
      · exact (HarmlessOwn.of_keeps h.kept).mp (hcodec ▸ hp)
    · rw [hcore]
      exact ⟨h.kept, h.outbox⟩

/-- A message of a client of the tenant. -/
theorem safeInput_publish (hmode : settings.multiTenantModeEnabled = true) {core : BrokerCore}
    (hindexed : core.services.Indexed) (hptr : core.services.Unused env.newService)
    {context : MqttContext}
    (hbridge : context.isBridge = false) (htenant : cstr context.dxlTenantGuid = cstr tenant)
    {curAddress : Option ℕ} {certChain certChain' : Option Bytes} {topic payload : Bytes}
    {ctx : CoreMessageContext} {sourceTenantGuid : Bytes}
    (hctx : sourceContext settings (.connection context curAddress certChain) topic =
      .ok (ctx, sourceTenantGuid, certChain')) {st : StoreState}
    (hinput : HandlerInput settings env ctx sourceTenantGuid certChain' payload core st)
    (hrejected : RejectedSpares settings tenant env st) (herror : ErrorSpares settings tenant st) :
    SafeInput settings tenant env st := by
  unfold sourceContext at hctx
  simp only [hbridge, Bool.false_eq_true, if_false, hmode, if_true] at hctx
  cases hctx
  obtain ⟨-, rfl⟩ | ⟨m, ctx', m', -, -, hfields, rfl⟩ := hinput
  · exact ⟨hindexed, hptr, nofun, nofun, nofun, hrejected, herror⟩
  · unfold setDxlMessageFields at hfields
    simp only [Bool.false_eq_true, not_false_eq_true, if_true, hmode] at hfields
    generalize setClientFields settings _ m _ = m₁ at hfields
    rw [Prod.mk.injEq, Prod.mk.injEq] at hfields
    obtain ⟨-, rfl, rfl⟩ := hfields
    have hsource : ∀ m, some (m₁.setSourceTenantGuid context.dxlTenantGuid) = some m →
        cstr m.msg.sourceTenantGuid = cstr tenant := by
      intro m hm
      cases hm
      show cstr (cstr context.dxlTenantGuid) = _
      rw [cstr_cstr, htenant]
    exact ⟨hindexed, hptr, nofun, fun m hm _ => hsource m hm, fun m hm _ => .inl (hsource m hm),
      hrejected, herror⟩

theorem startsWith_cstr {p s : Bytes} (hp : NulFree p) (h : startsWith p s = true) :
    startsWith p (cstr s) = true := by
  unfold startsWith at h ⊢
  rw [List.isPrefixOf_iff_prefix] at h ⊢
  obtain ⟨rest, rfl⟩ := h
  exact ⟨cstr rest, (cstr_append hp rest).symm⟩

/-- A message of the broker itself. -/
theorem safeInput_own {c : Codec} (hcodec : env.codec = c)
    (hmode : settings.multiTenantModeEnabled = true) {core : BrokerCore}
    (hindexed : core.services.Indexed) (hptr : core.services.Unused env.newService)
    {own : OwnMessage} (hown : HarmlessOwn settings tenant c core own)
    (hback : ReadsBack c own.2) {ctx : CoreMessageContext}
    {sourceTenantGuid : Bytes} {certChain : Option Bytes}
    (hctx : sourceContext settings .localBroker own.1 = .ok (ctx, sourceTenantGuid, certChain))
    {st : StoreState}
    (hinput : HandlerInput settings env ctx sourceTenantGuid certChain own.2 core st)
    (hrejected : RejectedSpares settings tenant env st) :
    SafeInput settings tenant env st := by
  unfold sourceContext at hctx
  cases hctx
  have hlocal : ∀ flags, CoreMessageContext.isLocalBrokerSource
      ⟨cstr settings.guid, cstr settings.guid, true, flags, cstr own.1, true, true, 0⟩ settings =
        true := by
    intro flags
    unfold CoreMessageContext.isLocalBrokerSource
    rw [cstr_cstr, beq_self_eq_true]
  obtain ⟨-, rfl⟩ | ⟨m, ctx', m', hread, -, hfields, rfl⟩ := hinput
  · exact ⟨hindexed, hptr, fun _ => hlocal _, nofun, nofun, hrejected, nofun⟩
  · obtain ⟨msg, hmsg, rfl, -⟩ := fromBytes_ok hread
    rw [hcodec] at hmsg
    obtain ⟨hevent, hrequest, herror⟩ := hown hback msg hmsg
    -- The fields stay, and the sender may only get the ops flag.
    have hsame : m' = { msg := msg } ∧ ∃ flags, ctx' = ⟨cstr settings.guid, cstr settings.guid,
        true, flags, cstr own.1, true, true, 0⟩ := by
      unfold setDxlMessageFields at hfields
      simp only [not_true_eq_false, if_false, hmode, if_true] at hfields
      split at hfields
      · cases hfields
      · split at hfields
        · cases hfields
          exact ⟨rfl, _, rfl⟩
        · cases hfields
          exact ⟨rfl, _, rfl⟩
    obtain ⟨rfl, flags, rfl⟩ := hsame
    refine ⟨hindexed, hptr, fun _ => hlocal flags, fun m hm hisRequest => ?_,
      fun m hm hisEvent => .inr ?_, hrejected, ?_⟩
    · cases hm
      exact hrequest (beq_iff_eq.mp hisRequest)
    · cases hm
      have hprefix : NulFree dxlBrokerEventPrefix := by decide
      exact startsWith_cstr hprefix (startsWith_cstr hprefix (hevent (beq_iff_eq.mp hisEvent)))
    · intro m hm hisError hcode hne reg hfind hforeign
      cases hm
      exact absurd hforeign (herror (beq_iff_eq.mp hisError) hcode hne reg hfind)

/-- The decision about a subscriber sends nothing. -/
theorem onInsertMessage_frame (attempt : InsertAttempt) (sm : StoredMessage) (core : BrokerCore) :
    (onInsertMessage settings env attempt sm core).2.2.services = core.services ∧
      (onInsertMessage settings env attempt sm core).2.2.outbox = core.outbox := by
  unfold onInsertMessage
  split
  · exact ⟨rfl, rfl⟩
  · simp only
    split
    · exact ⟨rfl, rfl⟩
    · split <;> exact ⟨rfl, rfl⟩

/-- A full packet queue sends no more than an overloaded error. -/
theorem onPreInsertPacketQueueExceeded_safe {c : Codec} (hcodec : env.codec = c)
    {start : BrokerCore} (isBridge : Bool) (sm : StoredMessage) (core : BrokerCore) :
    (onPreInsertPacketQueueExceeded settings env isBridge sm core).2.2.services = core.services ∧
      BrokerCore.Sends (HarmlessOwn settings tenant c start) core
        (onPreInsertPacketQueueExceeded settings env isBridge sm core).2.2 := by
  unfold onPreInsertPacketQueueExceeded
  split
  · exact ⟨rfl, .of_eq rfl⟩
  · split
    · exact ⟨rfl, .of_eq rfl⟩
    · rename_i m _
      split
      · have hcode : fabricServiceOverloaded ≠ fabricServiceUnavailable := by decide
        have hsent := @send_error settings env core m fabricServiceOverloaded
          (getMessage fabricServiceOverloaded)
        rw [hcodec] at hsent
        exact ⟨rfl, hsent.mono fun p hp => hp.harmless fun heq => absurd heq hcode⟩
      · exact ⟨rfl, .of_eq rfl⟩

/-- Offering a message changes no service, and only overloaded errors are sent. -/
theorem insertMessage_safe {c : Codec} (hcodec : env.codec = c) {start core : BrokerCore}
    (attempt : InsertAttempt) (sm : StoredMessage) :
    (insertMessage settings env attempt sm core).2.2.services = core.services ∧
      BrokerCore.Sends (HarmlessOwn settings tenant c start) core
        (insertMessage settings env attempt sm core).2.2 := by
  unfold insertMessage
  simp only
  split
  · obtain ⟨hservices, hsent⟩ := @onPreInsertPacketQueueExceeded_safe settings tenant env c hcodec
      start attempt.target.isBridge sm core
    split
    · exact ⟨hservices, hsent⟩
    · obtain ⟨hservices', houtbox⟩ := @onInsertMessage_frame settings env attempt
        (onPreInsertPacketQueueExceeded settings env attempt.target.isBridge sm core).2.1
        (onPreInsertPacketQueueExceeded settings env attempt.target.isBridge sm core).2.2
      exact ⟨hservices'.trans hservices, hsent.trans (.of_eq houtbox)⟩
  · split
    · exact ⟨rfl, .of_eq rfl⟩
    · obtain ⟨hservices, houtbox⟩ := @onInsertMessage_frame settings env attempt sm core
      exact ⟨hservices, .of_eq houtbox⟩

/-- At its end a request that spares foreign services gets an error, and an event an event. -/
theorem onFinalizeMessage_safe {c : Codec} (hcodec : env.codec = c) {core : BrokerCore}
    {sm : StoredMessage} (h : UnansweredSpares settings tenant core sm)
    (subscriberNotFoundPayload : Bytes → Bytes) :
    (onFinalizeMessage settings env subscriberNotFoundPayload sm core).services = core.services ∧
      BrokerCore.Sends (HarmlessOwn settings tenant c core) core
        (onFinalizeMessage settings env subscriberNotFoundPayload sm core) := by
  have hrequest : (noRequestDestinationHandler settings env sm core).services = core.services ∧
      BrokerCore.Sends (HarmlessOwn settings tenant c core) core
        (noRequestDestinationHandler settings env sm core) := by
    unfold noRequestDestinationHandler
    split
    · exact ⟨rfl, .of_eq rfl⟩
    · rename_i m hm
      split
      · rename_i hcond
        simp only [Bool.and_eq_true, beq_iff_eq] at hcond
        obtain ⟨⟨⟨hnotFound, hcount⟩, hinsert⟩, hisRequest⟩ := hcond
        have hsent := @send_error settings env core m fabricServiceUnavailable
          (getMessage fabricServiceUnavailable)
        rw [hcodec] at hsent
        exact ⟨rfl, hsent.mono fun p hp => hp.harmless fun _ _ =>
          h m hm hisRequest hnotFound hcount hinsert⟩
      · exact ⟨rfl, .of_eq rfl⟩
  unfold onFinalizeMessage
  generalize noRequestDestinationHandler settings env sm core = core' at hrequest ⊢
  unfold noEventDestinationHandler
  split
  · exact hrequest
  · split
    · obtain ⟨hmade, hpayload, hevent⟩ := MessageEnv.createEvent_spec settings env.toMessageEnv
      have hchannel : startsWith dxlBrokerEventPrefix
          (cstr channelDxlEventSubscriberNotFoundEvent) = true := by decide
      have hsent := @BrokerCore.send_announces env.toServiceEnv core' _
        (hmade.setPayload hpayload (subscriberNotFoundPayload sm.ctx.topic)) hevent _ hchannel
      rw [show env.toServiceEnv.codec = c from hcodec] at hsent
      exact ⟨hrequest.1, hrequest.2.trans (hsent.sends.mono fun p hp => hp.harmless)⟩
    · exact hrequest

/-- What is sent by a step that changes no service. -/
theorem TenantRun.Safe.sends {c : Codec} {start : BrokerCore} {run : TenantRun}
    (h : run.Safe settings tenant c start) {core : BrokerCore} (stored : List StoredMessage)
    (hservices : core.services = run.core.services)
    (hsent : BrokerCore.Sends (HarmlessOwn settings tenant c run.core) run.core core) :
    TenantRun.Safe settings tenant c start ⟨core, stored⟩ := by
  refine ⟨h.kept.trans (.of_services h.kept.indexed hservices), fun p hp => ?_⟩
  rcases hsent.mem hp with hp | hp
  · exact h.outbox p hp
  · exact (HarmlessOwn.of_keeps h.kept).mp hp

theorem TenantRun.Safe.step {c : Codec} {limit : ℕ∞} (hc : c.LawfulBelow limit)
    (hmode : settings.multiTenantModeEnabled = true) (hcodec : env.codec = c)
    {start : BrokerCore} {run : TenantRun} (h : run.Safe settings tenant c start)
    (hptr : run.core.services.Unused env.newService) {act : TenantAct} (hact : act.ByTenant tenant)
    (hshort : act.Short limit run) (hok : SparesForeign settings tenant env run act) :
    (run.step settings env act).Safe settings tenant c start := by
  cases act with
  | publish context curAddress certChain topic payload =>
    refine h.store hmode hcodec fun ctx sourceTenantGuid certChain' hctx st hst => ?_
    obtain ⟨hrejected, herror⟩ := hok ctx sourceTenantGuid certChain' hctx st hst
    exact safeInput_publish hmode h.kept.indexed hptr hact.1 hact.2 hctx hst hrejected herror
  | storeOwn i =>
    cases hown : run.core.outbox[i]? with
    | none =>
      simp only [TenantRun.step, hown]
      exact h
    | some own =>
      have hmem := List.mem_of_getElem? hown
      have hrest : TenantRun.Safe settings tenant c start
          { run with core := { run.core with outbox := run.core.outbox.eraseIdx i } } :=
        ⟨h.kept.trans (.of_services h.kept.indexed rfl),
          fun p hp => h.outbox p (List.mem_of_mem_eraseIdx hp)⟩
      have hharmless := (HarmlessOwn.of_keeps hrest.kept).mpr (h.outbox own hmem)
      have hback := readsBack_of_lt hc (hshort own hown)
      simp only [TenantRun.step, hown]
      exact hrest.store hmode hcodec fun ctx sourceTenantGuid certChain hctx st hst =>
        safeInput_own hcodec hmode hrest.kept.indexed hptr hharmless hback hctx hst
          (hok own hown ctx sourceTenantGuid certChain hctx st hst)
  | insert i attempt =>
    cases hsm : run.stored[i]? with
    | none =>
      simp only [TenantRun.step, hsm]
      exact h
    | some sm =>
      obtain ⟨hservices, hsent⟩ := @insertMessage_safe settings tenant env c hcodec run.core
        run.core attempt sm
      simp only [TenantRun.step, hsm]
      exact h.sends _ hservices hsent
  | finalize i subscriberNotFoundPayload =>
    cases hsm : run.stored[i]? with
    | none =>
      simp only [TenantRun.step, hsm]
      exact h
    | some sm =>
      obtain ⟨hservices, hsent⟩ := @onFinalizeMessage_safe settings tenant env c hcodec run.core
        sm (hok sm hsm) subscriberNotFoundPayload
      simp only [TenantRun.step, hsm]
      exact h.sends _ hservices hsent

/-! ### Runs -/

/-- **The services of other tenants stay.**  In every run of messages of one tenant in which the
broker sends no error about a foreign service, and no client one that it trusts, the services of
other tenants that the tenant may not use are those of the start: none is removed, and none is
added. -/
theorem TenantRun.foreign_services_kept {c : Codec} {limit : ℕ∞} (hc : c.LawfulBelow limit)
    (hmode : settings.multiTenantModeEnabled = true) {start : BrokerCore}
    (hreached : start.Reached settings) (houtbox : start.outbox = []) {run : TenantRun}
    (h : TenantRun.Reached settings tenant c limit (SparesForeign settings tenant) start run)
    {guid : Bytes} {reg : ServiceRegistration} (hforeign : IsForeign settings tenant reg) :
    run.core.services.findService guid = some reg ↔
      start.services.findService guid = some reg := by
  suffices hsafe : run.Safe settings tenant c start from hsafe.kept.same guid reg hforeign
  induction h with
  | start =>
    refine ⟨.refl hreached.indexed.1, fun p hp => ?_⟩
    rw [houtbox] at hp
    cases hp
  | step h hcodec hptr hact hshort hok ih =>
    exact ih.step hc hmode hcodec hptr hact hshort hok

end

/-- A service of the tenant `U`. -/
def foreignService : ServiceRegistration :=
  { plainService with clientTenantGuid := lit "U", targetTenantGuids := [lit "U"] }

/-- The broker `L` with this service. -/
def foreignStart : BrokerCore :=
  { BrokerCore.serviceStep (tenantBroker (lit "L")) (plainEnv 0) {}
    (.registerService 0 foreignService) with outbox := [] }

theorem foreignStart_reached : foreignStart.Reached (tenantBroker (lit "L")) := by
  have hinit : BrokerCore.Reached (tenantBroker (lit "L")) {} := .init rfl rfl
  have hunused : ({} : ServiceRegistry).Unused 0 := by decide
  exact .other (.step hinit (plainEnv 0) (.registerService 0 foreignService) hunused) rfl rfl

/-- A request to a client `Z`, with all routing information, that names the service. -/
def namingRequest : Bytes :=
  (dxlMessageToBytes msgpackC
    { createDxlMessage .request (lit "D") (lit "D") (lit "m") with
      brokerGuids := [lit "L"]
      clientGuids := [lit "Z"]
      payload := .buf []
      specificData := .requestData (lit "/reply") (lit "S") } false).getD []

/-- A client of the tenant `T` publishes the request, nobody gets it, and the broker stores the error
that it sends. -/
def removalActs : List TenantAct :=
  [.publish tenantClient none none (lit "/x") namingRequest, .finalize 0 id, .storeOwn 0]

def removalRun (acts : List TenantAct) : TenantRun :=
  acts.foldl (TenantRun.step (tenantBroker (lit "L")) (plainHandlerEnv 0 1)) { core := foreignStart }

theorem removalRun_step {Ok : HandlerEnv → TenantRun → TenantAct → Prop} {acts : List TenantAct}
    (h : TenantRun.Reached (tenantBroker (lit "L")) (lit "T") msgpackC (2 ^ 32) Ok foreignStart
      (removalRun acts)) (act : TenantAct)
    (hptr : (removalRun acts).core.services.Unused (plainHandlerEnv 0 1).newService)
    (hact : act.ByTenant (lit "T")) (hshort : act.Short (2 ^ 32) (removalRun acts))
    (hok : Ok (plainHandlerEnv 0 1) (removalRun acts) act) :
    TenantRun.Reached (tenantBroker (lit "L")) (lit "T") msgpackC (2 ^ 32) Ok foreignStart
      (removalRun (acts ++ [act])) := by
  unfold removalRun at *
  rw [List.foldl_append]
  exact .step h rfl hptr hact hshort hok

theorem short_storeOwn {run : TenantRun} {i : ℕ}
    (h : (run.core.outbox[i]?.all fun own => own.2.length < 2 ^ 32) = true) :
    (TenantAct.storeOwn i).Short (2 ^ 32) run := by
  intro own hown
  rw [hown] at h
  have hlength : own.2.length < 2 ^ 32 := by simpa using h
  exact_mod_cast hlength

/-- The service is registered, has not expired and is not available to the tenant, and it is gone at
the end. -/
theorem foreignService_removed :
    TenantRun.Reached (tenantBroker (lit "L")) (lit "T") msgpackC (2 ^ 32) (fun _ _ _ => True)
      foreignStart (removalRun removalActs) ∧
    foreignStart.Reached (tenantBroker (lit "L")) ∧
    foreignStart.services.findService (lit "S") = some foreignService ∧
    IsForeign (tenantBroker (lit "L")) (lit "T") foreignService ∧
    foreignService.isExpired (tenantBroker (lit "L")) 0 = false ∧
    (removalRun removalActs).core.services.findService (lit "S") = none := by
  have hstart : TenantRun.Reached (tenantBroker (lit "L")) (lit "T") msgpackC (2 ^ 32)
      (fun _ _ _ => True) foreignStart (removalRun []) := .start
  have hpublished := removalRun_step hstart
    (.publish tenantClient none none (lit "/x") namingRequest) (by decide +kernel) ⟨rfl, rfl⟩ trivial
    trivial
  have hfinalized := removalRun_step hpublished (.finalize 0 id) (by decide +kernel) trivial trivial
    trivial
  have hstored := removalRun_step hfinalized (.storeOwn 0) (by decide +kernel) trivial
    (short_storeOwn (by decide +kernel)) trivial
  exact ⟨hstored, foreignStart_reached, rfl, by decide, by decide, by decide +kernel⟩

/-- The client `Z` of the tenant subscribes. -/
def namedSubscriber : InsertAttempt where
  target := ⟨lit "Z", lit "Z", false, 0, lit "T"⟩

/-- The client `Z` gets the request that names the service, nobody one without routing information,
and the broker stores the error that it sends for that one. -/
def sparingActs : List TenantAct :=
  [.publish tenantClient none none (lit "/x") namingRequest, .insert 0 namedSubscriber,
    .finalize 0 id, .publish tenantClient none none (lit "/x") strangerRequest, .storeOwn 0]

theorem foreignService_kept :
    (removalRun sparingActs).core.services.findService (lit "S") = some foreignService := by
  have htopic : topicHandler (tenantBroker (lit "L")) (cstr (lit "/x")) ≠
      some .serviceRegisterRequest := by decide
  have hnoError : ∀ payload ∈ [namingRequest, strangerRequest], ∀ m,
      createDxlMessageFromBytes msgpackC payload = .ok m → m.messageType ≠ .responseError := by
    have hall : ([namingRequest, strangerRequest].all fun payload =>
        (createDxlMessageFromBytes msgpackC payload).toOption.all fun m =>
          m.messageType != .responseError) = true := by decide +kernel
    intro payload hpayload m hm
    have hone := List.all_eq_true.mp hall payload hpayload
    rw [hm] at hone
    simpa [Except.toOption] using hone
  have hstart : TenantRun.Reached (tenantBroker (lit "L")) (lit "T") msgpackC (2 ^ 32)
      (SparesForeign (tenantBroker (lit "L")) (lit "T")) foreignStart (removalRun []) := .start
  have hnamed := removalRun_step hstart
    (.publish tenantClient none none (lit "/x") namingRequest) (by decide +kernel) ⟨rfl, rfl⟩ trivial
    (sparesForeign_publish htopic (hnoError _ (by simp)))
  have hinserted := removalRun_step hnamed (.insert 0 namedSubscriber) (by decide +kernel) trivial
    trivial trivial
  -- One client got the request.
  have hfinalized := removalRun_step hinserted (.finalize 0 id) (by decide +kernel) trivial trivial
    (by
      intro sm hsm m _ _ _ hcount
      have hgot : ((removalRun ([] ++ [TenantAct.publish tenantClient none none (lit "/x")
          namingRequest] ++ [.insert 0 namedSubscriber])).stored[0]?.all fun sm =>
          sm.ctx.destCount != 0) = true := by decide +kernel
      rw [hsm] at hgot
      simp [hcount] at hgot)
  have hpublished := removalRun_step hfinalized
    (.publish tenantClient none none (lit "/x") strangerRequest) (by decide +kernel) ⟨rfl, rfl⟩
    trivial (sparesForeign_publish htopic (hnoError _ (by simp)))
  -- The error goes to the reply-to topic.
  have hreply : ((removalRun (sparingActs.take 4)).core.outbox[0]?.all fun own =>
      topicHandler (tenantBroker (lit "L")) (cstr own.1) != some .serviceRegisterRequest) =
        true := by decide +kernel
  have hstored := removalRun_step hpublished (.storeOwn 0) (by decide +kernel) trivial
    (short_storeOwn (by decide +kernel)) fun own hown => by
      have hsome : (removalRun (sparingActs.take 4)).core.outbox[0]? = some own := hown
      rw [hsome] at hreply
      exact rejectedSpares_of_topic (by simpa using hreply)
  exact (TenantRun.foreign_services_kept msgpackC_lawful32.lawfulBelow rfl foreignStart_reached rfl
    hstored (by decide)).mpr rfl

end DxlBroker
