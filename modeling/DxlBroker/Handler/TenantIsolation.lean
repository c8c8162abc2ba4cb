import DxlBroker.Handler.SentMessages

/-!
# Tenant isolation

A message of a client is followed through the brokers: it is published, stored, forwarded over
bridges and stored again, and an event may be turned into a request that the broker then stores as
its own.  At the first broker the source tenant is overwritten and the destination tenants are
checked; every later broker compares both with the tenant of a client.  A request for an event is
stored with the privileges of the broker, and goes to the client of a service that is available to
the tenant.
-/

namespace DxlBroker

open Bytes Msgpack Unordered

/-- A client answers to an identifier: it is its own, or one of the broker if the client is local. -/
def InsertTarget.AnswersTo (settings : BrokerSettings) (t : InsertTarget) (guid : Bytes) : Prop :=
  guid = cstr t.destId ∨ guid = cstr t.canonicalDestId ∨
    (t.contextFlags &&& dxlFlagLocal != 0) = true ∧
      (guid = cstr settings.guid ∨ guid = cstr settings.instanceGuid)

/-- A connection has the ops flag exactly when its tenant is that of the broker. -/
def OpsFlagged (settings : BrokerSettings) (contextFlags : UInt8) (tenantGuid : Bytes) : Prop :=
  (contextFlags &&& dxlFlagOps != 0) = true ↔ cstr tenantGuid = cstr settings.tenantGuid

section

variable (c : Codec) (ops : Bytes) (services : ServiceRegistration → Prop)

/-- A broker of a multi-tenant fabric, in a state that can be reached. -/
structure InFabric (settings : BrokerSettings) (env : HandlerEnv) (core : BrokerCore) : Prop where
  multiTenant : settings.multiTenantModeEnabled = true
  tenant : cstr settings.tenantGuid = ops
  codec : env.codec = c
  reached : core.Reached settings
  registered : ∀ g reg, core.services.findService g = some reg → services reg

/-- How a message of a tenant, or a request that is derived from it, comes to a broker.  What a broker
sends is shorter than the limit below which the library reads back what it wrote. -/
inductive Arrives (limit : ℕ∞) (tenant : Bytes) :
    BrokerSettings → MessageSource → Bytes → Bytes → Prop
  /-- A client publishes the message. -/
  | publish {settings : BrokerSettings} {context : MqttContext}
      (hmode : settings.multiTenantModeEnabled = true) (hops : cstr settings.tenantGuid = ops)
      (hbridge : context.isBridge = false) (htenant : cstr context.dxlTenantGuid = tenant)
      (hflags : OpsFlagged settings context.dxlFlags context.dxlTenantGuid)
      (curAddress : Option ℕ) (certChain : Option Bytes) (topic payload : Bytes) :
      Arrives limit tenant settings (.connection context curAddress certChain) topic payload
  /-- A broker stores the message, and it goes on to another one over a bridge. -/
  | forward {settings : BrokerSettings} {source : MessageSource} {topic payload : Bytes}
      (h : Arrives limit tenant settings source topic payload) {env : HandlerEnv}
      {core core' : BrokerCore} (hfabric : InFabric c ops services settings env core)
      {sm : StoredMessage}
      (hstore : onStoreMessage settings env source topic payload core = (some sm, core'))
      (hinsert : sm.ctx.messageInsertEnabled = true)
      (hshort : (sm.payload.length : ℕ∞) < limit) {next : BrokerSettings}
      (hmode : next.multiTenantModeEnabled = true) (hops : cstr next.tenantGuid = ops)
      {context : MqttContext} (hbridge : context.isBridge = true)
      (curAddress : Option ℕ) (certChain : Option Bytes) (topic' : Bytes) :
      Arrives limit tenant next (.connection context curAddress certChain) topic' sm.payload
  /-- While a broker stores the message, it sends a request to itself. -/
  | derive {settings : BrokerSettings} {source : MessageSource} {topic payload : Bytes}
      (h : Arrives limit tenant settings source topic payload) {env : HandlerEnv} {core : BrokerCore}
      (hfabric : InFabric c ops services settings env core) {sent : List OwnMessage}
      (hsent : (onStoreMessage settings env source topic payload core).2.outbox =
        core.outbox ++ sent) {own : OwnMessage} (hown : own ∈ sent)
      (hshort : (own.2.length : ℕ∞) < limit) {m : DxlMessageT}
      (hread : createDxlMessageFromBytes c own.2 = .ok m) (hrequest : m.messageType = .request) :
      Arrives limit tenant settings .localBroker own.1 own.2

/-! ### What a message carries -/

/-- A message of the tenant: it names no other tenant besides the ops tenant, and if it has the
privileges of the broker it goes to the client of a service of these two. -/
structure OfTenant (tenant : Bytes) (privileged : Bool) (m : DxlMessageT) : Prop where
  source : cstr m.sourceTenantGuid = tenant
  targets : ∀ guid ∈ m.tenantGuids, cstr guid = tenant ∨ cstr guid = ops
  client : privileged = true → ∃ reg, services reg ∧
    (reg.clientTenantGuid = tenant ∨ reg.clientTenantGuid = ops) ∧
    m.clientGuids.map cstr = [cstr reg.getClientInstanceGuid]

/-- The payload is read as such a message, if it can be read. -/
def PayloadOfTenant (tenant : Bytes) (privileged : Bool) (payload : Bytes) : Prop :=
  ∀ m, createDxlMessageFromBytes c payload = .ok m → OfTenant ops services tenant privileged m

/-- What is known of a message while it is stored.  A message that was not changed has the payload
that arrived. -/
structure Guarded (tenant payload : Bytes) (st : StoreState) : Prop where
  made : ∀ m, st.message = some m → m.Made
  ofTenant : ∀ m, st.message = some m → OfTenant ops services tenant st.ctx.isSourceOps m.msg
  unchanged : (∀ m, st.message = some m → m.isDirty = false) →
    PayloadOfTenant c ops services tenant false payload

/-- What is known of a stored message that goes on. -/
structure StoredGuarded (tenant : Bytes) (sm : StoredMessage) : Prop where
  ofTenant : ∀ m, sm.message = some m → OfTenant ops services tenant sm.ctx.isSourceOps m.msg
  payload : ReadsBack c sm.payload → PayloadOfTenant c ops services tenant false sm.payload

/-- What is known of the source of a message. -/
inductive SourceGuarded (tenant : Bytes) (settings : BrokerSettings) (payload : Bytes) :
    MessageSource → Prop
  | client {context : MqttContext} (hbridge : context.isBridge = false)
      (htenant : cstr context.dxlTenantGuid = tenant)
      (hflags : OpsFlagged settings context.dxlFlags context.dxlTenantGuid)
      (curAddress : Option ℕ) (certChain : Option Bytes) :
      SourceGuarded tenant settings payload (.connection context curAddress certChain)
  | bridge {context : MqttContext} (hbridge : context.isBridge = true)
      (hpayload : PayloadOfTenant c ops services tenant false payload) (curAddress : Option ℕ)
      (certChain : Option Bytes) :
      SourceGuarded tenant settings payload (.connection context curAddress certChain)
  | localBroker (hpayload : PayloadOfTenant c ops services tenant true payload) :
      SourceGuarded tenant settings payload .localBroker

end

section

variable {c : Codec} {limit : ℕ∞} {ops tenant : Bytes} {services : ServiceRegistration → Prop}
  {settings : BrokerSettings} {env : HandlerEnv}

theorem OfTenant.unprivileged {privileged : Bool} {m : DxlMessageT}
    (h : OfTenant ops services tenant privileged m) : OfTenant ops services tenant false m :=
  ⟨h.source, h.targets, nofun⟩

/-- The other fields do not matter, and neither does a round trip. -/
theorem OfTenant.norm {privileged : Bool} {m : DxlMessageT}
    (h : OfTenant ops services tenant privileged m) (fields : List Bytes) :
    OfTenant ops services tenant privileged
      ({ m with otherFields := fields } : DxlMessageT).norm where
  source := by
    show cstr (cstr m.sourceTenantGuid) = tenant
    rw [cstr_cstr]
    exact h.source
  targets guid hguid := by
    obtain ⟨guid', hguid', rfl⟩ := List.mem_map.mp (show guid ∈ m.tenantGuids.map cstr from hguid)
    rw [cstr_cstr]
    exact h.targets guid' hguid'
  client hprivileged := by
    obtain ⟨reg, hreg, htenant, hclient⟩ := h.client hprivileged
    refine ⟨reg, hreg, htenant, ?_⟩
    show (m.clientGuids.map cstr).map cstr = _
    rw [List.map_map, ← hclient]
    exact List.map_congr_left fun guid _ => cstr_cstr guid

/-- A service that is available to the tenant is one of the tenant or of the ops tenant. -/
theorem clientTenantGuid_of_available {reg : ServiceRegistration} {guid : Bytes}
    (hmode : settings.multiTenantModeEnabled = true) (hops : cstr settings.tenantGuid = ops)
    (hguid : cstr guid = tenant) (h : reg.isServiceAvailable settings guid = true) :
    reg.clientTenantGuid = tenant ∨ reg.clientTenantGuid = ops := by
  unfold ServiceRegistration.isServiceAvailable ServiceRegistration.isOps at h
  simp only [hmode, Bool.not_true, Bool.false_eq_true, if_false, Bool.true_and] at h
  split at h
  · rename_i hisOps
    exact .inr ((beq_iff_eq.mp hisOps).trans hops)
  · exact .inl ((beq_iff_eq.mp h).trans hguid)

/-! ### The handlers -/

/-- A request that is directed to a service which the tenant may use. -/
theorem OfTenant.routeTo {privileged : Bool} {m : DxlMessage}
    (h : OfTenant ops services tenant privileged m.msg) {reg : ServiceRegistration}
    (hreg : services reg) (htenant : reg.clientTenantGuid = tenant ∨ reg.clientTenantGuid = ops) :
    OfTenant ops services tenant privileged (m.routeTo reg).msg :=
  ⟨h.source, h.targets, fun _ => ⟨reg, hreg, htenant, by
    show [cstr (cstr reg.getClientInstanceGuid)] = _
    rw [cstr_cstr]⟩⟩

/-- A message that was changed, and will be written again. -/
theorem Guarded.of_message {payload : Bytes} {st : StoreState} {m' : DxlMessage}
    (hmessage : st.message = some m') (hmade : m'.Made) (hdirty : m'.isDirty = true)
    (htenant : OfTenant ops services tenant st.ctx.isSourceOps m'.msg) :
    Guarded c ops services tenant payload st := by
  refine ⟨fun m hm => ?_, fun m hm => ?_, fun hclean => ?_⟩
  · rw [hmessage] at hm
    exact Option.some.inj hm ▸ hmade
  · rw [hmessage] at hm
    exact Option.some.inj hm ▸ htenant
  · cases hdirty.symm.trans (hclean m' hmessage)

theorem Guarded.of_eq {payload : Bytes} {st st' : StoreState}
    (h : Guarded c ops services tenant payload st) (hmessage : st'.message = st.message)
    (hflags : st'.ctx.contextFlags = st.ctx.contextFlags) :
    Guarded c ops services tenant payload st' := by
  have hprivileged : st'.ctx.isSourceOps = st.ctx.isSourceOps := by
    unfold CoreMessageContext.isSourceOps
    rw [hflags]
  refine ⟨?_, ?_, ?_⟩
  · rw [hmessage]
    exact h.made
  · rw [hmessage, hprivileged]
    exact h.ofTenant
  · rw [hmessage]
    exact h.unchanged

theorem handleRequest_guarded {payload : Bytes} {st : StoreState} {m : DxlMessage}
    (hfabric : InFabric c ops services settings env st.core) (hm : st.message = some m)
    (h : Guarded c ops services tenant payload st) :
    Guarded c ops services tenant payload (handleRequest settings env.toServiceEnv m st).2 := by
  have hmade := h.made m hm
  have hsource := (h.ofTenant m hm).source
  obtain ⟨-, -, -, hfound⟩ := @lookupService_spec settings env.toServiceEnv st.ctx st.core
    (fun _ => True) hfabric.reached.indexed.1 m
  unfold handleRequest
  split
  · exact h
  · simp only
    split
    · rename_i reg hreg
      obtain ⟨⟨g, hfind⟩, havailable⟩ := hfound reg hreg
      have htenant := clientTenantGuid_of_available hfabric.multiTenant hfabric.tenant hsource
        havailable
      exact .of_message rfl ⟨hmade.version, hmade.payload⟩ rfl
        ((h.ofTenant m hm).routeTo (hfabric.registered g reg hfind) htenant)
    · split
      · exact .of_message rfl ⟨hmade.version, hmade.payload⟩ rfl
          ⟨hsource, (h.ofTenant m hm).targets, (h.ofTenant m hm).client⟩
      · exact h.of_eq hm.symm rfl

theorem lookedUp_guarded {payload : Bytes} {st : StoreState}
    (hfabric : InFabric c ops services settings env st.core)
    (h : Guarded c ops services tenant payload st) :
    Guarded c ops services tenant payload (lookedUp settings env st) := by
  have hlookup : Guarded c ops services tenant payload
      (serviceLookupHandler settings env.toServiceEnv st).2 := by
    cases hm : st.message with
    | none =>
      unfold serviceLookupHandler
      simp only [hm]
      exact h
    | some m =>
      cases hrequest : m.isRequestMessage with
      | false =>
        have hmessage := @serviceLookupHandler_message settings env st fun m' hm' => by
          rw [hm] at hm'
          exact Option.some.inj hm' ▸ hrequest
        have hctx := (@serviceLookupHandler_keeps settings env.toServiceEnv st
          hfabric.reached.indexed.1).ctx
        exact h.of_eq hmessage (congrArg CoreMessageContext.contextFlags hctx)
      | true =>
        unfold serviceLookupHandler
        simp only [hm, hrequest, Bool.true_and]
        split
        · exact handleRequest_guarded hfabric hm h
        · have hother := DxlMessage.not_other_of_isRequestMessage hrequest
          simp only [hother.1, hother.2, Bool.and_false, Bool.false_and, Bool.false_eq_true,
            if_false]
          exact h
  unfold lookedUp
  split
  · exact hlookup
  · exact hlookup.of_eq rfl rfl

theorem rewriteMessage_guarded (hc : c.LawfulBelow limit) (hcodec : env.codec = c) {payload : Bytes}
    {st : StoreState} (h : Guarded c ops services tenant payload st) :
    StoredGuarded c ops services tenant (rewriteMessage env payload st) := by
  unfold rewriteMessage
  cases hm : st.message with
  | none =>
    refine ⟨nofun, fun _ => h.unchanged fun m hm' => ?_⟩
    rw [hm] at hm'
    cases hm'
  | some m =>
    have hmade := h.made m hm
    have htenant := h.ofTenant m hm
    simp only
    split
    · rename_i hdirty
      obtain ⟨fields, hfields⟩ := m.onPreToBytes_msg env.fieldOrder
      obtain ⟨b, hb⟩ := hmade.payload
      obtain ⟨bytes, hbytes⟩ := exists_toBytes c
        (show ({ m.msg with otherFields := fields } : DxlMessageT).payload = .buf b from hb) false
      have hwritten : (m.toBytes env.codec env.fieldOrder false).2 = some bytes := by
        rw [DxlMessage.toBytes, hfields, hcodec]
        exact hbytes
      rw [hwritten]
      refine ⟨fun m' hm' => ?_, fun hback m' hm' => ?_⟩
      · cases hm'
        show OfTenant ops services tenant _ (m.onPreToBytes env.fieldOrder).msg
        rw [hfields]
        exact ⟨htenant.source, htenant.targets, htenant.client⟩
      · simp only [if_neg (toBytes_ne_nil hc hbytes)] at hback hm'
        rw [hback ({ m.msg with otherFields := fields } : DxlMessageT) false hmade.version hbytes]
          at hm'
        cases hm'
        exact htenant.unprivileged.norm fields
    · rename_i hclean
      refine ⟨fun m' hm' => ?_, fun _ => h.unchanged fun m' hm' => ?_⟩
      · cases hm'
        exact htenant
      · rw [hm] at hm'
        exact Option.some.inj hm' ▸ Bool.eq_false_iff.mpr hclean

theorem handleStored_guarded (hc : c.LawfulBelow limit) {payload : Bytes} {st : StoreState}
    (hfabric : InFabric c ops services settings env st.core)
    (h : Guarded c ops services tenant payload st)
    (hinsert : (handleStored settings env payload st).1.ctx.messageInsertEnabled = true) :
    StoredGuarded c ops services tenant (handleStored settings env payload st).1 := by
  have hrun : Guarded c ops services tenant payload (runStoreHandlers settings env st).2 := by
    obtain ⟨hmessage, hflags⟩ := @runStoreHandlers_keeps_message settings env st
    exact (lookedUp_guarded hfabric h).of_eq hmessage hflags
  unfold handleStored at hinsert ⊢
  simp only at hinsert ⊢
  split at hinsert
  · cases hinsert
  · exact rewriteMessage_guarded hc hfabric.codec hrun

/-! ### The sources -/

theorem PayloadOfTenant.read {privileged : Bool} {payload : Bytes}
    (h : PayloadOfTenant c ops services tenant privileged payload) {m : DxlMessage}
    (hread : DxlMessage.fromBytes c payload = .ok m) :
    m.Made ∧ m.isDirty = false ∧ OfTenant ops services tenant privileged m.msg := by
  obtain ⟨msg, hmsg, rfl, hmade⟩ := fromBytes_ok hread
  exact ⟨hmade, rfl, h msg hmsg⟩

theorem getTenantGuid_ok {guid : Bytes} (h : settings.getTenantGuid = .ok guid) :
    guid = cstr settings.tenantGuid := by
  unfold BrokerSettings.getTenantGuid at h
  split at h
  · cases h
  · exact (Except.ok.inj h).symm

/-- A message that was sent by a broker is not changed before the handlers see it. -/
theorem setDxlMessageFields_bridge {ctx ctx' : CoreMessageContext} {sourceTenantGuid : Bytes}
    {certChain : Option Bytes} {m m' : DxlMessage} (hbridge : ctx.isSourceBridge = true)
    (hmode : settings.multiTenantModeEnabled = true) (hops : cstr settings.tenantGuid = ops)
    (hne : tenant ≠ ops) (hsource : cstr m.msg.sourceTenantGuid = tenant)
    (h : setDxlMessageFields settings ctx sourceTenantGuid m certChain = (.ok true, ctx', m')) :
    ctx' = ctx ∧ m' = m := by
  unfold setDxlMessageFields at h
  simp only [hbridge, not_true_eq_false, if_false, hmode, if_true] at h
  cases htenant : settings.getTenantGuid with
  | error e =>
    rw [htenant] at h
    cases h
  | ok opsTenantGuid =>
    have heq : opsTenantGuid = ops := (getTenantGuid_ok htenant).trans hops
    rw [htenant] at h
    simp only at h
    rw [if_neg (by rw [heq, hsource]; exact hne.symm)] at h
    cases h
    exact ⟨rfl, rfl⟩

/-- A client's message gets the tenant of the client, and names no other tenant. -/
theorem setDxlMessageFields_tenant {ctx ctx' : CoreMessageContext} {sourceTenantGuid : Bytes}
    {certChain : Option Bytes} {m : DxlMessageT} {m' : DxlMessage}
    (hbridge : ctx.isSourceBridge = false) (hprivileged : ctx.isSourceOps = false)
    (hmode : settings.multiTenantModeEnabled = true) (hops : cstr settings.tenantGuid = ops)
    (hsource : cstr sourceTenantGuid = tenant)
    (h : setDxlMessageFields settings ctx sourceTenantGuid { msg := m } certChain =
      (.ok true, ctx', m')) :
    ctx' = ctx ∧ m'.isDirty = true ∧ OfTenant ops services tenant false m'.msg := by
  unfold setDxlMessageFields at h
  simp only [hbridge, Bool.false_eq_true, not_false_eq_true, if_true, hmode] at h
  generalize setClientFields settings ctx { msg := m } certChain = m₁ at h
  rw [Prod.mk.injEq, Prod.mk.injEq] at h
  obtain ⟨hallowed, rfl, rfl⟩ := h
  refine ⟨rfl, rfl, ?_, fun guid hguid => ?_, nofun⟩
  · show cstr (cstr sourceTenantGuid) = tenant
    rw [cstr_cstr, hsource]
  · -- The destination tenants were compared with the two tenants.
    have hnil : m₁.msg.tenantGuids ≠ [] := List.ne_nil_of_mem hguid
    have hset : (m₁.setSourceTenantGuid sourceTenantGuid).getDestinationTenantGuids =
        some (m₁.msg.tenantGuids.map cstr).dedup := if_neg hnil
    unfold destTenantsAllowed at hallowed
    rw [hset] at hallowed
    simp only [hprivileged, Bool.false_eq_true, if_false] at hallowed
    obtain ⟨opsTenantGuid, htenant, hall⟩ := except_bind_eq_ok hallowed
    have heq : opsTenantGuid = ops := (getTenantGuid_ok htenant).trans hops
    have hall' : ((m₁.msg.tenantGuids.map cstr).dedup.all fun guid =>
        guid == cstr sourceTenantGuid || guid == opsTenantGuid) = true := Except.ok.inj hall
    have hmem : cstr guid ∈ (m₁.msg.tenantGuids.map cstr).dedup :=
      List.mem_dedup.mpr (List.mem_map_of_mem hguid)
    have hone := List.all_eq_true.mp hall' (cstr guid) hmem
    rw [Bool.or_eq_true, beq_iff_eq, beq_iff_eq, hsource, heq] at hone
    exact hone

/-- The message that the handlers get. -/
theorem handlerInput_guarded {source : MessageSource} {topic payload : Bytes}
    {ctx : CoreMessageContext} {sourceTenantGuid : Bytes} {certChain : Option Bytes}
    {core : BrokerCore} {st : StoreState} (hne : tenant ≠ ops)
    (hfabric : InFabric c ops services settings env core)
    (hsource : SourceGuarded c ops services tenant settings payload source)
    (hctx : sourceContext settings source topic = .ok (ctx, sourceTenantGuid, certChain))
    (hinput : HandlerInput settings env ctx sourceTenantGuid certChain payload core st) :
    Guarded c ops services tenant payload st := by
  rw [HandlerInput, hfabric.codec] at hinput
  obtain ⟨hunread, rfl⟩ | ⟨m, ctx', m', hread, -, hfields, rfl⟩ := hinput
  · refine ⟨nofun, nofun, fun _ msg hmsg => absurd ?_ (hunread { msg := msg })⟩
    unfold DxlMessage.fromBytes
    rw [hmsg]
    rfl
  · have hbridge : ∀ {privileged : Bool}, ctx.isSourceBridge = true →
        ctx.isSourceOps = privileged →
        PayloadOfTenant c ops services tenant privileged payload →
        Guarded c ops services tenant payload ⟨ctx', some m', core⟩ := by
      intro privileged hbridge hprivileged hpayload
      obtain ⟨hmade, hclean, htenant⟩ := hpayload.read hread
      obtain ⟨rfl, rfl⟩ := setDxlMessageFields_bridge hbridge hfabric.multiTenant hfabric.tenant
        hne htenant.source hfields
      refine ⟨fun m hm => ?_, fun m hm => ?_, fun _ msg hmsg => (hpayload msg hmsg).unprivileged⟩
      · exact Option.some.inj hm ▸ hmade
      · rw [hprivileged]
        exact Option.some.inj hm ▸ htenant
    cases hsource with
    | localBroker hpayload =>
      unfold sourceContext at hctx
      rw [hfabric.multiTenant] at hctx
      cases hctx
      have hprivileged : (if true = true then dxlFlagOps else 0) &&& dxlFlagOps != 0 := by decide
      exact hbridge rfl hprivileged hpayload
    | bridge hisBridge hpayload curAddress _ =>
      unfold sourceContext at hctx
      simp only [hisBridge, if_true, hfabric.multiTenant] at hctx
      generalize getBridgeBrokerIdFromContext _ _ _ = id at hctx
      cases id with
      | error e => cases hctx
      | ok id =>
        cases hctx
        refine hbridge rfl ?_ hpayload
        simp [CoreMessageContext.isSourceOps, UInt8.and_assoc]
    | @client context hisBridge htenant hflags curAddress _ =>
      unfold sourceContext at hctx
      simp only [hisBridge, Bool.false_eq_true, if_false, hfabric.multiTenant, if_true] at hctx
      cases hctx
      have hunprivileged : (context.dxlFlags &&& dxlFlagOps != 0) = false := by
        refine Bool.eq_false_iff.mpr fun hops => hne ?_
        rw [← htenant, hflags.mp hops]
        exact hfabric.tenant
      obtain ⟨msg, hmsg, rfl, hmade⟩ := fromBytes_ok hread
      have hsame : CoreMessageContext.isSourceOps ⟨context.id, context.canonicalId, false,
          context.dxlFlags, cstr topic, true, true, 0⟩ = false := hunprivileged
      have hwritten := @setDxlMessageFields_client settings ⟨context.id, context.canonicalId, false,
        context.dxlFlags, cstr topic, true, true, 0⟩ rfl context.dxlTenantGuid msg certChain
      obtain ⟨rfl, hdirty, hofTenant⟩ := @setDxlMessageFields_tenant ops tenant services settings
        _ _ _ _ msg m' rfl hsame hfabric.multiTenant hfabric.tenant htenant hfields
      rw [hfields] at hwritten
      have hmade' : m'.Made := by
        obtain ⟨b, hb⟩ := hmade.payload
        exact ⟨hwritten.version.trans hmade.version, b, hwritten.payload.trans hb⟩
      refine .of_message rfl hmade' hdirty ?_
      rw [hsame]
      exact hofTenant

/-! ### One broker -/

theorem onStoreMessage_guarded (hc : c.LawfulBelow limit) {source : MessageSource}
    {topic payload : Bytes}
    {core core' : BrokerCore} {sm : StoredMessage} (hne : tenant ≠ ops)
    (hfabric : InFabric c ops services settings env core)
    (hsource : SourceGuarded c ops services tenant settings payload source)
    (hstore : onStoreMessage settings env source topic payload core = (some sm, core'))
    (hinsert : sm.ctx.messageInsertEnabled = true) :
    StoredGuarded c ops services tenant sm := by
  unfold onStoreMessage at hstore
  split at hstore
  · cases hstore
  · rename_i ctx sourceTenantGuid certChain hctx
    cases hstore
    obtain ⟨st, hinput, hstored⟩ | ⟨hrejected, -⟩ := @storeMessage_cases settings env ctx
      sourceTenantGuid certChain payload core
    · have hcore : st.core = core := by
        obtain ⟨-, rfl⟩ | ⟨_, _, _, -, -, -, rfl⟩ := hinput <;> rfl
      have hguarded := handlerInput_guarded hne hfabric hsource hctx hinput
      rw [hstored] at hinsert ⊢
      exact handleStored_guarded hc (hcore ▸ hfabric) hguarded hinsert
    · cases hrejected.symm.trans hinsert

/-- A request that is sent is one for an event of the tenant. -/
theorem derived_guarded {st : StoreState} {payload : Bytes}
    (hfabric : InFabric c ops services settings env st.core)
    (h : Guarded c ops services tenant payload st) {own : OwnMessage}
    (hown : LookupSent settings env.codec st (lookedUp settings env st).message own ∨
      ∃ handler, topicHandler settings (lookedUp settings env st).ctx.topic = some handler ∧
        HandlerSent settings env handler (lookedUp settings env st) own)
    (hback : ReadsBack c own.2) {m : DxlMessageT}
    (hread : createDxlMessageFromBytes c own.2 = .ok m) (hrequest : m.messageType = .request) :
    PayloadOfTenant c ops services tenant true own.2 := by
  have hevent : ¬ OwnEvent c own := by
    intro hown
    cases (hown.2 hback m hread).symm.trans hrequest
  have herror : ∀ request code, ¬ IsError c request code own := by
    intro request code herror
    obtain ⟨id, text, hdata⟩ := herror hback m hread
    unfold DxlMessageT.messageType at hrequest
    rw [hdata] at hrequest
    cases hrequest
  rw [hfabric.codec] at hown
  obtain (hown | ⟨request, -, -, hown⟩ | ⟨event, reg, hm, -, -, ⟨g, hfind⟩, havailable,
    fields, hderived⟩) | ⟨handler, -, hown⟩ := hown
  · exact absurd hown hevent
  · exact absurd hown (herror request _)
  · have hsource := (h.ofTenant event hm).source
    have htenant := clientTenantGuid_of_available hfabric.multiTenant hfabric.tenant hsource
      havailable
    have hreq : OfTenant ops services tenant true (requestForEvent settings event reg).msg := by
      refine ⟨?_, nofun, fun _ => ⟨reg, hfabric.registered g reg hfind, htenant, ?_⟩⟩
      · show cstr (cstr event.msg.sourceTenantGuid) = tenant
        rw [cstr_cstr, hsource]
      · show [cstr (cstr reg.getClientInstanceGuid)] = _
        rw [cstr_cstr]
    intro m' hm'
    rw [hderived hback] at hm'
    cases hm'
    exact hreq.norm fields
  · rw [HandlerSent, hfabric.codec] at hown
    obtain hown | hresponse | ⟨request, code, -, -, hown, -⟩ := hown
    · exact absurd hown hevent
    · cases (hresponse hback m hread).symm.trans hrequest
    · exact absurd hown (herror request code)

theorem onStoreMessage_derived {source : MessageSource} {topic payload : Bytes}
    {core : BrokerCore} (hne : tenant ≠ ops)
    (hfabric : InFabric c ops services settings env core)
    (hsource : SourceGuarded c ops services tenant settings payload source)
    {sent : List OwnMessage}
    (hsent : (onStoreMessage settings env source topic payload core).2.outbox =
      core.outbox ++ sent) {own : OwnMessage} (hown : own ∈ sent) (hback : ReadsBack c own.2)
    {m : DxlMessageT} (hread : createDxlMessageFromBytes c own.2 = .ok m)
    (hrequest : m.messageType = .request) : PayloadOfTenant c ops services tenant true own.2 := by
  have hnone : core.outbox = core.outbox ++ sent → False := by
    intro heq
    rw [List.self_eq_append_right.mp heq] at hown
    cases hown
  unfold onStoreMessage at hsent
  split at hsent
  · exact (hnone hsent).elim
  · rename_i ctx sourceTenantGuid certChain hctx
    simp only at hsent
    obtain ⟨st, hinput, hstored⟩ | ⟨-, hcore⟩ := @storeMessage_cases settings env ctx
      sourceTenantGuid certChain payload core
    · have hcore : st.core = core := by
        obtain ⟨-, rfl⟩ | ⟨_, _, _, -, -, -, rfl⟩ := hinput <;> rfl
      have hguarded := handlerInput_guarded hne hfabric hsource hctx hinput
      obtain ⟨sent', houtbox, hlookup⟩ := @runStoreHandlers_sends settings env st
        (hcore ▸ hfabric.reached.indexed.1)
      rw [hstored, handleStored_core, houtbox, hcore] at hsent
      have hmem : own ∈ sent' := List.append_cancel_left hsent ▸ hown
      exact derived_guarded (hcore ▸ hfabric) hguarded (hlookup own hmem) hback hread hrequest
    · rw [hcore] at hsent
      exact (hnone hsent).elim

/-! ### One client -/

/-- A queue gets a message only by the decision of the insert handler. -/
theorem onInsertMessage_of_inserts {attempt : InsertAttempt} {sm : StoredMessage}
    {core : BrokerCore} (h : (insertMessage settings env attempt sm core).1.inserts = true) :
    (onInsertMessage settings env attempt sm core).1.inserts = true := by
  have hpre : (if attempt.packetQueueExceeded then
      onPreInsertPacketQueueExceeded settings env attempt.target.isBridge sm core
      else (false, sm, core)).1 = true ∨ (if attempt.packetQueueExceeded then
      onPreInsertPacketQueueExceeded settings env attempt.target.isBridge sm core
      else (false, sm, core)) = (false, sm, core) := by
    split
    · unfold onPreInsertPacketQueueExceeded
      split
      · exact .inr rfl
      · split
        · exact .inl rfl
        · split <;> exact .inl rfl
    · exact .inr rfl
  unfold insertMessage at h
  simp only at h
  rcases hpre with hreject | hsame
  · rw [hreject] at h
    simp only [Bool.true_or, if_true] at h
    cases h
  · rw [hsame] at h
    simp only [Bool.false_or] at h
    split at h
    · cases h
    · exact h

theorem allowClient_of_inserts {attempt : InsertAttempt} {sm : StoredMessage} {core : BrokerCore}
    (hmode : settings.multiTenantModeEnabled = true) (hclient : attempt.target.isBridge = false)
    (h : (onInsertMessage settings env attempt sm core).1.inserts = true) :
    sm.ctx.messageInsertEnabled = true ∧
      ∃ m, sm.message = some m ∧ allowClient settings sm.ctx m attempt.target = true := by
  unfold onInsertMessage at h
  split at h
  · cases h
  · rename_i hinsert
    simp only [Bool.not_eq_true', Bool.not_eq_false] at hinsert
    refine ⟨hinsert, ?_⟩
    cases hm : sm.message with
    | none =>
      rw [hm] at h
      simp only [messageRoutingHandler, hmode, if_true] at h
      cases h
    | some m =>
      refine ⟨m, rfl, ?_⟩
      cases hallow : allowClient settings sm.ctx m attempt.target with
      | true => rfl
      | false =>
        rw [hm] at h
        simp only [messageRoutingHandler, hclient, hallow, Bool.false_eq_true, if_false] at h
        cases h

/-- The clients that get a message of the tenant. -/
theorem allowClient_tenant {ctx : CoreMessageContext} {m : DxlMessage} {t : InsertTarget}
    (hmode : settings.multiTenantModeEnabled = true) (hops : cstr settings.tenantGuid = ops)
    (hm : OfTenant ops services tenant ctx.isSourceOps m.msg)
    (hflags : OpsFlagged settings t.contextFlags t.targetTenantGuid)
    (hbelongs : ∀ reg, services reg → t.AnswersTo settings (cstr reg.getClientInstanceGuid) →
      cstr t.targetTenantGuid = reg.clientTenantGuid)
    (hallow : allowClient settings ctx m t = true) :
    (t.contextFlags &&& dxlFlagOps != 0) = true ∨ cstr t.targetTenantGuid = tenant := by
  have htwo : cstr t.targetTenantGuid = tenant ∨ cstr t.targetTenantGuid = ops →
      (t.contextFlags &&& dxlFlagOps != 0) = true ∨ cstr t.targetTenantGuid = tenant := by
    rintro (htenant | htenant)
    · exact .inr htenant
    · exact .inl (hflags.mpr (htenant.trans hops.symm))
  unfold allowClient at hallow
  simp only [Bool.and_eq_true, hmode, Bool.not_true, Bool.false_or] at hallow
  obtain ⟨⟨-, hanswers⟩, hallow⟩ := hallow
  unfold onInsertMultiTenantMessage at hallow
  cases hset : m.getDestinationTenantGuids with
  | some guids =>
    rw [hset] at hallow
    unfold DxlMessage.getDestinationTenantGuids DxlMessage.guidSet at hset
    split at hset
    · cases hset
    · cases hset
      obtain ⟨guid, hguid, heq⟩ := List.mem_map.mp (List.mem_dedup.mp
        (DxlMessage.hasGuid_iff.mp hallow))
      exact htwo (heq ▸ hm.targets guid hguid)
  | none =>
    rw [hset] at hallow
    simp only [Bool.or_eq_true, beq_iff_eq] at hallow
    rcases hallow with (hflag | hprivileged) | hsource
    · exact .inl hflag
    · -- A message with the privileges of the broker names one client.
      obtain ⟨reg, hreg, htenant, hguids⟩ := hm.client hprivileged
      have hset : m.getDestinationClientGuids = some [cstr reg.getClientInstanceGuid] := by
        unfold DxlMessage.getDestinationClientGuids DxlMessage.guidSet
        rw [if_neg, hguids]
        · rfl
        · intro hnil
          rw [hnil] at hguids
          cases hguids
      rw [hset] at hanswers
      simp only [Option.elim_some, Bool.or_eq_true, Bool.and_eq_true, DxlMessage.hasGuid_iff,
        List.mem_singleton] at hanswers
      refine htwo ?_
      rw [hbelongs reg hreg ?_]
      · exact htenant
      · rcases hanswers with (hid | hid) | ⟨hlocal, hid⟩
        · exact .inl hid.symm
        · exact .inr (.inl hid.symm)
        · exact .inr (.inr ⟨hlocal, hid.imp Eq.symm Eq.symm⟩)
    · exact .inr (hsource.trans hm.source)

/-! ### Any number of brokers -/

theorem Arrives.guarded (hc : c.LawfulBelow limit) (hne : tenant ≠ ops) {source : MessageSource}
    {topic payload : Bytes} (h : Arrives c ops services limit tenant settings source topic payload) :
    SourceGuarded c ops services tenant settings payload source := by
  induction h with
  | publish hmode hops hbridge htenant hflags curAddress certChain topic payload =>
    exact .client hbridge htenant hflags curAddress certChain
  | forward h hfabric hstore hinsert hshort hmode hops hbridge curAddress certChain topic' ih =>
    have hstored := onStoreMessage_guarded hc hne hfabric ih hstore hinsert
    exact .bridge hbridge (hstored.payload (readsBack_of_lt hc hshort)) curAddress certChain
  | derive h hfabric hsent hown hshort hread hrequest ih =>
    exact .localBroker (onStoreMessage_derived hne hfabric ih hsent hown
      (readsBack_of_lt hc hshort) hread hrequest)

/-- **Tenant isolation.**  However a message of the tenant, or a request that is derived from it,
comes to a broker, and whatever happens until it is offered to a client: if it is inserted, the
client is an ops client or one of the tenant. -/
theorem tenant_isolation (hc : c.LawfulBelow limit) (hne : tenant ≠ ops) {source : MessageSource}
    {topic payload : Bytes} (h : Arrives c ops services limit tenant settings source topic payload)
    {core core' : BrokerCore} (hfabric : InFabric c ops services settings env core)
    {sm : StoredMessage}
    (hstore : onStoreMessage settings env source topic payload core = (some sm, core'))
    (attempts : List InsertAttempt) {attempt : InsertAttempt}
    (hclient : attempt.target.isBridge = false)
    (hflags : OpsFlagged settings attempt.target.contextFlags attempt.target.targetTenantGuid)
    (hbelongs : ∀ reg, services reg →
      attempt.target.AnswersTo settings (cstr reg.getClientInstanceGuid) →
      cstr attempt.target.targetTenantGuid = reg.clientTenantGuid) (later : BrokerCore)
    (hinserted : (insertMessage settings env attempt
      (insertMessages settings env attempts sm core').2.1 later).1.inserts = true) :
    (attempt.target.contextFlags &&& dxlFlagOps != 0) = true ∨
      cstr attempt.target.targetTenantGuid = tenant := by
  obtain ⟨hmessage, -, henabled, hflagsSame⟩ := @sameStored_insertMessages settings env attempts sm
    core'
  obtain ⟨hinsert, m, hm, hallow⟩ := allowClient_of_inserts hfabric.multiTenant hclient
    (onInsertMessage_of_inserts hinserted)
  have hstored := onStoreMessage_guarded hc hne hfabric (h.guarded hc hne) hstore
    (henabled.symm.trans hinsert)
  have hofTenant := hstored.ofTenant m (hmessage.symm.trans hm)
  refine allowClient_tenant hfabric.multiTenant hfabric.tenant ?_ hflags hbelongs hallow
  unfold CoreMessageContext.isSourceOps at hofTenant ⊢
  rw [hflagsSame]
  exact hofTenant

end

/-- A broker of a fabric with the ops tenant `O`. -/
def tenantBroker (guid : Bytes) : BrokerSettings where
  guid := guid
  tenantGuid := lit "O"
  multiTenantModeEnabled := true

/-- A client of the tenant `T`. -/
def tenantClient : MqttContext where
  id := lit "D"
  canonicalId := lit "D"
  dxlTenantGuid := lit "T"

/-- The bridge of the broker `L`. -/
def tenantBridge : MqttContext where
  id := lit "host.L:M"
  canonicalId := lit "host.L:M"
  isBridge := true

/-- An event that claims to be of the tenant `U`. -/
def forgedTenantEvent : Bytes :=
  (dxlMessageToBytes msgpackC
    { createDxlMessage .event (lit "D") (lit "D") (lit "m") with
      payload := .buf []
      sourceTenantGuid := lit "U" } false).getD []

/-- The event as the broker `L` stores it, and then the broker `M`. -/
def forwardedEvent : StoredMessage :=
  (storeMessage (tenantBroker (lit "L")) (plainHandlerEnv 0 1)
    ⟨lit "D", lit "D", false, 0, lit "/t", true, true, 0⟩ (lit "T") none forgedTenantEvent {}).1

def arrivedEvent : StoredMessage :=
  (storeMessage (tenantBroker (lit "M")) (plainHandlerEnv 0 1)
    ⟨lit "L", lit "L", true, 0, lit "/t", true, true, 0⟩ [] none forwardedEvent.payload {}).1

/-- Another client of the tenant. -/
def tenantSubscriber : InsertAttempt where
  target := ⟨lit "E", lit "E", false, 0, lit "T"⟩

/-- The event comes over a bridge to a client of the tenant. -/
theorem tenant_isolation_forwarded :
    (insertMessage (tenantBroker (lit "M")) (plainHandlerEnv 0 1) tenantSubscriber arrivedEvent
      {}).1.inserts = true ∧
    ((tenantSubscriber.target.contextFlags &&& dxlFlagOps != 0) = true ∨
      cstr tenantSubscriber.target.targetTenantGuid = lit "T") := by
  have hinserted : (insertMessage (tenantBroker (lit "M")) (plainHandlerEnv 0 1) tenantSubscriber
      arrivedEvent {}).1.inserts = true := by decide +kernel
  have hfabric : ∀ guid, InFabric msgpackC (lit "O") (fun _ => False) (tenantBroker guid)
      (plainHandlerEnv 0 1) {} := by
    intro guid
    refine ⟨rfl, rfl, rfl, .init rfl rfl, fun g reg hfind => ?_⟩
    cases hfind
  have hflagged : ∀ guid, OpsFlagged (tenantBroker guid) 0 (lit "T") := by
    intro guid
    have hne : cstr (lit "T") ≠ cstr (lit "O") := by decide
    exact ⟨nofun, fun htenant => absurd htenant hne⟩
  have hpublished : Arrives msgpackC (lit "O") (fun _ => False) (2 ^ 32) (lit "T")
      (tenantBroker (lit "L"))
      (.connection tenantClient none none) (lit "/t") forgedTenantEvent := by
    refine .publish rfl ?_ rfl ?_ (hflagged _) none none _ _ <;> decide
  have hstored : onStoreMessage (tenantBroker (lit "L")) (plainHandlerEnv 0 1)
      (.connection tenantClient none none) (lit "/t") forgedTenantEvent {} =
        (some forwardedEvent, {}) := rfl
  have hforwarded : Arrives msgpackC (lit "O") (fun _ => False) (2 ^ 32) (lit "T")
      (tenantBroker (lit "M"))
      (.connection tenantBridge none none) (lit "/t") forwardedEvent.payload :=
    .forward hpublished (hfabric (lit "L")) hstored (by decide +kernel)
      (by exact_mod_cast (show forwardedEvent.payload.length < 2 ^ 32 by decide +kernel)) rfl
      (by decide) rfl none none _
  have harrived : onStoreMessage (tenantBroker (lit "M")) (plainHandlerEnv 0 1)
      (.connection tenantBridge none none) (lit "/t") forwardedEvent.payload {} =
        (some arrivedEvent, {}) := rfl
  have hisolated : _ → (tenantSubscriber.target.contextFlags &&& dxlFlagOps != 0) = true ∨
      cstr tenantSubscriber.target.targetTenantGuid = lit "T" :=
    tenant_isolation msgpackC_lawful32.lawfulBelow (by decide) hforwarded (hfabric (lit "M"))
      harrived [] rfl
      (hflagged _) (fun reg hreg => hreg.elim) {}
  exact ⟨hinserted, hisolated hinserted⟩

end DxlBroker
