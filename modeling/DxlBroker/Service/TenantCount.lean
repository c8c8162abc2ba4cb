import DxlBroker.Service.RegistryRuns

/-!
# The services of a tenant, counted

In multi-tenant mode the broker counts the services of each tenant, apart from the registry, and
keeps a count between zero and the limit.  A registration that does not add a service is counted all
the same, a client that removes its own service is not, and at the limit nothing is.  In a run
without such steps the count is the number of services.
-/

namespace DxlBroker

open Bytes Unordered

namespace BrokerCore

/-- The recorded number of services of a tenant. -/
def recordedCount (core : BrokerCore) (tenantGuid : Bytes) : ℤ :=
  (core.servicesPerTenant.lookup tenantGuid).getD 0

/-- Whether a service counts for a tenant. -/
def countsFor (settings : BrokerSettings) (tenantGuid : Bytes) (reg : ServiceRegistration) : Bool :=
  !reg.isOps settings && reg.clientTenantGuid == tenantGuid

/-- The number of services of a tenant, without those of the ops tenant. -/
def tenantServices (settings : BrokerSettings) (core : BrokerCore) (tenantGuid : Bytes) : ℕ :=
  core.services.numServices (countsFor settings tenantGuid)

/-- The limit as the counter compares it. -/
def serviceLimit (settings : BrokerSettings) : ℤ := settings.tenantServiceLimit.toInt32.toInt

section

variable (settings : BrokerSettings) (env : ServiceEnv) (core : BrokerCore)

/-- A registration over an existing one that does not replace it. -/
def KeepsService (reg old : ServiceRegistration) : Prop :=
  (old.brokerGuid ≠ reg.brokerGuid ∧ reg.ttlMins < old.getAdjustedTtlMins env.time) ∨
    old.sameData reg = true

/-- The condition on a step.  A new service is one of a tenant below its limit, whose GUID has no
NUL; a registration that keeps the service is one of a tenant at its limit; no client removes a
service that counts for a tenant. -/
def CountOk : ServiceOp → Prop
  | .registerService _ reg => reg.isOps settings = false →
      (core.services.findService reg.serviceGuid = none → reg.serviceGuid ≠ [] →
        NulFree reg.clientTenantGuid ∧
          (core.tenantServices settings reg.clientTenantGuid : ℤ) < serviceLimit settings) ∧
      ∀ old, core.services.findService reg.serviceGuid = some old →
        reg.clientGuid = old.clientGuid → reg.clientTenantGuid = old.clientTenantGuid →
        KeepsService env reg old →
          serviceLimit settings ≤ core.tenantServices settings reg.clientTenantGuid
  | .unregisterServiceOf guid clientGuid clientTenantGuid _ =>
      ∀ reg, core.services.findService guid = some reg → clientGuid = reg.clientGuid →
        clientTenantGuid = reg.clientTenantGuid → reg.isOps settings = true
  | _ => True

end

/-- The states reached by steps that meet the condition, with anything else in between. -/
inductive ReachedCounted (settings : BrokerSettings) : BrokerCore → Prop
  | init {core : BrokerCore} (hservices : core.services = {})
      (hcounts : core.servicesPerTenant = ∅) : ReachedCounted settings core
  | step {core : BrokerCore} (h : ReachedCounted settings core) (env : ServiceEnv) (op : ServiceOp)
      (hop : core.OpOk op) (hcount : core.CountOk settings env op) :
      ReachedCounted settings (core.serviceStep settings env op)
  | other {core core' : BrokerCore} (h : ReachedCounted settings core)
      (hservices : core'.services = core.services)
      (hcounts : core'.servicesPerTenant = core.servicesPerTenant) : ReachedCounted settings core'

theorem ReachedCounted.reached {settings : BrokerSettings} {core : BrokerCore}
    (h : ReachedCounted settings core) : Reached settings core := by
  induction h with
  | init hservices hcounts => exact .init hservices hcounts
  | step _ env op hop _ ih => exact .step ih env op hop
  | other _ hservices hcounts ih => exact .other ih hservices hcounts

/-- The counts are right, no tenant is above its limit, and every count is under the GUID of its
tenant. -/
structure Counted (settings : BrokerSettings) (core : BrokerCore) : Prop where
  recorded : ∀ tenantGuid,
    core.recordedCount tenantGuid = core.tenantServices settings tenantGuid
  limit : ∀ tenantGuid, core.tenantServices settings tenantGuid = 0 ∨
    (core.tenantServices settings tenantGuid : ℤ) ≤ serviceLimit settings
  nulFree : ∀ {g reg}, core.services.findService g = some reg → reg.isOps settings = false →
    NulFree reg.clientTenantGuid

/-- An operation that neither adds nor removes services keeps the counts. -/
theorem Counted.of_same {settings : BrokerSettings} {core core' : BrokerCore}
    (h : core.Counted settings)
    (hids : core'.services.servicesById = core.services.servicesById)
    (hregs : core'.services.regs = core.services.regs)
    (hcounts : core'.servicesPerTenant = core.servicesPerTenant) : core'.Counted settings := by
  refine ⟨fun t => ?_, fun t => ?_, fun hfind => ?_⟩
  · rw [recordedCount, hcounts, tenantServices, ServiceRegistry.numServices, hids, hregs]
    exact h.recorded t
  · rw [tenantServices, ServiceRegistry.numServices, hids, hregs]
    exact h.limit t
  · rw [ServiceRegistry.findService, hids, hregs] at hfind
    exact h.nulFree hfind

/-! ### The recorded counts -/

section

variable {settings : BrokerSettings} {env : ServiceEnv} {core : BrokerCore}

theorem serviceLimit_ne_zero (hlimit : settings.tenantServiceLimit ≠ 0) :
    serviceLimit settings ≠ 0 :=
  limit_ne_zero hlimit

theorem clampCount_of_mem {limit n : ℤ} (h : 0 ≤ n) (h' : n ≤ limit) : clampCount limit n = n := by
  unfold clampCount
  split_ifs <;> omega

theorem recordedCount_updateTenantServiceCount (hlimit : settings.tenantServiceLimit ≠ 0)
    (tenantGuid t : Bytes) (n : ℤ) :
    (core.updateTenantServiceCount settings env tenantGuid n).recordedCount t =
      if t = cstr tenantGuid then
        clampCount (serviceLimit settings) (core.recordedCount (cstr tenantGuid) + n)
      else core.recordedCount t := by
  have hcounts : (core.updateTenantServiceCount settings env tenantGuid n).servicesPerTenant =
      core.servicesPerTenant.insert (cstr tenantGuid)
        (clampCount (serviceLimit settings) (core.recordedCount (cstr tenantGuid) + n)) := by
    unfold updateTenantServiceCount
    simp only
    rw [if_neg (show settings.tenantServiceLimit.toInt32.toInt ≠ 0 from
      serviceLimit_ne_zero hlimit)]
    split_ifs <;> rfl
  rw [recordedCount, hcounts]
  split_ifs with ht
  · rw [ht, AList.lookup_insert]
    rfl
  · rw [AList.lookup_insert_ne ht]
    rfl

theorem recordedCount_countService (hmt : settings.multiTenantModeEnabled = true)
    (hlimit : settings.tenantServiceLimit ≠ 0) {reg : ServiceRegistration}
    (hnul : reg.isOps settings = false → NulFree reg.clientTenantGuid) (t : Bytes) (n : ℤ) :
    (core.countService settings env reg n).recordedCount t =
      if countsFor settings t reg then
        clampCount (serviceLimit settings) (core.recordedCount t + n)
      else core.recordedCount t := by
  unfold countService
  rw [hmt, Bool.true_and]
  cases hops : reg.isOps settings with
  | true => simp [countsFor, hops]
  | false =>
    simp only [Bool.not_false, if_true, countsFor, hops, Bool.true_and, beq_iff_eq]
    rw [recordedCount_updateTenantServiceCount hlimit, cstr_of_nulFree (hnul hops)]
    by_cases ht : t = reg.clientTenantGuid
    · rw [if_pos ht, if_pos ht.symm, ht]
    · rw [if_neg ht, if_neg (Ne.symm ht)]

@[simp] theorem sendServiceEvent_servicesPerTenant (channel payload : Bytes)
    (reg : ServiceRegistration) :
    (core.sendServiceEvent settings env channel payload reg).servicesPerTenant =
      core.servicesPerTenant := by
  unfold sendServiceEvent
  split_ifs <;> rfl

@[simp] theorem doUnregisterService_servicesPerTenant (ptr : ServicePtr) (fireEvent : Bool) :
    (core.doUnregisterService settings env ptr fireEvent).servicesPerTenant =
      core.servicesPerTenant := by
  unfold doUnregisterService
  simp only
  split_ifs
  · exact sendServiceEvent_servicesPerTenant _ _ _
  · rfl

/-! ### What a step keeps -/

/-- A tenant with a service has at least one. -/
theorem tenantServices_pos {ptr : ServicePtr} (hptr : core.services.Registered ptr) {t : Bytes}
    (ht : countsFor settings t (core.services.regs ptr) = true) :
    0 < core.tenantServices settings t := by
  have h := @ServiceRegistry.numServices_removeFromIndexes settings core.services ptr
    (countsFor settings t) hptr
  rw [if_pos ht] at h
  rw [tenantServices, h]
  exact Nat.succ_pos _

theorem Counted.unregisterService (hmt : settings.multiTenantModeEnabled = true)
    (hlimit : settings.tenantServiceLimit ≠ 0) (h : core.Counted settings)
    (hindexed : core.services.Indexed) (serviceGuid : Bytes) (fireEvent : Bool) :
    (core.unregisterService settings env serviceGuid fireEvent).Counted settings := by
  unfold BrokerCore.unregisterService
  cases hptr : core.services.servicesById.lookup serviceGuid with
  | none => exact h
  | some ptr =>
    simp only
    have hregistered := hindexed.registered hptr
    have hfound : core.services.findService serviceGuid = some (core.services.regs ptr) := by
      rw [ServiceRegistry.findService, hptr]
      rfl
    have hservices : ∀ t, core.tenantServices settings t =
        ((core.doUnregisterService settings env ptr fireEvent).countService settings env
          (core.services.regs ptr) (-1)).tenantServices settings t +
        if countsFor settings t (core.services.regs ptr) then 1 else 0 := by
      intro t
      rw [tenantServices, tenantServices, countService_services, doUnregisterService_services]
      exact ServiceRegistry.numServices_doUnregisterService hregistered env.serviceOrder
    have hrecorded : ∀ t, (core.doUnregisterService settings env ptr fireEvent).recordedCount t =
        core.tenantServices settings t := by
      intro t
      rw [recordedCount, doUnregisterService_servicesPerTenant]
      exact h.recorded t
    refine ⟨fun t => ?_, fun t => ?_, fun {g reg} hfind hops => ?_⟩
    · rw [recordedCount_countService hmt hlimit (h.nulFree hfound), hrecorded]
      have hcount := hservices t
      have hmax := h.limit t
      split_ifs at hcount ⊢
      · rw [clampCount_of_mem] <;> omega
      · omega
    · have hcount := hservices t
      have hmax := h.limit t
      split_ifs at hcount <;> omega
    · rw [countService_services, doUnregisterService_services,
        ServiceRegistry.findService_doUnregisterService] at hfind
      split_ifs at hfind
      exact h.nulFree hfind hops

/-- A service is added and counted. -/
theorem Counted.addCounted (hmt : settings.multiTenantModeEnabled = true)
    (hlimit : settings.tenantServiceLimit ≠ 0) (h : core.Counted settings) {ptr : ServicePtr}
    (hptr : core.services.Unused ptr) {reg : ServiceRegistration}
    (hnew : core.services.servicesById.lookup reg.serviceGuid = none)
    (hroom : reg.isOps settings = false → NulFree reg.clientTenantGuid ∧
      (core.tenantServices settings reg.clientTenantGuid : ℤ) < serviceLimit settings)
    {core' : BrokerCore} (hservices' : core'.services.servicesById =
        (core.addService settings ptr reg).services.servicesById)
    (hregs : core'.services.regs = (core.addService settings ptr reg).services.regs)
    (hcounts : core'.servicesPerTenant = core.servicesPerTenant) :
    (core'.countService settings env reg 1).Counted settings := by
  have hservices : ∀ t, (core'.countService settings env reg 1).tenantServices settings t =
      core.tenantServices settings t + if countsFor settings t reg then 1 else 0 := by
    intro t
    rw [tenantServices, countService_services, tenantServices,
      ← @ServiceRegistry.numServices_addService settings _ _ _ hptr _ hnew,
      ServiceRegistry.numServices, hservices', hregs]
    rfl
  have hrecorded : ∀ t, core'.recordedCount t = core.tenantServices settings t := by
    intro t
    rw [recordedCount, hcounts]
    exact h.recorded t
  have hcounted : ∀ t, countsFor settings t reg = true →
      (core.tenantServices settings t : ℤ) < serviceLimit settings := by
    intro t ht
    simp only [countsFor, Bool.and_eq_true, Bool.not_eq_true', beq_iff_eq] at ht
    exact ht.2 ▸ (hroom ht.1).2
  refine ⟨fun t => ?_, fun t => ?_, fun {g reg'} hfind hops => ?_⟩
  · rw [recordedCount_countService hmt hlimit (fun hops => (hroom hops).1), hrecorded]
    have hcount := hservices t
    split_ifs at hcount ⊢ with ht
    · have hless := hcounted t ht
      rw [clampCount_of_mem] <;> omega
    · omega
  · have hcount := hservices t
    have hmax := h.limit t
    split_ifs at hcount with ht
    · have hless := hcounted t ht
      omega
    · omega
  · rw [countService_services, ServiceRegistry.findService, hservices', hregs] at hfind
    have hadded : (core.addService settings ptr reg).services.findService g = some reg' := hfind
    rw [BrokerCore.addService, ServiceRegistry.findService_addService hptr] at hadded
    split_ifs at hadded
    · cases hadded
      exact (hroom hops).1
    · exact h.nulFree hadded hops

/-- What follows the storing of a service changes neither the index nor the counts. -/
theorem announce_same (stored : BrokerCore) (reg : ServiceRegistration) :
    ((stored.addPrefixes settings reg).sendServiceRegistrationEvent settings env
        reg).services.servicesById = stored.services.servicesById ∧
      ((stored.addPrefixes settings reg).sendServiceRegistrationEvent settings env
        reg).services.regs = stored.services.regs ∧
      ((stored.addPrefixes settings reg).sendServiceRegistrationEvent settings env
        reg).servicesPerTenant = stored.servicesPerTenant := by
  rw [sendServiceRegistrationEvent, sendServiceEvent_services, sendServiceEvent_servicesPerTenant]
  unfold addPrefixes
  split_ifs <;> exact ⟨rfl, rfl, rfl⟩

/-- A registration that keeps the service is counted, but the tenant is at its limit. -/
theorem Counted.countKept (hmt : settings.multiTenantModeEnabled = true)
    (hlimit : settings.tenantServiceLimit ≠ 0) (h : core.Counted settings)
    {ptr : ServicePtr} (hptr : core.services.Registered ptr) {reg : ServiceRegistration}
    (htenant : reg.clientTenantGuid = (core.services.regs ptr).clientTenantGuid)
    (hnul : reg.isOps settings = false → NulFree reg.clientTenantGuid)
    (hfull : reg.isOps settings = false →
      serviceLimit settings ≤ core.tenantServices settings reg.clientTenantGuid) :
    (((core.addPrefixes settings reg).sendServiceRegistrationEvent settings env reg).countService
      settings env reg 1).Counted settings := by
  obtain ⟨hids, hregs, hcounts⟩ := @announce_same settings env core reg
  have hservices : ∀ t, (((core.addPrefixes settings reg).sendServiceRegistrationEvent settings env
      reg).countService settings env reg 1).tenantServices settings t =
      core.tenantServices settings t := by
    intro t
    rw [tenantServices, countService_services, ServiceRegistry.numServices, hids, hregs]
    rfl
  refine ⟨fun t => ?_, fun t => ?_, fun {g reg'} hfind hops => ?_⟩
  · rw [recordedCount_countService hmt hlimit hnul, hservices, recordedCount, hcounts]
    have hrecorded := h.recorded t
    rw [recordedCount] at hrecorded
    rw [hrecorded]
    split_ifs with ht
    · -- The count is at the limit before and after.
      have hcounts : countsFor settings t (core.services.regs ptr) = true := by
        rw [← ht, countsFor, countsFor, ServiceRegistration.isOps, ServiceRegistration.isOps,
          htenant]
      have hpos := tenantServices_pos hptr hcounts
      have hmax := h.limit t
      simp only [countsFor, Bool.and_eq_true, Bool.not_eq_true', beq_iff_eq] at ht
      have hfull' := hfull ht.1
      rw [ht.2] at hfull'
      unfold clampCount
      split_ifs <;> omega
    · rfl
  · rw [hservices]
    exact h.limit t
  · rw [countService_services, ServiceRegistry.findService, hids, hregs] at hfind
    exact h.nulFree hfind hops

theorem clientTenantGuid_refresh (r : ServiceRegistry) (ptr p : ServicePtr)
    (reg : ServiceRegistration) :
    ((r.refresh ptr reg).regs p).clientTenantGuid = (r.regs p).clientTenantGuid := by
  show (Function.update r.regs ptr _ p).clientTenantGuid = _
  by_cases hptr : p = ptr
  · rw [hptr, Function.update_self]
  · rw [Function.update_of_ne hptr]

theorem tenantServices_refresh (ptr : ServicePtr) (reg : ServiceRegistration) (t : Bytes) :
    tenantServices settings { core with services := core.services.refresh ptr reg } t =
      core.tenantServices settings t :=
  ServiceRegistry.numServices_refresh reg rfl

theorem Counted.refresh (h : core.Counted settings) (ptr : ServicePtr)
    (reg : ServiceRegistration) :
    Counted settings { core with services := core.services.refresh ptr reg } := by
  refine ⟨fun t => ?_, fun t => ?_, fun {g reg'} hfind hops => ?_⟩
  · rw [tenantServices_refresh]
    exact h.recorded t
  · rw [tenantServices_refresh]
    exact h.limit t
  · obtain ⟨p, hp, rfl⟩ := Option.map_eq_some_iff.mp hfind
    have hold : core.services.findService g = some (core.services.regs p) :=
      Option.map_eq_some_iff.mpr ⟨p, hp, rfl⟩
    simp only [ServiceRegistration.isOps, clientTenantGuid_refresh] at hops ⊢
    exact h.nulFree hold hops

theorem Counted.registerService (hmt : settings.multiTenantModeEnabled = true)
    (hlimit : settings.tenantServiceLimit ≠ 0) (h : core.Counted settings)
    (hindexed : core.services.Indexed) {ptr : ServicePtr} (hptr : core.services.Unused ptr)
    {reg : ServiceRegistration} (hcount : core.CountOk settings env (.registerService ptr reg))
    {core' : BrokerCore} (hregister : core.registerService settings env ptr reg = (.ok (), core')) :
    core'.Counted settings := by
  obtain ⟨stored, hguid, hstore, rfl⟩ := registerService_cases hregister
  obtain ⟨hids, hregs, hcounts⟩ := @announce_same settings env stored reg
  obtain ⟨hnew, rfl⟩ | ⟨existing, hexisting, ⟨hclient, htenant⟩, rfl⟩ := storeService_cases hstore
  · refine h.addCounted hmt hlimit hptr hnew (fun hops => ?_) hids hregs hcounts
    refine (hcount hops).1 ?_ hguid
    rw [ServiceRegistry.findService, hnew]
    rfl
  · have hregistered := hindexed.registered hexisting
    have hfound : core.services.findService reg.serviceGuid =
        some (core.services.regs existing) := by
      rw [ServiceRegistry.findService, hexisting]
      rfl
    have hops : (core.services.regs existing).isOps settings = reg.isOps settings := by
      rw [ServiceRegistration.isOps, ServiceRegistration.isOps, htenant]
    have hnul : reg.isOps settings = false → NulFree reg.clientTenantGuid := by
      intro hnot
      rw [htenant]
      exact h.nulFree hfound (hops.trans hnot)
    have hfull : KeepsService env reg (core.services.regs existing) → reg.isOps settings = false →
        serviceLimit settings ≤ core.tenantServices settings reg.clientTenantGuid :=
      fun hkeeps hnot => (hcount hnot).2 _ hfound hclient htenant hkeeps
    unfold updateService at hids hregs hcounts ⊢
    simp only at hids hregs hcounts ⊢
    split_ifs at hids hregs hcounts ⊢ with hignored hsame
    · exact h.countKept hmt hlimit hregistered htenant hnul (hfull (.inl hignored))
    · have hregistered' : (core.services.refresh existing reg).Registered existing := by
        rw [ServiceRegistry.Registered, (ServiceRegistry.regs_refresh reg existing).1]
        exact hregistered
      refine (h.refresh existing reg).countKept hmt hlimit hregistered' ?_ hnul fun hnot => ?_
      · rw [clientTenantGuid_refresh]
        exact htenant
      · rw [tenantServices_refresh]
        exact hfull (.inr hsame) hnot
    · -- The service is removed and counted down before it is added again.
      have hremoved : (core.unregisterService settings env reg.serviceGuid false).Counted settings :=
        h.unregisterService hmt hlimit hindexed reg.serviceGuid false
      obtain ⟨-, hfind⟩ := @unregisterService_spec settings env core hindexed reg.serviceGuid false
      refine hremoved.addCounted hmt hlimit (unused_unregisterService hptr _ _)
        (lookup_eq_none_of_findService (by rw [hfind, if_pos rfl])) (fun hnot => ⟨hnul hnot, ?_⟩)
        hids hregs hcounts
      have hcounts' : countsFor settings reg.clientTenantGuid (core.services.regs existing) =
          true := by
        simp [countsFor, hops, hnot, htenant]
      have hcount : core.tenantServices settings reg.clientTenantGuid =
          (core.unregisterService settings env reg.serviceGuid false).tenantServices settings
            reg.clientTenantGuid + 1 := by
        have hremove := @ServiceRegistry.numServices_doUnregisterService settings core.services
          existing (countsFor settings reg.clientTenantGuid) hregistered env.serviceOrder
        rw [if_pos hcounts'] at hremove
        rw [tenantServices, tenantServices, unregisterService_services, hexisting]
        exact hremove
      have hmax := h.limit reg.clientTenantGuid
      omega

/-- A client that removes a service of the ops tenant changes no count. -/
theorem Counted.unregisterServiceOf (h : core.Counted settings)
    (hindexed : core.services.Indexed) {serviceGuid clientGuid clientTenantGuid : Bytes}
    {fireEvent : Bool} (hcount : core.CountOk settings env
      (.unregisterServiceOf serviceGuid clientGuid clientTenantGuid fireEvent)) :
    (core.unregisterServiceOf settings env serviceGuid clientGuid clientTenantGuid
      fireEvent).Counted settings := by
  unfold BrokerCore.unregisterServiceOf
  cases hptr : core.services.servicesById.lookup serviceGuid with
  | none => exact h
  | some ptr =>
    simp only
    split_ifs with hown
    · have hfound : core.services.findService serviceGuid = some (core.services.regs ptr) := by
        rw [ServiceRegistry.findService, hptr]
        rfl
      have hops := hcount _ hfound hown.1 hown.2
      have hservices : ∀ t, (core.doUnregisterService settings env ptr fireEvent).tenantServices
          settings t = core.tenantServices settings t := by
        intro t
        have hremove := @ServiceRegistry.numServices_doUnregisterService settings core.services
          ptr (countsFor settings t) (hindexed.registered hptr) env.serviceOrder
        rw [if_neg (by simp [countsFor, hops]), add_zero] at hremove
        rw [tenantServices, doUnregisterService_services, ← hremove]
        rfl
      refine ⟨fun t => ?_, fun t => ?_, fun {g reg} hfind hnot => ?_⟩
      · rw [recordedCount, doUnregisterService_servicesPerTenant, hservices]
        exact h.recorded t
      · rw [hservices]
        exact h.limit t
      · rw [doUnregisterService_services,
          ServiceRegistry.findService_doUnregisterService] at hfind
        split_ifs at hfind
        exact h.nulFree hfind hnot
    · exact h

theorem Counted.removeExpired (hmt : settings.multiTenantModeEnabled = true)
    (hlimit : settings.tenantServiceLimit ≠ 0) (guids : List Bytes) (h : core.Counted settings)
    (hindexed : core.services.Indexed) :
    (guids.foldl (removeIfExpired settings env) core).Counted settings :=
  (removeExpired_keeps (I := fun c => c.services.Indexed ∧ c.Counted settings)
    (fun _ guid h => ⟨(unregisterService_spec h.1 guid true).1,
      h.2.unregisterService hmt hlimit h.1 guid true⟩) guids ⟨hindexed, h⟩).2

theorem sendServiceRegistrationEvents_servicesPerTenant :
    (core.sendServiceRegistrationEvents settings env).servicesPerTenant =
      core.servicesPerTenant :=
  sendServiceRegistrationEvents_keeps (I := fun c => c.servicesPerTenant = core.servicesPerTenant)
    (fun _ _ h => (sendServiceEvent_servicesPerTenant _ _ _).trans h) rfl

theorem Counted.serviceStep (hmt : settings.multiTenantModeEnabled = true)
    (hlimit : settings.tenantServiceLimit ≠ 0) (h : core.Counted settings)
    (hindexed : core.services.Indexed) {op : ServiceOp} (hop : core.OpOk op)
    (hcount : core.CountOk settings env op) :
    (core.serviceStep settings env op).Counted settings := by
  cases op with
  | registerService ptr reg =>
    simp only [BrokerCore.serviceStep]
    cases hres : core.registerService settings env ptr reg with
    | mk res core' =>
      cases res with
      | error e =>
        rw [registerService_error hres]
        exact h
      | ok u => exact h.registerService hmt hlimit hindexed hop hcount hres
  | unregisterService guid fireEvent =>
    exact h.unregisterService hmt hlimit hindexed guid fireEvent
  | unregisterServiceOf guid clientGuid clientTenantGuid fireEvent =>
    exact h.unregisterServiceOf hindexed hcount
  | checkServiceTtls => exact h.removeExpired hmt hlimit _ hindexed
  | sendServiceRegistrationEvents =>
    refine h.of_same ?_ ?_ sendServiceRegistrationEvents_servicesPerTenant
    · rw [BrokerCore.serviceStep, sendServiceRegistrationEvents_services]
    · rw [BrokerCore.serviceStep, sendServiceRegistrationEvents_services]
  | getNextService topic tenantGuid =>
    refine h.of_same ?_ ?_ rfl
    · exact ServiceRegistry.getNextService_servicesById _
    · show (core.services.getNextService settings env topic tenantGuid core.registry).2.1.regs = _
      unfold ServiceRegistry.getNextService
      split <;> rfl
  | setServiceZonesByNode zonesByNode => exact h.of_same rfl rfl rfl
  | clearServiceZones => exact h.of_same rfl rfl rfl

end

end BrokerCore

end DxlBroker
