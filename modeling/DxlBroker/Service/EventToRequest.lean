import DxlBroker.Service.RegistryRuns

/-!
# Events that become requests

The registry keeps a map from event topics to the prefixes of the requests that they become.  A
registration adds its entries, and a removal builds the map again from the services that remain.  A
registration that is ignored adds its entries all the same, although no service of them is stored; in
a run without such entries the map is what the registered services say.
-/

namespace DxlBroker

open Bytes Unordered

namespace ServiceRegistry

/-- The meta-data of a service turns events on the topic into requests with the prefix. -/
def Gives (settings : BrokerSettings) (reg : ServiceRegistration) (topic requestPrefix : Bytes) :
    Prop :=
  mayTranslateEvents settings reg = true ∧
    reg.metaData.lookup eventToRequestPrefixProp = some requestPrefix ∧
    ∃ entry ∈ reg.metaData.pairs, startsWith eventToRequestTopicProp entry.1 = true ∧
      isEventTopic entry.2 = true ∧ entry.2 = topic

/-- What the registered services say. -/
def Given (settings : BrokerSettings) (r : ServiceRegistry) (topic requestPrefix : Bytes) : Prop :=
  ∃ guid reg, r.findService guid = some reg ∧ Gives settings reg topic requestPrefix

/-- The map of the registry is what the registered services say. -/
def PrefixesRight (settings : BrokerSettings) (r : ServiceRegistry) : Prop :=
  Map.Selects (Given settings r) r.eventToRequestPrefix

/-! ### The entries of one service -/

section

variable {settings : BrokerSettings} {reg : ServiceRegistration}

theorem selects_addEventTopics {G : Bytes → Bytes → Prop} (requestTopic : Bytes)
    (entries : List (Bytes × Bytes)) {prefixes : Map Bytes Bytes} (h : Map.Selects G prefixes) :
    Map.Selects (fun topic p => G topic p ∨ (p = requestTopic ∧ ∃ entry ∈ entries,
        startsWith eventToRequestTopicProp entry.1 = true ∧ isEventTopic entry.2 = true ∧
          entry.2 = topic))
      (entries.foldl (addEventTopic requestTopic) prefixes) := by
  induction entries generalizing G prefixes with
  | nil => exact h.congr fun topic p => by simp
  | cons entry entries ih =>
    rw [List.foldl_cons]
    unfold addEventTopic
    split_ifs with hadd
    · rw [Bool.and_eq_true] at hadd
      refine (ih (h.insert entry.2 requestTopic)).congr fun topic p => ?_
      simp only [List.exists_mem_cons_iff, hadd, true_and]
      constructor
      · rintro (hG | ⟨rfl, rfl | hrest⟩)
        · exact .inl (.inl hG)
        · exact .inl (.inr ⟨rfl, rfl⟩)
        · exact .inr ⟨rfl, hrest⟩
      · rintro ((hG | ⟨rfl, rfl⟩) | ⟨rfl, hrest⟩)
        · exact .inl hG
        · exact .inr ⟨rfl, .inl rfl⟩
        · exact .inr ⟨rfl, .inr hrest⟩
    · refine (ih h).congr fun topic p => ?_
      have hnot : ¬ (startsWith eventToRequestTopicProp entry.1 = true ∧
          isEventTopic entry.2 = true ∧ entry.2 = topic) :=
        fun hentry => hadd (by rw [hentry.1, hentry.2.1]; rfl)
      simp only [List.exists_mem_cons_iff, hnot, false_or]

/-- The loop sets the entry of every topic that it lists. -/
theorem lookup_addEventTopics {requestTopic topic : Bytes} {entries : List (Bytes × Bytes)}
    {prefixes : Map Bytes Bytes}
    (h : prefixes.lookup topic = some requestTopic ∨ ∃ entry ∈ entries,
      startsWith eventToRequestTopicProp entry.1 = true ∧ isEventTopic entry.2 = true ∧
        entry.2 = topic) :
    (entries.foldl (addEventTopic requestTopic) prefixes).lookup topic = some requestTopic := by
  induction entries generalizing prefixes with
  | nil =>
    rcases h with h | ⟨entry, hentry, -⟩
    · exact h
    · cases hentry
  | cons entry entries ih =>
    refine ih ?_
    rw [List.exists_mem_cons_iff] at h
    rcases h with h | ⟨hstarts, hevent, rfl⟩ | hrest
    · left
      unfold addEventTopic
      split_ifs
      · by_cases htopic : topic = entry.2
        · rw [htopic, AList.lookup_insert]
        · rw [AList.lookup_insert_ne htopic, h]
      · exact h
    · left
      rw [addEventTopic, hstarts, hevent]
      exact AList.lookup_insert _
    · exact .inr hrest

/-- The prefixes after those of a service were added, if its events may become requests. -/
def withPrefixes (settings : BrokerSettings) (prefixes : Map Bytes Bytes)
    (reg : ServiceRegistration) : Map Bytes Bytes :=
  if mayTranslateEvents settings reg then addEventToRequestPrefix settings prefixes reg else prefixes

/-- A service whose events may become requests passes the check of `addEventToRequestPrefix`. -/
theorem addEventToRequestPrefix_of_may (h : mayTranslateEvents settings reg = true)
    (prefixes : Map Bytes Bytes) :
    addEventToRequestPrefix settings prefixes reg =
      ((reg.metaData.lookup eventToRequestPrefixProp).map fun requestTopic =>
        reg.metaData.pairs.foldl (addEventTopic requestTopic) prefixes).getD prefixes := by
  have hcheck : (!reg.isOps settings && !reg.managedClient) = false := by
    rw [mayTranslateEvents, Bool.and_eq_true] at h
    rw [← Bool.not_or, h.2]
    rfl
  rw [addEventToRequestPrefix, hcheck]
  cases reg.metaData.lookup eventToRequestPrefixProp <;> rfl

theorem selects_withPrefixes {G : Bytes → Bytes → Prop} {prefixes : Map Bytes Bytes}
    (h : Map.Selects G prefixes) :
    Map.Selects (fun topic p => G topic p ∨ Gives settings reg topic p)
      (withPrefixes settings prefixes reg) := by
  unfold withPrefixes
  split_ifs with hmay
  · rw [addEventToRequestPrefix_of_may hmay]
    cases hvalue : reg.metaData.lookup eventToRequestPrefixProp with
    | none => exact h.congr fun topic p => by simp [Gives, hvalue]
    | some requestTopic =>
      refine (selects_addEventTopics requestTopic _ h).congr fun topic p => ?_
      simp only [Gives, hmay, hvalue, Option.some.injEq, true_and]
      rw [eq_comm]
  · exact h.congr fun topic p => by simp [Gives, hmay]

theorem lookup_withPrefixes {topic requestPrefix : Bytes}
    (h : Gives settings reg topic requestPrefix) (prefixes : Map Bytes Bytes) :
    (withPrefixes settings prefixes reg).lookup topic = some requestPrefix := by
  obtain ⟨hmay, hvalue, hentry⟩ := h
  rw [withPrefixes, if_pos hmay, addEventToRequestPrefix_of_may hmay, hvalue]
  exact lookup_addEventTopics (.inr hentry)

/-- Two registrations with the same tenant, kind of client and meta-data give the same. -/
theorem gives_congr {reg' : ServiceRegistration}
    (htenant : reg'.clientTenantGuid = reg.clientTenantGuid)
    (hmanaged : reg'.managedClient = reg.managedClient)
    (hpairs : ∀ entry, entry ∈ reg'.metaData.pairs ↔ entry ∈ reg.metaData.pairs)
    {topic requestPrefix : Bytes} :
    Gives settings reg' topic requestPrefix ↔ Gives settings reg topic requestPrefix := by
  have hmay : mayTranslateEvents settings reg' = mayTranslateEvents settings reg := by
    rw [mayTranslateEvents, mayTranslateEvents, ServiceRegistration.isOps,
      ServiceRegistration.isOps, htenant, hmanaged]
  have hlookup : reg'.metaData.lookup eventToRequestPrefixProp = some requestPrefix ↔
      reg.metaData.lookup eventToRequestPrefixProp = some requestPrefix := by
    simpa only [Map.mem_pairs] using hpairs (eventToRequestPrefixProp, requestPrefix)
  simp only [Gives, hmay, hlookup, hpairs]

end

/-! ### Adding and removing -/

section

variable {settings : BrokerSettings} {r : ServiceRegistry} {ptr : ServicePtr}

theorem selects_foldl {G : Bytes → Bytes → Prop} (regs : List ServiceRegistration)
    {prefixes : Map Bytes Bytes} (h : Map.Selects G prefixes) :
    Map.Selects (fun topic p => G topic p ∨ ∃ reg ∈ regs, Gives settings reg topic p)
      (regs.foldl (withPrefixes settings) prefixes) := by
  induction regs generalizing G prefixes with
  | nil => exact h.congr fun topic p => by simp
  | cons reg regs ih =>
    refine (ih (@selects_withPrefixes settings reg G prefixes h)).congr fun topic p => ?_
    rw [List.exists_mem_cons_iff, or_assoc]

/-- The map that is built again is right, whatever it was before. -/
theorem prefixesRight_rebuild (order : IterOrder Bytes) :
    (r.rebuildEventToRequestPrefixMap settings order).PrefixesRight settings := by
  refine (@selects_foldl settings _ _ _ Map.selects_empty).congr fun topic p => ?_
  simp only [false_or, List.mem_filterMap, IterOrder.mem_arrange]
  constructor
  · rintro ⟨guid, reg, hfind, hgives⟩
    refine ⟨reg, ⟨guid, ?_, hfind⟩, hgives⟩
    by_contra hkey
    have hnone : r.findService guid = none := by
      rw [findService, AList.lookup_eq_none.mpr fun hmem => hkey (AList.mem_keys.mp hmem)]
      rfl
    exact absurd (hnone.symm.trans hfind) (Option.some_ne_none reg).symm
  · rintro ⟨reg, ⟨guid, -, hfind⟩, hgives⟩
    exact ⟨guid, reg, hfind, hgives⟩

/-- What a change of one service does to what the services say. -/
theorem given_of_one {r' : ServiceRegistry} {guid : Bytes}
    (hother : ∀ g, g ≠ guid → r'.findService g = r.findService g) {topic p : Bytes} :
    Given settings r' topic p ↔
      (∃ g reg, g ≠ guid ∧ r.findService g = some reg ∧ Gives settings reg topic p) ∨
        ∃ reg, r'.findService guid = some reg ∧ Gives settings reg topic p := by
  constructor
  · rintro ⟨g, reg, hfind, hgives⟩
    by_cases hg : g = guid
    · exact .inr ⟨reg, hg ▸ hfind, hgives⟩
    · exact .inl ⟨g, reg, hg, hother g hg ▸ hfind, hgives⟩
  · rintro (⟨g, reg, hg, hfind, hgives⟩ | ⟨reg, hfind, hgives⟩)
    · exact ⟨g, reg, (hother g hg).trans hfind, hgives⟩
    · exact ⟨guid, reg, hfind, hgives⟩

/-- A service is removed: either it said nothing, or the map is built again. -/
theorem PrefixesRight.doUnregisterService (h : r.PrefixesRight settings) (hptr : r.Registered ptr)
    (order : IterOrder Bytes) : (r.doUnregisterService settings order ptr).PrefixesRight settings := by
  have hfind := @findService_doUnregisterService settings r ptr order
  by_cases hbuild : ((!settings.multiTenantModeEnabled || (r.regs ptr).isOps settings) &&
      ((r.regs ptr).metaData.lookup eventToRequestPrefixProp).isSome) = true
  · rw [ServiceRegistry.doUnregisterService, if_pos hbuild]
    exact prefixesRight_rebuild order
  · have hsilent : ∀ topic p, ¬ Gives settings (r.regs ptr) topic p := by
      rintro topic p ⟨hmay, hvalue, -⟩
      rw [mayTranslateEvents, Bool.and_eq_true] at hmay
      exact hbuild (by rw [hmay.1, hvalue]; rfl)
    have hmap : (r.doUnregisterService settings order ptr).eventToRequestPrefix =
        r.eventToRequestPrefix := by
      rw [ServiceRegistry.doUnregisterService, if_neg hbuild]
      rfl
    rw [PrefixesRight, hmap]
    refine h.congr fun topic p => ?_
    constructor
    · rintro ⟨g, reg, hreg, hgives⟩
      rw [hfind] at hreg
      split_ifs at hreg
      exact ⟨g, reg, hreg, hgives⟩
    · rintro ⟨g, reg, hreg, hgives⟩
      refine ⟨g, reg, ?_, hgives⟩
      rw [hfind, if_neg]
      · exact hreg
      · rintro rfl
        rw [findService, show r.servicesById.lookup (r.regs ptr).serviceGuid = some ptr from hptr,
          Option.map_some, Option.some.injEq] at hreg
        exact hsilent topic p (hreg ▸ hgives)

/-- A service is stored or renewed, and its prefixes are added. -/
theorem PrefixesRight.put {r' : ServiceRegistry} {guid : Bytes} {reg : ServiceRegistration}
    (h : r.PrefixesRight settings)
    (hother : ∀ g, g ≠ guid → r'.findService g = r.findService g)
    (hold : ∀ old, r.findService guid = some old →
      ∀ topic p, Gives settings old topic p → Gives settings reg topic p)
    (hnew : ∃ new, r'.findService guid = some new ∧
      ∀ topic p, Gives settings new topic p ↔ Gives settings reg topic p)
    (hmap : r'.eventToRequestPrefix = withPrefixes settings r.eventToRequestPrefix reg) :
    r'.PrefixesRight settings := by
  obtain ⟨new, hfind, hgives⟩ := hnew
  rw [PrefixesRight, hmap]
  refine (selects_withPrefixes h).congr fun topic p => ?_
  rw [given_of_one hother, @given_of_one settings r r guid fun _ _ => rfl]
  simp only [hfind, Option.some.injEq, exists_eq_left', hgives]
  constructor
  · rintro (hg | hg)
    · exact .inl (.inl hg)
    · exact .inr hg
  · rintro ((hg | ⟨old, hold', hg⟩) | hg)
    · exact .inl hg
    · exact .inr (hold old hold' topic p hg)
    · exact .inr hg

end

end ServiceRegistry

namespace BrokerCore

open ServiceRegistry

section

variable (settings : BrokerSettings) (env : ServiceEnv) (core : BrokerCore)

/-- The condition on a step.  A registration that is ignored, because it comes from another broker
and lives shorter than the service that is there, says only what the registered services say. -/
def PrefixOk : ServiceOp → Prop
  | .registerService _ reg => ∀ old, core.services.findService reg.serviceGuid = some old →
      reg.serviceGuid ≠ [] → reg.clientGuid = old.clientGuid →
      reg.clientTenantGuid = old.clientTenantGuid → old.brokerGuid ≠ reg.brokerGuid →
      reg.ttlMins < old.getAdjustedTtlMins env.time →
      ∀ topic p, Gives settings reg topic p → Given settings core.services topic p
  | _ => True

end

/-- The states reached by steps that meet the condition, with anything else in between. -/
inductive ReachedPrefixes (settings : BrokerSettings) : BrokerCore → Prop
  | init {core : BrokerCore} (hservices : core.services = {})
      (hcounts : core.servicesPerTenant = ∅) : ReachedPrefixes settings core
  | step {core : BrokerCore} (h : ReachedPrefixes settings core) (env : ServiceEnv) (op : ServiceOp)
      (hop : core.OpOk op) (hcond : core.PrefixOk settings env op) :
      ReachedPrefixes settings (core.serviceStep settings env op)
  | other {core core' : BrokerCore} (h : ReachedPrefixes settings core)
      (hservices : core'.services = core.services)
      (hcounts : core'.servicesPerTenant = core.servicesPerTenant) : ReachedPrefixes settings core'

theorem ReachedPrefixes.reached {settings : BrokerSettings} {core : BrokerCore}
    (h : ReachedPrefixes settings core) : Reached settings core := by
  induction h with
  | init hservices hcounts => exact .init hservices hcounts
  | step _ env op hop _ ih => exact .step ih env op hop
  | other _ hservices hcounts ih => exact .other ih hservices hcounts

section

variable {settings : BrokerSettings} {env : ServiceEnv} {core : BrokerCore}

/-! ### Registering -/

theorem addPrefixes_services (reg : ServiceRegistration) :
    (core.addPrefixes settings reg).services = { core.services with
      eventToRequestPrefix := withPrefixes settings core.services.eventToRequestPrefix reg } := by
  unfold addPrefixes withPrefixes
  split_ifs <;> rfl

theorem prefixesRight_add {ptr : ServicePtr} {reg : ServiceRegistration} {r : ServiceRegistry}
    (h : r.PrefixesRight settings) (hptr : r.Unused ptr)
    (hnew : r.findService reg.serviceGuid = none) :
    PrefixesRight settings { r.addService settings ptr reg with
      eventToRequestPrefix := withPrefixes settings r.eventToRequestPrefix reg } := by
  have hfind : ∀ g, ServiceRegistry.findService { r.addService settings ptr reg with
      eventToRequestPrefix := withPrefixes settings r.eventToRequestPrefix reg } g =
      if g = reg.serviceGuid then some reg else r.findService g :=
    @findService_addService settings r ptr hptr reg
  refine @PrefixesRight.put settings r _ reg.serviceGuid reg h (fun g hg => ?_) (fun old hold => ?_)
    ⟨reg, ?_, fun _ _ => Iff.rfl⟩ rfl
  · rw [hfind, if_neg hg]
  · rw [hnew] at hold
    cases hold
  · rw [hfind, if_pos rfl]

theorem prefixesRight_removal : KeptByRemoval settings (PrefixesRight settings) :=
  fun _ _ order _ hptr h => h.doUnregisterService hptr order

/-- What the comparison of `updateService` says about the prefixes. -/
theorem sameData_prefixes {old reg : ServiceRegistration} (h : old.sameData reg = true) :
    old.managedClient = reg.managedClient ∧
      ∀ entry, entry ∈ old.metaData.pairs ↔ entry ∈ reg.metaData.pairs := by
  simp only [ServiceRegistration.sameData, Bool.and_eq_true, beq_iff_eq] at h
  refine ⟨h.1.2, fun entry => ?_⟩
  rw [← List.mem_toFinset, h.1.1.1.2, List.mem_toFinset]

theorem prefixesRight_refresh (h : core.services.PrefixesRight settings)
    (hindexed : core.services.Indexed) {existing : ServicePtr} {reg : ServiceRegistration}
    (hexisting : core.services.servicesById.lookup reg.serviceGuid = some existing)
    (htenant : reg.clientTenantGuid = (core.services.regs existing).clientTenantGuid)
    (hsame : (core.services.regs existing).sameData reg = true) :
    PrefixesRight settings { core.services.refresh existing reg with
      eventToRequestPrefix :=
        withPrefixes settings core.services.eventToRequestPrefix reg } := by
  obtain ⟨hmanaged, hpairs⟩ := sameData_prefixes hsame
  refine @PrefixesRight.put settings core.services _ reg.serviceGuid reg h (fun g hg => ?_)
    (fun old hold topic p hgives => ?_)
    ⟨{ core.services.regs existing with
        ttlMins := reg.ttlMins, metaData := reg.metaData, regTime := reg.regTime }, ?_,
      fun topic p => gives_congr ?_ ?_ fun entry => ?_⟩ rfl
  · exact findService_refresh hindexed hexisting reg hg
  · rw [findService, hexisting, Option.map_some, Option.some.injEq] at hold
    subst hold
    exact (gives_congr htenant.symm hmanaged hpairs).mp hgives
  · show (core.services.servicesById.lookup reg.serviceGuid).map
      (Function.update core.services.regs existing _) = _
    rw [hexisting, Option.map_some, Function.update_self]
  · exact htenant.symm
  · exact hmanaged
  · exact Iff.rfl

/-- An update keeps the map right, unless the registration is ignored. -/
theorem prefixesRight_updateService (h : core.services.PrefixesRight settings)
    (hindexed : core.services.Indexed) {existing ptr : ServicePtr}
    (hptr : core.services.Unused ptr) {reg : ServiceRegistration}
    (hexisting : core.services.servicesById.lookup reg.serviceGuid = some existing)
    (htenant : reg.clientTenantGuid = (core.services.regs existing).clientTenantGuid)
    (hheeded : ¬ ((core.services.regs existing).brokerGuid ≠ reg.brokerGuid ∧
      reg.ttlMins < (core.services.regs existing).getAdjustedTtlMins env.time)) :
    PrefixesRight settings
      { (core.updateService settings env existing ptr reg).services with
        eventToRequestPrefix := withPrefixes settings
          (core.updateService settings env existing ptr reg).services.eventToRequestPrefix reg } := by
  unfold updateService
  simp only
  rw [if_neg hheeded]
  split_ifs with hsame
  · exact prefixesRight_refresh h hindexed hexisting htenant hsame
  · obtain ⟨-, hfind⟩ := @unregisterService_spec settings env core hindexed reg.serviceGuid false
    exact prefixesRight_add (prefixesRight_removal.unregisterService hindexed h reg.serviceGuid false)
      (unused_unregisterService hptr _ _) (by rw [hfind, if_pos rfl])

/-- The prefixes of an ignored registration make the map wrong, unless other services say the
same. -/
theorem prefixesRight_ignored {r : ServiceRegistry} (h : r.PrefixesRight settings)
    (reg : ServiceRegistration) :
    PrefixesRight settings { r with
        eventToRequestPrefix := withPrefixes settings r.eventToRequestPrefix reg } ↔
      ∀ topic p, Gives settings reg topic p → Given settings r topic p := by
  constructor
  · intro hright topic p hgives
    exact hright.backed topic p (lookup_withPrefixes hgives _)
  · intro hgiven
    refine (selects_withPrefixes h).congr fun topic p => ?_
    constructor
    · exact Or.inl
    · rintro (hg | hg)
      · exact hg
      · exact hgiven topic p hg

theorem prefixesRight_registerService (h : core.services.PrefixesRight settings)
    (hindexed : core.services.Indexed) {ptr : ServicePtr} (hptr : core.services.Unused ptr)
    (reg : ServiceRegistration) :
    (core.registerService settings env ptr reg).2.services.PrefixesRight settings ↔
      core.PrefixOk settings env (.registerService ptr reg) := by
  by_cases hguid : reg.serviceGuid = []
  · rw [registerService, if_pos hguid]
    exact ⟨fun _ _ _ hne => absurd hguid hne, fun _ => h⟩
  cases hexisting : core.services.servicesById.lookup reg.serviceGuid with
  | none =>
    have hstore : core.storeService settings env ptr reg =
        (.ok (), core.addService settings ptr reg) := by
      rw [storeService, hexisting]
    have hfind : core.services.findService reg.serviceGuid = none := by
      rw [findService, hexisting]
      rfl
    rw [registerService_services hguid hstore, addPrefixes_services]
    refine ⟨fun _ old hold => ?_, fun _ => prefixesRight_add h hptr hfind⟩
    rw [hfind] at hold
    cases hold
  | some existing =>
    have hfind : core.services.findService reg.serviceGuid =
        some (core.services.regs existing) := by
      rw [findService, hexisting]
      rfl
    by_cases hsame : reg.clientGuid = (core.services.regs existing).clientGuid ∧
        reg.clientTenantGuid = (core.services.regs existing).clientTenantGuid
    · have hstore : core.storeService settings env ptr reg =
          (.ok (), core.updateService settings env existing ptr reg) := by
        rw [storeService, hexisting]
        exact if_pos hsame
      rw [registerService_services hguid hstore, addPrefixes_services, PrefixOk, hfind]
      simp only [Option.some.injEq, forall_eq', hguid, hsame, ne_eq, not_false_eq_true,
        forall_const]
      by_cases hignored : (core.services.regs existing).brokerGuid ≠ reg.brokerGuid ∧
          reg.ttlMins < (core.services.regs existing).getAdjustedTtlMins env.time
      · rw [show core.updateService settings env existing ptr reg = core from if_pos hignored,
          prefixesRight_ignored h]
        exact ⟨fun hgiven _ _ => hgiven, fun hgiven => hgiven hignored.1 hignored.2⟩
      · refine ⟨fun _ hbroker hshorter => absurd ⟨hbroker, hshorter⟩ hignored, fun _ => ?_⟩
        exact prefixesRight_updateService h hindexed hptr hexisting hsame.2 hignored
    · have hstore : core.storeService settings env ptr reg =
          (.error "Service registration client/tenant GUID mismatch", core) := by
        rw [storeService, hexisting]
        exact if_neg hsame
      rw [registerService, if_neg hguid, hstore, PrefixOk, hfind]
      simp only [Option.some.injEq, forall_eq']
      exact ⟨fun _ _ hclient htenant => absurd ⟨hclient, htenant⟩ hsame, fun _ => h⟩

/-! ### Runs -/

/-- One operation keeps the map right exactly if it meets the condition. -/
theorem prefixesRight_serviceStep (h : core.services.PrefixesRight settings)
    (hindexed : core.services.Indexed) {op : ServiceOp} (hop : core.OpOk op) :
    (core.serviceStep settings env op).services.PrefixesRight settings ↔
      core.PrefixOk settings env op := by
  have hkept := @prefixesRight_removal settings
  cases op with
  | registerService ptr reg => exact prefixesRight_registerService h hindexed hop reg
  | unregisterService guid fireEvent =>
    exact iff_of_true (hkept.unregisterService hindexed h guid fireEvent) trivial
  | unregisterServiceOf guid clientGuid clientTenantGuid fireEvent =>
    exact iff_of_true (hkept.unregisterServiceOf hindexed h guid clientGuid clientTenantGuid
      fireEvent) trivial
  | checkServiceTtls => exact iff_of_true (hkept.removeExpired _ hindexed h) trivial
  | sendServiceRegistrationEvents =>
    refine iff_of_true ?_ trivial
    rw [serviceStep, sendServiceRegistrationEvents_services]
    exact h
  | getNextService topic tenantGuid =>
    refine iff_of_true ?_ trivial
    show PrefixesRight settings (core.services.getNextService settings env topic tenantGuid
      core.registry).2.1
    unfold ServiceRegistry.getNextService
    split <;> exact h
  | setServiceZonesByNode zonesByNode => exact iff_of_true h trivial
  | clearServiceZones => exact iff_of_true h trivial

theorem ReachedPrefixes.prefixesRight (h : ReachedPrefixes settings core) :
    core.services.PrefixesRight settings := by
  induction h with
  | init hservices _ =>
    rw [hservices]
    refine Map.selects_empty.congr fun topic p => iff_of_false ?_ id
    rintro ⟨guid, reg, hfind, -⟩
    cases hfind
  | step hreached env op hop hcond ih =>
    exact (prefixesRight_serviceStep ih hreached.reached.indexed.1 hop).mpr hcond
  | other _ hservices _ ih =>
    rw [hservices]
    exact ih

/-- **The map from events to requests.**  In every state of a run whose steps meet the condition
`PrefixOk`, each entry of the map is what the meta-data of a registered service says whose events may
become requests, and each event topic of such a service with a prefix is a key of the map.  A further
step keeps this exactly if it meets the condition too. -/
theorem ReachedPrefixes.map_exact (h : ReachedPrefixes settings core) :
    Map.Selects (Given settings core.services) core.services.eventToRequestPrefix ∧
      ∀ env op, core.OpOk op →
        (Map.Selects (Given settings (core.serviceStep settings env op).services)
            (core.serviceStep settings env op).services.eventToRequestPrefix ↔
          core.PrefixOk settings env op) :=
  ⟨h.prefixesRight, fun _ _ hop =>
    prefixesRight_serviceStep h.prefixesRight h.reached.indexed.1 hop⟩

end

/-- The service `S` with meta-data that turns events on `/e` into requests. -/
def translatingService : ServiceRegistration :=
  { plainService with
    metaData := AList.insert eventToRequestPrefixProp (lit "/r")
      (AList.insert (eventToRequestTopicProp ++ lit "1") (lit "/e") ∅) }

/-- The service is registered with its meta-data. -/
def translatingCore : BrokerCore :=
  serviceStep plainSettings (plainEnv 0) {} (.registerService 0 translatingService)

theorem translatingCore_map_exact :
    ReachedPrefixes plainSettings translatingCore ∧
      translatingCore.services.getRequestPrefixForEvent (lit "/e") = lit "/r" ∧
      Map.Selects (Given plainSettings translatingCore.services)
        translatingCore.services.eventToRequestPrefix := by
  have h : ReachedPrefixes plainSettings translatingCore := by
    refine .step (.init rfl rfl) (plainEnv 0) (.registerService 0 translatingService)
      (fun _ h => nomatch h) fun old hold => ?_
    rw [show ({} : BrokerCore).services.findService translatingService.serviceGuid = none from rfl]
      at hold
    cases hold
  exact ⟨h, by decide, h.map_exact.1⟩

/-- The service without meta-data is registered, and another broker registers it for one minute with
the meta-data, which is ignored. -/
def ignoredCore : BrokerCore :=
  serviceStep plainSettings (plainEnv 0) plainCore
    (.registerService 1 { translatingService with brokerGuid := lit "B", ttlMins := 1 })

/-- Events on `/e` become requests although no registered service says so. -/
theorem ignoredCore_map_stale :
    Reached plainSettings ignoredCore ∧
      ignoredCore.services.eventToRequestPrefix.lookup (lit "/e") = some (lit "/r") ∧
      ¬ Given plainSettings ignoredCore.services (lit "/e") (lit "/r") := by
  have h : Reached plainSettings plainCore :=
    .step (.init rfl rfl) (plainEnv 0) (.registerService 0 plainService) fun _ h => nomatch h
  have hunused : plainCore.services.Unused 1 := by decide
  refine ⟨h.step (plainEnv 0) _ hunused, by decide, ?_⟩
  rintro ⟨guid, reg, hfind, -, hvalue, -⟩
  obtain ⟨ptr, hptr, rfl⟩ := Option.map_eq_some_iff.mp hfind
  have hnone : ∀ e ∈ ignoredCore.services.servicesById.entries,
      (ignoredCore.services.regs e.2).metaData.lookup eventToRequestPrefixProp = none := by decide
  rw [hnone ⟨guid, ptr⟩ (AList.mem_lookup_iff.mp hptr)] at hvalue
  cases hvalue

end BrokerCore

end DxlBroker
