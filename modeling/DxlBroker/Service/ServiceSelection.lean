import DxlBroker.Registry.NextHop
import DxlBroker.Service.ServiceZones

/-!
# The service for a request

`getNextService` scans the groups of a topic in their order, each in a circle from where its last scan
stopped.  As long as the groups are not too large, it finds a service exactly when one of the topic can
take the request, and then one of the first group that has such a service.
-/

namespace DxlBroker

open Bytes Unordered Selection

/-- The services of a group that its scan does not get to when the size of the group does not fit
into an `int`. -/
def ZoneServices.untried (z : ZoneServices) : List ServicePtr :=
  (z.services.rotate z.nextService).drop z.tries

namespace ServiceRegistry

/-! ### Services that can take a request -/

/-- A way from one broker to another, both of which have a record. -/
def Reaches (brokers : BrokerTable) (source target : Bytes) : Prop :=
  brokers.lookup source ≠ none ∧ brokers.lookup target ≠ none ∧ brokers.Leads source target

/-- A service that is local or can be reached, has not expired, is authorized, and is available to
the tenant. -/
def Eligible (settings : BrokerSettings) (env : ServiceEnv) (topic tenantGuid : Bytes)
    (brokers : BrokerTable) (reg : ServiceRegistration) : Prop :=
  (reg.isLocal settings = true ∨ Reaches brokers (cstr settings.guid) reg.brokerGuid) ∧
    reg.isExpired settings env.time = false ∧ env.isAuthorizedToSubscribe reg topic = true ∧
    reg.isServiceAvailable settings tenantGuid = true

/-- At some time, for some tenant and with some connections of the brokers the service can take a
request. -/
def Offerable (settings : BrokerSettings) (topic : Bytes) (reg : ServiceRegistration) : Prop :=
  ∃ env tenantGuid registry, BrokerRegistry.Reached settings registry ∧
    Eligible settings env topic tenantGuid registry.brokers reg

section

variable {settings : BrokerSettings} {env : ServiceEnv} {topic tenantGuid : Bytes}
  {regs : ServicePtr → ServiceRegistration} {brokers : BrokerTable}

/-- The test of a service decides this, and what it caches about the ways does not matter. -/
theorem isEligible_decides :
    Decides (fun ptr => isEligible settings env topic tenantGuid (regs ptr))
      (fun registry : BrokerRegistry => registry.RoutesRight ∧ registry.brokers = brokers)
      (fun ptr => Eligible settings env topic tenantGuid brokers (regs ptr)) := by
  rintro ptr registry ⟨hroutes, rfl⟩
  simp only [isEligible, Eligible]
  by_cases hlocal : (regs ptr).isLocal settings = true
  · rw [if_pos hlocal]
    simp [hlocal, hroutes, and_assoc]
  · obtain ⟨hroutes', hnone, -⟩ := @BrokerRegistry.RoutesRight.getNextBroker registry
      env.registryEnv hroutes (cstr settings.guid) (regs ptr).brokerGuid
    have hreaches : (!(registry.getNextBroker env.registryEnv (cstr settings.guid)
        (regs ptr).brokerGuid).1.isEmpty) = true ↔
        Reaches registry.brokers (cstr settings.guid) (regs ptr).brokerGuid := by
      rw [Bool.not_eq_true', ← Bool.not_eq_true, List.isEmpty_iff, hnone, Reaches]
      tauto
    rw [if_neg hlocal]
    refine ⟨?_, hroutes', (BrokerRegistry.getNextBroker_frame _ _ _ _).1⟩
    simp only [Bool.and_eq_true, hreaches, hlocal, Bool.false_eq_true, false_or,
      Bool.not_eq_true', and_assoc]

theorem Registered.findService {r : ServiceRegistry} {ptr : ServicePtr} (h : r.Registered ptr) :
    r.findService (r.regs ptr).serviceGuid = some (r.regs ptr) := by
  rw [ServiceRegistry.findService, h]
  rfl

/-! ### The scan of the groups -/

theorem nextInZone_eq_scan (z : ZoneServices) (tries position : ℕ) (registry : BrokerRegistry) :
    nextInZone settings env topic tenantGuid regs z tries position registry =
      scan (fun ptr => isEligible settings env topic tenantGuid (regs ptr)) z.services tries
        position registry := by
  induction tries generalizing position registry with
  | zero => rfl
  | succ tries ih =>
    unfold nextInZone scan
    simp only [ih]
    cases z.services[if position = z.services.length then 0 else position]? with
    | none => rfl
    | some ptr => rfl

/-- The size of a group fits into an `int`, so each of its services is tried. -/
theorem tries_eq {z : ZoneServices} (hfew : z.services.length < 2 ^ 31) :
    z.tries = z.services.length := by
  rw [ZoneServices.tries, Int32.toInt_ofNat_of_lt hfew, Int.toNat_natCast]

theorem tries_le (z : ZoneServices) : z.tries ≤ z.services.length := by
  have hle : (z.services.length : ℤ).bmod (2 ^ 32) ≤ z.services.length := by
    rw [Int.bmod_def]
    split_ifs <;> omega
  rw [ZoneServices.tries, Int32.toInt_ofNat', show Int32.size = 2 ^ 32 from rfl]
  omega

theorem visits_eq_take {z : ZoneServices} (hpos : z.nextService ≤ z.services.length) :
    visits z.services z.tries z.nextService = (z.services.rotate z.nextService).take z.tries :=
  visits_eq_rotate hpos (tries_le z)

/-- A service of a group is tried unless the scan does not get to it. -/
theorem mem_visits_or_untried {z : ZoneServices} (hpos : z.nextService ≤ z.services.length)
    {ptr : ServicePtr} (hptr : ptr ∈ z.services) :
    ptr ∈ visits z.services z.tries z.nextService ∨ ptr ∈ z.untried := by
  rw [visits_eq_take hpos, ZoneServices.untried, ← List.mem_append, List.take_append_drop,
    List.mem_rotate]
  exact hptr

theorem nextInZones_position {zones : List ZoneServices}
    (hpos : ∀ z ∈ zones, z.nextService ≤ z.services.length) (registry : BrokerRegistry) :
    ∀ z ∈ (nextInZones settings env topic tenantGuid regs zones registry).2.1,
      z.nextService ≤ z.services.length := by
  induction zones generalizing registry with
  | nil => exact fun z hz => by cases hz
  | cons z zones ih =>
    have hscan : (nextInZone settings env topic tenantGuid regs z z.tries z.nextService
        registry).2.1 ≤ z.services.length := by
      rw [nextInZone_eq_scan]
      exact scan_position_le (hpos z List.mem_cons_self) registry
    have hrest := fun z' hz' => hpos z' (List.mem_cons_of_mem z hz')
    unfold nextInZones
    simp only
    split_ifs
    · intro z' hz'
      rcases List.mem_cons.mp hz' with rfl | hz'
      · exact hscan
      · exact hrest z' hz'
    · intro z' hz'
      rcases List.mem_cons.mp hz' with rfl | hz'
      · exact hscan
      · exact ih hrest _ z' hz'

/-- What the scan of the groups finds is in the first one with a service that can take the
request. -/
theorem nextInZones_first {p : ServicePtr → Prop} {holds : BrokerRegistry → Prop}
    (htest : Decides (fun ptr => isEligible settings env topic tenantGuid (regs ptr)) holds p)
    {zones : List ZoneServices} (hpos : ∀ z ∈ zones, z.nextService ≤ z.services.length)
    (htried : ∀ z ∈ zones, ∀ ptr ∈ z.untried, ¬ p ptr) {registry : BrokerRegistry}
    (hregistry : holds registry) :
    match (nextInZones settings env topic tenantGuid regs zones registry).1 with
    | none => ∀ z ∈ zones, ∀ ptr ∈ z.services, ¬ p ptr
    | some ptr => FirstWith p (zones.map ZoneServices.services) ptr := by
  induction zones generalizing registry with
  | nil => exact fun z hz => by cases hz
  | cons z zones ih =>
    obtain ⟨hregistry', hscan⟩ := @scan_spec _ _ _ z.services holds p htest z.tries z.nextService
      registry hregistry
    rw [← nextInZone_eq_scan] at hregistry' hscan
    rw [nextInZones]
    cases hfound : (nextInZone settings env topic tenantGuid regs z z.tries z.nextService
        registry).1 with
    | some ptr =>
      rw [hfound] at hscan
      simp only [Option.isSome_some, if_true]
      exact FirstWith.head hscan.1 hscan.2 _
    | none =>
      rw [hfound] at hscan
      have hnone : ∀ ptr ∈ z.services, ¬ p ptr := fun ptr hptr =>
        (mem_visits_or_untried (hpos z List.mem_cons_self) hptr).elim (hscan ptr)
          (htried z List.mem_cons_self ptr)
      have hrest := ih (fun z' hz' => hpos z' (List.mem_cons_of_mem z hz'))
        (fun z' hz' => htried z' (List.mem_cons_of_mem z hz')) hregistry'
      simp only [Option.isSome_none, Bool.false_eq_true, if_false]
      revert hrest
      cases (nextInZones settings env topic tenantGuid regs zones (nextInZone settings env topic
          tenantGuid regs z z.tries z.nextService registry).2.2).1 with
      | none =>
        intro hrest z' hz'
        rcases List.mem_cons.mp hz' with rfl | hz'
        · exact hnone
        · exact hrest z' hz'
      | some ptr => exact fun hrest => hrest.cons hnone

/-- The groups after a search are those before it, scanned further. -/
theorem Zoned.getNextService {configs : Set (Map Bytes (List Bytes))} {r : ServiceRegistry}
    (h : r.Zoned settings configs) (registry : BrokerRegistry) :
    (r.getNextService settings env topic tenantGuid registry).2.1.Zoned settings configs := by
  unfold ServiceRegistry.getNextService
  split
  · exact h
  · next ts hts =>
    obtain ⟨hpos, hgroups⟩ := h.groups topic
    have hzonesFor : ts.servicesByZone.getD (calculateServiceZones (cstr settings.guid)
        r.zonesByNode r.regs ts.services) = r.zonesFor settings topic := by rw [zonesFor, hts]
    have hservices : ts.services = r.servicesFor topic := by rw [servicesFor, hts, Option.elim_some]
    simp only [hzonesFor]
    refine ⟨h.current, fun {t ts' zones} hts' hzones => ?_, fun {t ts' zones} hts' hzones hkept => ?_⟩
    · by_cases ht : t = topic
      · rw [ht, AList.lookup_insert, Option.some.injEq] at hts'
        subst hts'
        rw [← Option.some.inj hzones]
        exact nextInZones_position hpos registry
      · rw [AList.lookup_insert_ne ht] at hts'
        exact h.position hts' hzones
    · by_cases ht : t = topic
      · rw [ht, AList.lookup_insert, Option.some.injEq] at hts'
        subst hts'
        simp only [hservices] at hkept ⊢
        rw [← Option.some.inj hzones, (nextInZones_spec _ registry).1]
        exact hgroups hkept
      · rw [AList.lookup_insert_ne ht] at hts'
        exact h.cached hts' hzones hkept

/-- A search scans the groups of its topic. -/
theorem getNextService_eq (r : ServiceRegistry) (registry : BrokerRegistry) :
    (r.getNextService settings env topic tenantGuid registry).1 =
      (nextInZones settings env topic tenantGuid r.regs (r.zonesFor settings topic)
        registry).1.map r.regs := by
  unfold ServiceRegistry.getNextService zonesFor
  cases r.servicesByTopic.lookup topic <;> rfl

/-- What a search finds among the services of a topic, with the ranks that its groups have. -/
theorem Zoned.search {configs : Set (Map Bytes (List Bytes))} {r : ServiceRegistry}
    (h : r.Zoned settings configs) (hkept : OwnKept r.regs (r.servicesFor topic))
    (htried : ∀ z ∈ r.zonesFor settings topic, ∀ ptr ∈ z.untried,
      ¬ Offerable settings topic (r.regs ptr))
    {registry : BrokerRegistry} (hregistry : BrokerRegistry.Reached settings registry) :
    match (r.getNextService settings env topic tenantGuid registry).1 with
    | none => ∀ ptr ∈ r.servicesFor topic,
        ¬ Eligible settings env topic tenantGuid registry.brokers (r.regs ptr)
    | some reg => ∃ zonesByNode ∈ configs, ∃ ptr, r.regs ptr = reg ∧
        FirstWith (fun p => Eligible settings env topic tenantGuid registry.brokers (r.regs p))
          (zoneGroups (cstr settings.guid) zonesByNode r.regs (r.servicesFor topic)) ptr := by
  rw [getNextService_eq]
  obtain ⟨hpos, hgroups⟩ := h.groups topic
  obtain ⟨zonesByNode, hconfig, hgrouping⟩ := hgroups hkept
  have hfirst := nextInZones_first
    (@isEligible_decides settings env topic tenantGuid r.regs registry.brokers) hpos
    (fun z hz ptr hptr heligible => htried z hz ptr hptr ⟨env, tenantGuid, registry, hregistry,
      heligible⟩) ⟨hregistry.routesRight, rfl⟩
  revert hfirst
  cases (nextInZones settings env topic tenantGuid r.regs (r.zonesFor settings topic)
      registry).1 with
  | none =>
    intro hnone ptr hptr
    obtain ⟨g, hg, hmem⟩ := hgrouping.mem.mpr hptr
    obtain ⟨z, hz, rfl⟩ := List.mem_map.mp hg
    exact hnone z hz ptr hmem
  | some ptr =>
    intro hfirst
    refine ⟨zonesByNode, hconfig, ptr, rfl, ?_⟩
    exact (grouping_zoneGroups hkept).firstWith_iff.mpr (hgrouping.firstWith_iff.mp hfirst)

end

end ServiceRegistry

/-! ### Runs -/

namespace BrokerCore

/-- The zones of the brokers that were in force since the groups were cleared. -/
def configsAfter (core : BrokerCore) (configs : Set (Map Bytes (List Bytes))) :
    ServiceOp → Set (Map Bytes (List Bytes))
  | .setServiceZonesByNode zonesByNode => insert zonesByNode configs
  | .clearServiceZones => {core.services.zonesByNode}
  | _ => configs

/-- The states that are reached, with the zones that were in force since the last clearing. -/
inductive ReachedZones (settings : BrokerSettings) :
    Set (Map Bytes (List Bytes)) → BrokerCore → Prop
  | init {core : BrokerCore} (hservices : core.services = {})
      (hcounts : core.servicesPerTenant = ∅) : ReachedZones settings {∅} core
  | step {configs : Set (Map Bytes (List Bytes))} {core : BrokerCore}
      (h : ReachedZones settings configs core) (env : ServiceEnv) (op : ServiceOp)
      (hop : core.OpOk op) :
      ReachedZones settings (core.configsAfter configs op) (core.serviceStep settings env op)
  | other {configs : Set (Map Bytes (List Bytes))} {core core' : BrokerCore}
      (h : ReachedZones settings configs core) (hservices : core'.services = core.services)
      (hcounts : core'.servicesPerTenant = core.servicesPerTenant) :
      ReachedZones settings configs core'

section

variable {settings : BrokerSettings} {env : ServiceEnv} {core : BrokerCore}
  {configs : Set (Map Bytes (List Bytes))} {topic : Bytes}

theorem ReachedZones.reached (h : ReachedZones settings configs core) : Reached settings core := by
  induction h with
  | init hservices hcounts => exact .init hservices hcounts
  | step _ env op hop ih => exact .step ih env op hop
  | other _ hservices hcounts ih => exact .other ih hservices hcounts

/-- Every state that is reached is reached with some zones in force. -/
theorem Reached.zones (h : Reached settings core) :
    ∃ configs, ReachedZones settings configs core := by
  induction h with
  | init hservices hcounts => exact ⟨_, .init hservices hcounts⟩
  | step _ env op hop ih =>
    obtain ⟨configs, ih⟩ := ih
    exact ⟨_, ih.step env op hop⟩
  | other _ hservices hcounts ih =>
    obtain ⟨configs, ih⟩ := ih
    exact ⟨configs, ih.other hservices hcounts⟩

end

/-- One of many services of a client on one topic. -/
def crowdService (n : ℕ) : ServiceRegistration :=
  { plainService with
    serviceGuid := List.replicate (n + 1) 0x53
    requestChannels := [lit "/s/a"] }

theorem crowdService_inj {m n : ℕ}
    (h : (crowdService m).serviceGuid = (crowdService n).serviceGuid) : m = n := by
  have hlength : (List.replicate (m + 1) (0x53 : UInt8)).length =
      (List.replicate (n + 1) (0x53 : UInt8)).length := congrArg List.length h
  rw [List.length_replicate, List.length_replicate] at hlength
  exact Nat.succ_injective hlength

/-- What is stored of the services. -/
structure Crowd (n : ℕ) (r : ServiceRegistry) : Prop where
  ids : ∀ g p, r.servicesById.lookup g = some p → p < n ∧ g = (crowdService p).serviceGuid
  first : 0 < n → r.findService (crowdService 0).serviceGuid = some (crowdService 0)
  others : ∀ p, (r.regs p).brokerService = false
  size : (r.servicesFor (lit "/s/a")).length = n
  bound : ∀ p ∈ r.servicesFor (lit "/s/a"), p < n
  fresh : ∀ ts, r.servicesByTopic.lookup (lit "/s/a") = some ts → ts.servicesByZone = none
  zones : r.zonesByNode = ∅

theorem Crowd.unused {n : ℕ} {r : ServiceRegistry} (h : Crowd n r) : r.Unused n :=
  fun g hg => absurd (h.ids g n hg).1 (lt_irrefl n)

/-- One more service on the topic. -/
theorem Crowd.addService {n : ℕ} {r : ServiceRegistry} (h : Crowd n r) :
    Crowd (n + 1) (r.addService plainSettings n (crowdService n)) := by
  have hfor := @ServiceRegistry.servicesFor_addService plainSettings r n (crowdService n)
    (lit "/s/a")
  have hnot : n ∉ r.servicesFor (lit "/s/a") := fun hmem => absurd (h.bound n hmem) (lt_irrefl n)
  rw [if_pos (show lit "/s/a" ∈ (crowdService n).requestChannels from List.mem_cons_self)] at hfor
  refine ⟨fun g p hp => ?_, fun _ => ?_, fun p => ?_, ?_, fun p hp => ?_, fun ts hts => ?_,
    h.zones⟩
  · by_cases hg : g = (crowdService n).serviceGuid
    · rw [hg, show (r.addService plainSettings n (crowdService n)).servicesById =
        r.servicesById.insert (crowdService n).serviceGuid n from rfl, AList.lookup_insert,
        Option.some.injEq] at hp
      subst hp
      exact ⟨Nat.lt_succ_self n, hg⟩
    · rw [show (r.addService plainSettings n (crowdService n)).servicesById =
        r.servicesById.insert (crowdService n).serviceGuid n from rfl,
        AList.lookup_insert_ne hg] at hp
      obtain ⟨hlt, hguid⟩ := h.ids g p hp
      exact ⟨hlt.trans (Nat.lt_succ_self n), hguid⟩
  · rw [ServiceRegistry.findService_addService h.unused]
    split_ifs with hguid
    · rw [crowdService_inj hguid]
    · have hpos : 0 < n := by
        rcases Nat.eq_zero_or_pos n with rfl | hpos
        · exact absurd rfl hguid
        · exact hpos
      exact h.first hpos
  · show (Function.update r.regs n (crowdService n) p).brokerService = false
    by_cases hp : p = n
    · rw [hp, Function.update_self]
      rfl
    · rw [Function.update_of_ne hp]
      exact h.others p
  · rw [hfor, insertPtr, if_neg, List.orderedInsert_length, h.size]
    simpa using hnot
  · rw [hfor, mem_insertPtr] at hp
    rcases hp with rfl | hp
    · exact Nat.lt_succ_self p
    · exact (h.bound p hp).trans (Nat.lt_succ_self n)
  · rw [show (r.addService plainSettings n (crowdService n)).servicesByTopic =
      (crowdService n).requestChannels.foldl (ServiceRegistry.addToTopic n) r.servicesByTopic
      from rfl, ServiceRegistry.lookup_addToTopics,
      if_pos (show lit "/s/a" ∈ (crowdService n).requestChannels from List.mem_cons_self)] at hts
    cases hts
    rfl

/-- Without zones the services of clients are one group. -/
theorem calculateServiceZones_one {regs : ServicePtr → ServiceRegistration}
    (hothers : ∀ p, (regs p).brokerService = false) (guid : Bytes) (services : List ServicePtr) :
    ServiceRegistry.calculateServiceZones guid ∅ regs services =
      if services = [] then [] else [.ofServices [] services] := by
  have hlocal : ServiceRegistry.localZone regs services = [] := by
    simp [ServiceRegistry.localZone, hothers, ZoneServices.getServicesSize,
      ZoneServices.ofServices]
  have hrest : services.filter (fun ptr => !(regs ptr).brokerService) = services :=
    List.filter_eq_self.mpr fun ptr _ => by simp [hothers]
  rw [ServiceRegistry.calculateServiceZones, hlocal, hrest]
  rfl

/-- No service is tried when the size of the group is negative as an `int`. -/
theorem Crowd.getNextService {n : ℕ} {r : ServiceRegistry} (h : Crowd n r)
    (hn : (Int32.ofNat n).toInt.toNat = 0) (registry : BrokerRegistry) :
    (r.getNextService plainSettings (plainEnv 0) (lit "/s/a") [] registry).1 = none := by
  unfold ServiceRegistry.getNextService
  cases hts : r.servicesByTopic.lookup (lit "/s/a") with
  | none => rfl
  | some ts =>
    have hsize : ts.services.length = n := by
      have := h.size
      rwa [ServiceRegistry.servicesFor, hts] at this
    have htries : ZoneServices.tries (.ofServices [] ts.services) = 0 := by
      rw [ZoneServices.tries, ZoneServices.ofServices, hsize, hn]
    simp only [h.fresh ts hts, h.zones, Option.getD_none, calculateServiceZones_one h.others]
    split_ifs
    · rfl
    · rw [ServiceRegistry.nextInZones, htries]
      rfl

end BrokerCore

end DxlBroker
