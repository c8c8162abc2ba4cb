import DxlBroker.Lib.Selection
import DxlBroker.Service.RegistryRuns

/-!
# The zones of a topic

The services of a topic are grouped by zone when a service is looked up, and the groups are kept
until the services of the topic change or the zones are cleared.  The groups are those of rising
rank, and in every state that is reached the groups that are kept are those of zones of the brokers
that were in force since the last clearing.
-/

namespace DxlBroker

open Bytes Unordered Selection

namespace ServiceRegistry

/-! ### The rank of a service -/

/-- The position of a service among the groups: the broker's own services are first, and then the
services whose broker has the first zone of the local broker, the second, and so on, or none. -/
def zoneRank (guid : Bytes) (zonesByNode : Map Bytes (List Bytes)) (reg : ServiceRegistration) : ℕ :=
  if reg.brokerService then 0
  else 1 + ((zonesByNode.lookup guid).getD []).findIdx fun zone =>
    ((zonesByNode.lookup reg.brokerGuid).getD []).any fun z => z == zone

/-- The number of the broker's own services is not a positive multiple of `2 ^ 32`: as an unsigned
number of 32 bits it is zero only when there are none. -/
def OwnKept (regs : ServicePtr → ServiceRegistration) (services : List ServicePtr) : Prop :=
  (services.countP fun ptr => (regs ptr).brokerService) % 2 ^ 32 = 0 →
    ∀ ptr ∈ services, (regs ptr).brokerService = false

instance (regs : ServicePtr → ServiceRegistration) (services : List ServicePtr) :
    Decidable (OwnKept regs services) :=
  inferInstanceAs (Decidable (_ → _))

/-- The services of a topic in the groups of `calculateServiceZones`. -/
def zoneGroups (guid : Bytes) (zonesByNode : Map Bytes (List Bytes))
    (regs : ServicePtr → ServiceRegistration) (services : List ServicePtr) :
    List (List ServicePtr) :=
  (calculateServiceZones guid zonesByNode regs services).map ZoneServices.services

section

variable {guid : Bytes} {zonesByNode : Map Bytes (List Bytes)}
  {regs : ServicePtr → ServiceRegistration} {services : List ServicePtr}

theorem zoneRank_eq_zero {reg : ServiceRegistration} :
    zoneRank guid zonesByNode reg = 0 ↔ reg.brokerService = true := by
  unfold zoneRank
  split_ifs with hown
  · simp [hown]
  · simp only [hown, iff_false, Bool.false_eq_true]
    omega

/-- Only the ranks of the services matter. -/
theorem OwnKept.of_rank (h : OwnKept regs services) {regs' : ServicePtr → ServiceRegistration}
    (hrank : ∀ ptr ∈ services,
      zoneRank guid zonesByNode (regs ptr) = zoneRank guid zonesByNode (regs' ptr)) :
    OwnKept regs' services := by
  have hown : ∀ ptr ∈ services, (regs ptr).brokerService = (regs' ptr).brokerService := by
    intro ptr hptr
    rw [Bool.eq_iff_iff, ← @zoneRank_eq_zero guid zonesByNode, hrank ptr hptr, zoneRank_eq_zero]
  intro hcount ptr hptr
  rw [← hown ptr hptr]
  refine h ?_ ptr hptr
  rw [List.countP_congr fun ptr hptr => by rw [hown ptr hptr]]
  exact hcount

theorem map_takeZone (acc : List ZoneServices × List ServicePtr) (zone : Bytes) :
    (takeZone zonesByNode regs acc zone).1.map ZoneServices.services =
      addGroup (acc.1.map ZoneServices.services)
        (acc.2.filter (inZone zonesByNode regs zone)) := by
  unfold takeZone addGroup
  simp only
  split_ifs
  · rfl
  · rw [List.map_append]
    rfl

/-- Zone by zone the services of the next rank are taken. -/
theorem groupedUpTo_takeZones {rank : ServicePtr → ℕ} (names : List Bytes) {n : ℕ}
    {acc : List ZoneServices × List ServicePtr}
    (h : GroupedUpTo rank services n (acc.1.map ZoneServices.services) acc.2)
    (hrank : ∀ ptr ∈ acc.2,
      rank ptr = n + 1 + names.findIdx fun zone => inZone zonesByNode regs zone ptr) :
    GroupedUpTo rank services (n + names.length)
        ((names.foldl (takeZone zonesByNode regs) acc).1.map ZoneServices.services)
        (names.foldl (takeZone zonesByNode regs) acc).2 ∧
      ∀ ptr ∈ (names.foldl (takeZone zonesByNode regs) acc).2,
        rank ptr = n + names.length + 1 := by
  induction names generalizing n acc with
  | nil => exact ⟨h, fun ptr hptr => hrank ptr hptr⟩
  | cons name names ih =>
    have htake : GroupedUpTo rank services (n + 1)
        ((takeZone zonesByNode regs acc name).1.map ZoneServices.services)
        (takeZone zonesByNode regs acc name).2 := by
      rw [map_takeZone]
      refine h.take fun ptr hptr => ?_
      rw [hrank ptr hptr, List.findIdx_cons]
      cases inZone zonesByNode regs name ptr <;> simp
    have hrest : ∀ ptr ∈ (takeZone zonesByNode regs acc name).2,
        rank ptr = n + 1 + 1 + names.findIdx fun zone => inZone zonesByNode regs zone ptr := by
      intro ptr hptr
      obtain ⟨hptr, hnot⟩ := List.mem_filter.mp hptr
      have hout : inZone zonesByNode regs name ptr = false := by simpa using hnot
      rw [hrank ptr hptr, List.findIdx_cons, hout, cond_false]
      omega
    have hlength : n + (name :: names).length = n + 1 + names.length := by
      rw [List.length_cons]
      omega
    rw [hlength]
    exact ih htake hrest

theorem localZone_eq_nil :
    localZone regs services = [] ↔
      (services.countP fun ptr => (regs ptr).brokerService) % 2 ^ 32 = 0 := by
  have hsize : ZoneServices.getServicesSize (.ofServices (lit "(local)")
      (services.filter fun ptr => (regs ptr).brokerService)) = 0 ↔
      (services.countP fun ptr => (regs ptr).brokerService) % 2 ^ 32 = 0 := by
    rw [← UInt32.toNat_inj, List.countP_eq_length_filter]
    show (UInt32.ofNat (services.filter fun ptr => (regs ptr).brokerService).length).toNat = 0 ↔ _
    rw [UInt32.toNat_ofNat']
  unfold localZone
  simp only [← hsize]
  split_ifs with h
  · simp only [h]
  · simp [h]

theorem map_localZone (hkept : OwnKept regs services) :
    (localZone regs services).map ZoneServices.services =
      addGroup [] (services.filter fun ptr => (regs ptr).brokerService) := by
  unfold addGroup
  by_cases hnil : localZone regs services = []
  · have hnone : (services.filter fun ptr => (regs ptr).brokerService) = [] :=
      List.filter_eq_nil_iff.mpr fun ptr hptr => by
        simp [hkept (localZone_eq_nil.mp hnil) ptr hptr]
    rw [hnil, hnone]
    rfl
  · have hsome : (services.filter fun ptr => (regs ptr).brokerService) ≠ [] := by
      intro hnone
      rw [localZone_eq_nil, List.countP_eq_length_filter, hnone] at hnil
      exact hnil rfl
    rw [if_neg hsome]
    unfold localZone at hnil ⊢
    simp only at hnil ⊢
    split_ifs at hnil ⊢
    · exact absurd rfl hnil
    · rfl

/-- The groups of a topic hold its services by rank. -/
theorem grouping_zoneGroups (hkept : OwnKept regs services) :
    Grouping (fun ptr => zoneRank guid zonesByNode (regs ptr)) services
      (zoneGroups guid zonesByNode regs services) := by
  have hstart : GroupedUpTo (fun ptr => zoneRank guid zonesByNode (regs ptr)) services 0
      ((localZone regs services).map ZoneServices.services)
      (services.filter fun ptr => !(regs ptr).brokerService) := by
    rw [map_localZone hkept]
    exact GroupedUpTo.start fun ptr _ => zoneRank_eq_zero.symm
  have hrank : ∀ ptr ∈ services.filter fun ptr => !(regs ptr).brokerService,
      zoneRank guid zonesByNode (regs ptr) = 0 + 1 + ((zonesByNode.lookup guid).getD []).findIdx
        fun zone => inZone zonesByNode regs zone ptr := by
    intro ptr hptr
    obtain ⟨-, hother⟩ := List.mem_filter.mp hptr
    have hown : (regs ptr).brokerService = false := by simpa using hother
    rw [zoneRank, hown]
    rfl
  obtain ⟨hgroups, hrest⟩ := @groupedUpTo_takeZones zonesByNode regs services _
    ((zonesByNode.lookup guid).getD []) 0
    (localZone regs services, services.filter fun ptr => !(regs ptr).brokerService) hstart hrank
  have hfinish := hgroups.finish hrest
  unfold zoneGroups calculateServiceZones
  simp only
  unfold addGroup at hfinish
  split_ifs at hfinish ⊢
  · exact hfinish
  · rw [List.map_append]
    exact hfinish

/-- Every group starts like one that was just made. -/
theorem forall_calculateServiceZones {P : ZoneServices → Prop}
    (hP : ∀ zone l, P (.ofServices zone l)) :
    ∀ z ∈ calculateServiceZones guid zonesByNode regs services, P z := by
  have htake : ∀ (names : List Bytes) (acc : List ZoneServices × List ServicePtr),
      (∀ z ∈ acc.1, P z) → ∀ z ∈ (names.foldl (takeZone zonesByNode regs) acc).1, P z := by
    intro names
    induction names with
    | nil => exact fun _ h => h
    | cons name names ih =>
      intro acc h
      refine ih _ fun z hz => ?_
      simp only [takeZone] at hz
      split_ifs at hz
      · exact h z hz
      · rcases List.mem_append.mp hz with hz | hz
        · exact h z hz
        · rw [List.mem_singleton.mp hz]
          exact hP _ _
  have hlocal : ∀ z ∈ localZone regs services, P z := by
    intro z hz
    simp only [localZone] at hz
    split_ifs at hz
    · cases hz
    · rw [List.mem_singleton.mp hz]
      exact hP _ _
  intro z hz
  simp only [calculateServiceZones] at hz
  split_ifs at hz
  · exact htake _ _ hlocal z hz
  · rcases List.mem_append.mp hz with hz | hz
    · exact htake _ _ hlocal z hz
    · rw [List.mem_singleton.mp hz]
      exact hP _ _

end

/-! ### The groups that are kept -/

/-- The groups that are kept for the topics are those of zones among the given ones, and the scan of
each group goes on within it. -/
structure Zoned (settings : BrokerSettings) (configs : Set (Map Bytes (List Bytes)))
    (r : ServiceRegistry) : Prop where
  current : r.zonesByNode ∈ configs
  position : ∀ {topic ts zones}, r.servicesByTopic.lookup topic = some ts →
    ts.servicesByZone = some zones → ∀ z ∈ zones, z.nextService ≤ z.services.length
  cached : ∀ {topic ts zones}, r.servicesByTopic.lookup topic = some ts →
    ts.servicesByZone = some zones → OwnKept r.regs ts.services → ∃ zonesByNode ∈ configs,
      Grouping (fun ptr => zoneRank (cstr settings.guid) zonesByNode (r.regs ptr)) ts.services
        (zones.map ZoneServices.services)

section

variable {settings : BrokerSettings} {configs : Set (Map Bytes (List Bytes))} {r : ServiceRegistry}
  {ptr : ServicePtr}

/-- The groups of a topic may be dropped, and otherwise only the rank of the services matters. -/
theorem Zoned.of_entries (h : r.Zoned settings configs) {r' : ServiceRegistry}
    (hzones : r'.zonesByNode = r.zonesByNode)
    (hentries : ∀ topic ts, r'.servicesByTopic.lookup topic = some ts →
      ts.servicesByZone = none ∨ (r.servicesByTopic.lookup topic = some ts ∧
        ∀ ptr ∈ ts.services, ∀ zonesByNode, zoneRank (cstr settings.guid) zonesByNode (r'.regs ptr) =
          zoneRank (cstr settings.guid) zonesByNode (r.regs ptr))) : r'.Zoned settings configs where
  current := hzones ▸ h.current
  position {topic ts zones} hts hcached := by
    rcases hentries topic ts hts with hnone | ⟨hts, -⟩
    · rw [hnone] at hcached
      cases hcached
    · exact h.position hts hcached
  cached {topic ts zones} hts hcached hkept := by
    rcases hentries topic ts hts with hnone | ⟨hts, hrank⟩
    · rw [hnone] at hcached
      cases hcached
    · obtain ⟨zonesByNode, hconfig, hgroups⟩ := h.cached hts hcached
        (hkept.of_rank fun ptr hptr => hrank ptr hptr ∅)
      exact ⟨zonesByNode, hconfig, hgroups.congr fun ptr hptr => hrank ptr hptr zonesByNode⟩

theorem Zoned.addService (h : r.Zoned settings configs) (hindexed : r.Indexed)
    (hptr : r.Unused ptr) (reg : ServiceRegistration) :
    (r.addService settings ptr reg).Zoned settings configs := by
  refine h.of_entries rfl fun topic ts hts => ?_
  rw [show (r.addService settings ptr reg).servicesByTopic =
    reg.requestChannels.foldl (addToTopic ptr) r.servicesByTopic from rfl,
    lookup_addToTopics] at hts
  split_ifs at hts
  · left
    cases hts
    rfl
  · right
    refine ⟨hts, fun p hp zonesByNode => ?_⟩
    have hne : p ≠ ptr := by
      rintro rfl
      exact hptr _ ((hindexed.mem_services hts p).mp hp).1
    rw [show (r.addService settings ptr reg).regs = Function.update r.regs ptr reg from rfl,
      Function.update_of_ne hne]

theorem Zoned.doUnregisterService (h : r.Zoned settings configs) (hindexed : r.Indexed)
    (order : IterOrder Bytes) :
    (r.doUnregisterService settings order ptr).Zoned settings configs := by
  have hremoved : (r.removeFromIndexes settings ptr).Zoned settings configs := by
    refine h.of_entries rfl fun topic ts hts => ?_
    rw [lookup_removeFromIndexes hindexed] at hts
    split_ifs at hts
    · left
      obtain ⟨ts', -, hts⟩ := Option.bind_eq_some_iff.mp hts
      unfold withoutService at hts
      split_ifs at hts
      cases hts
      rfl
    · exact .inr ⟨hts, fun _ _ _ => rfl⟩
  unfold ServiceRegistry.doUnregisterService
  simp only
  split_ifs
  · exact ⟨hremoved.current, hremoved.position, hremoved.cached⟩
  · exact hremoved

theorem Zoned.refresh (h : r.Zoned settings configs) (reg : ServiceRegistration) :
    (r.refresh ptr reg).Zoned settings configs := by
  refine h.of_entries rfl fun topic ts hts => .inr ⟨hts, fun p _ zonesByNode => ?_⟩
  show zoneRank _ _ (Function.update r.regs ptr _ p) = _
  by_cases hp : p = ptr
  · subst hp
    rw [Function.update_self]
    rfl
  · rw [Function.update_of_ne hp]

theorem Zoned.setServiceZonesByNode (h : r.Zoned settings configs)
    (zonesByNode : Map Bytes (List Bytes)) :
    Zoned settings (insert zonesByNode configs) { r with zonesByNode := zonesByNode } where
  current := Set.mem_insert _ _
  position := h.position
  cached hts hcached hkept := by
    obtain ⟨old, hold, hgroups⟩ := h.cached hts hcached hkept
    exact ⟨old, Set.mem_insert_of_mem _ hold, hgroups⟩

/-- The groups that a search on a topic scans, kept or made for it. -/
def zonesFor (settings : BrokerSettings) (r : ServiceRegistry) (topic : Bytes) :
    List ZoneServices :=
  match r.servicesByTopic.lookup topic with
  | none => []
  | some ts => ts.servicesByZone.getD
      (calculateServiceZones (cstr settings.guid) r.zonesByNode r.regs ts.services)

theorem Zoned.groups (h : r.Zoned settings configs) (topic : Bytes) :
    (∀ z ∈ r.zonesFor settings topic, z.nextService ≤ z.services.length) ∧
      (OwnKept r.regs (r.servicesFor topic) → ∃ zonesByNode ∈ configs,
        Grouping (fun ptr => zoneRank (cstr settings.guid) zonesByNode (r.regs ptr))
          (r.servicesFor topic) ((r.zonesFor settings topic).map ZoneServices.services)) := by
  unfold zonesFor servicesFor
  cases hts : r.servicesByTopic.lookup topic with
  | none =>
    refine ⟨fun z hz => ?_, fun _ => ⟨r.zonesByNode, h.current, Grouping.nil _⟩⟩
    cases hz
  | some ts =>
    simp only [Option.elim_some]
    cases hcached : ts.servicesByZone with
    | none =>
      exact ⟨forall_calculateServiceZones fun zone l => le_refl l.length,
        fun hkept => ⟨r.zonesByNode, h.current, grouping_zoneGroups hkept⟩⟩
    | some zones => exact ⟨h.position hts hcached, h.cached hts hcached⟩

end

end ServiceRegistry

end DxlBroker
