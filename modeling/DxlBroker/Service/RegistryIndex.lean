import DxlBroker.Service.ServiceRegistry

/-!
# The indexes of the service registry

`Indexed` says how the indexes belong together: a pointer of the index by service leads to a
registration of that service, the index by topic holds exactly the registered services under their
topics, the zones of a topic are made of its services, and only topics that
`addEventToRequestPrefix` accepts have a prefix.  Every operation keeps this.
-/

namespace DxlBroker

open Bytes Unordered

namespace ServiceRegistry

/-- The pointer is the one of its service. -/
def Registered (r : ServiceRegistry) (ptr : ServicePtr) : Prop :=
  r.servicesById.lookup (r.regs ptr).serviceGuid = some ptr

/-- No service has this pointer: a new registration may be put at the address. -/
def Unused (r : ServiceRegistry) (ptr : ServicePtr) : Prop :=
  ∀ guid, r.servicesById.lookup guid ≠ some ptr

/-- The services under a topic. -/
def servicesFor (r : ServiceRegistry) (topic : Bytes) : List ServicePtr :=
  (r.servicesByTopic.lookup topic).elim [] TopicServices.services

structure Indexed (r : ServiceRegistry) : Prop where
  guid : ∀ {g ptr}, r.servicesById.lookup g = some ptr → (r.regs ptr).serviceGuid = g
  topic : ∀ t ptr, ptr ∈ r.servicesFor t ↔ r.Registered ptr ∧ t ∈ (r.regs ptr).requestChannels
  nodup : ∀ t, (r.servicesFor t).Nodup
  zones : ∀ {t ts zones}, r.servicesByTopic.lookup t = some ts → ts.servicesByZone = some zones →
    ∀ z ∈ zones, ∀ ptr ∈ z.services, ptr ∈ ts.services
  prefixes : ∀ topic ∈ r.eventToRequestPrefix, isEventTopic topic = true

theorem Indexed.init : Indexed {} where
  guid h := nomatch h
  topic t ptr := by
    constructor
    · intro h
      cases h
    · rintro ⟨h, -⟩
      cases h
  nodup t := List.nodup_nil
  zones h := nomatch h
  prefixes _ h := nomatch h

theorem Indexed.registered {r : ServiceRegistry} (h : r.Indexed) {g : Bytes} {ptr : ServicePtr}
    (hg : r.servicesById.lookup g = some ptr) : r.Registered ptr := by
  rw [Registered, h.guid hg, hg]

/-- The services of an entry. -/
theorem Indexed.nodup_services {r : ServiceRegistry} (h : r.Indexed) {t : Bytes}
    {ts : TopicServices} (hts : r.servicesByTopic.lookup t = some ts) : ts.services.Nodup := by
  have := h.nodup t
  rwa [servicesFor, hts] at this

theorem Indexed.mem_services {r : ServiceRegistry} (h : r.Indexed) {t : Bytes}
    {ts : TopicServices} (hts : r.servicesByTopic.lookup t = some ts) (ptr : ServicePtr) :
    ptr ∈ ts.services ↔ r.Registered ptr ∧ t ∈ (r.regs ptr).requestChannels := by
  have := h.topic t ptr
  rwa [servicesFor, hts] at this

/-! ### The topics of a service -/

@[simp] theorem addService_addService (ptr : ServicePtr) (t : TopicServices) :
    (t.addService ptr).addService ptr = t.addService ptr := by
  have h : (insertPtr ptr t.services).any (fun p => p == ptr) = true := by
    simp only [List.any_eq_true, beq_iff_eq]
    exact ⟨ptr, mem_insertPtr.mpr (.inl rfl), rfl⟩
  simp only [TopicServices.addService]
  rw [insertPtr, if_pos h]

theorem nodup_insertPtr (ptr : ServicePtr) {services : List ServicePtr} (h : services.Nodup) :
    (insertPtr ptr services).Nodup := by
  unfold insertPtr
  split_ifs with hany
  · exact h
  · have hnot : ptr ∉ services := by
      intro hm
      exact hany (List.any_eq_true.mpr ⟨ptr, hm, beq_self_eq_true ptr⟩)
    exact (List.perm_orderedInsert (· ≤ ·) ptr services).nodup_iff.mpr
      (List.nodup_cons.mpr ⟨hnot, h⟩)

/-- The entries after a service was added to its topics. -/
theorem lookup_addToTopics (ptr : ServicePtr) (channels : List Bytes)
    (byTopic : Map Bytes TopicServices) (t : Bytes) :
    (channels.foldl (addToTopic ptr) byTopic).lookup t =
      if t ∈ channels then some (((byTopic.lookup t).getD {}).addService ptr)
      else byTopic.lookup t := by
  induction channels generalizing byTopic with
  | nil => rfl
  | cons c channels ih =>
    rw [List.foldl_cons, ih]
    by_cases hc : t = c
    · subst hc
      simp [addToTopic, AList.lookup_insert]
    · have hlookup : (addToTopic ptr byTopic c).lookup t = byTopic.lookup t :=
        AList.lookup_insert_ne hc
      simp only [hlookup, List.mem_cons, hc, false_or]

/-- An entry without the service; an empty one is dropped. -/
def withoutService (ptr : ServicePtr) (t : TopicServices) : Option TopicServices :=
  if (t.removeService ptr).services = [] then none else some (t.removeService ptr)

theorem lookup_removeFromTopic (ptr : ServicePtr) (byTopic : Map Bytes TopicServices)
    (c t : Bytes) :
    (removeFromTopic ptr byTopic c).lookup t =
      if t = c then (byTopic.lookup t).bind (withoutService ptr) else byTopic.lookup t := by
  unfold removeFromTopic
  by_cases hc : t = c
  · subst hc
    rw [if_pos rfl]
    cases hlookup : byTopic.lookup t with
    | none => exact hlookup
    | some ts =>
      simp only [Option.bind_some, withoutService]
      split_ifs
      · exact AList.lookup_erase _ _
      · exact AList.lookup_insert _
  · rw [if_neg hc]
    cases byTopic.lookup c with
    | none => rfl
    | some ts =>
      simp only
      split_ifs
      · exact AList.lookup_erase_ne hc
      · exact AList.lookup_insert_ne hc

theorem withoutService_twice {ptr : ServicePtr} {ts : TopicServices} (h : ts.services.Nodup) :
    (withoutService ptr ts).bind (withoutService ptr) = withoutService ptr ts := by
  unfold withoutService
  have herase : (ts.services.erase ptr).erase ptr = ts.services.erase ptr :=
    List.erase_of_not_mem (h.not_mem_erase)
  split_ifs with hnil
  · rfl
  · simp only [Option.bind_some, TopicServices.removeService, herase] at hnil ⊢
    rw [if_neg hnil]

/-- The entries after a service was removed from its topics. -/
theorem lookup_removeFromTopics (ptr : ServicePtr) (channels : List Bytes)
    (byTopic : Map Bytes TopicServices)
    (hnodup : ∀ t ts, byTopic.lookup t = some ts → ts.services.Nodup) (t : Bytes) :
    (channels.foldl (removeFromTopic ptr) byTopic).lookup t =
      if t ∈ channels then (byTopic.lookup t).bind (withoutService ptr)
      else byTopic.lookup t := by
  induction channels generalizing byTopic with
  | nil => rfl
  | cons c channels ih =>
    have hnodup' : ∀ t ts, (removeFromTopic ptr byTopic c).lookup t = some ts →
        ts.services.Nodup := by
      intro t ts h
      rw [lookup_removeFromTopic] at h
      split_ifs at h
      · obtain ⟨ts', hts', h⟩ := Option.bind_eq_some_iff.mp h
        unfold withoutService at h
        split_ifs at h
        cases h
        exact (hnodup t ts' hts').erase ptr
      · exact hnodup t ts h
    rw [List.foldl_cons, ih _ hnodup', lookup_removeFromTopic]
    by_cases hc : t = c
    · rw [if_pos hc, if_pos (List.mem_cons.mpr (.inl hc))]
      split_ifs
      · cases hts : byTopic.lookup t with
        | none => rfl
        | some ts => exact withoutService_twice (hnodup t ts hts)
      · rfl
    · rw [if_neg hc]
      simp only [List.mem_cons, hc, false_or]

/-! ### Adding and removing -/

section

variable {settings : BrokerSettings} {r : ServiceRegistry} {ptr : ServicePtr}

theorem servicesFor_addService (reg : ServiceRegistration) (t : Bytes) :
    (r.addService settings ptr reg).servicesFor t =
      if t ∈ reg.requestChannels then insertPtr ptr (r.servicesFor t) else r.servicesFor t := by
  unfold servicesFor
  rw [show (r.addService settings ptr reg).servicesByTopic =
    reg.requestChannels.foldl (addToTopic ptr) r.servicesByTopic from rfl, lookup_addToTopics]
  split_ifs
  · cases r.servicesByTopic.lookup t <;> rfl
  · rfl

/-- The entries of the topics after a service was removed. -/
theorem lookup_removeFromIndexes (h : r.Indexed) (t : Bytes) :
    (r.removeFromIndexes settings ptr).servicesByTopic.lookup t =
      if t ∈ (r.regs ptr).requestChannels then
        (r.servicesByTopic.lookup t).bind (withoutService ptr)
      else r.servicesByTopic.lookup t :=
  lookup_removeFromTopics ptr _ _ (fun _ _ hts => h.nodup_services hts) t

theorem servicesFor_removeFromIndexes (h : r.Indexed) (t : Bytes) :
    (r.removeFromIndexes settings ptr).servicesFor t =
      if t ∈ (r.regs ptr).requestChannels then (r.servicesFor t).erase ptr
      else r.servicesFor t := by
  unfold servicesFor
  rw [lookup_removeFromIndexes h]
  split_ifs
  · cases r.servicesByTopic.lookup t with
    | none => rfl
    | some ts =>
      simp only [Option.bind_some, withoutService]
      split_ifs with hnil
      · exact hnil.symm
      · rfl
  · rfl

/-- The pointers after a service was added. -/
theorem registered_addService (hptr : r.Unused ptr) {reg : ServiceRegistration}
    (hnew : r.servicesById.lookup reg.serviceGuid = none) {p : ServicePtr} :
    (r.addService settings ptr reg).Registered p ↔ p = ptr ∨ r.Registered p := by
  show (AList.insert reg.serviceGuid ptr r.servicesById).lookup
    ((Function.update r.regs ptr reg) p).serviceGuid = some p ↔ _
  by_cases hp : p = ptr
  · subst hp
    rw [Function.update_self, AList.lookup_insert]
    simp
  · rw [Function.update_of_ne hp]
    by_cases hg : (r.regs p).serviceGuid = reg.serviceGuid
    · rw [hg, AList.lookup_insert, Registered, hg, hnew]
      simp [hp, Ne.symm hp]
    · rw [AList.lookup_insert_ne hg]
      simp [hp, Registered]

theorem Indexed.addService (h : r.Indexed) (hptr : r.Unused ptr) {reg : ServiceRegistration}
    (hnew : r.servicesById.lookup reg.serviceGuid = none) :
    (r.addService settings ptr reg).Indexed where
  guid := by
    intro g p hp
    rw [show (r.addService settings ptr reg).servicesById =
      r.servicesById.insert reg.serviceGuid ptr from rfl] at hp
    show ((Function.update r.regs ptr reg) p).serviceGuid = g
    by_cases hg : g = reg.serviceGuid
    · subst hg
      rw [AList.lookup_insert, Option.some.injEq] at hp
      rw [← hp, Function.update_self]
    · rw [AList.lookup_insert_ne hg] at hp
      have hne : p ≠ ptr := fun e => hptr g (e ▸ hp)
      rw [Function.update_of_ne hne, h.guid hp]
  topic := by
    intro t p
    rw [servicesFor_addService, registered_addService hptr hnew]
    show _ ↔ _ ∧ t ∈ ((Function.update r.regs ptr reg) p).requestChannels
    have hunused : ptr ∉ r.servicesFor t := fun hm => hptr _ ((h.topic t ptr).mp hm).1
    by_cases hp : p = ptr
    · subst hp
      rw [Function.update_self]
      split_ifs with ht <;> simp [ht, hunused]
    · rw [Function.update_of_ne hp]
      split_ifs <;> simp [hp, h.topic]
  nodup := by
    intro t
    rw [servicesFor_addService]
    split_ifs
    · exact nodup_insertPtr ptr (h.nodup t)
    · exact h.nodup t
  zones := by
    intro t ts zones hts hzones
    rw [show (r.addService settings ptr reg).servicesByTopic =
      reg.requestChannels.foldl (addToTopic ptr) r.servicesByTopic from rfl,
      lookup_addToTopics] at hts
    split_ifs at hts
    · cases hts
      cases hzones
    · exact h.zones hts hzones
  prefixes := h.prefixes

/-- The pointers after a service was removed. -/
theorem registered_removeFromIndexes (hptr : r.Registered ptr) {p : ServicePtr} :
    (r.removeFromIndexes settings ptr).Registered p ↔ r.Registered p ∧ p ≠ ptr := by
  show (AList.erase (r.regs ptr).serviceGuid r.servicesById).lookup (r.regs p).serviceGuid =
    some p ↔ _
  rw [Map.lookup_erase_eq_some, and_comm]
  refine and_congr_right fun hp => not_congr ⟨fun hg => ?_, fun e => e ▸ rfl⟩
  rw [hg] at hp
  exact Option.some.inj (hp.symm.trans hptr)

theorem Indexed.removeFromIndexes (h : r.Indexed) (hptr : r.Registered ptr) :
    (r.removeFromIndexes settings ptr).Indexed where
  guid := by
    intro g p hp
    rw [show (r.removeFromIndexes settings ptr).servicesById =
      r.servicesById.erase (r.regs ptr).serviceGuid from rfl] at hp
    exact h.guid (Map.lookup_erase_eq_some.mp hp).2
  topic := by
    intro t p
    rw [servicesFor_removeFromIndexes h, registered_removeFromIndexes hptr]
    show _ ↔ _ ∧ t ∈ (r.regs p).requestChannels
    split_ifs with ht
    · rw [(h.nodup t).mem_erase_iff, h.topic]
      tauto
    · rw [h.topic]
      constructor
      · rintro ⟨hp, htp⟩
        exact ⟨⟨hp, fun e => ht (e ▸ htp)⟩, htp⟩
      · rintro ⟨⟨hp, -⟩, htp⟩
        exact ⟨hp, htp⟩
  nodup := by
    intro t
    rw [servicesFor_removeFromIndexes h]
    split_ifs
    · exact (h.nodup t).erase ptr
    · exact h.nodup t
  zones := by
    intro t ts zones hts hzones
    rw [lookup_removeFromIndexes h] at hts
    split_ifs at hts
    · obtain ⟨ts', -, hts⟩ := Option.bind_eq_some_iff.mp hts
      unfold withoutService at hts
      split_ifs at hts
      cases hts
      cases hzones
    · exact h.zones hts hzones
  prefixes := h.prefixes

end

/-! ### Prefixes, times and zones -/

section

variable {settings : BrokerSettings} {r : ServiceRegistry} {ptr : ServicePtr}

theorem isEventTopic_addEventTopics (requestTopic : Bytes) (entries : List (Bytes × Bytes))
    {prefixes : Map Bytes Bytes} (h : ∀ topic ∈ prefixes, isEventTopic topic = true) :
    ∀ topic ∈ entries.foldl (addEventTopic requestTopic) prefixes, isEventTopic topic = true := by
  induction entries generalizing prefixes with
  | nil => exact h
  | cons entry entries ih =>
    refine ih ?_
    unfold addEventTopic
    split_ifs with hadd
    · intro topic hm
      rcases (AList.mem_insert _).mp hm with rfl | hm
      · exact (Bool.and_eq_true_iff.mp hadd).2
      · exact h topic hm
    · exact h

theorem isEventTopic_addEventToRequestPrefix (reg : ServiceRegistration)
    {prefixes : Map Bytes Bytes} (h : ∀ topic ∈ prefixes, isEventTopic topic = true) :
    ∀ topic ∈ addEventToRequestPrefix settings prefixes reg, isEventTopic topic = true := by
  unfold addEventToRequestPrefix
  split_ifs
  · exact h
  · split
    · exact h
    · exact isEventTopic_addEventTopics _ _ h

theorem Indexed.rebuildEventToRequestPrefixMap (h : r.Indexed) (order : IterOrder Bytes) :
    (r.rebuildEventToRequestPrefixMap settings order).Indexed where
  guid := h.guid
  topic := h.topic
  nodup := h.nodup
  zones := h.zones
  prefixes := by
    have key : ∀ (regs : List ServiceRegistration) (prefixes : Map Bytes Bytes),
        (∀ topic ∈ prefixes, isEventTopic topic = true) →
        ∀ topic ∈ regs.foldl (fun prefixes reg => if mayTranslateEvents settings reg then
          addEventToRequestPrefix settings prefixes reg else prefixes) prefixes,
          isEventTopic topic = true := by
      intro regs
      induction regs with
      | nil => exact fun _ h => h
      | cons reg regs ih =>
        intro prefixes hprefixes
        refine ih _ ?_
        show ∀ topic ∈ if mayTranslateEvents settings reg then
          addEventToRequestPrefix settings prefixes reg else prefixes, isEventTopic topic = true
        split_ifs
        · exact isEventTopic_addEventToRequestPrefix reg hprefixes
        · exact hprefixes
    exact key _ ∅ fun _ hm => nomatch hm

theorem Indexed.doUnregisterService (h : r.Indexed) (hptr : r.Registered ptr)
    (order : IterOrder Bytes) : (r.doUnregisterService settings order ptr).Indexed := by
  unfold ServiceRegistry.doUnregisterService
  simp only
  split_ifs
  · exact (h.removeFromIndexes hptr).rebuildEventToRequestPrefixMap order
  · exact h.removeFromIndexes hptr

/-- The registrations after one of them was renewed. -/
theorem regs_refresh (reg : ServiceRegistration) (p : ServicePtr) :
    ((r.refresh ptr reg).regs p).serviceGuid = (r.regs p).serviceGuid ∧
      ((r.refresh ptr reg).regs p).requestChannels = (r.regs p).requestChannels := by
  show (Function.update r.regs ptr _ p).serviceGuid = _ ∧
    (Function.update r.regs ptr _ p).requestChannels = _
  by_cases hp : p = ptr
  · subst hp
    rw [Function.update_self]
    exact ⟨rfl, rfl⟩
  · rw [Function.update_of_ne hp]
    exact ⟨rfl, rfl⟩

theorem Indexed.refresh (h : r.Indexed) (reg : ServiceRegistration) :
    (r.refresh ptr reg).Indexed where
  guid hp := by
    rw [(regs_refresh reg _).1]
    exact h.guid hp
  topic t p := by
    rw [Registered, (regs_refresh reg p).1, (regs_refresh reg p).2]
    exact h.topic t p
  nodup := h.nodup
  zones := h.zones
  prefixes := h.prefixes

theorem Indexed.clearServiceZones (h : r.Indexed) : r.clearServiceZones.Indexed := by
  have hfor : ∀ t, r.clearServiceZones.servicesFor t = r.servicesFor t := by
    intro t
    simp only [servicesFor, ServiceRegistry.clearServiceZones, Map.lookup_mapVals]
    cases r.servicesByTopic.lookup t <;> rfl
  refine ⟨h.guid, fun t p => ?_, fun t => ?_, ?_, h.prefixes⟩
  · rw [hfor]
    exact h.topic t p
  · rw [hfor]
    exact h.nodup t
  · intro t ts zones hts hzones
    simp only [ServiceRegistry.clearServiceZones, Map.lookup_mapVals,
      Option.map_eq_some_iff] at hts
    obtain ⟨ts', -, rfl⟩ := hts
    cases hzones

/-! ### The next service -/

variable {env : ServiceEnv} {topic tenantGuid : Bytes} {regs : ServicePtr → ServiceRegistration}

theorem isEligible_available {reg : ServiceRegistration} {brokers : BrokerRegistry}
    (h : (isEligible settings env topic tenantGuid reg brokers).1 = true) :
    reg.isServiceAvailable settings tenantGuid = true := by
  simp only [isEligible, Bool.and_eq_true] at h
  exact h.2

theorem nextInZone_mem {z : ZoneServices} {tries position : ℕ} {brokers : BrokerRegistry}
    (h : (nextInZone settings env topic tenantGuid regs z tries position brokers).1 = some ptr) :
    ptr ∈ z.services ∧ (regs ptr).isServiceAvailable settings tenantGuid = true := by
  induction tries generalizing position brokers with
  | zero => cases h
  | succ tries ih =>
    unfold nextInZone at h
    simp only at h
    split at h
    · cases h
    · next p hp =>
      split at h
      · next helig =>
        cases h
        exact ⟨List.mem_of_getElem? hp, isEligible_available helig⟩
      · exact ih h

/-- The zones keep their services, and the service that is found is one of them. -/
theorem nextInZones_spec (zones : List ZoneServices) (brokers : BrokerRegistry) :
    (nextInZones settings env topic tenantGuid regs zones brokers).2.1.map ZoneServices.services =
      zones.map ZoneServices.services ∧
    ∀ ptr, (nextInZones settings env topic tenantGuid regs zones brokers).1 = some ptr →
      (∃ z ∈ zones, ptr ∈ z.services) ∧
        (regs ptr).isServiceAvailable settings tenantGuid = true := by
  induction zones generalizing brokers with
  | nil => exact ⟨rfl, fun _ h => nomatch h⟩
  | cons z zones ih =>
    unfold nextInZones
    simp only
    split_ifs with hfound
    · refine ⟨rfl, fun ptr h => ?_⟩
      obtain ⟨hmem, havailable⟩ := nextInZone_mem h
      exact ⟨⟨z, List.mem_cons_self, hmem⟩, havailable⟩
    · obtain ⟨hservices, hptr⟩ := ih (nextInZone settings env topic tenantGuid regs z
        z.tries z.nextService brokers).2.2
      refine ⟨?_, fun ptr h => ?_⟩
      · rw [List.map_cons, List.map_cons, hservices]
      · obtain ⟨⟨z', hz', hmem⟩, havailable⟩ := hptr ptr h
        exact ⟨⟨z', List.mem_cons_of_mem z hz', hmem⟩, havailable⟩

/-- A list of zones made of some services, and services that are left. -/
def ZonesOf (services : List ServicePtr) (acc : List ZoneServices × List ServicePtr) : Prop :=
  (∀ z ∈ acc.1, ∀ ptr ∈ z.services, ptr ∈ services) ∧ ∀ ptr ∈ acc.2, ptr ∈ services

theorem ZonesOf.takeZones (regs : ServicePtr → ServiceRegistration)
    {services : List ServicePtr} (zonesByNode : Map Bytes (List Bytes))
    (names : List Bytes) {acc : List ZoneServices × List ServicePtr} (h : ZonesOf services acc) :
    ZonesOf services (names.foldl (takeZone zonesByNode regs) acc) := by
  induction names generalizing acc with
  | nil => exact h
  | cons name names ih =>
    refine ih ⟨?_, fun ptr hp => h.2 ptr (List.mem_filter.mp hp).1⟩
    intro z hm ptr hp
    simp only [takeZone] at hm
    split_ifs at hm
    · exact h.1 z hm ptr hp
    · rcases List.mem_append.mp hm with hm | hm
      · exact h.1 z hm ptr hp
      · rw [List.mem_singleton.mp hm] at hp
        exact h.2 ptr (List.mem_filter.mp hp).1

theorem mem_localZone {services : List ServicePtr} {z : ZoneServices}
    (hz : z ∈ localZone regs services) (hptr : ptr ∈ z.services) : ptr ∈ services := by
  unfold localZone at hz
  simp only at hz
  split_ifs at hz
  · cases hz
  · rw [List.mem_singleton.mp hz] at hptr
    exact (List.mem_filter.mp hptr).1

/-- The zones are made of the services of the topic. -/
theorem mem_calculateServiceZones {guid : Bytes} {zonesByNode : Map Bytes (List Bytes)}
    {services : List ServicePtr} {z : ZoneServices}
    (hz : z ∈ calculateServiceZones guid zonesByNode regs services) (hptr : ptr ∈ z.services) :
    ptr ∈ services := by
  have hstart : ZonesOf services
      (localZone regs services, services.filter fun ptr => !(regs ptr).brokerService) :=
    ⟨fun z hz ptr => mem_localZone hz, fun ptr hp => (List.mem_filter.mp hp).1⟩
  obtain ⟨hzones, hrest⟩ := ZonesOf.takeZones regs zonesByNode
    ((zonesByNode.lookup guid).getD []) hstart
  unfold calculateServiceZones at hz
  simp only at hz
  split_ifs at hz
  · exact hzones z hz ptr hptr
  · rcases List.mem_append.mp hz with hz | hz
    · exact hzones z hz ptr hptr
    · rw [List.mem_singleton.mp hz] at hptr
      exact hrest ptr hptr

/-- The zones of an entry, calculated or not, are made of its services. -/
theorem Indexed.mem_zones (h : r.Indexed) {t : Bytes} {ts : TopicServices}
    (hts : r.servicesByTopic.lookup t = some ts) {guid : Bytes} {z : ZoneServices}
    (hz : z ∈ ts.servicesByZone.getD
      (calculateServiceZones guid r.zonesByNode r.regs ts.services))
    (hptr : ptr ∈ z.services) : ptr ∈ ts.services := by
  cases hzones : ts.servicesByZone with
  | none =>
    rw [hzones] at hz
    exact mem_calculateServiceZones hz hptr
  | some zones =>
    rw [hzones] at hz
    exact h.zones hts hzones z hz ptr hptr

/-- An entry gets zones made of its services. -/
theorem Indexed.setZones (h : r.Indexed) {ts : TopicServices}
    (hts : r.servicesByTopic.lookup topic = some ts) {zones : List ZoneServices}
    (hzones : ∀ z ∈ zones, ∀ ptr ∈ z.services, ptr ∈ ts.services) :
    Indexed { r with
      servicesByTopic := r.servicesByTopic.insert topic
        { services := ts.services, servicesByZone := some zones } } := by
  have hfor : ∀ t, servicesFor { r with
      servicesByTopic := r.servicesByTopic.insert topic
        { services := ts.services, servicesByZone := some zones } } t = r.servicesFor t := by
    intro t
    unfold servicesFor
    by_cases ht : t = topic
    · rw [ht, AList.lookup_insert, hts]
      rfl
    · rw [AList.lookup_insert_ne ht]
  refine ⟨h.guid, fun t p => ?_, fun t => ?_, ?_, h.prefixes⟩
  · rw [hfor]
    exact h.topic t p
  · rw [hfor]
    exact h.nodup t
  · intro t ts' zones' hts' hzones' z hz p hp
    by_cases ht : t = topic
    · subst ht
      rw [AList.lookup_insert, Option.some.injEq] at hts'
      subst hts'
      cases hzones'
      exact hzones z hz p hp
    · rw [AList.lookup_insert_ne ht] at hts'
      exact h.zones hts' hzones' z hz p hp

theorem Indexed.getNextService (h : r.Indexed) (brokers : BrokerRegistry) :
    (r.getNextService settings env topic tenantGuid brokers).2.1.Indexed := by
  unfold ServiceRegistry.getNextService
  split
  · exact h
  · next ts hts =>
    refine h.setZones hts fun z hz ptr hptr => ?_
    have hz' := List.mem_map_of_mem (f := ZoneServices.services) hz
    rw [(nextInZones_spec _ _).1] at hz'
    obtain ⟨z', hz', heq⟩ := List.mem_map.mp hz'
    exact h.mem_zones hts hz' (heq ▸ hptr)

/-- The service that is found is registered and available to the tenant. -/
theorem Indexed.getNextService_spec (h : r.Indexed) {brokers : BrokerRegistry}
    {reg : ServiceRegistration}
    (hreg : (r.getNextService settings env topic tenantGuid brokers).1 = some reg) :
    r.findService reg.serviceGuid = some reg ∧
      reg.isServiceAvailable settings tenantGuid = true := by
  unfold ServiceRegistry.getNextService at hreg
  split at hreg
  · cases hreg
  · next ts hts =>
    obtain ⟨ptr, hptr, rfl⟩ := Option.map_eq_some_iff.mp hreg
    obtain ⟨⟨z, hz, hmem⟩, havailable⟩ := (nextInZones_spec _ _).2 ptr hptr
    have hservice : ptr ∈ r.servicesFor topic := by
      rw [servicesFor, hts]
      exact h.mem_zones hts hz hmem
    refine ⟨?_, havailable⟩
    rw [findService, ((h.topic topic ptr).mp hservice).1]
    rfl

/-- The search changes no registration. -/
theorem findService_getNextService (brokers : BrokerRegistry) (g : Bytes) :
    (r.getNextService settings env topic tenantGuid brokers).2.1.findService g =
      r.findService g := by
  unfold ServiceRegistry.getNextService
  split <;> rfl

/-! ### What the search leaves alone -/

theorem isEligible_brokers (reg : ServiceRegistration) (brokers : BrokerRegistry) :
    (isEligible settings env topic tenantGuid reg brokers).2.brokers = brokers.brokers := by
  unfold isEligible
  simp only
  split_ifs
  · rfl
  · exact (BrokerRegistry.getNextBroker_frame _ _ _ _).1

theorem nextInZone_brokers (z : ZoneServices) (tries position : ℕ) (brokers : BrokerRegistry) :
    (nextInZone settings env topic tenantGuid regs z tries position brokers).2.2.brokers =
      brokers.brokers := by
  induction tries generalizing position brokers with
  | zero => rfl
  | succ tries ih =>
    unfold nextInZone
    simp only
    split
    · rfl
    · next p _ =>
      split
      · exact @isEligible_brokers settings env topic tenantGuid (regs p) brokers
      · rw [ih, isEligible_brokers]

theorem nextInZones_brokers (zones : List ZoneServices) (brokers : BrokerRegistry) :
    (nextInZones settings env topic tenantGuid regs zones brokers).2.2.brokers =
      brokers.brokers := by
  induction zones generalizing brokers with
  | nil => rfl
  | cons z zones ih =>
    unfold nextInZones
    simp only
    split_ifs
    · exact nextInZone_brokers _ _ _ _
    · rw [ih, nextInZone_brokers]

theorem getNextService_brokers (brokers : BrokerRegistry) :
    (r.getNextService settings env topic tenantGuid brokers).2.2.brokers = brokers.brokers := by
  unfold ServiceRegistry.getNextService
  split
  · rfl
  · exact nextInZones_brokers _ _

theorem getNextService_servicesById (brokers : BrokerRegistry) :
    (r.getNextService settings env topic tenantGuid brokers).2.1.servicesById =
      r.servicesById := by
  unfold ServiceRegistry.getNextService
  split <;> rfl

/-! ### What is found after an operation -/

theorem findService_addService (hptr : r.Unused ptr) (reg : ServiceRegistration)
    (g : Bytes) :
    (r.addService settings ptr reg).findService g =
      if g = reg.serviceGuid then some reg else r.findService g := by
  show ((AList.insert reg.serviceGuid ptr r.servicesById).lookup g).map
    (Function.update r.regs ptr reg) = _
  split_ifs with hg
  · rw [hg, AList.lookup_insert, Option.map_some, Function.update_self]
  · rw [AList.lookup_insert_ne hg, findService]
    cases hp : r.servicesById.lookup g with
    | none => rfl
    | some p =>
      have hne : p ≠ ptr := fun e => hptr g (e ▸ hp)
      rw [Option.map_some, Option.map_some, Function.update_of_ne hne]

theorem findService_doUnregisterService (order : IterOrder Bytes) (g : Bytes) :
    (r.doUnregisterService settings order ptr).findService g =
      if g = (r.regs ptr).serviceGuid then none else r.findService g := by
  have hremoved : (r.removeFromIndexes settings ptr).findService g =
      if g = (r.regs ptr).serviceGuid then none else r.findService g := by
    show ((AList.erase (r.regs ptr).serviceGuid r.servicesById).lookup g).map r.regs = _
    split_ifs with hg
    · rw [hg, AList.lookup_erase]
      rfl
    · rw [AList.lookup_erase_ne hg]
      rfl
  unfold ServiceRegistry.doUnregisterService
  simp only
  split_ifs at hremoved ⊢ <;> exact hremoved

theorem findService_refresh (h : r.Indexed) {existing : Bytes}
    (hptr : r.servicesById.lookup existing = some ptr) (reg : ServiceRegistration) {g : Bytes}
    (hg : g ≠ existing) : (r.refresh ptr reg).findService g = r.findService g := by
  show (r.servicesById.lookup g).map (Function.update r.regs ptr _) = _
  rw [findService]
  cases hp : r.servicesById.lookup g with
  | none => rfl
  | some p =>
    have hne : p ≠ ptr := by
      intro e
      rw [e] at hp
      exact hg ((h.guid hp).symm.trans (h.guid hptr))
    rw [Option.map_some, Option.map_some, Function.update_of_ne hne]

end

end ServiceRegistry

end DxlBroker
