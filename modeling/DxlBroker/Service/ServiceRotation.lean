import DxlBroker.Service.ServiceSelection

/-!
# The rotation of the services

The calls of `getNextService` go around the group of a zone.  While the services of the group and
their eligibility stay the same, each eligible service gets its turn before one gets a second turn,
as long as the size of the group fits into an `int`.
-/

namespace DxlBroker

open Bytes Unordered Selection

/-- A call of `getNextService`: what it reads from outside, the tenant that asks, and the
registrations and brokers at that time. -/
structure NextServiceCall where
  env : ServiceEnv
  tenantGuid : Bytes
  regs : ServicePtr → ServiceRegistration
  registry : BrokerRegistry

/-- `ZoneServices::getNextService` -/
def ZoneServices.getNextService (settings : BrokerSettings) (topic : Bytes) (c : NextServiceCall)
    (z : ZoneServices) : Option ServicePtr × ZoneServices :=
  let res := ServiceRegistry.nextInZone settings c.env topic c.tenantGuid c.regs z z.tries
    z.nextService c.registry
  (res.1, { z with nextService := res.2.1 })

/-- One call after the other on the group of a zone. -/
def ZoneServices.serviceTurns (settings : BrokerSettings) (topic : Bytes) :
    List NextServiceCall → ZoneServices → List (Option ServicePtr)
  | [], _ => []
  | c :: calls, z =>
      let res := z.getNextService settings topic c
      res.1 :: res.2.serviceTurns settings topic calls

/-- One call after the other on the groups of a topic. -/
def TopicServices.serviceTurns (settings : BrokerSettings) (topic : Bytes) :
    List NextServiceCall → List ZoneServices → List (Option ServicePtr)
  | [], _ => []
  | c :: calls, zones =>
      let res := ServiceRegistry.nextInZones settings c.env topic c.tenantGuid c.regs zones
        c.registry
      res.1 :: TopicServices.serviceTurns settings topic calls res.2.1

namespace ServiceRegistry

/-- A service can take the request of a call. -/
def EligibleAt (settings : BrokerSettings) (topic : Bytes) (c : NextServiceCall)
    (ptr : ServicePtr) : Prop :=
  Eligible settings c.env topic c.tenantGuid c.registry.brokers (c.regs ptr)

/-- The broker registry of each call is one that is reached, and the same services are eligible in
each call. -/
def FixedEligibility (settings : BrokerSettings) (topic : Bytes) (eligible : ServicePtr → Bool)
    (services : List ServicePtr) (calls : List NextServiceCall) : Prop :=
  ∀ c ∈ calls, BrokerRegistry.Reached settings c.registry ∧
    ∀ ptr ∈ services, EligibleAt settings topic c ptr ↔ eligible ptr = true

/-- As many calls as there are eligible services return each of them once, wherever the iterator
stands; and so do the calls on a topic whose groups before this one have no eligible service. -/
def FairRotation (services : List ServicePtr) : Prop :=
  ∀ settings topic zone position (eligible : ServicePtr → Bool) (calls : List NextServiceCall),
    position ≤ services.length → FixedEligibility settings topic eligible services calls →
    calls.length = (services.filter eligible).length →
    ∃ found : List ServicePtr,
      ZoneServices.serviceTurns settings topic calls ⟨zone, services, position⟩ = found.map some ∧
      (found.Nodup ∧ ∀ ptr, ptr ∈ found ↔ ptr ∈ services ∧ eligible ptr = true) ∧
      ∀ before after : List ZoneServices,
        (∀ c ∈ calls, ∀ z ∈ before, ∀ ptr ∈ z.services, ¬ EligibleAt settings topic c ptr) →
        TopicServices.serviceTurns settings topic calls
          (before ++ ⟨zone, services, position⟩ :: after) = found.map some

section

variable {settings : BrokerSettings} {topic : Bytes} {services : List ServicePtr}

/-! ### One call -/

/-- The test of a call settles which services are eligible, whatever the routing cache holds. -/
theorem settles_isEligible {eligible : ServicePtr → Bool} {c : NextServiceCall}
    (h : ∀ ptr ∈ services, EligibleAt settings topic c ptr ↔ eligible ptr = true)
    {registry : BrokerRegistry}
    (hregistry : registry.RoutesRight ∧ registry.brokers = c.registry.brokers) :
    Settles (fun ptr => isEligible settings c.env topic c.tenantGuid (c.regs ptr)) registry services
      eligible :=
  ⟨_, _, isEligible_decides, hregistry, h⟩

/-- The groups without an eligible service are passed. -/
theorem nextInZones_append {c : NextServiceCall} {before : List ZoneServices}
    (hbefore : ∀ z ∈ before, ∀ ptr ∈ z.services, ¬ EligibleAt settings topic c ptr)
    (zones : List ZoneServices) {registry : BrokerRegistry}
    (hregistry : registry.RoutesRight ∧ registry.brokers = c.registry.brokers) :
    ∃ (before' : List ZoneServices) (registry' : BrokerRegistry),
      before'.map ZoneServices.services = before.map ZoneServices.services ∧
      (registry'.RoutesRight ∧ registry'.brokers = c.registry.brokers) ∧
      (nextInZones settings c.env topic c.tenantGuid c.regs (before ++ zones) registry).1 =
        (nextInZones settings c.env topic c.tenantGuid c.regs zones registry').1 ∧
      (nextInZones settings c.env topic c.tenantGuid c.regs (before ++ zones) registry).2.1 =
        before' ++ (nextInZones settings c.env topic c.tenantGuid c.regs zones registry').2.1 := by
  induction before generalizing registry with
  | nil => exact ⟨[], registry, rfl, hregistry, rfl, rfl⟩
  | cons z before ih =>
    -- A search without success moves the iterator of the group and may fill the cache.
    obtain ⟨hregistry', hscan⟩ := @scan_spec _ _ _ z.services _ _
      (@isEligible_decides settings c.env topic c.tenantGuid c.regs c.registry.brokers) z.tries
      z.nextService registry hregistry
    rw [← nextInZone_eq_scan] at hregistry' hscan
    have hnone : (nextInZone settings c.env topic c.tenantGuid c.regs z z.tries z.nextService
        registry).1 = none := by
      cases hfound : (nextInZone settings c.env topic c.tenantGuid c.regs z z.tries z.nextService
          registry).1 with
      | none => rfl
      | some ptr =>
        rw [hfound] at hscan
        exact absurd hscan.2 (hbefore z List.mem_cons_self ptr hscan.1)
    obtain ⟨before', registry', hservices, hkept, hfound, hzones⟩ :=
      ih (fun z' hz' => hbefore z' (List.mem_cons_of_mem z hz')) hregistry'
    refine ⟨⟨z.zone, z.services, (nextInZone settings c.env topic c.tenantGuid c.regs z z.tries
      z.nextService registry).2.1⟩ :: before', registry', ?_, hkept, ?_, ?_⟩
    · rw [List.map_cons, List.map_cons, hservices]
    · rw [List.cons_append, nextInZones, hnone]
      exact hfound
    · rw [List.cons_append, nextInZones, hnone]
      simp only [Option.isSome_none, Bool.false_eq_true, if_false]
      rw [hzones, List.cons_append]

/-! ### One call after the other -/

theorem zoneTurns_eq (zone : Bytes) (hfew : services.length < 2 ^ 31)
    (calls : List NextServiceCall) (position : ℕ) :
    ZoneServices.serviceTurns settings topic calls ⟨zone, services, position⟩ =
      turns (fun (c : NextServiceCall) ptr =>
          isEligible settings c.env topic c.tenantGuid (c.regs ptr))
        (fun c => c.registry) services services.length calls position := by
  induction calls generalizing position with
  | nil => rfl
  | cons c calls ih =>
    have htries : (ZoneServices.mk zone services position).tries = services.length := tries_eq hfew
    rw [ZoneServices.serviceTurns, turns]
    simp only [ZoneServices.getNextService, htries, nextInZone_eq_scan, ih]

/-- The calls on a topic go around the first group with eligible services. -/
theorem topicTurns_eq {eligible : ServicePtr → Bool} (zone : Bytes)
    (hfew : services.length < 2 ^ 31) {calls : List NextServiceCall} {position : ℕ}
    (hpos : position ≤ services.length)
    (hfixed : FixedEligibility settings topic eligible services calls) {before : List ZoneServices}
    (hbefore : ∀ c ∈ calls, ∀ z ∈ before, ∀ ptr ∈ z.services, ¬ EligibleAt settings topic c ptr)
    (after : List ZoneServices)
    (hcalls : calls.length ≤ ((services.rotate position).filter eligible).length) :
    TopicServices.serviceTurns settings topic calls
        (before ++ ⟨zone, services, position⟩ :: after) =
      (((services.rotate position).filter eligible).take calls.length).map some := by
  induction calls generalizing position before with
  | nil => rfl
  | cons c calls ih =>
    rw [List.length_cons] at hcalls
    obtain ⟨a, rest, hfilter⟩ := List.exists_cons_of_length_pos (Nat.zero_lt_of_lt hcalls)
    obtain ⟨hreached, heligible⟩ := hfixed c List.mem_cons_self
    obtain ⟨before', registry', hservices, hkept, hfound, hzones⟩ := nextInZones_append
      (hbefore c List.mem_cons_self) (⟨zone, services, position⟩ :: after)
      ⟨hreached.routesRight, rfl⟩
    obtain ⟨hscan, hpos', hfilter'⟩ :=
      scan_turn (settles_isEligible heligible hkept) hpos hfilter
    have htries : (ZoneServices.mk zone services position).tries = services.length := tries_eq hfew
    rw [TopicServices.serviceTurns, hfound, hzones, nextInZones]
    simp only [nextInZone_eq_scan, htries]
    -- The groups before hold the same services as at the start.
    have hbefore' : ∀ c' ∈ calls, ∀ z ∈ before', ∀ ptr ∈ z.services,
        ¬ EligibleAt settings topic c' ptr := by
      intro c' hc' z hz ptr hptr
      obtain ⟨z', hz', hsame⟩ := List.mem_map.mp (hservices ▸ List.mem_map_of_mem hz)
      exact hbefore c' (List.mem_cons_of_mem c hc') z' hz' ptr (hsame ▸ hptr)
    rw [hfilter, List.length_cons] at hcalls
    have hrest := ih hpos' (fun c' hc' => hfixed c' (List.mem_cons_of_mem c hc')) hbefore' (by
      rw [hfilter', List.length_append]
      omega)
    rw [hfilter', List.take_append_of_le_length (by omega)] at hrest
    rw [hscan, hfilter, List.length_cons, List.take_succ_cons, List.map_cons, ← hrest]
    rfl

theorem fairRotation_of_few (hnodup : services.Nodup) (hfew : services.length < 2 ^ 31) :
    FairRotation services := by
  intro settings topic zone position eligible calls hpos hfixed hcalls
  have hperm : ((services.rotate position).filter eligible).Perm (services.filter eligible) :=
    (List.rotate_perm services position).filter eligible
  obtain ⟨found, hfound, hspec⟩ := turns_fair hnodup hpos (fun c hc =>
    settles_isEligible (hfixed c hc).2 ⟨(hfixed c hc).1.routesRight, rfl⟩) hcalls
  refine ⟨found, (zoneTurns_eq zone hfew calls position).trans hfound, hspec,
    fun before after hbefore => ?_⟩
  rw [topicTurns_eq zone hfew hpos hfixed hbefore after (hcalls.trans hperm.length_eq.symm).le,
    ← hfound, turns_eq hpos (fun c hc => settles_isEligible (hfixed c hc).2
      ⟨(hfixed c hc).1.routesRight, rfl⟩)
      (hcalls.trans hperm.length_eq.symm).le]

/-! ### Groups that are too large -/

/-- From `2 ^ 31` services on, fewer services are tried than there are. -/
theorem tries_lt {z : ZoneServices} (hmany : 2 ^ 31 ≤ z.services.length) :
    z.tries < z.services.length := by
  have hlt : (Int32.ofNat z.services.length).toInt < 2 ^ 31 := Int32.toInt_lt _
  have htries : z.tries < 2 ^ 31 := by
    rw [ZoneServices.tries]
    omega
  exact lt_of_lt_of_le htries hmany

/-- A service of `L` that expired long ago. -/
def expiredService : ServiceRegistration := { plainService with regTime := -1000000 }

/-- A call when all services have expired but one. -/
def lonelyCall (target : ServicePtr) : NextServiceCall where
  env := plainEnv 0
  tenantGuid := []
  regs ptr := if ptr = target then plainService else expiredService
  registry := .init (plainEnv 0).registryEnv

theorem eligibleAt_lonelyCall {target ptr : ServicePtr} :
    EligibleAt plainSettings topic (lonelyCall target) ptr ↔ (ptr == target) = true := by
  unfold EligibleAt Eligible lonelyCall
  by_cases h : ptr = target
  · simp only [h, if_true, beq_self_eq_true, iff_true]
    exact ⟨.inl (by decide), by decide, rfl, rfl⟩
  · simp only [h, if_false, beq_iff_eq, iff_false]
    rintro ⟨-, hexpired, -⟩
    exact absurd hexpired (by decide)

/-- The service behind those that are tried does not get its turn. -/
theorem lonelyCall_none {zone : Bytes} {before after : List ServicePtr} {target : ServicePtr}
    (hbefore : target ∉ before) (hlength : before.length =
      (ZoneServices.mk zone (before ++ target :: after) 0).tries) :
    ((ZoneServices.mk zone (before ++ target :: after) 0).getNextService plainSettings topic
      (lonelyCall target)).1 = none := by
  rw [ZoneServices.getNextService]
  simp only
  rw [nextInZone_eq_scan]
  cases hscan : (scan (fun ptr => isEligible plainSettings (lonelyCall target).env topic
      (lonelyCall target).tenantGuid ((lonelyCall target).regs ptr)) (before ++ target :: after)
      (ZoneServices.mk zone (before ++ target :: after) 0).tries 0
      (lonelyCall target).registry).1 with
  | none => rfl
  | some ptr =>
    have hroutes : (lonelyCall target).registry.RoutesRight :=
      (@BrokerRegistry.Reached.init plainSettings _).routesRight
    have hfound := (@scan_spec _ _ _ (before ++ target :: after) _ _
      (@isEligible_decides plainSettings (lonelyCall target).env topic
        (lonelyCall target).tenantGuid (lonelyCall target).regs
        (lonelyCall target).registry.brokers)
      (ZoneServices.mk zone (before ++ target :: after) 0).tries 0 (lonelyCall target).registry
      ⟨hroutes, rfl⟩).2
    rw [hscan] at hfound
    have htarget : ptr = target := beq_iff_eq.mp (eligibleAt_lonelyCall.mp hfound.2)
    -- What is found is the target, which stands behind all that is tried.
    have hvisit := mem_visits_of_scan hscan
    rw [visits_eq_rotate (Nat.zero_le _) (by rw [← hlength]; simp), List.rotate_zero, ← hlength,
      List.take_left', htarget] at hvisit
    · exact absurd hvisit hbefore
    · rfl

theorem not_fairRotation_of_many (hnodup : services.Nodup) (hmany : 2 ^ 31 ≤ services.length) :
    ¬ FairRotation services := by
  intro hfair
  have hlt : (ZoneServices.mk [] services 0).tries < services.length := tries_lt hmany
  obtain ⟨before, target, after, hsplit, hlength⟩ :
      ∃ before target after, services = before ++ target :: after ∧
        before.length = (ZoneServices.mk [] services 0).tries :=
    ⟨services.take _, services[(ZoneServices.mk [] services 0).tries], services.drop (_ + 1),
      by rw [List.getElem_cons_drop, List.take_append_drop],
      List.length_take_of_le hlt.le⟩
  have hbefore : target ∉ before := fun hmem => by
    rw [hsplit] at hnodup
    exact (List.nodup_append.mp hnodup).2.2 target hmem target List.mem_cons_self rfl
  have hone : (services.filter (· == target)).length = 1 := by
    rw [← List.countP_eq_length_filter]
    exact List.count_eq_one_of_mem hnodup (hsplit ▸ by simp)
  obtain ⟨found, hfound, -, -⟩ := hfair plainSettings [] [] 0 (· == target) [lonelyCall target]
    (Nat.zero_le _) (fun c hc => by
      rw [List.mem_singleton.mp hc]
      exact ⟨.init _, fun ptr _ => eligibleAt_lonelyCall⟩) hone.symm
  have hnone : ((ZoneServices.mk [] services 0).getNextService plainSettings []
      (lonelyCall target)).1 = none := by
    subst hsplit
    exact lonelyCall_none hbefore hlength
  rw [ZoneServices.serviceTurns, hnone] at hfound
  have hmem : (none : Option ServicePtr) ∈ found.map some :=
    hfound ▸ List.mem_cons_self
  simp at hmem

/-- **The rotation of the services.**  The calls on a group of a zone are fair, for every position of
the iterator and every eligibility of its services, exactly when the size of the group fits into an
`int`. -/
theorem fairRotation_iff (hnodup : services.Nodup) :
    FairRotation services ↔ services.length < 2 ^ 31 := by
  constructor
  · intro hfair
    by_contra hmany
    exact not_fairRotation_of_many hnodup (not_lt.mp hmany) hfair
  · exact fairRotation_of_few hnodup

end

theorem fairRotation_three : FairRotation [0, 1, 2] :=
  (fairRotation_iff (by decide)).mpr (by decide)

/-- In a group of `2 ^ 31` services, of which only the first can take requests, it gets none. -/
theorem crowd_unfair :
    ((ZoneServices.mk [] (List.range (2 ^ 31)) 0).getNextService plainSettings []
        (lonelyCall 0)).1 = none ∧
      EligibleAt plainSettings [] (lonelyCall 0) 0 ∧ ¬ FairRotation (List.range (2 ^ 31)) := by
  have hrange : List.range (2 ^ 31) = [] ++ 0 :: (List.range (2 ^ 31 - 1)).map Nat.succ :=
    List.range_succ_eq_map
  refine ⟨?_, eligibleAt_lonelyCall.mpr rfl, ?_⟩
  · rw [hrange]
    refine lonelyCall_none List.not_mem_nil ?_
    rw [← hrange, ZoneServices.tries, List.length_range]
    decide
  · exact not_fairRotation_of_many List.nodup_range (by rw [List.length_range])

end ServiceRegistry

end DxlBroker
