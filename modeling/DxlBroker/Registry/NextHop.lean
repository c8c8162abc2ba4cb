import DxlBroker.Registry.CacheRuns

/-!
# The next broker on the way

`getNextBroker` answers from the routing cache or searches the connections.  The cache is emptied
whenever a connection changes, so both answers are right: nothing is returned exactly when there is
no way, and otherwise a connection of the first broker that leads to the other one.
-/

namespace DxlBroker

open Bytes Unordered

namespace BrokerTable

/-- A way along the recorded connections. -/
def Leads (brokers : BrokerTable) : Bytes → Bytes → Prop :=
  Relation.ReflTransGen brokers.Connected

variable {brokers : BrokerTable} {order : ConnectionOrder}

theorem step_connections :
    DepthFirst.Step (brokers.connections order) (fun _ => true) = brokers.Connected := by
  funext v w
  simp [DepthFirst.Step, mem_connections]

/-- A path is found exactly when there is a way. -/
theorem findPathToBroker_isSome_iff {start finish : Bytes} :
    (brokers.findPathToBroker order start finish).isSome = true ↔ brokers.Leads start finish := by
  unfold findPathToBroker
  rw [← card_keys, DepthFirst.search_isSome_iff fun v => mem_keys_of_connections]
  simp only [beq_iff_eq, exists_eq_right]
  rw [DepthFirst.Reach, step_connections]
  rfl

/-- The second broker of a path is a connection of the first one and leads to the last. -/
theorem findPathToBroker_spec {start finish : Bytes} (hne : start ≠ finish) {path : List Bytes}
    (h : brokers.findPathToBroker order start finish = some path) :
    ∃ next rest, path = start :: next :: rest ∧ brokers.Connected start next ∧
      brokers.Leads next finish := by
  unfold findPathToBroker at h
  rw [← card_keys] at h
  obtain ⟨w, hhead, hlast, hchain, -, hstop⟩ :=
    DepthFirst.search_path (fun v => mem_keys_of_connections) start h
  obtain rfl : w = finish := by simpa using hstop
  rw [step_connections] at hchain
  cases path with
  | nil => cases hhead
  | cons u tail =>
    obtain rfl : u = start := by simpa using hhead
    cases tail with
    | nil => exact absurd (by simpa using hlast) hne
    | cons next rest =>
      rw [List.isChain_cons_cons] at hchain
      refine ⟨next, rest, rfl, hchain.1, ?_⟩
      refine List.relationReflTransGen_of_exists_isChain_cons rest hchain.2 ?_
      simpa [List.getLast?_eq_some_getLast] using hlast

/-- The recursion of the search ends by itself, on any connections. -/
theorem findPathToBroker_bound (start finish : Bytes) {levels : ℕ}
    (h : brokers.keys.length < levels) :
    (DepthFirst.search (brokers.connections order) (fun _ => true) (fun b => b == finish) levels
      start ∅).1 = brokers.findPathToBroker order start finish := by
  unfold findPathToBroker
  obtain ⟨more, rfl⟩ := Nat.exists_eq_add_of_lt h
  have hinner : ∀ v, brokers.connections order v ≠ [] → v ∈ brokers.keys.toFinset :=
    fun v => mem_keys_of_connections
  have hcard : (brokers.keys.toFinset \ ∅).card < brokers.keys.length + 1 := by
    rw [Finset.sdiff_empty, card_keys]
    exact Nat.lt_succ_self _
  rw [show brokers.keys.length + more + 1 = brokers.keys.length + 1 + more by omega,
    DepthFirst.search_stable hinner more (Finset.notMem_empty start) hcard]

end BrokerTable

namespace BrokerRegistry

/-- The routes of the cache lead where they should, and no broker has an empty identifier. -/
structure RoutesRight (r : BrokerRegistry) : Prop where
  cached : ∀ {source target next}, r.cache.lookup (source, target) = some next →
    next ≠ [] ∧ r.brokers.Connected source next ∧ r.brokers.Leads next target
  named : r.brokers.lookup [] = none

/-- The registries that are reached by any operations. -/
inductive Reached (settings : BrokerSettings) : BrokerRegistry → Prop
  | init (env : RegistryEnv) : Reached settings (init env)
  | step {r : BrokerRegistry} (h : Reached settings r) (env : RegistryEnv) (op : RegistryOp) :
      Reached settings (r.step settings env op)

/-! ### The answer -/

section

variable {r : BrokerRegistry} {env : RegistryEnv}

theorem RoutesRight.hasBroker (h : r.RoutesRight) (id : Bytes) :
    r.brokers.hasBroker id = true ↔ r.brokers.lookup id ≠ none := by
  unfold BrokerTable.hasBroker
  by_cases hid : id = []
  · subst hid
    simp [h.named]
  · simp [hid, Option.isSome_iff_ne_none]

/-- What `getNextBroker` answers, and that its new route is right. -/
theorem RoutesRight.getNextBroker (h : r.RoutesRight) (source target : Bytes) :
    (r.getNextBroker env source target).2.RoutesRight ∧
    ((r.getNextBroker env source target).1 = [] ↔
      r.brokers.lookup source = none ∨ r.brokers.lookup target = none ∨
        ¬ r.brokers.Leads source target) ∧
    (source ≠ target → (r.getNextBroker env source target).1 ≠ [] →
      r.brokers.Connected source (r.getNextBroker env source target).1 ∧
        r.brokers.Leads (r.getNextBroker env source target).1 target) := by
  unfold BrokerRegistry.getNextBroker
  by_cases hknown : r.brokers.hasBroker source = true ∧ r.brokers.hasBroker target = true
  · rw [if_pos (by simp [hknown])]
    have hsource := (h.hasBroker source).mp hknown.1
    have htarget := (h.hasBroker target).mp hknown.2
    have hnonempty : target ≠ [] := fun hnil => htarget (hnil ▸ h.named)
    split_ifs with heq
    · refine ⟨h, ?_, fun hne => absurd heq hne⟩
      simp [hnonempty, hsource, htarget, heq, BrokerTable.Leads, Relation.ReflTransGen.refl]
    · cases hcache : r.cache.lookup (source, target) with
      | some next =>
        obtain ⟨hnext, hconnected, hleads⟩ := h.cached hcache
        refine ⟨h, ?_, fun _ _ => ⟨hconnected, hleads⟩⟩
        simp only [hnext, hsource, htarget, false_or, false_iff, not_not]
        exact .head hconnected hleads
      | none =>
        cases hpath : r.brokers.findPathToBroker env.order source target with
        | none =>
          have hiff := @BrokerTable.findPathToBroker_isSome_iff r.brokers env.order source target
          have hnot : ¬ r.brokers.Leads source target := by
            rw [← hiff, hpath]
            exact Bool.false_ne_true
          exact ⟨h, by simp [hnot], fun _ hne => absurd rfl hne⟩
        | some path =>
          obtain ⟨next, rest, rfl, hconnected, hleads⟩ :=
            BrokerTable.findPathToBroker_spec heq hpath
          -- A broker without identifier has no record, so no way leads on from it.
          have hnext : next ≠ [] := by
            rintro rfl
            rcases Relation.ReflTransGen.cases_head hleads with hend | ⟨w, ⟨s, hs, -⟩, -⟩
            · exact hnonempty hend.symm
            · rw [h.named] at hs
              cases hs
          simp only [hnext, if_false]
          refine ⟨⟨fun {source' target' next'} hroute => ?_, h.named⟩, ?_,
            fun _ _ => ⟨hconnected, hleads⟩⟩
          · by_cases hkey : (source', target') = (source, target)
            · rw [hkey, AList.lookup_insert, Option.some.injEq] at hroute
              rw [(Prod.mk.inj hkey).1, (Prod.mk.inj hkey).2, ← hroute]
              exact ⟨hnext, hconnected, hleads⟩
            · rw [AList.lookup_insert_ne hkey] at hroute
              exact h.cached hroute
          · simp only [hsource, htarget, false_or, false_iff, not_not]
            exact .head hconnected hleads
  · rw [if_neg (by simpa using hknown)]
    refine ⟨h, ?_, fun _ hne => absurd rfl hne⟩
    rw [not_and_or, h.hasBroker, h.hasBroker, not_not, not_not] at hknown
    simp only [true_iff]
    tauto

/-! ### What an operation does to the routes -/

theorem RoutesRight.of_empty (hcache : r.cache = ∅) (hnamed : r.brokers.lookup [] = none) :
    r.RoutesRight where
  cached hroute := by
    rw [hcache] at hroute
    cases hroute
  named := hnamed

/-- The connections of every broker are the same. -/
theorem RoutesRight.of_links {r' : BrokerRegistry} (h : r.RoutesRight)
    (hcache : r'.cache = r.cache)
    (hlinks : ∀ k, (r'.brokers.lookup k).map BrokerState.countedConnections =
      (r.brokers.lookup k).map BrokerState.countedConnections) : r'.RoutesRight := by
  have hconnected : r'.brokers.Connected = r.brokers.Connected := by
    funext v w
    have hv := hlinks v
    simp only [BrokerTable.Connected, BrokerState.hasConnection, eq_iff_iff]
    cases hr : r.brokers.lookup v with
    | none =>
      rw [hr, Option.map_none, Option.map_eq_none_iff] at hv
      simp [hv]
    | some s =>
      rw [hr, Option.map_some, Option.map_eq_some_iff] at hv
      obtain ⟨s', hs', hsame⟩ := hv
      simp [hs', hsame]
  refine ⟨fun hroute => ?_, ?_⟩
  · rw [hcache] at hroute
    unfold BrokerTable.Leads
    rw [hconnected]
    exact h.cached hroute
  · have hnil := hlinks []
    rw [h.named, Option.map_none, Option.map_eq_none_iff] at hnil
    exact hnil

/-- One record changes, and not in its connections. -/
theorem RoutesRight.of_lookup {r' : BrokerRegistry} (h : r.RoutesRight) {id : Bytes}
    {f : BrokerState → BrokerState} (hcache : r'.cache = r.cache)
    (hlookup : ∀ k, r'.brokers.lookup k =
      if k = id then (r.brokers.lookup id).map f else r.brokers.lookup k)
    (hf : ∀ s, (f s).countedConnections = s.countedConnections) : r'.RoutesRight := by
  refine h.of_links hcache fun k => ?_
  rw [hlookup]
  split_ifs with hk
  · rw [hk, Option.map_map]
    congr 1
    funext s
    exact hf s
  · rfl

theorem RoutesRight.modifyState (h : r.RoutesRight) (id : Bytes) {f : BrokerState → BrokerState}
    (hf : ∀ s, (f s).countedConnections = s.countedConnections) :
    (r.modifyState id f).RoutesRight := by
  refine h.of_lookup ?_ (fun k => lookup_modifyState r id k f) hf
  unfold BrokerRegistry.modifyState
  split <;> rfl

theorem RoutesRight.addTopic (h : r.RoutesRight) (settings : BrokerSettings) (id topic : Bytes) :
    (r.addTopic settings env id topic).RoutesRight := by
  refine h.of_lookup ?_ (fun k => lookup_addTopic r id k topic) fun s =>
    BrokerState.addTopic_countedConnections settings s topic
  unfold BrokerRegistry.addTopic
  split
  · rfl
  · simp only
    split_ifs <;> rfl

theorem RoutesRight.removeTopic (h : r.RoutesRight) (settings : BrokerSettings)
    (id topic : Bytes) : (r.removeTopic settings env id topic).RoutesRight := by
  refine h.of_lookup ?_ (fun k => lookup_removeTopic r id k topic) fun s =>
    BrokerState.removeTopic_countedConnections settings s topic
  unfold BrokerRegistry.removeTopic
  split
  · rfl
  · simp only
    split_ifs <;> rfl

theorem RoutesRight.addBroker (h : r.RoutesRight) (settings : BrokerSettings) (b : Broker) :
    (r.addBroker settings env b).RoutesRight := by
  have hnamed : (r.addBroker settings env b).brokers.lookup [] = none := by
    rw [lookup_addBroker, if_neg (by rintro ⟨hid, hne, -⟩; exact hne hid.symm)]
    exact h.named
  unfold BrokerRegistry.addBroker at hnamed ⊢
  split_ifs at hnamed ⊢
  · exact h
  · cases hs : r.brokers.lookup b.id with
    | none =>
      simp only [hs] at hnamed ⊢
      exact .of_empty rfl hnamed
    | some s =>
      simp only [hs] at hnamed ⊢
      have hsame : ∀ r' : BrokerRegistry, r'.brokers = r.brokers → ∀ k,
          ((r'.setState b.id { s with broker := { b with id := s.broker.id } }).brokers.lookup
            k).map BrokerState.countedConnections =
            (r.brokers.lookup k).map BrokerState.countedConnections := by
        intro r' hr' k
        rw [lookup_setState, hr']
        split_ifs with hk
        · rw [hk, hs]
          rfl
        · rfl
      split_ifs at hnamed ⊢
      · exact h.of_links rfl (hsame _ rfl)
      · exact h.of_links rfl (hsame _ rfl)
      · exact .of_empty rfl hnamed

theorem RoutesRight.removeBroker (h : r.RoutesRight) (settings : BrokerSettings) (id : Bytes) :
    (r.removeBroker settings env id).RoutesRight := by
  unfold BrokerRegistry.removeBroker
  split_ifs
  · refine .of_empty rfl ?_
    show (AList.erase id _).lookup [] = none
    by_cases hid : [] = id
    · rw [← hid, AList.lookup_erase]
    · rw [AList.lookup_erase_ne hid, Map.lookup_mapVals, h.named]
      rfl
  · exact h

/-- A record is replaced, and the caches are emptied. -/
theorem RoutesRight.setState (h : r.RoutesRight) {id : Bytes}
    (hid : (r.brokers.lookup id).isSome = true) (s : BrokerState) :
    ((r.setState id s).clearAllCaches env).RoutesRight := by
  refine .of_empty rfl ?_
  rw [clearAllCaches_brokers, lookup_setState, if_neg]
  · exact h.named
  · rintro rfl
    rw [h.named] at hid
    cases hid

theorem RoutesRight.changeConnections (h : r.RoutesRight) (id connection : Bytes)
    (f : BrokerState → BrokerState) :
    (if connection ≠ [] ∧ (r.brokers.lookup id).isSome then
      (r.modifyState id f).clearAllCaches env else r).RoutesRight := by
  split_ifs with hid
  · obtain ⟨s, hs⟩ := Option.isSome_iff_exists.mp hid.2
    unfold BrokerRegistry.modifyState
    rw [hs]
    exact h.setState hid.2 (f s)
  · exact h

theorem RoutesRight.onCoreMaintenance (h : r.RoutesRight) (settings : BrokerSettings) :
    (r.onCoreMaintenance settings env).RoutesRight :=
  onCoreMaintenance_keeps (fun _ id h => h.removeBroker settings id)
    (fun _ _ h => ⟨h.cached, h.named⟩) h

/-- Every operation keeps the routes right. -/
theorem RoutesRight.step (h : r.RoutesRight) (settings : BrokerSettings) (op : RegistryOp) :
    (r.step settings env op).RoutesRight := by
  cases op with
  | addBroker b => exact h.addBroker settings b
  | removeBroker id => exact h.removeBroker settings id
  | updateTtl id ttl => exact h.modifyState id fun _ => rfl
  | updateRegistrationTime id => exact h.modifyState id fun _ => rfl
  | addConnection id connection isChild => exact h.changeConnections id connection _
  | removeConnection id connection => exact h.changeConnections id connection _
  | setConnections id connections children =>
    unfold BrokerRegistry.step BrokerRegistry.setConnections
    simp only
    split
    · exact h
    · next s hs =>
      split_ifs
      · exact h.setState (by rw [hs]; rfl) _
      · exact h
  | addTopic id topic => exact h.addTopic settings id topic
  | removeTopic id topic => exact h.removeTopic settings id topic
  | clearPendingTopics id => exact h.modifyState id fun _ => rfl
  | addPendingTopics id topics => exact h.modifyState id fun _ => rfl
  | swapPendingTopics id =>
    unfold BrokerRegistry.step BrokerRegistry.swapPendingTopics
    simp only
    split_ifs
    · have hswapped := h.modifyState id (f := BrokerState.swapPendingTopics) fun _ => rfl
      exact ⟨hswapped.cached, hswapped.named⟩
    · exact h
  | setTopicsChangeCount id n => exact h.modifyState id fun _ => rfl
  | onCoreMaintenance => exact h.onCoreMaintenance settings
  | isSubscriberInHierarchy id connection topic => exact ⟨h.cached, h.named⟩
  | getNextBroker source target => exact (h.getNextBroker source target).1
  | clearCache => exact ⟨h.cached, h.named⟩
  | clearCacheWithDelay delay => exact ⟨h.cached, h.named⟩

end

theorem Reached.routesRight {settings : BrokerSettings} {r : BrokerRegistry}
    (h : Reached settings r) : r.RoutesRight := by
  induction h with
  | init env => exact .of_empty rfl rfl
  | step _ env op ih => exact ih.step settings op

/-- **The next broker.**  In every registry that is reached, in every order of the connections and
from the cache or not: the search ends whatever the bound on its depth, nothing is returned exactly
when one of the brokers has no record or no way leads from one to the other, and what is returned
otherwise is a connection of the first broker from which a way leads to the second. -/
theorem Reached.nextHop {settings : BrokerSettings} {r : BrokerRegistry} (h : Reached settings r)
    (env : RegistryEnv) (source target : Bytes) :
    (∀ levels, r.brokers.keys.length < levels →
      (DepthFirst.search (r.brokers.connections env.order) (fun _ => true) (fun b => b == target)
        levels source ∅).1 = r.brokers.findPathToBroker env.order source target) ∧
    ((r.getNextBroker env source target).1 = [] ↔
      r.brokers.lookup source = none ∨ r.brokers.lookup target = none ∨
        ¬ r.brokers.Leads source target) ∧
    (source ≠ target → (r.getNextBroker env source target).1 ≠ [] →
      r.brokers.Connected source (r.getNextBroker env source target).1 ∧
        r.brokers.Leads (r.getNextBroker env source target).1 target) :=
  ⟨fun _ => BrokerTable.findPathToBroker_bound source target,
    (h.routesRight.getNextBroker source target).2⟩

theorem Reached.run {settings : BrokerSettings} {r : BrokerRegistry} (h : Reached settings r)
    (env : RegistryEnv) (ops : List RegistryOp) :
    Reached settings (ops.foldl (BrokerRegistry.step settings env) r) := by
  induction ops generalizing r with
  | nil => exact h
  | cons op ops ih => exact ih (h.step env op)

/-- In the diamond the way from `L` to `X` goes over `B`, the connection that is tried
first. -/
theorem diamond_nextHop :
    ((runSteady diamond).getNextBroker steadyEnv (lit "L") (lit "X")).1 = lit "B" ∧
      (runSteady diamond).brokers.Connected (lit "L") (lit "B") ∧
      (runSteady diamond).brokers.Leads (lit "B") (lit "X") := by
  have h : Reached { guid := lit "L" } (runSteady diamond) := (Reached.init steadyEnv).run _ _
  have hnext : ((runSteady diamond).getNextBroker steadyEnv (lit "L") (lit "X")).1 = lit "B" := by
    decide
  have hspec := (h.nextHop steadyEnv (lit "L") (lit "X")).2.2 (by decide) (by rw [hnext]; decide)
  rw [hnext] at hspec
  exact ⟨hnext, hspec⟩

end BrokerRegistry

end DxlBroker
