import DxlBroker.Registry.NextHop
import Mathlib.Combinatorics.SimpleGraph.Acyclic

/-!
# The cycle check for bridges

A broker accepts a bridge only when `getNextBroker` finds no way to the broker at its other end.  A
broker without a record is never found, so the check sees no way through such a broker nor to it.
-/

namespace DxlBroker

open Bytes Unordered

namespace BrokerRegistry

section

variable (settings : BrokerSettings) (env : RegistryEnv)

/-- `isBridgeConnectAllowed`: the answer, and the registry with its routing cache. -/
def isBridgeConnectAllowed (brokerId : Bytes) (r : BrokerRegistry) : Bool × BrokerRegistry :=
  let res := r.getNextBroker env (cstr settings.guid) brokerId
  (res.1.isEmpty, res.2)

/-- `onBridgeConnected`, what it does to the registry. -/
def onBridgeConnected (isChild : Bool) (brokerId : Bytes) (r : BrokerRegistry) : BrokerRegistry :=
  r.addConnection env (cstr settings.guid) brokerId isChild

end

/-- The recorded connections, taken as undirected. -/
def graph (r : BrokerRegistry) : SimpleGraph Bytes where
  Adj v w := v ≠ w ∧ (r.brokers.Connected v w ∨ r.brokers.Connected w v)
  symm := ⟨fun _ _ h => ⟨h.1.symm, h.2.symm⟩⟩
  loopless := ⟨fun _ h => h.1 rfl⟩

/-- The connections between registered brokers are recorded at both ends. -/
def Symmetric (r : BrokerRegistry) : Prop :=
  ∀ v w, r.brokers.lookup v ≠ none → r.brokers.lookup w ≠ none → r.brokers.Connected v w →
    r.brokers.Connected w v

/-- The broker is admitted only if no way leads to it, and then its connection closes no cycle. -/
def AdmissionSafe (settings : BrokerSettings) (env : RegistryEnv) (isChild : Bool)
    (brokerId : Bytes) (r : BrokerRegistry) : Prop :=
  (r.isBridgeConnectAllowed settings env brokerId).1 = true →
    ¬ r.brokers.Leads (cstr settings.guid) brokerId ∧
    (r.Symmetric → r.graph.IsAcyclic →
      (onBridgeConnected settings env isChild brokerId
        (r.isBridgeConnectAllowed settings env brokerId).2).graph.IsAcyclic)

/-- All brokers on the recorded paths between the local broker and another one have records. -/
def PathsRegistered (settings : BrokerSettings) (brokerId : Bytes) (r : BrokerRegistry) : Prop :=
  ∀ p : r.graph.Path (cstr settings.guid) brokerId, ∀ v ∈ p.1.support, r.brokers.lookup v ≠ none

variable {settings : BrokerSettings} {env : RegistryEnv} {r : BrokerRegistry} {brokerId : Bytes}

/-! ### Ways and paths -/

theorem Connected.registered {v w : Bytes} (h : r.brokers.Connected v w) :
    r.brokers.lookup v ≠ none := by
  obtain ⟨s, hs, -⟩ := h
  rw [hs]
  exact Option.some_ne_none s

/-- A way is a path whose brokers, but for the last one, have records. -/
theorem exists_path_of_leads {v w : Bytes} (h : r.brokers.Leads v w) :
    ∃ p : r.graph.Path v w, ∀ u ∈ p.1.support, u = w ∨ r.brokers.lookup u ≠ none := by
  have hwalk : ∃ p : r.graph.Walk v w, ∀ u ∈ p.support, u = w ∨ r.brokers.lookup u ≠ none := by
    induction h using Relation.ReflTransGen.head_induction_on with
    | refl => exact ⟨.nil, fun u hu => .inl (by simpa using hu)⟩
    | @head a b hstep _ ih =>
      obtain ⟨p, hp⟩ := ih
      by_cases hab : a = b
      · rw [hab]
        exact ⟨p, hp⟩
      · refine ⟨.cons ⟨hab, .inl hstep⟩ p, fun u hu => ?_⟩
        rcases List.mem_cons.mp hu with rfl | hu
        · exact .inr (Connected.registered hstep)
        · exact hp u hu
  obtain ⟨p, hp⟩ := hwalk
  exact ⟨p.toPath, fun u hu => hp u (p.support_toPath_subset_support hu)⟩

/-- A walk along registered brokers is a way when connections are recorded at both ends. -/
theorem leads_of_walk (hsymm : r.Symmetric) {v w : Bytes} (p : r.graph.Walk v w)
    (hp : ∀ u ∈ p.support, r.brokers.lookup u ≠ none) : r.brokers.Leads v w := by
  induction p with
  | nil => exact .refl
  | @cons a b c hadj p ih =>
    refine .head ?_ (ih fun u hu => hp u (List.mem_cons_of_mem _ hu))
    rcases hadj.2 with hconnected | hconnected
    · exact hconnected
    · exact hsymm b a (Connected.registered hconnected) (hp a List.mem_cons_self) hconnected

/-! ### The new connection -/

theorem connected_addConnection {id : Bytes} (hid : r.brokers.lookup id ≠ none)
    (hbroker : brokerId ≠ []) (isChild : Bool) {v w : Bytes} :
    (r.addConnection env id brokerId isChild).brokers.Connected v w ↔
      r.brokers.Connected v w ∨ v = id ∧ w = brokerId := by
  obtain ⟨s, hs⟩ := Option.ne_none_iff_exists'.mp hid
  have hlookup : (r.addConnection env id brokerId isChild).brokers.lookup v =
      if v = id then some (s.addConnection brokerId isChild) else r.brokers.lookup v := by
    unfold addConnection
    rw [if_pos ⟨hbroker, by rw [hs]; rfl⟩, clearAllCaches_brokers, lookup_modifyState, hs]
    rfl
  have hconnection : (s.addConnection brokerId isChild).hasConnection w = true ↔
      s.hasConnection w = true ∨ w = brokerId := by
    unfold BrokerState.addConnection BrokerState.hasConnection
    simp only
    by_cases hw : w = brokerId
    · subst hw
      cases s.countedConnections.lookup w <;> simp [AList.lookup_insert]
    · cases s.countedConnections.lookup brokerId <;> simp [AList.lookup_insert_ne hw, hw]
  unfold BrokerTable.Connected
  rw [hlookup]
  by_cases hv : v = id
  · subst hv
    simp [hs, hconnection]
  · simp [hv]

/-- The connection that is recorded is one new edge. -/
theorem graph_addConnection {id : Bytes} (hid : r.brokers.lookup id ≠ none)
    (hbroker : brokerId ≠ []) (isChild : Bool) :
    (r.addConnection env id brokerId isChild).graph = r.graph ⊔ SimpleGraph.edge id brokerId := by
  ext v w
  simp only [graph, connected_addConnection hid hbroker, SimpleGraph.sup_adj,
    SimpleGraph.edge_adj]
  tauto

/-- Without a record of the local broker nothing is recorded. -/
theorem addConnection_of_none {id : Bytes}
    (h : r.brokers.lookup id = none ∨ brokerId = []) (isChild : Bool) :
    r.addConnection env id brokerId isChild = r := by
  unfold addConnection
  rw [if_neg]
  rintro ⟨hbroker, hid⟩
  rcases h with h | h
  · rw [h] at hid
    cases hid
  · exact hbroker h

/-! ### The check -/

theorem RoutesRight.allowed_iff (h : r.RoutesRight) :
    (r.isBridgeConnectAllowed settings env brokerId).1 = true ↔
      r.brokers.lookup (cstr settings.guid) = none ∨ r.brokers.lookup brokerId = none ∨
        ¬ r.brokers.Leads (cstr settings.guid) brokerId := by
  rw [← (@RoutesRight.getNextBroker r env h (cstr settings.guid) brokerId).2.1]
  simp [isBridgeConnectAllowed, List.isEmpty_iff]

/-- The graph after an admission. -/
theorem graph_onBridgeConnected (isChild : Bool) :
    (onBridgeConnected settings env isChild brokerId
        (r.isBridgeConnectAllowed settings env brokerId).2).graph =
      if r.brokers.lookup (cstr settings.guid) ≠ none ∧ brokerId ≠ [] then
        r.graph ⊔ SimpleGraph.edge (cstr settings.guid) brokerId
      else r.graph := by
  have hbrokers : (r.isBridgeConnectAllowed settings env brokerId).2.brokers = r.brokers :=
    (getNextBroker_frame env r _ _).1
  have hgraph : (r.isBridgeConnectAllowed settings env brokerId).2.graph = r.graph := by
    ext v w
    simp only [graph, hbrokers]
  rw [onBridgeConnected, ← hgraph, ← hbrokers]
  split_ifs with hrecorded
  · exact graph_addConnection hrecorded.1 hrecorded.2 isChild
  · rw [addConnection_of_none]
    tauto

/-- The check is right as long as the paths run through registered brokers. -/
theorem PathsRegistered.admissionSafe (hpaths : r.PathsRegistered settings brokerId)
    (h : r.RoutesRight) (isChild : Bool) : r.AdmissionSafe settings env isChild brokerId := by
  intro hallowed
  have hnot : ¬ r.brokers.Leads (cstr settings.guid) brokerId := by
    intro hleads
    obtain ⟨p, -⟩ := exists_path_of_leads hleads
    rcases h.allowed_iff.mp hallowed with hnone | hnone | hnot
    · exact hpaths p _ p.1.start_mem_support hnone
    · exact hpaths p _ p.1.end_mem_support hnone
    · exact hnot hleads
  refine ⟨hnot, fun hsymm hacyclic => ?_⟩
  rw [graph_onBridgeConnected]
  split_ifs
  · refine hacyclic.sup_edge_of_not_reachable fun hreachable => hnot ?_
    obtain ⟨walk⟩ := hreachable
    exact leads_of_walk hsymm walk.toPath.1 (hpaths walk.toPath)
  · exact hacyclic

/-- On a recorded path through a broker without record the check fails. -/
theorem AdmissionSafe.pathsRegistered {isChild : Bool}
    (hsafe : r.AdmissionSafe settings env isChild brokerId) (h : r.RoutesRight)
    (hsymm : r.Symmetric) (hacyclic : r.graph.IsAcyclic)
    (hlocal : r.brokers.lookup (cstr settings.guid) ≠ none) (hbroker : brokerId ≠ []) :
    r.PathsRegistered settings brokerId := by
  intro p v hv hnone
  have hallowed : (r.isBridgeConnectAllowed settings env brokerId).1 = true := by
    rw [h.allowed_iff]
    by_cases hb : r.brokers.lookup brokerId = none
    · exact .inr (.inl hb)
    · refine .inr (.inr fun hleads => ?_)
      -- The way that is found would be the only path.
      obtain ⟨q, hq⟩ := exists_path_of_leads hleads
      rw [(hacyclic.subsingleton_path _ _).elim p q] at hv
      rcases hq v hv with rfl | hregistered
      · exact hb hnone
      · exact hregistered hnone
  obtain ⟨hnot, hafter⟩ := hsafe hallowed
  have hafter := hafter hsymm hacyclic
  rw [graph_onBridgeConnected, if_pos ⟨hlocal, hbroker⟩,
    SimpleGraph.isAcyclic_sup_fromEdgeSet_iff] at hafter
  rcases hafter.2 ⟨p.1⟩ with heq | hadj
  · exact hnot (heq ▸ .refl)
  · rcases hadj.2 with hconnected | hconnected
    · exact hnot (.single hconnected)
    · exact hnot (.single (hsymm _ _ (Connected.registered hconnected) hlocal hconnected))

/-- **The cycle check.**  In every registry that is reached, a broker is admitted only when no way
leads to it, and then closes no cycle, if all brokers on the recorded paths to it have records; and
where the connections are symmetric and without cycles, only then. -/
theorem Reached.admissionSafe_iff (h : Reached settings r) (env : RegistryEnv) (isChild : Bool)
    (brokerId : Bytes) :
    (r.PathsRegistered settings brokerId → r.AdmissionSafe settings env isChild brokerId) ∧
    (r.Symmetric → r.graph.IsAcyclic → r.brokers.lookup (cstr settings.guid) ≠ none →
      brokerId ≠ [] →
      (r.AdmissionSafe settings env isChild brokerId ↔ r.PathsRegistered settings brokerId)) := by
  refine ⟨fun hpaths => hpaths.admissionSafe h.routesRight isChild, ?_⟩
  intro hsymm hacyclic hlocal hbroker
  exact ⟨fun hsafe => hsafe.pathsRegistered h.routesRight hsymm hacyclic hlocal hbroker,
    fun hpaths => hpaths.admissionSafe h.routesRight isChild⟩

/-- The local broker `L`, connected with `A`, and `A` with `B`; `C` is not connected. -/
def chain : List RegistryOp :=
  [.addBroker { id := lit "L", hostname := lit "h" },
    .addBroker { id := lit "A", hostname := lit "h" },
    .addBroker { id := lit "B", hostname := lit "h" },
    .addBroker { id := lit "C", hostname := lit "h" },
    .setConnections (lit "L") [lit "A"] [],
    .setConnections (lit "A") [lit "L", lit "B"] [],
    .setConnections (lit "B") [lit "A"] []]

theorem connected_chain {v w : Bytes} (h : (runSteady chain).brokers.Connected v w) :
    (v, w) ∈ [(lit "L", lit "A"), (lit "A", lit "L"), (lit "A", lit "B"), (lit "B", lit "A")] := by
  have hall : ∀ v ∈ (runSteady chain).brokers.keys,
      ∀ w ∈ (runSteady chain).brokers.connections steadyEnv.order v,
        (v, w) ∈ [(lit "L", lit "A"), (lit "A", lit "L"), (lit "A", lit "B"),
          (lit "B", lit "A")] := by decide
  obtain ⟨s, hs, -⟩ := id h
  refine hall v ?_ w (BrokerTable.mem_connections.mpr h)
  rw [← AList.mem_keys, ← AList.lookup_isSome, hs]
  rfl

theorem chain_pathsRegistered (brokerId : Bytes) :
    (runSteady chain).PathsRegistered { guid := lit "L" } brokerId := by
  have hknown : ∀ p ∈ [(lit "L", lit "A"), (lit "A", lit "L"), (lit "A", lit "B"),
      (lit "B", lit "A")], (runSteady chain).brokers.lookup p.2 ≠ none := by decide
  -- From one broker with a record the connections lead to others.
  have hwalk : ∀ {v w : Bytes} (p : (runSteady chain).graph.Walk v w),
      (runSteady chain).brokers.lookup v ≠ none →
        ∀ u ∈ p.support, (runSteady chain).brokers.lookup u ≠ none := by
    intro v w p
    induction p with
    | nil =>
      intro hv u hu
      rw [List.mem_singleton.mp hu]
      exact hv
    | cons hadj p ih =>
      intro hv u hu
      rcases List.mem_cons.mp hu with rfl | hu
      · exact hv
      · refine ih ?_ u hu
        rcases hadj.2 with hconnected | hconnected
        · exact hknown _ (connected_chain hconnected)
        · exact Connected.registered hconnected
  exact fun p => hwalk p.1 (by decide)

theorem chain_symmetric : (runSteady chain).Symmetric := by
  intro v w _ _ h
  have hmem := connected_chain h
  simp only [List.mem_cons, Prod.mk.injEq, List.not_mem_nil, or_false] at hmem
  rcases hmem with ⟨rfl, rfl⟩ | ⟨rfl, rfl⟩ | ⟨rfl, rfl⟩ | ⟨rfl, rfl⟩
  · exact ⟨_, rfl, by decide⟩
  · exact ⟨_, rfl, by decide⟩
  · exact ⟨_, rfl, by decide⟩
  · exact ⟨_, rfl, by decide⟩

theorem chain_acyclic : (runSteady chain).graph.IsAcyclic := by
  have hle : (runSteady chain).graph ≤
      SimpleGraph.edge (lit "L") (lit "A") ⊔ SimpleGraph.edge (lit "A") (lit "B") := by
    rintro v w ⟨hne, h⟩
    have hmem := h.imp connected_chain connected_chain
    simp only [List.mem_cons, Prod.mk.injEq, List.not_mem_nil, or_false] at hmem
    rw [SimpleGraph.sup_adj, SimpleGraph.edge_adj, SimpleGraph.edge_adj]
    tauto
  have hone : (SimpleGraph.edge (lit "L") (lit "A")).IsAcyclic := by
    have hedge := (@SimpleGraph.isAcyclic_bot Bytes).sup_edge_of_not_reachable
      (SimpleGraph.not_reachable_of_neighborSet_left_eq_empty (by decide : lit "L" ≠ lit "A")
        (by simp))
    rwa [bot_sup_eq] at hedge
  refine (hone.sup_edge_of_not_reachable ?_).anti hle
  refine SimpleGraph.not_reachable_of_neighborSet_right_eq_empty (by decide) ?_
  refine Set.eq_empty_iff_forall_notMem.mpr fun w hw => ?_
  rw [SimpleGraph.mem_neighborSet, SimpleGraph.edge_adj] at hw
  rcases hw.1 with ⟨hB, -⟩ | ⟨hB, -⟩
  · exact absurd hB (by decide)
  · exact absurd hB (by decide)

/-- The check of `B`, to which a way leads, and of `C`, whose connection closes no cycle. -/
theorem chain_admissionSafe :
    ((runSteady chain).AdmissionSafe { guid := lit "L" } steadyEnv false (lit "B") ↔
      (runSteady chain).PathsRegistered { guid := lit "L" } (lit "B")) ∧
    ((runSteady chain).isBridgeConnectAllowed { guid := lit "L" } steadyEnv (lit "B")).1 = false ∧
    ((runSteady chain).isBridgeConnectAllowed { guid := lit "L" } steadyEnv (lit "C")).1 = true ∧
    (onBridgeConnected { guid := lit "L" } steadyEnv false (lit "C")
      ((runSteady chain).isBridgeConnectAllowed { guid := lit "L" } steadyEnv
        (lit "C")).2).graph.IsAcyclic := by
  have h : Reached { guid := lit "L" } (runSteady chain) := (Reached.init steadyEnv).run _ _
  have hallowed : ((runSteady chain).isBridgeConnectAllowed { guid := lit "L" } steadyEnv
      (lit "C")).1 = true := by decide
  refine ⟨(h.admissionSafe_iff steadyEnv false (lit "B")).2 chain_symmetric chain_acyclic
    (by decide) (by decide), by decide, hallowed, ?_⟩
  exact ((h.admissionSafe_iff steadyEnv false (lit "C")).1 (chain_pathsRegistered (lit "C"))
    hallowed).2 chain_symmetric chain_acyclic

/-- The local broker `L` is connected with `A`, and `A` with `X`, which has no record. -/
def unknownNeighbour : List RegistryOp :=
  [.addBroker { id := lit "L", hostname := lit "h" },
    .addBroker { id := lit "A", hostname := lit "h" },
    .setConnections (lit "L") [lit "A"] [],
    .setConnections (lit "A") [lit "L", lit "X"] []]

/-- `X` is admitted although `A` leads to it. -/
theorem unknownNeighbour_admitted :
    Reached { guid := lit "L" } (runSteady unknownNeighbour) ∧
      ¬ (runSteady unknownNeighbour).AdmissionSafe { guid := lit "L" } steadyEnv false
        (lit "X") := by
  refine ⟨(Reached.init steadyEnv).run _ _, fun hsafe => (hsafe (by decide)).1 ?_⟩
  have hLA : (runSteady unknownNeighbour).brokers.Connected (lit "L") (lit "A") :=
    ⟨_, rfl, by decide⟩
  have hAX : (runSteady unknownNeighbour).brokers.Connected (lit "A") (lit "X") :=
    ⟨_, rfl, by decide⟩
  exact .head hLA (.single hAX)

end BrokerRegistry

end DxlBroker
