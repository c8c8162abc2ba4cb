import DxlBroker.Core.BridgeConfiguration
import DxlBroker.Lib.PointerLists
import DxlBroker.Lib.Unordered

/-!
# Service zone lists

A hub or broker has a service zone of its own and those of its parent after it; a member of a hub
has the list of the hub.  The lists are made when a configuration is made, for all nodes in the order
of a hash map.  A node is an object, and two of them may have the same identifier: it is named by its
position here, and only the first one of an identifier is in the map.
-/

namespace DxlBroker

open Bytes PointerLists Unordered

namespace BrokerConfiguration

variable (c : BrokerConfiguration)

/-- The position of the node that `getConfigNode` finds. -/
def configNodeIndex (id : Bytes) : Option ℕ := c.nodes.findIdx? fun n => n.id == id

/-- The position of the hub that `getContainingHub` finds; the hubs come first. -/
def containingHubIndex (brokerId : Bytes) : Option ℕ :=
  c.hubs.findIdx? fun hub => hub.containsId brokerId

/-- The zone of a node, if it has one. -/
def zoneList (serviceZone : Bytes) : List Bytes := if serviceZone = [] then [] else [serviceZone]

/-- `generateServiceZoneList` of a hub or broker, within a number of calls: a list that was calculated
is returned as it is. -/
def generateServiceZoneList : ℕ → ℕ → Gathered ℕ Bytes → Option (List Bytes × Gathered ℕ Bytes)
  | 0, _, _ => none
  | calls + 1, node, st =>
      if node ∈ st.marked then some (st.lists node, st)
      else
        let st := st.mark node
        let insertZones := fun res : List Bytes × Gathered ℕ Bytes =>
          ((res.2.append node res.1).lists node, res.2.append node res.1)
        match c.nodes[node]? with
        | none => some (st.lists node, st)
        | some (.broker broker) =>
            match c.containingHubIndex broker.id with
            | some parentHub =>
                -- If we are a hub member, use the hub's service zone list
                (generateServiceZoneList calls parentHub st).map insertZones
            | none =>
                -- add our service zone first.
                let st := st.append node (zoneList broker.serviceZone)
                if broker.parentId = [] then some (st.lists node, st)
                else
                  match c.configNodeIndex broker.parentId with
                  | none => some (st.lists node, st)
                  | some parent => (generateServiceZoneList calls parent st).map insertZones
        | some (.hub hub) =>
            let st := st.append node (zoneList hub.serviceZone)
            if hub.parentId = [] then some (st.lists node, st)
            else
              match c.configNodeIndex hub.parentId with
              | none => some (st.lists node, st)
              | some parent => (generateServiceZoneList calls parent st).map insertZones

/-- The nodes of `m_nodeMap`. -/
def mappedNodes : List ℕ :=
  (List.range c.nodes.length).filter fun node =>
    (c.nodes[node]?).any fun n => c.configNodeIndex n.id == some node

/-- The loop of the constructor over some nodes. -/
def generateServiceZoneLists (calls : ℕ) : List ℕ → Gathered ℕ Bytes → Option (Gathered ℕ Bytes)
  | [], st => some st
  | node :: nodes, st =>
      (c.generateServiceZoneList calls node st).bind fun res =>
        generateServiceZoneLists calls nodes res.2

/-- The service zone lists after the constructor, within a number of nested calls. -/
def serviceZoneLists (calls : ℕ) (order : IterOrder ℕ) : Option (Gathered ℕ Bytes) :=
  c.generateServiceZoneLists calls (order.arrange c.mappedNodes) ⟨∅, fun _ => []⟩

/-! ### The dependencies -/

/-- The parent of a node, if it exists. -/
def parentIndex (parentId : Bytes) : Option ℕ :=
  if parentId = [] then none else c.configNodeIndex parentId

/-- What the list of a node depends on: its hub, or else its parent. -/
def dependency (node : ℕ) : Option ℕ :=
  match c.nodes[node]? with
  | none => none
  | some (.broker broker) => (c.containingHubIndex broker.id).orElse fun _ => c.parentIndex broker.parentId
  | some (.hub hub) => c.parentIndex hub.parentId

/-- The zones of a node itself; the member of a hub has none. -/
def ownZones (node : ℕ) : List Bytes :=
  match c.nodes[node]? with
  | none => []
  | some (.broker broker) =>
      if (c.containingHubIndex broker.id).isSome then [] else zoneList broker.serviceZone
  | some (.hub hub) => zoneList hub.serviceZone

/-- The list of a node as it should be: the list of its hub, or else its own zone and then the list of
its parent. -/
def ServiceZonesRight (lists : ℕ → List Bytes) (node : ℕ) : Prop :=
  match c.nodes[node]? with
  | none => True
  | some (.broker broker) =>
      match c.containingHubIndex broker.id with
      | some hub => lists node = lists hub
      | none => lists node = zoneList broker.serviceZone ++ (c.parentIndex broker.parentId).elim [] lists
  | some (.hub hub) =>
      lists node = zoneList hub.serviceZone ++ (c.parentIndex hub.parentId).elim [] lists

theorem append_nil_eq (st : Gathered ℕ Bytes) (node : ℕ) : st.append node [] = st := by
  unfold Gathered.append
  rw [List.append_nil, Function.update_eq_self]

section

variable {c}
variable {node : ℕ}

theorem dependency_member {broker : ConfigBroker} {hub : ℕ}
    (hnode : c.nodes[node]? = some (.broker broker))
    (hhub : c.containingHubIndex broker.id = some hub) :
    c.dependency node = some hub ∧ c.ownZones node = [] := by
  simp only [dependency, ownZones, hnode, hhub, Option.orElse_some, Option.isSome_some, if_true,
    and_self]

theorem dependency_broker {broker : ConfigBroker}
    (hnode : c.nodes[node]? = some (.broker broker))
    (hhub : c.containingHubIndex broker.id = none) :
    c.dependency node = c.parentIndex broker.parentId ∧
      c.ownZones node = zoneList broker.serviceZone := by
  simp only [dependency, ownZones, hnode, hhub, Option.orElse_none, Option.isSome_none,
    Bool.false_eq_true, if_false, and_self]

theorem dependency_hub {hub : Hub} (hnode : c.nodes[node]? = some (.hub hub)) :
    c.dependency node = c.parentIndex hub.parentId ∧
      c.ownZones node = zoneList hub.serviceZone := by
  simp only [dependency, ownZones, hnode, and_self]

theorem dependency_none (hnode : c.nodes[node]? = none) :
    c.dependency node = none ∧ c.ownZones node = [] := by
  simp only [dependency, ownZones, hnode, and_self]

end

/-- The mutual recursion of hubs and brokers is the one along the dependencies. -/
theorem generateServiceZoneList_eq (calls node : ℕ) (st : Gathered ℕ Bytes) :
    c.generateServiceZoneList calls node st = gather c.dependency c.ownZones calls node st := by
  induction calls generalizing node st with
  | zero => rfl
  | succ calls ih =>
    rw [generateServiceZoneList, gather]
    split_ifs with hmarked
    · rfl
    · cases hnode : c.nodes[node]? with
      | none =>
        obtain ⟨hdep, hown⟩ := dependency_none hnode
        simp only [hdep, hown, append_nil_eq]
      | some n =>
        cases n with
        | broker broker =>
          cases hhub : c.containingHubIndex broker.id with
          | some hub =>
            -- A member of a hub has the list of the hub and nothing of its own.
            obtain ⟨hdep, hown⟩ := dependency_member hnode hhub
            simp only [hdep, hown, hhub, append_nil_eq, ih]
          | none =>
            obtain ⟨hdep, hown⟩ := dependency_broker hnode hhub
            simp only [hdep, hown, hhub, parentIndex, ih]
            split_ifs
            · rfl
            · cases c.configNodeIndex broker.parentId <;> rfl
        | hub hub =>
          obtain ⟨hdep, hown⟩ := dependency_hub hnode
          simp only [hdep, hown, parentIndex, ih]
          split_ifs
          · rfl
          · cases c.configNodeIndex hub.parentId <;> rfl

theorem generateServiceZoneLists_eq (calls : ℕ) (nodes : List ℕ) (st : Gathered ℕ Bytes) :
    c.generateServiceZoneLists calls nodes st =
      gatherAll c.dependency c.ownZones calls nodes st := by
  induction nodes generalizing st with
  | nil => rfl
  | cons node nodes ih =>
    rw [generateServiceZoneLists, gatherAll, generateServiceZoneList_eq]
    simp only [ih]

/-- The dependencies stay among the nodes. -/
theorem dependency_lt {node dep : ℕ} (h : c.dependency node = some dep) :
    dep < c.nodes.length := by
  have hparent : ∀ {parentId : Bytes}, c.parentIndex parentId = some dep →
      dep < c.nodes.length := by
    intro parentId hindex
    unfold parentIndex at hindex
    split_ifs at hindex
    exact (List.findIdx?_eq_some_iff_getElem.mp hindex).1
  cases hnode : c.nodes[node]? with
  | none =>
    rw [(dependency_none hnode).1] at h
    cases h
  | some n =>
    cases n with
    | hub hub => exact hparent ((dependency_hub hnode).1 ▸ h)
    | broker broker =>
      cases hhub : c.containingHubIndex broker.id with
      | none => exact hparent ((dependency_broker hnode hhub).1 ▸ h)
      | some hub =>
        rw [(dependency_member hnode hhub).1, Option.some.injEq] at h
        have hlt := (List.findIdx?_eq_some_iff_getElem.mp hhub).1
        rw [nodes, List.length_append, List.length_map, ← h]
        omega

/-- The equation along the dependencies says what the list of a node is. -/
theorem serviceZonesRight_of_eq {lists : ℕ → List Bytes} {node : ℕ}
    (h : lists node = c.ownZones node ++ (c.dependency node).elim [] lists) :
    c.ServiceZonesRight lists node := by
  unfold ServiceZonesRight
  cases hnode : c.nodes[node]? with
  | none => trivial
  | some n =>
    cases n with
    | hub hub =>
      rw [(dependency_hub hnode).1, (dependency_hub hnode).2] at h
      exact h
    | broker broker =>
      simp only
      cases hhub : c.containingHubIndex broker.id with
      | none =>
        rw [(dependency_broker hnode hhub).1, (dependency_broker hnode hhub).2] at h
        exact h
      | some hub =>
        rw [(dependency_member hnode hhub).1, (dependency_member hnode hhub).2] at h
        exact h

end BrokerConfiguration

open PointerForest

/-- **Service zone lists.**  The constructor comes to an end for every configuration, in any order of
the nodes.  If the dependencies form no circle, the list of every node in the map is the one of its
hub, or else its own zone and the list of its parent, whatever the order. -/
theorem serviceZoneLists_spec (c : BrokerConfiguration) :
    (∀ order calls, c.nodes.length < calls → ∃ st, c.serviceZoneLists calls order = some st) ∧
    (NoCircle (fun node dep => c.dependency node = some dep) →
      ∀ order calls st, c.serviceZoneLists calls order = some st → ∀ node ∈ c.mappedNodes,
        c.ServiceZonesRight st.lists node ∧
        ∀ order' calls' st', c.serviceZoneLists calls' order' = some st' →
          st'.lists node = st.lists node) := by
  have hclosed : ∀ v ∈ Finset.range c.nodes.length, ∀ w, c.dependency v = some w →
      w ∈ Finset.range c.nodes.length := fun v _ w hw =>
    Finset.mem_range.mpr (c.dependency_lt hw)
  have hmapped : ∀ v ∈ c.mappedNodes, v ∈ Finset.range c.nodes.length := fun v hv =>
    Finset.mem_range.mpr (List.mem_range.mp (List.mem_of_mem_filter hv))
  constructor
  · intro order calls hcalls
    unfold BrokerConfiguration.serviceZoneLists
    rw [c.generateServiceZoneLists_eq]
    refine gatherAll_isSome hclosed (fun v hv => hmapped v ((order.mem_arrange).mp hv)) ?_
    exact lt_of_le_of_lt (Finset.card_le_card Finset.sdiff_subset)
      (by rwa [Finset.card_range])
  · intro hcircle
    -- The lists that are kept in the end, for any order.
    have hend : ∀ order calls st, c.serviceZoneLists calls order = some st →
        Sound c.dependency c.ownZones st ∧ ∀ v ∈ c.mappedNodes, v ∈ st.marked := by
      intro order calls st hst
      unfold BrokerConfiguration.serviceZoneLists at hst
      rw [c.generateServiceZoneLists_eq] at hst
      obtain ⟨hsound, -, hmarked⟩ := sound_start.gatherAll hst
      exact ⟨hsound, fun v hv => hmarked v ((order.mem_arrange).mpr hv)⟩
    intro order calls st hst node hnode
    obtain ⟨hsound, hmarked⟩ := hend order calls st hst
    refine ⟨c.serviceZonesRight_of_eq (hsound.lists_eq hclosed hcircle (hmapped node hnode)
      (hmarked node hnode)), fun order' calls' st' hst' => ?_⟩
    obtain ⟨hsound', hmarked'⟩ := hend order' calls' st' hst'
    obtain ⟨list, hlist⟩ := exists_listOf hclosed hcircle (hmapped node hnode)
    rw [hsound'.whole node (hmarked' node hnode) list hlist,
      hsound.whole node (hmarked node hnode) list hlist]

/-- A hub with a zone, a member of the hub, and a broker under the member. -/
def zonedFabric : BrokerConfiguration where
  hubs := [{ id := lit "h", primaryBrokerId := lit "b", serviceZone := lit "y" }]
  brokers := [{ id := lit "b", serviceZone := lit "x" },
    { id := lit "c", parentId := lit "b", serviceZone := lit "z" }]

theorem noCircle_zonedFabric : NoCircle fun node dep => zonedFabric.dependency node = some dep := by
  refine noCircle_of_rank id fun node dep h => ?_
  have hhub : zonedFabric.dependency 0 = none := by decide
  have hmember : zonedFabric.dependency 1 = some 0 := by decide
  have hbroker : zonedFabric.dependency 2 = some 1 := by decide
  rcases node with _ | _ | _ | node
  · rw [hhub] at h
    cases h
  · rw [hmember] at h
    cases h
    decide
  · rw [hbroker] at h
    cases h
    decide
  · rw [(BrokerConfiguration.dependency_none rfl).1] at h
    cases h

theorem serviceZoneLists_zonedFabric :
    ∃ st, zonedFabric.serviceZoneLists 4 (.asListed _) = some st ∧
      zonedFabric.ServiceZonesRight st.lists 2 := by
  obtain ⟨st, hst⟩ := (serviceZoneLists_spec zonedFabric).1 (.asListed _) 4 (by decide)
  exact ⟨st, hst, ((serviceZoneLists_spec zonedFabric).2 noCircle_zonedFabric _ _ st hst 2
    (by decide)).1⟩

example : (zonedFabric.serviceZoneLists 4 (.asListed _)).map (fun st => st.lists 2) =
    some [lit "z", lit "y"] := by decide

end DxlBroker
