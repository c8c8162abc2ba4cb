import DxlBroker.Lib.Bytes
import DxlBroker.Lib.PointerForest

/-!
# Bridge configurations

Each broker finds out from the configuration of the fabric which brokers it may connect to: the
other member of its hub, if that one has the smaller identifier, and its parents.  No broker sees
the bridges of the others, and still no circle of bridges can come up when the parents form none.
-/

namespace DxlBroker

open Bytes

/-- `ConfigBroker` -/
structure ConfigBroker where
  id : Bytes
  hostname : Bytes := []
  port : UInt32 := 0
  parentId : Bytes := []
  ipAddress : Bytes := []
  serviceZone : Bytes := []
  deriving DecidableEq

/-- `Hub` -/
structure Hub where
  id : Bytes
  primaryBrokerId : Bytes := []
  secondaryBrokerId : Bytes := []
  parentId : Bytes := []
  name : Bytes := []
  serviceZone : Bytes := []
  deriving DecidableEq

/-- `PtrHubContainsId` -/
def Hub.containsId (hub : Hub) (brokerId : Bytes) : Bool :=
  hub.primaryBrokerId == brokerId || hub.secondaryBrokerId == brokerId

/-- `ConfigNode` -/
inductive ConfigNode
  | hub (hub : Hub)
  | broker (broker : ConfigBroker)
  deriving DecidableEq

namespace ConfigNode

/-- `getId` -/
def id : ConfigNode → Bytes
  | hub h => h.id
  | broker b => b.id

/-- `getParentId` -/
def parentId : ConfigNode → Bytes
  | hub h => h.parentId
  | broker b => b.parentId

end ConfigNode

/-- `BrokerConfiguration` -/
structure BrokerConfiguration where
  hubs : List Hub := []
  brokers : List ConfigBroker := []

namespace BrokerConfiguration

/-- The nodes in the order in which they are inserted into `m_nodeMap`. -/
def nodes (c : BrokerConfiguration) : List ConfigNode :=
  c.hubs.map .hub ++ c.brokers.map .broker

/-- `getConfigNode`: a second node of an identifier is not inserted. -/
def getConfigNode (c : BrokerConfiguration) (id : Bytes) : Option ConfigNode :=
  c.nodes.find? fun n => n.id == id

/-- `getContainingHub` -/
def getContainingHub (c : BrokerConfiguration) (brokerId : Bytes) : Option Hub :=
  c.hubs.find? fun hub => hub.containsId brokerId

end BrokerConfiguration

/-- `CoreBridgeConfiguration::Broker` -/
structure BridgeBroker where
  guid : Bytes
  host : Bytes
  port : UInt32
  deriving DecidableEq

/-- `CoreBridgeConfiguration` -/
structure CoreBridgeConfiguration where
  guid : Bytes
  hostName : Bytes := []
  ipAddress : Bytes := []
  port : UInt32 := 0
  hubName : Bytes := []
  brokers : List BridgeBroker := []
  primaryBrokerCount : UInt32 := 0
  deriving DecidableEq

namespace CoreBridgeConfiguration

variable (brokerConfig : BrokerConfiguration) (config : CoreBridgeConfiguration)

/-- `addBroker`: once under its host name, and once under its IP address. -/
def addBroker (brokerId : Bytes) : CoreBridgeConfiguration :=
  if brokerId.isEmpty then config
  else
    match brokerConfig.getConfigNode brokerId with
    | none => config
    | some (.hub _) => config
    | some (.broker broker) =>
        { config with
          brokers := config.brokers ++ ⟨broker.id, broker.hostname, broker.port⟩ ::
            if broker.ipAddress.isEmpty then [] else [⟨broker.id, broker.ipAddress, broker.port⟩] }

/-- `addPrimaryHub`: the other member of the hub, if it is the one that connects to the parent. -/
def addPrimaryHub (localBroker : ConfigBroker) : CoreBridgeConfiguration :=
  match brokerConfig.getContainingHub localBroker.id with
  | none => config
  | some containingHub =>
      let config := { config with hubName := containingHub.name }
      let otherBrokerId := if localBroker.id == containingHub.primaryBrokerId then
        containingHub.secondaryBrokerId else containingHub.primaryBrokerId
      if !otherBrokerId.isEmpty && decide (otherBrokerId < localBroker.id) then
        let config := config.addBroker brokerConfig otherBrokerId
        { config with primaryBrokerCount := UInt32.ofNat config.brokers.length }
      else config

/-- `addParents`: a member of a hub has the parents of its hub. -/
def addParents (localBroker : ConfigBroker) : CoreBridgeConfiguration :=
  let parentId := match brokerConfig.getContainingHub localBroker.id with
    | some containingHub => containingHub.parentId
    | none => localBroker.parentId
  if parentId.isEmpty then config
  else
    match brokerConfig.getConfigNode parentId with
    | none => config
    | some (.broker _) => config.addBroker brokerConfig parentId
    | some (.hub parentHub) =>
        if parentHub.primaryBrokerId < parentHub.secondaryBrokerId then
          (config.addBroker brokerConfig parentHub.primaryBrokerId).addBroker brokerConfig
            parentHub.secondaryBrokerId
        else
          (config.addBroker brokerConfig parentHub.secondaryBrokerId).addBroker brokerConfig
            parentHub.primaryBrokerId

/-- `createConfiguration` -/
def createConfiguration (guid : Bytes) : CoreBridgeConfiguration :=
  let config : CoreBridgeConfiguration := { guid := guid }
  match brokerConfig.getConfigNode guid with
  | some (.broker localBroker) =>
      let config := { config with
        hostName := localBroker.hostname
        ipAddress := localBroker.ipAddress
        port := localBroker.port }
      (config.addPrimaryHub brokerConfig localBroker).addParents brokerConfig localBroker
  | some (.hub _) => config
  | none => config

end CoreBridgeConfiguration

namespace BrokerConfiguration

variable {c : BrokerConfiguration}

/-- A broker may connect to another one by the bridge configuration created for it. -/
def BridgesTo (c : BrokerConfiguration) (guid guid' : Bytes) : Prop :=
  guid' ∈ (CoreBridgeConfiguration.createConfiguration c guid).brokers.map BridgeBroker.guid

/-! ### Contracted hubs -/

/-- The members of a hub are contracted to the hub. -/
def contracted (c : BrokerConfiguration) : ConfigNode → ConfigNode
  | .hub hub => .hub hub
  | .broker broker => (c.getContainingHub broker.id).elim (.broker broker) .hub

/-- The parent relation between contracted nodes. -/
def ParentOf (c : BrokerConfiguration) (n m : ConfigNode) : Prop :=
  n.parentId ≠ [] ∧ ∃ p, c.getConfigNode n.parentId = some p ∧ m = c.contracted p

/-- Each broker is a member of one hub at most. -/
def OneHub (c : BrokerConfiguration) : Prop :=
  ∀ broker ∈ c.brokers, broker.id ≠ [] → ∀ hub ∈ c.hubs, ∀ hub' ∈ c.hubs,
    hub.containsId broker.id = true → hub'.containsId broker.id = true → hub = hub'

/-- The contracted node of an identifier; one that is not configured stands for itself. -/
def level (c : BrokerConfiguration) (id : Bytes) : ConfigNode :=
  (c.getConfigNode id).elim (.broker { id := id }) c.contracted

theorem mem_nodes_of_getConfigNode {id : Bytes} {n : ConfigNode}
    (h : c.getConfigNode id = some n) : n ∈ c.nodes ∧ n.id = id :=
  ⟨List.mem_of_find?_eq_some h, by simpa using List.find?_some h⟩

theorem mem_brokers_of_getConfigNode {id : Bytes} {broker : ConfigBroker}
    (h : c.getConfigNode id = some (.broker broker)) : broker ∈ c.brokers ∧ broker.id = id := by
  obtain ⟨hmem, hid⟩ := mem_nodes_of_getConfigNode h
  simp only [nodes, List.mem_append, List.mem_map, reduceCtorEq, and_false, exists_false,
    ConfigNode.broker.injEq, exists_eq_right, false_or] at hmem
  exact ⟨hmem, hid⟩

theorem mem_hubs_of_getConfigNode {id : Bytes} {hub : Hub}
    (h : c.getConfigNode id = some (.hub hub)) : hub ∈ c.hubs := by
  obtain ⟨hmem, -⟩ := mem_nodes_of_getConfigNode h
  simpa [nodes] using hmem

theorem mem_hubs_of_getContainingHub {brokerId : Bytes} {hub : Hub}
    (h : c.getContainingHub brokerId = some hub) :
    hub ∈ c.hubs ∧ hub.containsId brokerId = true := by
  rw [getContainingHub] at h
  have hmember := List.find?_some h
  exact ⟨List.mem_of_find?_eq_some h, hmember⟩

/-- The hub of a broker, by any hub that has it as a member. -/
theorem OneHub.getContainingHub_eq (hc : c.OneHub) {broker : ConfigBroker}
    (hbroker : broker ∈ c.brokers) (hid : broker.id ≠ []) {hub : Hub} (hhub : hub ∈ c.hubs)
    (hmember : hub.containsId broker.id = true) : c.getContainingHub broker.id = some hub := by
  cases h : c.getContainingHub broker.id with
  | none =>
    have := List.find?_eq_none.mp h hub hhub
    exact absurd hmember this
  | some hub' =>
    obtain ⟨hmem, hmember'⟩ := mem_hubs_of_getContainingHub h
    rw [hc broker hbroker hid hub' hmem hub hhub hmember' hmember]

theorem OneHub.level_eq_hub (hc : c.OneHub) {id : Bytes} {broker : ConfigBroker}
    (h : c.getConfigNode id = some (.broker broker)) (hid : id ≠ []) {hub : Hub}
    (hhub : hub ∈ c.hubs) (hmember : hub.containsId id = true) : c.level id = .hub hub := by
  obtain ⟨hbroker, rfl⟩ := mem_brokers_of_getConfigNode h
  rw [level, h, Option.elim_some, contracted, hc.getContainingHub_eq hbroker hid hhub hmember]
  rfl

/-! ### The bridges of one broker -/

/-- A broker that can be added. -/
def Addable (c : BrokerConfiguration) (id : Bytes) : Prop :=
  id ≠ [] ∧ ∃ broker, c.getConfigNode id = some (.broker broker)

theorem mem_addBroker {config : CoreBridgeConfiguration} {id guid : Bytes}
    (h : guid ∈ (config.addBroker c id).brokers.map BridgeBroker.guid) :
    guid ∈ config.brokers.map BridgeBroker.guid ∨ (guid = id ∧ c.Addable id) := by
  unfold CoreBridgeConfiguration.addBroker at h
  split_ifs at h with hempty
  · exact .inl h
  · split at h
    · exact .inl h
    · exact .inl h
    · rename_i broker hnode
      have hadd : c.Addable id := ⟨by simpa using hempty, broker, hnode⟩
      rw [List.map_append, List.mem_append] at h
      refine h.imp_right fun hnew => ⟨?_, hadd⟩
      have hid := (mem_brokers_of_getConfigNode hnode).2
      split_ifs at hnew <;> simpa [hid] using hnew

/-- A bridge to the other member of the hub. -/
theorem mem_addPrimaryHub {config : CoreBridgeConfiguration} {localBroker : ConfigBroker}
    {guid : Bytes}
    (h : guid ∈ (config.addPrimaryHub c localBroker).brokers.map BridgeBroker.guid) :
    guid ∈ config.brokers.map BridgeBroker.guid ∨ (c.Addable guid ∧ guid < localBroker.id ∧
      ∃ hub, c.getContainingHub localBroker.id = some hub ∧ hub.containsId guid = true) := by
  unfold CoreBridgeConfiguration.addPrimaryHub at h
  split at h
  · exact .inl h
  · rename_i hub hhub
    have hmember : hub.containsId (if localBroker.id == hub.primaryBrokerId then
        hub.secondaryBrokerId else hub.primaryBrokerId) = true := by
      split_ifs <;> simp [Hub.containsId]
    generalize (if localBroker.id == hub.primaryBrokerId then
      hub.secondaryBrokerId else hub.primaryBrokerId) = otherBrokerId at h hmember
    simp only at h
    split at h
    · rename_i hother
      rw [Bool.and_eq_true, decide_eq_true_eq] at hother
      refine (mem_addBroker h).imp_right ?_
      rintro ⟨rfl, hadd⟩
      exact ⟨hadd, hother.2, hub, hhub, hmember⟩
    · exact .inl h

/-- A bridge to a parent. -/
theorem mem_addParents {config : CoreBridgeConfiguration} {localBroker : ConfigBroker}
    {guid : Bytes}
    (h : guid ∈ (config.addParents c localBroker).brokers.map BridgeBroker.guid) :
    guid ∈ config.brokers.map BridgeBroker.guid ∨ (c.Addable guid ∧
      (c.contracted (.broker localBroker)).parentId ≠ [] ∧
      ∃ p, c.getConfigNode (c.contracted (.broker localBroker)).parentId = some p ∧
        (guid = (c.contracted (.broker localBroker)).parentId ∨
          ∃ hub, p = .hub hub ∧ hub.containsId guid = true)) := by
  have hparent : (match c.getContainingHub localBroker.id with
      | some containingHub => containingHub.parentId
      | none => localBroker.parentId) = (c.contracted (.broker localBroker)).parentId := by
    rw [contracted]
    cases c.getContainingHub localBroker.id <;> rfl
  unfold CoreBridgeConfiguration.addParents at h
  simp only [hparent] at h
  split at h
  · exact .inl h
  · rename_i hempty
    have hempty : (c.contracted (.broker localBroker)).parentId ≠ [] := by simpa using hempty
    split at h
    · exact .inl h
    · rename_i broker hnode
      refine (mem_addBroker h).imp_right ?_
      rintro ⟨rfl, hadd⟩
      exact ⟨hadd, hempty, _, hnode, .inl rfl⟩
    · rename_i hub hnode
      -- The members of the hub, in one order or the other.
      have hmembers : ∀ id id' : Bytes, hub.containsId id = true → hub.containsId id' = true →
          guid ∈ ((config.addBroker c id).addBroker c id').brokers.map BridgeBroker.guid →
          guid ∈ config.brokers.map BridgeBroker.guid ∨
            (c.Addable guid ∧ hub.containsId guid = true) := by
        intro id id' hid hid' hmem
        rcases mem_addBroker hmem with hmem | ⟨rfl, hadd⟩
        · rcases mem_addBroker hmem with hmem | ⟨rfl, hadd⟩
          · exact .inl hmem
          · exact .inr ⟨hadd, hid⟩
        · exact .inr ⟨hadd, hid'⟩
      have hprimary : hub.containsId hub.primaryBrokerId = true := by simp [Hub.containsId]
      have hsecondary : hub.containsId hub.secondaryBrokerId = true := by simp [Hub.containsId]
      have hall : guid ∈ config.brokers.map BridgeBroker.guid ∨
          (c.Addable guid ∧ hub.containsId guid = true) := by
        split_ifs at h
        · exact hmembers _ _ hprimary hsecondary h
        · exact hmembers _ _ hsecondary hprimary h
      exact hall.imp_right fun ⟨hadd, hmember⟩ =>
        ⟨hadd, hempty, _, hnode, .inr ⟨hub, rfl, hmember⟩⟩

/-- A bridge goes to the level of the parents, or stays in a hub and goes to the smaller
identifier. -/
theorem OneHub.level_of_bridgesTo (hc : c.OneHub) {guid guid' : Bytes}
    (h : c.BridgesTo guid guid') :
    c.ParentOf (c.level guid) (c.level guid') ∨
      (c.level guid = c.level guid' ∧ guid' < guid) := by
  unfold BridgesTo CoreBridgeConfiguration.createConfiguration at h
  simp only at h
  split at h
  · rename_i localBroker hlocal
    have hlevel : c.level guid = c.contracted (.broker localBroker) := by
      rw [level, hlocal, Option.elim_some]
    have hid := (mem_brokers_of_getConfigNode hlocal).2
    rcases mem_addParents h with h | ⟨⟨hne, broker, hbroker⟩, hempty, p, hp, htarget⟩
    · rcases mem_addPrimaryHub h with h | ⟨⟨hne, broker, hbroker⟩, hlt, hub, hhub, hmember⟩
      · cases h
      · refine .inr ⟨?_, hid ▸ hlt⟩
        rw [hlevel, hc.level_eq_hub hbroker hne (mem_hubs_of_getContainingHub hhub).1 hmember,
          contracted, hhub]
        rfl
    · refine .inl ⟨hlevel ▸ hempty, p, hlevel ▸ hp, ?_⟩
      rcases htarget with rfl | ⟨hub, rfl, hmember⟩
      · rw [level, hp, Option.elim_some]
      · rw [hc.level_eq_hub hbroker hne (mem_hubs_of_getConfigNode hp) hmember, contracted]
  · cases h
  · cases h

end BrokerConfiguration

open PointerForest

/-- **Bridge configurations form no circle.**  If each broker is in one hub at most and the parents
form no circle once the hubs are contracted, then the brokers that each broker may connect to form
no circle, and whichever of them each broker connects to, the bridges are a forest. -/
theorem bridgeConfiguration_acyclic {c : BrokerConfiguration} (hhub : c.OneHub)
    (hparent : NoCircle c.ParentOf) :
    NoCircle c.BridgesTo ∧ ∀ target : Bytes → Option Bytes,
      (∀ guid guid', target guid = some guid' → c.BridgesTo guid guid') →
      (graph target).IsAcyclic := by
  have hbridges : NoCircle c.BridgesTo :=
    noCircle_of_level c.level hparent (S := fun a b : Bytes => b < a)
      (fun a => List.lt_irrefl a) (fun a b d hab hbd => List.lt_trans hbd hab)
      fun a b h => hhub.level_of_bridgesTo h
  exact ⟨hbridges, fun target htarget => isAcyclic_graph (hbridges.mono htarget)⟩

/-- A hub of two brokers under a root broker. -/
def hubFabric : BrokerConfiguration where
  hubs := [⟨lit "h", lit "b", lit "a", lit "r", lit "Hub", []⟩]
  brokers := [{ id := lit "a" }, { id := lit "b" }, { id := lit "r" }]

theorem noCircle_hubFabric : NoCircle hubFabric.ParentOf := by
  let rank : ConfigNode → ℕ := fun n =>
    if n = .broker { id := lit "r" } then 0
    else if n = .hub ⟨lit "h", lit "b", lit "a", lit "r", lit "Hub", []⟩ then 1
    else 2
  refine noCircle_of_rank rank ?_
  rintro n m ⟨hne, p, hp, rfl⟩
  obtain ⟨hmem, hid⟩ := BrokerConfiguration.mem_nodes_of_getConfigNode hp
  simp only [BrokerConfiguration.nodes, hubFabric, List.map_cons, List.map_nil, List.cons_append,
    List.nil_append, List.mem_cons, List.not_mem_nil, or_false] at hmem
  -- The root has no parent, and the hub has the root.
  have hroot : n ≠ .broker { id := lit "r" } := by
    rintro rfl
    exact hne rfl
  by_cases hhub : n = .hub ⟨lit "h", lit "b", lit "a", lit "r", lit "Hub", []⟩
  · subst hhub
    rcases hmem with rfl | rfl | rfl | rfl
    · exact absurd hid (by decide)
    · exact absurd hid (by decide)
    · exact absurd hid (by decide)
    · decide
  · have hrank : rank n = 2 := by simp only [rank, if_neg hroot, if_neg hhub]
    rw [hrank]
    rcases hmem with rfl | rfl | rfl | rfl <;> decide

theorem bridgeConfiguration_acyclic_hubFabric :
    NoCircle hubFabric.BridgesTo ∧ ∀ target : Bytes → Option Bytes,
      (∀ guid guid', target guid = some guid' → hubFabric.BridgesTo guid guid') →
      (graph target).IsAcyclic :=
  bridgeConfiguration_acyclic (fun _ _ _ _ hhub _ hhub' _ _ =>
    (List.mem_singleton.mp hhub).trans (List.mem_singleton.mp hhub').symm) noCircle_hubFabric

example : (CoreBridgeConfiguration.createConfiguration hubFabric (lit "b")).brokers.map
    BridgeBroker.guid = [lit "a", lit "r"] := by decide

end DxlBroker
