import DxlBroker.Lib.DepthFirst
import DxlBroker.Registry.BrokerState

/-!
# Searching the fabric

The reading functions of the broker registry: which brokers and connections exist, whether a broker
has a subscriber for a topic, and the depth-first traversals along the connections.
-/

namespace DxlBroker

open Bytes Unordered DepthFirst

/-- The brokers of a registry by their identifiers. -/
abbrev BrokerTable := Map Bytes BrokerState

/-- The order in which the connections of each broker are iterated. -/
abbrev ConnectionOrder := Bytes → IterOrder Bytes

namespace BrokerTable

variable (settings : BrokerSettings) (order : ConnectionOrder) (brokers : BrokerTable)

/-- `exists` -/
def hasBroker (brokerId : Bytes) : Bool := brokerId != [] && (brokers.lookup brokerId).isSome

/-- `hasConnection` -/
def hasConnection (brokerId connectionId : Bytes) : Bool :=
  brokerId != [] && connectionId != [] &&
    ((brokers.lookup brokerId).elim false fun s => s.hasConnection connectionId)

/-- `hasTopic` -/
def hasTopic (brokerId topic : Bytes) : Bool :=
  (brokers.lookup brokerId).elim false fun s => s.hasTopic topic

/-- The test of `isSubscriberInBroker` on a broker's record: the topic itself or, when there are
wildcards at all, one of its wildcard ancestors. -/
def hasSubscriber (s : BrokerState) (topic : Bytes) : Bool :=
  !s.isTopicRoutingEnabled settings || s.hasTopic topic ||
    (decide (s.subscriptionsWildcardCount > 0) && (wildcardAncestors topic).any s.hasTopic)

/-- `isSubscriberInBroker` -/
def isSubscriberInBroker (brokerId topic : Bytes) : Bool :=
  (brokers.lookup brokerId).elim false fun s => hasSubscriber settings s topic

/-- `forEachConnection` of a broker, nothing for an unknown one. -/
def connections (brokerId : Bytes) : List Bytes :=
  (brokers.lookup brokerId).elim [] fun s => (order brokerId).arrange s.countedConnections.keys

/-- `depthFirstTraversal` on behalf of a broker, which is never entered: the visited brokers, and
whether the visit of one of them ended the traversal. -/
def depthFirstTraversal (start broker : Bytes) (stop : Bytes → Bool) : Bool × Finset Bytes :=
  if start = broker then (false, ∅)
  else
    let r := search (brokers.connections order) (fun b => b != broker) stop
      (brokers.keys.length + 1) start ∅
    (r.1.isSome, r.2)

/-- The search of `isSubscriberInHierarchy` that does not use the topic cache
(`FindSubscriberVisitor`). -/
def findSubscriber (brokerId connection topic : Bytes) : Bool :=
  (brokers.depthFirstTraversal order connection brokerId
    fun b => brokers.isSubscriberInBroker settings b topic).1

/-- `findPathToBroker` -/
def findPathToBroker (start finish : Bytes) : Option (List Bytes) :=
  (search (brokers.connections order) (fun _ => true) (fun b => b == finish)
    (brokers.keys.length + 1) start ∅).1

end BrokerTable

/-! ### Reachable brokers -/

namespace BrokerTable

variable {settings : BrokerSettings} {order : ConnectionOrder} {brokers : BrokerTable}

/-- A connection from a known broker. -/
def Connected (brokers : BrokerTable) (v w : Bytes) : Prop :=
  ∃ s, brokers.lookup v = some s ∧ s.hasConnection w = true

theorem mem_connections {v w : Bytes} : w ∈ brokers.connections order v ↔ brokers.Connected v w := by
  unfold connections Connected
  cases hv : brokers.lookup v with
  | none => simp
  | some s => simp [BrokerState.hasConnection, AList.lookup_isSome, AList.mem_keys]

theorem mem_keys_of_connections {v : Bytes} (h : brokers.connections order v ≠ []) :
    v ∈ brokers.keys.toFinset := by
  rw [List.mem_toFinset, ← AList.mem_keys, ← AList.lookup_isSome]
  unfold connections at h
  cases hv : brokers.lookup v with
  | none =>
    rw [hv] at h
    exact absurd rfl h
  | some s => rfl

theorem card_keys : brokers.keys.toFinset.card = brokers.keys.length :=
  List.toFinset_card_of_nodup brokers.keys_nodup

/-- The brokers reached from `start` without entering `broker`. -/
def ReachAvoiding (brokers : BrokerTable) (broker : Bytes) (start v : Bytes) : Prop :=
  start ≠ broker ∧
    Relation.ReflTransGen (fun v w => brokers.Connected v w ∧ w ≠ broker) start v

theorem reach_iff {broker start v : Bytes} (h : start ≠ broker) :
    Reach (brokers.connections order) (fun b => b != broker) start v ↔
      brokers.ReachAvoiding broker start v := by
  have hstep : Step (brokers.connections order) (fun b => b != broker) =
      fun v w => brokers.Connected v w ∧ w ≠ broker := by
    funext v w
    simp [Step, mem_connections]
  rw [Reach, hstep, ReachAvoiding]
  simp [h]

/-- The traversal is stopped exactly when a broker that stops it is reachable. -/
theorem depthFirstTraversal_fst {start broker : Bytes} {stop : Bytes → Bool} :
    (brokers.depthFirstTraversal order start broker stop).1 = true ↔
      ∃ v, brokers.ReachAvoiding broker start v ∧ stop v = true := by
  unfold depthFirstTraversal
  split_ifs with h
  · simp [ReachAvoiding, h]
  · simp only [← card_keys]
    rw [search_isSome_iff fun v => mem_keys_of_connections]
    simp only [reach_iff h]

/-- A traversal that is not stopped visits all reachable brokers. -/
theorem depthFirstTraversal_snd {start broker : Bytes} {stop : Bytes → Bool}
    (h : (brokers.depthFirstTraversal order start broker stop).1 = false) (v : Bytes) :
    v ∈ (brokers.depthFirstTraversal order start broker stop).2 ↔
      brokers.ReachAvoiding broker start v := by
  unfold depthFirstTraversal at h ⊢
  split_ifs at h ⊢ with hs
  · simp [ReachAvoiding, hs]
  · simp only [← card_keys] at h ⊢
    rw [visited_eq_reach (fun v => mem_keys_of_connections) start
      (Option.not_isSome_iff_eq_none.mp (by simpa using h)), reach_iff hs]

/-- The search without the cache finds a subscriber exactly when a reachable broker has one. -/
theorem findSubscriber_iff {brokerId connection topic : Bytes} :
    brokers.findSubscriber settings order brokerId connection topic = true ↔
      ∃ v, brokers.ReachAvoiding brokerId connection v ∧
        brokers.isSubscriberInBroker settings v topic = true :=
  depthFirstTraversal_fst

end BrokerTable

end DxlBroker
