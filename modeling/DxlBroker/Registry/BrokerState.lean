import DxlBroker.Core.CoreUtil
import DxlBroker.Core.Settings
import DxlBroker.Lib.Unordered
import Mathlib.Data.Finset.Card
import Mathlib.Data.Finset.Union

/-!
# The record of a broker

`BrokerState` is what a broker knows of another one, or of itself: its properties, its counted
connections, the subscriptions of its clients with the number of wildcards among them and a change
count, and the subscriptions of a transfer that has not ended yet.
-/

namespace DxlBroker

open Bytes Unordered

/-! ### Counting wildcards -/

/-- The number of different filters that end with a `#`. -/
def wildcardTotal (filters : Finset Bytes) : ℕ := (filters.filter fun f => isWildcard f = true).card

theorem wildcardTotal_insert {filters : Finset Bytes} {f : Bytes} (h : f ∉ filters) :
    wildcardTotal (insert f filters) =
      wildcardTotal filters + if isWildcard f = true then 1 else 0 := by
  unfold wildcardTotal
  rw [Finset.filter_insert]
  split_ifs with hw
  · rw [Finset.card_insert_of_notMem fun hm => h (Finset.mem_filter.mp hm).1]
  · rfl

theorem wildcardTotal_erase {filters : Finset Bytes} {f : Bytes} (h : f ∈ filters) :
    wildcardTotal filters =
      wildcardTotal (filters.erase f) + if isWildcard f = true then 1 else 0 := by
  conv_lhs => rw [← Finset.insert_erase h]
  exact wildcardTotal_insert (Finset.notMem_erase f filters)

theorem wildcardTotal_union (s t : Finset Bytes) :
    wildcardTotal (s ∪ t) = wildcardTotal s + wildcardTotal (t \ s) := by
  unfold wildcardTotal
  rw [← Finset.union_sdiff_self_eq_union, Finset.filter_union, Finset.card_union_of_disjoint]
  exact Finset.disjoint_filter_filter Finset.disjoint_sdiff

theorem wildcardTotal_pos {filters : Finset Bytes} {f : Bytes} (h : f ∈ filters)
    (hf : isWildcard f = true) : 0 < wildcardTotal filters :=
  Finset.card_pos.mpr ⟨f, Finset.mem_filter.mpr ⟨h, hf⟩⟩

/-! ### Brokers -/

/-- The properties of a broker. -/
structure Broker where
  id : Bytes
  hostname : Bytes := []
  port : UInt32 := 0
  ttl : UInt32 := 0
  startTime : UInt32 := 0
  policyHostname : Bytes := []
  policyIpAddress : Bytes := []
  policyHubName : Bytes := []
  policyPort : UInt32 := 0
  webSocketPort : UInt32 := 0
  brokerVersion : Bytes := []
  connectionLimit : UInt32 := 0
  topicRoutingEnabled : Bool := true
  deriving DecidableEq

/-- `isLocalBroker` -/
def Broker.isLocalBroker (settings : BrokerSettings) (b : Broker) : Bool :=
  b.id == cstr settings.guid

/-- `isTopicRoutingEnabled`: the local broker has the setting, whatever its record says. -/
def Broker.isTopicRoutingEnabled (settings : BrokerSettings) (b : Broker) : Bool :=
  if b.isLocalBroker settings then settings.topicRoutingEnabled else b.topicRoutingEnabled

/-- The record of a broker. -/
structure BrokerState where
  broker : Broker
  countedConnections : Map Bytes UInt32 := ∅
  childConnections : Finset Bytes := ∅
  subscriptions : Finset Bytes := ∅
  subscriptionsWildcardCount : UInt32 := 0
  pendingSubscriptions : Finset Bytes := ∅
  pendingSubscriptionsWildcardCount : UInt32 := 0
  subscriptionsChangeCount : UInt32 := 0
  regTime : ℤ := 0

namespace BrokerState

/-! ### Connections -/

/-- `addConnection`: counts how often the connection was made. -/
def addConnection (s : BrokerState) (connectionId : Bytes) (isChild : Bool) : BrokerState :=
  let counted := match s.countedConnections.lookup connectionId with
    | some n => s.countedConnections.insert connectionId (n + 1)
    | none => s.countedConnections.insert connectionId 1
  { s with
    countedConnections := counted
    childConnections :=
      if isChild then insert connectionId s.childConnections else s.childConnections }

/-- `removeConnection`: the last removal erases the connection. -/
def removeConnection (s : BrokerState) (connectionId : Bytes) : BrokerState :=
  match s.countedConnections.lookup connectionId with
  | none => s
  | some n =>
      if n - 1 = 0 then
        { s with
          countedConnections := s.countedConnections.erase connectionId
          childConnections := s.childConnections.erase connectionId }
      else { s with countedConnections := s.countedConnections.insert connectionId (n - 1) }

/-- `hasConnection` -/
def hasConnection (s : BrokerState) (connectionId : Bytes) : Bool :=
  (s.countedConnections.lookup connectionId).isSome

/-- `getConnections` -/
def getConnections (s : BrokerState) : Finset Bytes := s.countedConnections.keys.toFinset

/-- The connections added one after the other, as `setConnections` does after clearing. -/
def addConnections (children : Finset Bytes) (s : BrokerState) (connectionIds : List Bytes) :
    BrokerState :=
  connectionIds.foldl (fun s c => s.addConnection c (decide (c ∈ children))) s

/-- `setConnections`: nothing is done when the sets are those recorded, whatever the counts; the
flag says whether there was a change.  The loop runs over the given set in some order. -/
def setConnections (order : IterOrder Bytes) (s : BrokerState) (connectionIds : List Bytes)
    (childConnectionIds : Finset Bytes) : BrokerState × Bool :=
  if connectionIds.toFinset ≠ s.getConnections ∨ childConnectionIds ≠ s.childConnections then
    (addConnections childConnectionIds { s with countedConnections := ∅, childConnections := ∅ }
      (order.arrange connectionIds.dedup), true)
  else (s, false)

/-! ### Topics -/

/-- `hasTopic` -/
def hasTopic (s : BrokerState) (topic : Bytes) : Bool := decide (topic ∈ s.subscriptions)

/-- `addTopic`; the flag says whether the topic is new.  Only the local broker counts changes. -/
def addTopic (settings : BrokerSettings) (s : BrokerState) (topic : Bytes) : BrokerState × Bool :=
  if topic ∈ s.subscriptions then (s, false)
  else
    ({ s with
        subscriptions := insert topic s.subscriptions
        subscriptionsChangeCount :=
          if s.broker.isLocalBroker settings then s.subscriptionsChangeCount + 1
          else s.subscriptionsChangeCount
        subscriptionsWildcardCount :=
          if isWildcard topic then s.subscriptionsWildcardCount + 1
          else s.subscriptionsWildcardCount }, true)

/-- `removeTopic`; the flag says whether the topic was there. -/
def removeTopic (settings : BrokerSettings) (s : BrokerState) (topic : Bytes) :
    BrokerState × Bool :=
  if topic ∈ s.subscriptions then
    ({ s with
        subscriptions := s.subscriptions.erase topic
        subscriptionsChangeCount :=
          if s.broker.isLocalBroker settings then s.subscriptionsChangeCount + 1
          else s.subscriptionsChangeCount
        subscriptionsWildcardCount :=
          if isWildcard topic then s.subscriptionsWildcardCount - 1
          else s.subscriptionsWildcardCount }, true)
  else (s, false)

/-- `addPendingTopics` -/
def addPendingTopics (s : BrokerState) (subs : Finset Bytes) (wildcardCount : UInt32) :
    BrokerState :=
  { s with
    pendingSubscriptions := s.pendingSubscriptions ∪ subs
    pendingSubscriptionsWildcardCount := s.pendingSubscriptionsWildcardCount + wildcardCount }

/-- `clearPendingTopics` -/
def clearPendingTopics (s : BrokerState) : BrokerState :=
  { s with pendingSubscriptions := ∅, pendingSubscriptionsWildcardCount := 0 }

/-- `swapPendingTopics` -/
def swapPendingTopics (s : BrokerState) : BrokerState :=
  clearPendingTopics
    { s with
      subscriptions := s.pendingSubscriptions
      subscriptionsWildcardCount := s.pendingSubscriptionsWildcardCount }

/-- `setTopicsChangeCount` -/
def setTopicsChangeCount (s : BrokerState) (changeCount : UInt32) : BrokerState :=
  { s with subscriptionsChangeCount := changeCount }

/-- `isTopicRoutingEnabled` -/
def isTopicRoutingEnabled (settings : BrokerSettings) (s : BrokerState) : Bool :=
  s.broker.isTopicRoutingEnabled settings

/-- `isExpired`: the local broker never is; the period is an unsigned product of 32 bits. -/
def isExpired (settings : BrokerSettings) (now : ℤ) (s : BrokerState) : Bool :=
  if s.broker.isLocalBroker settings then false
  else
    decide (now - s.regTime >
      (s.broker.ttl.toNat + settings.ttlGracePeriodMins) * 60 % 2 ^ 32)

/-! ### What the topic operations leave alone -/

section

variable (settings : BrokerSettings) (s : BrokerState) (topic : Bytes)

@[simp] theorem addTopic_broker : (s.addTopic settings topic).1.broker = s.broker := by
  unfold addTopic
  split <;> rfl

@[simp] theorem addTopic_countedConnections :
    (s.addTopic settings topic).1.countedConnections = s.countedConnections := by
  unfold addTopic
  split <;> rfl

@[simp] theorem addTopic_childConnections :
    (s.addTopic settings topic).1.childConnections = s.childConnections := by
  unfold addTopic
  split <;> rfl

@[simp] theorem addTopic_subscriptions :
    (s.addTopic settings topic).1.subscriptions = insert topic s.subscriptions := by
  unfold addTopic
  split
  · rename_i h
    rw [Finset.insert_eq_of_mem h]
  · rfl

theorem addTopic_snd : (s.addTopic settings topic).2 = decide (topic ∉ s.subscriptions) := by
  unfold addTopic
  split <;> rename_i h <;> simp [h]

theorem addTopic_of_mem {topic : Bytes} (h : topic ∈ s.subscriptions) :
    s.addTopic settings topic = (s, false) := if_pos h

theorem addTopic_wildcardCount {topic : Bytes} (h : topic ∉ s.subscriptions) :
    (s.addTopic settings topic).1.subscriptionsWildcardCount =
      if isWildcard topic then s.subscriptionsWildcardCount + 1
      else s.subscriptionsWildcardCount := by
  rw [addTopic, if_neg h]

@[simp] theorem removeTopic_broker : (s.removeTopic settings topic).1.broker = s.broker := by
  unfold removeTopic
  split <;> rfl

@[simp] theorem removeTopic_countedConnections :
    (s.removeTopic settings topic).1.countedConnections = s.countedConnections := by
  unfold removeTopic
  split <;> rfl

@[simp] theorem removeTopic_childConnections :
    (s.removeTopic settings topic).1.childConnections = s.childConnections := by
  unfold removeTopic
  split <;> rfl

@[simp] theorem removeTopic_subscriptions :
    (s.removeTopic settings topic).1.subscriptions = s.subscriptions.erase topic := by
  unfold removeTopic
  split
  · rfl
  · rename_i h
    rw [Finset.erase_eq_of_notMem h]

theorem removeTopic_snd : (s.removeTopic settings topic).2 = decide (topic ∈ s.subscriptions) := by
  unfold removeTopic
  split <;> rename_i h <;> simp [h]

theorem removeTopic_of_notMem {topic : Bytes} (h : topic ∉ s.subscriptions) :
    s.removeTopic settings topic = (s, false) := if_neg h

theorem removeTopic_wildcardCount {topic : Bytes} (h : topic ∈ s.subscriptions) :
    (s.removeTopic settings topic).1.subscriptionsWildcardCount =
      if isWildcard topic then s.subscriptionsWildcardCount - 1
      else s.subscriptionsWildcardCount := by
  rw [removeTopic, if_pos h]

end

end BrokerState

end DxlBroker
