import DxlBroker.Registry.CacheRuns

/-!
# The shortcut for wildcards

A subscriber is looked for among the wildcard ancestors of a topic only when the number of wildcards
is positive.  The number is kept beside the set it counts: unsigned in the record of a broker, signed
in the cache of a bridge.  It never falls behind the set, and so the shortcut changes no answer until
one of the two numbers overflows.
-/

namespace DxlBroker

open Bytes Unordered

/-! ### The answers without the shortcut -/

/-- `isSubscriberInBroker` that looks the wildcards up whatever their number. -/
def BrokerTable.isSubscriberInBrokerAlways (settings : BrokerSettings) (brokers : BrokerTable)
    (brokerId topic : Bytes) : Bool :=
  (brokers.lookup brokerId).elim false fun s =>
    !s.isTopicRoutingEnabled settings || s.hasTopic topic ||
      (wildcardAncestors topic).any s.hasTopic

namespace BridgeTopicCache

/-- The answer of a completed cache that looks the wildcards up whatever their number. -/
def answerAlways (c : BridgeTopicCache) (topic : Bytes) : Bool :=
  !c.topicRoutingEnabled || decide (topic ∈ c.topics) ||
    (wildcardAncestors topic).any fun w => decide (w ∈ c.topics)

/-- `isSubscriber` that answers so. -/
def isSubscriberAlways (settings : BrokerSettings) (order : ConnectionOrder) (iter : IterOrder Bytes)
    (brokers : BrokerTable) (brokerId bridgeId topic : Bytes) (c : BridgeTopicCache) :
    Option Bool × BridgeTopicCache :=
  let c := c.buildCacheIncrement settings order iter brokers brokerId bridgeId
  (if c.state = .completed then some (c.answerAlways topic) else none, c)

/-! ### What holds of every cache -/

/-- The wildcards of a cache are among those that were added, and counted as far as an `int` goes. -/
structure Tallied (added : Finset Bytes) (c : BridgeTopicCache) : Prop where
  subset : ∀ t ∈ c.topics, isWildcard t = true → t ∈ added
  count : c.wildcardCount = Int32.ofNat (wildcardTotal c.topics)

namespace Tallied

variable {added : Finset Bytes} {c : BridgeTopicCache}

theorem fresh : Tallied added {} := ⟨fun t ht => absurd ht (Finset.notMem_empty t), rfl⟩

theorem mono (h : Tallied added c) {added' : Finset Bytes} (hsub : added ⊆ added') :
    Tallied added' c :=
  ⟨fun t ht hw => hsub (h.subset t ht hw), h.count⟩

theorem addTopics (h : Tallied added c) {topics : Finset Bytes}
    (htopics : ∀ t ∈ topics, isWildcard t = true → t ∈ added) : Tallied added (c.addTopics topics) where
  subset t ht hw := (Finset.mem_union.mp ht).elim (fun ht => h.subset t ht hw) fun ht =>
    htopics t ht hw
  count := by
    show c.wildcardCount + Int32.ofNat (wildcardTotal (topics \ c.topics)) =
      Int32.ofNat (wildcardTotal (c.topics ∪ topics))
    rw [wildcardTotal_union, h.count, Int32.ofNat_add]

theorem addTopic (h : Tallied added c) {brokers : BrokerTable} {brokerId topic : Bytes}
    (htopic : brokers.hasTopic brokerId topic = true → isWildcard topic = true → topic ∈ added) :
    Tallied added (c.addTopic brokers brokerId topic) := by
  unfold BridgeTopicCache.addTopic
  split_ifs with hadd
  · rw [addTopicHere_eq]
    refine h.addTopics fun t ht => ?_
    rw [Finset.mem_singleton.mp ht]
    rw [Bool.and_eq_true] at hadd
    exact htopic hadd.2
  · exact h

theorem removeTopic (h : Tallied added c) (brokers : BrokerTable) (brokerId topic : Bytes) :
    Tallied added (c.removeTopic brokers brokerId topic) := by
  obtain hsame | ⟨hmem, herased⟩ := c.removeTopic_eq_or brokers brokerId topic
  · rw [hsame]
    exact h
  · rw [herased]
    refine ⟨fun t ht hw => h.subset t (Finset.mem_of_mem_erase ht) hw, ?_⟩
    show (if isWildcard topic then c.wildcardCount - 1 else c.wildcardCount) =
      Int32.ofNat (wildcardTotal (c.topics.erase topic))
    rw [h.count, wildcardTotal_erase hmem, Int32.ofNat_add]
    split_ifs
    · exact Int32.add_sub_cancel _ _
    · exact Int32.add_zero _

/-- A step of the build adds the topics of one broker at most. -/
theorem build (h : Tallied added c) {settings : BrokerSettings} {order : ConnectionOrder}
    {iter : IterOrder Bytes} {brokers : BrokerTable} {brokerId bridgeId : Bytes}
    (htopics : ∀ id s, brokers.lookup id = some s →
      ∀ t ∈ s.subscriptions, isWildcard t = true → t ∈ added) :
    Tallied added (c.buildCacheIncrement settings order iter brokers brokerId bridgeId) := by
  unfold buildCacheIncrement
  split
  · exact ⟨h.subset, h.count⟩
  · rename_i b rest _ _
    have hbroker : Tallied added (c.cacheBroker brokers b) := by
      unfold cacheBroker
      split
      · rename_i s hs
        have hadd := h.addTopics (htopics b s hs)
        exact ⟨hadd.subset, hadd.count⟩
      · exact h
    exact ⟨hbroker.subset, hbroker.count⟩
  · exact h
  · exact h

/-- With fewer than `2 ^ 31` wildcards the number is positive when there is one. -/
theorem answer_eq (h : Tallied added c) (hadded : added.card < 2 ^ 31) (topic : Bytes) :
    c.answer topic = c.answerAlways topic := by
  have hcard : wildcardTotal c.topics ≤ added.card :=
    Finset.card_le_card fun t ht => h.subset t (Finset.mem_filter.mp ht).1 (Finset.mem_filter.mp ht).2
  unfold answer answerAlways
  congr 1
  rw [Bool.and_eq_right_iff_imp]
  intro hany
  obtain ⟨w, hw, hmem⟩ := List.any_eq_true.mp hany
  have hpos := wildcardTotal_pos (of_decide_eq_true hmem) (isWildcard_of_mem_wildcardAncestors hw)
  rw [decide_eq_true_eq, gt_iff_lt, Int32.lt_iff_toInt_lt, h.count,
    Int32.toInt_ofNat_of_lt (hcard.trans_lt hadded)]
  exact Int.natCast_pos.mpr hpos

end Tallied

end BridgeTopicCache

/-- A cache after the loop is one from before, or such a one updated. -/
theorem BrokerTopicCache.of_lookup_updateFirst {b k : Bytes}
    {update : BridgeTopicCache → BridgeTopicCache} {c : BridgeTopicCache} {ids : List Bytes}
    {caches : BrokerTopicCache} (h : (caches.updateFirst b update ids).lookup k = some c) :
    caches.lookup k = some c ∨ ∃ old, caches.lookup k = some old ∧ c = update old := by
  induction ids with
  | nil => exact .inl h
  | cons id ids ih =>
    unfold updateFirst at h
    split at h
    · rename_i old hold
      split_ifs at h
      · by_cases hk : k = id
        · rw [hk, AList.lookup_insert] at h
          exact .inr ⟨old, hk ▸ hold, (Option.some.inj h).symm⟩
        · rw [AList.lookup_insert_ne hk] at h
          exact .inl h
      · exact ih h
    · exact ih h

namespace TopicCacheService

variable {settings : BrokerSettings} {order : ConnectionOrder} {env : CacheEnv}
  {brokers : BrokerTable} {s : TopicCacheService} {P : BridgeTopicCache → Prop}

/-- Every cache of the service has the property. -/
def All (P : BridgeTopicCache → Prop) (s : TopicCacheService) : Prop :=
  ∀ source caches, s.brokerCacheById.lookup source = some caches →
    ∀ bridgeId c, caches.lookup bridgeId = some c → P c

theorem All.mono (h : All P s) {Q : BridgeTopicCache → Prop} (hPQ : ∀ c, P c → Q c) : All Q s :=
  fun source caches hs bridgeId c hc => hPQ c (h source caches hs bridgeId c hc)

theorem all_of_empty (h : s.brokerCacheById = ∅) : All P s := by
  intro source caches hs
  rw [h, AList.lookup_empty] at hs
  cases hs

theorem All.clearCache (h : All P s) : All P (s.clearCache env) := by
  unfold TopicCacheService.clearCache checkEnabledOnClear
  simp only
  split_ifs
  · exact all_of_empty rfl
  · exact h

theorem All.checkEnabled (h : All P s) : All P (s.checkEnabled env).2 := by
  have htime : ∀ time, All P { s with enabledTime := time } := fun _ => h
  unfold TopicCacheService.checkEnabled
  simp only
  split_ifs
  · exact (htime _).clearCache
  · exact (htime _).clearCache
  · exact h
  · exact h

theorem All.clearCacheWithDelay (h : All P s) (delay : UInt32) :
    All P (s.clearCacheWithDelay env delay) := h.clearCache

theorem All.updateTopics (h : All P s) {b : Bytes} {update : BridgeTopicCache → BridgeTopicCache}
    (hupdate : ∀ c, P c → P (update c)) : All P (s.updateTopics env b update) := by
  unfold TopicCacheService.updateTopics
  have hcheck : All P (s.checkEnabled env).2 := h.checkEnabled
  simp only
  split_ifs
  · intro source caches hs
    rw [Map.lookup_mapVals] at hs
    obtain ⟨old, hold, rfl⟩ := Option.map_eq_some_iff.mp hs
    intro bridgeId c hc
    rcases BrokerTopicCache.of_lookup_updateFirst hc with hc | ⟨c', hc', rfl⟩
    · exact hcheck source old hold bridgeId c hc
    · exact hupdate c' (hcheck source old hold bridgeId c' hc')
  · exact hcheck

theorem All.insert (h : All P s) {brokerId : Bytes} {caches : BrokerTopicCache}
    (hcaches : ∀ bridgeId c, caches.lookup bridgeId = some c → P c) :
    All P { s with brokerCacheById := s.brokerCacheById.insert brokerId caches } := by
  intro source found hfound bridgeId c hc
  by_cases hsource : source = brokerId
  · rw [hsource, AList.lookup_insert] at hfound
    exact hcaches bridgeId c (Option.some.inj hfound ▸ hc)
  · rw [AList.lookup_insert_ne hsource] at hfound
    exact h source found hfound bridgeId c hc

theorem All.getBrokerCache (h : All P s) {brokerId : Bytes} {caches : BrokerTopicCache}
    (hcaches : s.getBrokerCache brokers brokerId = some caches) :
    ∀ bridgeId c, caches.lookup bridgeId = some c → P c := by
  intro bridgeId c hc
  rcases of_getBrokerCache hcaches with hcaches | rfl
  · exact h brokerId caches hcaches bridgeId c hc
  · cases hc

/-- The cache that a query asks is one of the service, or a fresh one. -/
theorem All.getBridgeCache (h : All P s) (hfresh : P {}) {brokerId bridgeId : Bytes}
    {caches : BrokerTopicCache} {c : BridgeTopicCache}
    (hcaches : s.getBrokerCache brokers brokerId = some caches)
    (hc : caches.getBridgeCache brokers brokerId bridgeId = some c) : P c := by
  rcases BrokerTopicCache.of_getBridgeCache hc with hc | rfl
  · exact h.getBrokerCache hcaches bridgeId c hc
  · exact hfresh

theorem All.isSubscriber (h : All P s) (hfresh : P {}) {brokerId bridgeId topic : Bytes}
    (hbuild : ∀ c, P c →
      P (c.buildCacheIncrement settings order env.iter brokers brokerId bridgeId)) :
    All P (s.isSubscriber settings order env brokers brokerId bridgeId topic).2 := by
  have hcheck : All P (s.checkEnabled env).2 := h.checkEnabled
  unfold TopicCacheService.isSubscriber
  simp only
  split_ifs
  · split
    · exact hcheck
    · rename_i caches hcaches
      split
      · exact hcheck.insert (hcheck.getBrokerCache hcaches)
      · rename_i c hc
        refine hcheck.insert fun k c' hk => ?_
        by_cases hkb : k = bridgeId
        · rw [hkb, AList.lookup_insert] at hk
          rw [← Option.some.inj hk]
          exact hbuild c (hcheck.getBridgeCache hfresh hcaches hc)
        · rw [AList.lookup_insert_ne hkb] at hk
          exact hcheck.getBrokerCache hcaches k c' hk
  · exact hcheck

end TopicCacheService

/-! ### What holds of every record -/

/-- The wildcards of a record are among those that were added, the counts are not behind, and not
above the number of additions. -/
structure BrokerState.Tallied (added : Finset Bytes) (n : ℕ) (s : BrokerState) : Prop where
  counted : s.Counted
  subscribed : ∀ t ∈ s.subscriptions, isWildcard t = true → t ∈ added
  pending : ∀ t ∈ s.pendingSubscriptions, isWildcard t = true → t ∈ added
  count_le : s.subscriptionsWildcardCount.toNat ≤ n
  pending_le : s.pendingSubscriptionsWildcardCount.toNat ≤ n

/-- The number of wildcards that a topic adds to a record. -/
def BrokerState.wildcardsAdded (topic : Bytes) (s : BrokerState) : ℕ :=
  if topic ∉ s.subscriptions ∧ isWildcard topic = true then 1 else 0

namespace BrokerState.Tallied

variable {settings : BrokerSettings} {added added' : Finset Bytes} {n n' : ℕ} {s s' : BrokerState}

theorem mono (h : s.Tallied added n) (hsub : added ⊆ added') (hle : n ≤ n') :
    s.Tallied added' n' :=
  ⟨h.counted, fun t ht hw => hsub (h.subscribed t ht hw), fun t ht hw => hsub (h.pending t ht hw),
    h.count_le.trans hle, h.pending_le.trans hle⟩

theorem fresh (b : Broker) (time : ℤ) :
    BrokerState.Tallied added n { broker := b, regTime := time } :=
  ⟨BrokerRegistry.counted_fresh b time, fun t ht => absurd ht (Finset.notMem_empty t),
    fun t ht => absurd ht (Finset.notMem_empty t), Nat.zero_le n, Nat.zero_le n⟩

/-- Only the topics and their counts matter. -/
theorem frame (h : s.Tallied added n) (hsubs : s'.subscriptions = s.subscriptions)
    (hcount : s'.subscriptionsWildcardCount = s.subscriptionsWildcardCount)
    (hpending : s'.pendingSubscriptions = s.pendingSubscriptions)
    (hpcount : s'.pendingSubscriptionsWildcardCount = s.pendingSubscriptionsWildcardCount) :
    s'.Tallied added n where
  counted := h.counted.of_topics_eq hsubs hcount hpending hpcount
  subscribed := by rw [hsubs]; exact h.subscribed
  pending := by rw [hpending]; exact h.pending
  count_le := by rw [hcount]; exact h.count_le
  pending_le := by rw [hpcount]; exact h.pending_le

theorem removeConnection (h : s.Tallied added n) (c : Bytes) :
    (s.removeConnection c).Tallied added n := by
  unfold BrokerState.removeConnection
  split
  · exact h
  · split_ifs
    · exact h.frame rfl rfl rfl rfl
    · exact h.frame rfl rfl rfl rfl

theorem addConnections (h : s.Tallied added n) {children : Finset Bytes}
    (connections : List Bytes) :
    (BrokerState.addConnections children s connections).Tallied added n := by
  induction connections generalizing s with
  | nil => exact h
  | cons c connections ih =>
    exact ih (s := s.addConnection c (decide (c ∈ children))) (h.frame rfl rfl rfl rfl)

theorem setConnections (h : s.Tallied added n) (order : IterOrder Bytes)
    (connections : List Bytes) (children : Finset Bytes) :
    (s.setConnections order connections children).1.Tallied added n := by
  unfold BrokerState.setConnections
  split_ifs
  · refine addConnections ?_ _
    exact h.frame rfl rfl rfl rfl
  · exact h

theorem addTopic (h : s.Tallied added n) {topic : Bytes} (hsub : added ⊆ added')
    (hmem : isWildcard topic = true → topic ∈ added')
    (hn : n + s.wildcardsAdded topic < 2 ^ 32) :
    (s.addTopic settings topic).1.Tallied added' (n + s.wildcardsAdded topic) := by
  by_cases hold : topic ∈ s.subscriptions
  · rw [BrokerState.addTopic_of_mem settings s hold]
    exact h.mono hsub (Nat.le_add_right n _)
  · have hpending : (s.addTopic settings topic).1.pendingSubscriptions = s.pendingSubscriptions ∧
        (s.addTopic settings topic).1.pendingSubscriptionsWildcardCount =
          s.pendingSubscriptionsWildcardCount := by
      unfold BrokerState.addTopic
      rw [if_neg hold]
      exact ⟨rfl, rfl⟩
    have hfits : isWildcard topic = true → s.subscriptionsWildcardCount.toNat + 1 < 2 ^ 32 := by
      intro hw
      rw [BrokerState.wildcardsAdded, if_pos ⟨hold, hw⟩] at hn
      have := h.count_le
      omega
    refine ⟨h.counted.addTopic hold hfits, fun t ht hw => ?_, fun t ht hw => ?_, ?_, ?_⟩
    · rw [BrokerState.addTopic_subscriptions, Finset.mem_insert] at ht
      rcases ht with rfl | ht
      · exact hmem hw
      · exact hsub (h.subscribed t ht hw)
    · rw [hpending.1] at ht
      exact hsub (h.pending t ht hw)
    · rw [BrokerState.addTopic_wildcardCount _ _ hold]
      have := h.count_le
      unfold BrokerState.wildcardsAdded
      split_ifs with hw hnew hnew
      · rw [UInt32.toNat_add, UInt32.toNat_one, Nat.mod_eq_of_lt (hfits hw)]
        omega
      · exact absurd ⟨hold, hw⟩ hnew
      · omega
      · omega
    · rw [hpending.2]
      exact h.pending_le.trans (Nat.le_add_right n _)

theorem removeTopic (h : s.Tallied added n) (topic : Bytes) :
    (s.removeTopic settings topic).1.Tallied added n := by
  by_cases hold : topic ∈ s.subscriptions
  · have hpending : (s.removeTopic settings topic).1.pendingSubscriptions =
          s.pendingSubscriptions ∧
        (s.removeTopic settings topic).1.pendingSubscriptionsWildcardCount =
          s.pendingSubscriptionsWildcardCount := by
      unfold BrokerState.removeTopic
      rw [if_pos hold]
      exact ⟨rfl, rfl⟩
    refine ⟨h.counted.removeTopic hold, fun t ht hw => ?_, fun t ht hw => ?_, ?_, ?_⟩
    · rw [BrokerState.removeTopic_subscriptions] at ht
      exact h.subscribed t (Finset.mem_of_mem_erase ht) hw
    · rw [hpending.1] at ht
      exact h.pending t ht hw
    · rw [BrokerState.removeTopic_wildcardCount _ _ hold]
      have := h.count_le
      split_ifs with hw
      · -- The record has a wildcard, so that its count is positive.
        have hpos := (wildcardTotal_pos hold hw).trans_le h.counted.subscriptions
        have hone : (s.subscriptionsWildcardCount - 1).toNat =
            s.subscriptionsWildcardCount.toNat - 1 := by
          apply UInt32.toNat_sub_of_le
          rw [UInt32.le_iff_toNat_le, UInt32.toNat_one]
          exact hpos
        omega
      · exact this
    · rw [hpending.2]
      exact h.pending_le
  · rw [BrokerState.removeTopic_of_notMem settings s hold]
    exact h

theorem addPendingTopics (h : s.Tallied added n) {topics : List Bytes} (hsub : added ⊆ added')
    (hmem : ∀ t ∈ topics, isWildcard t = true → t ∈ added')
    (hn : n + topics.countP isWildcard < 2 ^ 32) :
    (s.addPendingTopics topics.toFinset (readWildcardCount topics)).Tallied added'
      (n + topics.countP isWildcard) := by
  have hle := h.pending_le
  have hfits : s.pendingSubscriptionsWildcardCount.toNat + topics.countP isWildcard < 2 ^ 32 := by
    omega
  refine ⟨h.counted.addPendingTopics hfits, fun t ht hw => hsub (h.subscribed t ht hw),
    fun t ht hw => ?_, h.count_le.trans (Nat.le_add_right n _), ?_⟩
  · rcases Finset.mem_union.mp ht with ht | ht
    · exact hsub (h.pending t ht hw)
    · exact hmem t (List.mem_toFinset.mp ht) hw
  · have hread : (readWildcardCount topics).toNat = topics.countP isWildcard := by
      rw [readWildcardCount, UInt32.toNat_ofNat', Nat.mod_eq_of_lt (by omega)]
    show (s.pendingSubscriptionsWildcardCount + readWildcardCount topics).toNat ≤ _
    rw [UInt32.toNat_add, hread, Nat.mod_eq_of_lt hfits]
    omega

theorem clearPendingTopics (h : s.Tallied added n) : s.clearPendingTopics.Tallied added n :=
  ⟨⟨h.counted.subscriptions, Nat.zero_le _⟩, h.subscribed,
    fun t ht => absurd ht (Finset.notMem_empty t), h.count_le, Nat.zero_le n⟩

theorem swapPendingTopics (h : s.Tallied added n) : s.swapPendingTopics.Tallied added n :=
  ⟨h.counted.swapPendingTopics, h.pending, fun t ht => absurd ht (Finset.notMem_empty t),
    h.pending_le, Nat.zero_le n⟩

end BrokerState.Tallied

/-! ### Runs -/

namespace BrokerRegistry

variable {settings : BrokerSettings} {env : RegistryEnv} {r r' : BrokerRegistry}
  {added added' : Finset Bytes} {n : ℕ}

/-- The number of wildcards that an operation adds. -/
def wildcardsAdded (r : BrokerRegistry) : RegistryOp → ℕ
  | .addTopic id topic => (r.brokers.lookup id).elim 0 fun s => s.wildcardsAdded topic
  | .addPendingTopics id topics =>
      (r.brokers.lookup id).elim 0 fun _ => topics.countP isWildcard
  | _ => 0

/-- The registries reached, with the number of wildcards that were added on the way. -/
inductive ReachedAdding (settings : BrokerSettings) : ℕ → BrokerRegistry → Prop
  | init (env : RegistryEnv) : ReachedAdding settings 0 (init env)
  | step {n : ℕ} {r : BrokerRegistry} (h : ReachedAdding settings n r) (env : RegistryEnv)
      (op : RegistryOp) : ReachedAdding settings (n + r.wildcardsAdded op) (r.step settings env op)

/-- The records and the caches are tallied. -/
structure Tallied (added : Finset Bytes) (n : ℕ) (r : BrokerRegistry) : Prop where
  records : ∀ id s, r.brokers.lookup id = some s → s.Tallied added n
  caches : r.topicCacheService.All (BridgeTopicCache.Tallied added)

namespace Tallied

theorem mono (h : Tallied added n r) (hsub : added ⊆ added') {n' : ℕ} (hle : n ≤ n') :
    Tallied added' n' r :=
  ⟨fun id s hs => (h.records id s hs).mono hsub hle, h.caches.mono fun _ hc => hc.mono hsub⟩

/-- One record is changed. -/
theorem records_of_lookup (h : Tallied added n r) {brokers : BrokerTable} {id : Bytes}
    {f : BrokerState → BrokerState} {n' : ℕ}
    (hlookup : ∀ k, brokers.lookup k =
      if k = id then (r.brokers.lookup id).map f else r.brokers.lookup k)
    (hsub : added ⊆ added') (hle : n ≤ n')
    (hf : ∀ s, r.brokers.lookup id = some s → s.Tallied added n → (f s).Tallied added' n') :
    ∀ k s, brokers.lookup k = some s → s.Tallied added' n' := by
  intro k s hk
  rw [hlookup] at hk
  split_ifs at hk with hid
  · obtain ⟨t, ht, rfl⟩ := Option.map_eq_some_iff.mp hk
    exact hf t ht (h.records id t ht)
  · exact (h.records k s hk).mono hsub hle

theorem modifyState (h : Tallied added n r) {id : Bytes} {f : BrokerState → BrokerState}
    (hf : ∀ s, s.Tallied added n → (f s).Tallied added n) :
    Tallied added n (r.modifyState id f) where
  records := h.records_of_lookup (fun k => lookup_modifyState r id k f) (Finset.Subset.refl _)
    le_rfl fun s _ => hf s
  caches := by
    unfold BrokerRegistry.modifyState
    split
    · exact h.caches
    · exact h.caches

theorem clearTopicCache (h : Tallied added n r) : Tallied added n (r.clearTopicCache env) :=
  ⟨h.records, h.caches.clearCacheWithDelay 0⟩

theorem clearAllCaches (h : Tallied added n r) : Tallied added n (r.clearAllCaches env) :=
  ⟨h.records, h.caches.clearCacheWithDelay 0⟩

theorem setState (h : Tallied added n r) {id : Bytes} {s : BrokerState}
    (hs : s.Tallied added n) : Tallied added n (r.setState id s) := by
  refine ⟨fun k t hk => ?_, h.caches⟩
  rw [lookup_setState] at hk
  split_ifs at hk
  · exact Option.some.inj hk ▸ hs
  · exact h.records k t hk

theorem addBroker (h : Tallied added n r) (b : Broker) :
    Tallied added n (r.addBroker settings env b) := by
  unfold BrokerRegistry.addBroker
  split_ifs
  · exact h
  · split
    · rename_i s hs
      have hold := h.records b.id s hs
      split_ifs
      · exact h.clearTopicCache.setState (hold.frame rfl rfl rfl rfl)
      · exact h.setState (hold.frame rfl rfl rfl rfl)
      · exact (h.setState (.fresh b env.time)).clearAllCaches
    · exact (h.setState (.fresh b env.time)).clearAllCaches

theorem removeBroker (h : Tallied added n r) (id : Bytes) :
    Tallied added n (r.removeBroker settings env id) := by
  unfold BrokerRegistry.removeBroker
  split_ifs
  · refine clearAllCaches ⟨fun k s hk => ?_, h.caches⟩
    obtain ⟨-, hk⟩ := Map.lookup_erase_eq_some.mp hk
    rw [Map.lookup_mapVals] at hk
    obtain ⟨t, ht, rfl⟩ := Option.map_eq_some_iff.mp hk
    split_ifs
    · exact h.records k t ht
    · exact (h.records k t ht).removeConnection id
  · exact h

theorem onCoreMaintenance (h : Tallied added n r) :
    Tallied added n (r.onCoreMaintenance settings env) :=
  onCoreMaintenance_keeps (fun _ id h => h.removeBroker id)
    (fun _ _ h => ⟨h.records, h.caches⟩) h

theorem addConnection (h : Tallied added n r) (id connection : Bytes) (isChild : Bool) :
    Tallied added n (r.addConnection env id connection isChild) := by
  unfold BrokerRegistry.addConnection
  split_ifs
  · refine clearAllCaches (h.modifyState fun s hs => ?_)
    exact hs.frame rfl rfl rfl rfl
  · exact h

theorem removeConnection (h : Tallied added n r) (id connection : Bytes) :
    Tallied added n (r.removeConnection env id connection) := by
  unfold BrokerRegistry.removeConnection
  split_ifs
  · exact (h.modifyState fun s hs => hs.removeConnection connection).clearAllCaches
  · exact h

theorem setConnections (h : Tallied added n r) (id : Bytes) (connections children : List Bytes) :
    Tallied added n (r.setConnections env id connections children) := by
  unfold BrokerRegistry.setConnections
  split
  · exact h
  · rename_i s hs
    simp only
    split_ifs
    · exact (h.setState ((h.records id s hs).setConnections env.iter connections
        children.toFinset)).clearAllCaches
    · exact h

theorem addTopic (h : Tallied added n r) {id topic : Bytes} (hsub : added ⊆ added')
    (hmem : ∀ s, r.brokers.lookup id = some s → isWildcard topic = true → topic ∈ added')
    (hn : n + r.wildcardsAdded (.addTopic id topic) < 2 ^ 32) :
    Tallied added' (n + r.wildcardsAdded (.addTopic id topic))
      (r.addTopic settings env id topic) := by
  refine ⟨?_, ?_⟩
  · refine h.records_of_lookup (fun k => lookup_addTopic r id k topic) hsub
      (Nat.le_add_right n _) fun s hs ht => ?_
    have hadded : r.wildcardsAdded (.addTopic id topic) = s.wildcardsAdded topic := by
      simp [BrokerRegistry.wildcardsAdded, hs]
    rw [hadded] at hn ⊢
    exact ht.addTopic hsub (hmem s hs) hn
  · have hcaches := h.caches.mono fun _ hc => hc.mono hsub
    unfold BrokerRegistry.addTopic
    split
    · exact hcaches
    · rename_i s hs
      simp only
      split_ifs
      · exact hcaches.updateTopics fun c hc => hc.addTopic fun _ hw => hmem s hs hw
      · exact hcaches

/-- The wildcard of a new topic is all that the set of added wildcards gains. -/
theorem addTopic_tally (h : Tallied added n r) {id topic : Bytes} (hcard : added.card ≤ n)
    (hn : n + r.wildcardsAdded (.addTopic id topic) < 2 ^ 32) :
    ∃ added' : Finset Bytes, added'.card ≤ n + r.wildcardsAdded (.addTopic id topic) ∧
      Tallied added' (n + r.wildcardsAdded (.addTopic id topic))
        (r.addTopic settings env id topic) := by
  by_cases hnew : r.wildcardsAdded (.addTopic id topic) = 1
  · refine ⟨insert topic added, ?_, h.addTopic (Finset.subset_insert _ _)
      (fun _ _ _ => Finset.mem_insert_self _ _) hn⟩
    rw [hnew]
    exact (Finset.card_insert_le _ _).trans (Nat.add_le_add_right hcard 1)
  · refine ⟨added, hcard.trans (Nat.le_add_right n _),
      h.addTopic (Finset.Subset.refl _) (fun s hs hw => ?_) hn⟩
    -- Nothing is added, so that the record has the wildcard already.
    by_contra hmem
    refine hnew ?_
    have hold : topic ∉ s.subscriptions := fun ht =>
      hmem ((h.records id s hs).subscribed topic ht hw)
    simp [BrokerRegistry.wildcardsAdded, hs, BrokerState.wildcardsAdded, hold, hw]

theorem removeTopic (h : Tallied added n r) (id topic : Bytes) :
    Tallied added n (r.removeTopic settings env id topic) := by
  refine ⟨h.records_of_lookup (fun k => lookup_removeTopic r id k topic) (Finset.Subset.refl _)
    le_rfl fun s _ ht => ht.removeTopic topic, ?_⟩
  unfold BrokerRegistry.removeTopic
  split
  · exact h.caches
  · simp only
    split_ifs
    · exact h.caches.updateTopics fun c hc => hc.removeTopic _ id topic
    · exact h.caches

/-- Pending topics are counted when they come, each wildcard once for every time it is named. -/
theorem addPendingTopics (h : Tallied added n r) {id : Bytes} {topics : List Bytes}
    (hcard : added.card ≤ n) (hn : n + r.wildcardsAdded (.addPendingTopics id topics) < 2 ^ 32) :
    ∃ added' : Finset Bytes, added'.card ≤ n + r.wildcardsAdded (.addPendingTopics id topics) ∧
      Tallied added' (n + r.wildcardsAdded (.addPendingTopics id topics))
        (r.addPendingTopics id topics.toFinset (readWildcardCount topics)) := by
  cases hs : r.brokers.lookup id with
  | none =>
    have hadded : r.wildcardsAdded (.addPendingTopics id topics) = 0 := by
      simp [BrokerRegistry.wildcardsAdded, hs]
    have hsame : r.addPendingTopics id topics.toFinset (readWildcardCount topics) = r := by
      simp [BrokerRegistry.addPendingTopics, BrokerRegistry.modifyState, hs]
    rw [hadded, hsame]
    exact ⟨added, hcard, h⟩
  | some s =>
    have hadded : r.wildcardsAdded (.addPendingTopics id topics) = topics.countP isWildcard := by
      simp [BrokerRegistry.wildcardsAdded, hs]
    rw [hadded] at hn ⊢
    refine ⟨added ∪ (topics.filter isWildcard).toFinset, ?_, ?_, ?_⟩
    · rw [List.countP_eq_length_filter]
      exact (Finset.card_union_le _ _).trans (Nat.add_le_add hcard (List.toFinset_card_le _))
    · refine h.records_of_lookup (fun k => lookup_modifyState r id k _)
        Finset.subset_union_left (Nat.le_add_right n _) fun t _ ht =>
          ht.addPendingTopics Finset.subset_union_left (fun w hw hwild => ?_) hn
      refine Finset.mem_union_right _ (List.mem_toFinset.mpr ?_)
      exact List.mem_filter.mpr ⟨hw, hwild⟩
    · show (r.modifyState id _).topicCacheService.All _
      unfold BrokerRegistry.modifyState
      split
      · exact h.caches.mono fun _ hc => hc.mono Finset.subset_union_left
      · exact h.caches.mono fun _ hc => hc.mono Finset.subset_union_left

theorem swapPendingTopics (h : Tallied added n r) (id : Bytes) :
    Tallied added n (r.swapPendingTopics env id) := by
  unfold BrokerRegistry.swapPendingTopics
  split_ifs
  · exact (h.modifyState fun s hs => hs.swapPendingTopics).clearTopicCache
  · exact h

/-- Every operation keeps the tally. -/
theorem step (h : Tallied added n r) {op : RegistryOp}
    (hn : n + r.wildcardsAdded op < 2 ^ 32) (hcard : added.card ≤ n) :
    ∃ added' : Finset Bytes, added'.card ≤ n + r.wildcardsAdded op ∧
      Tallied added' (n + r.wildcardsAdded op) (r.step settings env op) := by
  cases op with
  | addBroker b => exact ⟨added, hcard, h.addBroker b⟩
  | removeBroker id => exact ⟨added, hcard, h.removeBroker id⟩
  | updateTtl id ttl =>
    exact ⟨added, hcard, h.modifyState fun s hs => hs.frame rfl rfl rfl rfl⟩
  | updateRegistrationTime id =>
    exact ⟨added, hcard, h.modifyState fun s hs => hs.frame rfl rfl rfl rfl⟩
  | addConnection id connection isChild =>
    exact ⟨added, hcard, h.addConnection id connection isChild⟩
  | removeConnection id connection =>
    exact ⟨added, hcard, h.removeConnection id connection⟩
  | setConnections id connections children =>
    exact ⟨added, hcard, h.setConnections id connections children⟩
  | addTopic id topic => exact h.addTopic_tally hcard hn
  | removeTopic id topic => exact ⟨added, hcard, h.removeTopic id topic⟩
  | clearPendingTopics id =>
    exact ⟨added, hcard, h.modifyState fun s hs => hs.clearPendingTopics⟩
  | addPendingTopics id topics => exact h.addPendingTopics hcard hn
  | swapPendingTopics id => exact ⟨added, hcard, h.swapPendingTopics id⟩
  | setTopicsChangeCount id k =>
    exact ⟨added, hcard, h.modifyState fun s hs => hs.frame rfl rfl rfl rfl⟩
  | onCoreMaintenance => exact ⟨added, hcard, h.onCoreMaintenance⟩
  | isSubscriberInHierarchy id connection topic =>
    exact ⟨added, hcard, h.records, h.caches.isSubscriber .fresh fun c hc =>
      hc.build fun id s hs => (h.records id s hs).subscribed⟩
  | getNextBroker source target =>
    obtain ⟨hbrokers, hservice⟩ := getNextBroker_frame env r source target
    refine ⟨added, hcard, ?_, ?_⟩
    · show ∀ id s, (r.getNextBroker env source target).2.brokers.lookup id = some s → _
      rw [hbrokers]
      exact h.records
    · show (r.getNextBroker env source target).2.topicCacheService.All _
      rw [hservice]
      exact h.caches
  | clearCache => exact ⟨added, hcard, h.records, h.caches.clearCache⟩
  | clearCacheWithDelay delay =>
    exact ⟨added, hcard, h.records, h.caches.clearCacheWithDelay delay⟩

end Tallied

/-- In every run with fewer than `2 ^ 32` additions there is a tally. -/
theorem ReachedAdding.tallied (h : ReachedAdding settings n r) (hn : n < 2 ^ 32) :
    ∃ added : Finset Bytes, added.card ≤ n ∧ Tallied added n r := by
  induction h with
  | init env =>
    refine ⟨∅, le_rfl, ⟨fun id s hs => ?_, ?_⟩⟩
    · cases hs
    · exact TopicCacheService.All.checkEnabled (TopicCacheService.all_of_empty rfl)
  | step _ env op ih =>
    obtain ⟨added, hcard, htally⟩ := ih (by omega)
    exact htally.step hn hcard

/-- The cache of a bridge that a query may ask: one of the service, or a fresh one. -/
def HasBridgeCache (r : BrokerRegistry) (source bridgeId : Bytes) (c : BridgeTopicCache) : Prop :=
  c = {} ∨ ∃ caches, r.topicCacheService.brokerCacheById.lookup source = some caches ∧
    caches.lookup bridgeId = some c

/-- **The shortcut for wildcards changes no answer.**  With fewer than `2 ^ 32` wildcards added
`isSubscriberInBroker` answers as if it always looked them up, and with fewer than `2 ^ 31` the
cache of every bridge does. -/
theorem wildcardShortcut_sound (h : ReachedAdding settings n r) (hn : n < 2 ^ 32) :
    (∀ brokerId topic, r.brokers.isSubscriberInBroker settings brokerId topic =
      r.brokers.isSubscriberInBrokerAlways settings brokerId topic) ∧
    (n < 2 ^ 31 → ∀ source bridgeId c, r.HasBridgeCache source bridgeId c →
      ∀ (order : ConnectionOrder) (iter : IterOrder Bytes) (topic : Bytes),
        c.isSubscriber settings order iter r.brokers source bridgeId topic =
          c.isSubscriberAlways settings order iter r.brokers source bridgeId topic) := by
  obtain ⟨added, hcard, htally⟩ := h.tallied hn
  refine ⟨fun brokerId topic => ?_, fun hn' source bridgeId c hc order iter topic => ?_⟩
  · rw [Bool.eq_iff_iff, BrokerTable.isSubscriberInBroker_iff fun id s hs =>
      (htally.records id s hs).counted]
    unfold BrokerTable.isSubscriberInBrokerAlways BrokerTable.hasTopic BridgeTopicCache.stopsVisit
    cases r.brokers.lookup brokerId with
    | none => simp
    | some s => simp [or_assoc]
  · have hc' : c.Tallied added := by
      rcases hc with rfl | ⟨caches, hcaches, hc⟩
      · exact .fresh
      · exact htally.caches source caches hcaches bridgeId c hc
    have hbuilt : (c.buildCacheIncrement settings order iter r.brokers source bridgeId).Tallied
        added := hc'.build fun id s hs => (htally.records id s hs).subscribed
    unfold BridgeTopicCache.isSubscriber BridgeTopicCache.isSubscriberAlways
    simp only [hbuilt.answer_eq (hcard.trans_lt hn')]

/-! ### The signed number overflows -/

/-- A bridge whose cache knows the brokers behind it and has not examined them. -/
def watched : List RegistryOp :=
  [.addBroker { id := lit "L", hostname := lit "h" },
    .addBroker { id := lit "A", hostname := lit "h" },
    .setConnections (lit "L") [lit "A"] [],
    .setConnections (lit "A") [lit "L"] [],
    .isSubscriberInHierarchy (lit "L") (lit "A") (lit "t")]

/-- Eight letters for a number, and a wildcard below them. -/
def wildcardNo (i : ℕ) : Bytes :=
  (List.range 8).map (fun k => UInt8.ofNat (97 + i / 16 ^ k % 16)) ++ lit "/#"

/-- The registry after `A` has added wildcards. -/
def flooded (k : ℕ) : BrokerRegistry :=
  (List.range k).foldl (fun r i => r.addTopic { guid := lit "L" } steadyEnv (lit "A") (wildcardNo i))
    (runSteady watched)

theorem getLast?_wildcardNo (i : ℕ) : (wildcardNo i).getLast? = some pound := by
  rw [wildcardNo, List.getLast?_append]
  rfl

theorem wildcardNo_injOn {i j : ℕ} (hi : i < 2 ^ 32) (hj : j < 2 ^ 32)
    (h : wildcardNo i = wildcardNo j) : i = j := by
  have hdigit : ∀ k < 8, i / 16 ^ k % 16 = j / 16 ^ k % 16 := by
    intro k hk
    have hmap := List.append_cancel_right h
    have hk' := congrArg (fun l : Bytes => l[k]?) hmap
    simp only [List.getElem?_map, List.getElem?_range hk, Option.map_some, Option.some.injEq] at hk'
    have := congrArg UInt8.toNat hk'
    simp only [UInt8.toNat_ofNat'] at this
    omega
  have h0 := hdigit 0 (by decide)
  have h1 := hdigit 1 (by decide)
  have h2 := hdigit 2 (by decide)
  have h3 := hdigit 3 (by decide)
  have h4 := hdigit 4 (by decide)
  have h5 := hdigit 5 (by decide)
  have h6 := hdigit 6 (by decide)
  have h7 := hdigit 7 (by decide)
  omega

theorem watched_service (brokers : BrokerTable) (topic : Bytes) :
    (runSteady watched).topicCacheService.addTopic steadyEnv.toCacheEnv brokers (lit "A") topic =
      (runSteady watched).topicCacheService := by
  rfl

/-- What is left of the registry when the wildcards are added: the caches, and all but the topics of
the record. -/
theorem flooded_spec (k : ℕ) :
    (flooded k).topicCacheService = (runSteady watched).topicCacheService ∧
      (∃ s, (flooded k).brokers.lookup (lit "A") = some s ∧
        s.subscriptions = ((List.range k).map wildcardNo).toFinset) ∧
      ∃ n ≤ k, ReachedAdding { guid := lit "L" } n (flooded k) := by
  induction k with
  | zero =>
    refine ⟨rfl, ⟨_, rfl, rfl⟩, 0, le_rfl, ?_⟩
    have h : ReachedAdding { guid := lit "L" } 0 (init steadyEnv) := .init steadyEnv
    have h := h.step steadyEnv (.addBroker { id := lit "L", hostname := lit "h" })
    have h := h.step steadyEnv (.addBroker { id := lit "A", hostname := lit "h" })
    have h := h.step steadyEnv (.setConnections (lit "L") [lit "A"] [])
    have h := h.step steadyEnv (.setConnections (lit "A") [lit "L"] [])
    exact h.step steadyEnv (.isSubscriberInHierarchy (lit "L") (lit "A") (lit "t"))
  | succ k ih =>
    obtain ⟨hservice, ⟨s, hs, hsubs⟩, n, hn, hreached⟩ := ih
    have hstep : flooded (k + 1) =
        (flooded k).addTopic { guid := lit "L" } steadyEnv (lit "A") (wildcardNo k) := by
      rw [flooded, List.range_succ, List.foldl_append]
      rfl
    have hlookup : (flooded (k + 1)).brokers.lookup (lit "A") =
        some (s.addTopic { guid := lit "L" } (wildcardNo k)).1 := by
      rw [hstep, lookup_addTopic, if_pos rfl, hs]
      rfl
    refine ⟨?_, ⟨_, hlookup, ?_⟩, ?_⟩
    · rw [hstep]
      unfold addTopic
      rw [hs]
      simp only
      split_ifs
      · show (flooded k).topicCacheService.addTopic _ _ _ _ = _
        rw [hservice]
        exact watched_service _ _
      · exact hservice
    · rw [BrokerState.addTopic_subscriptions, hsubs, List.range_succ, List.map_append,
        List.toFinset_append, Finset.union_comm]
      rfl
    · rw [hstep]
      refine ⟨_, ?_, hreached.step steadyEnv (.addTopic (lit "A") (wildcardNo k))⟩
      have hone : (flooded k).wildcardsAdded (.addTopic (lit "A") (wildcardNo k)) ≤ 1 := by
        simp only [wildcardsAdded, hs, Option.elim_some, BrokerState.wildcardsAdded]
        split_ifs <;> omega
      omega

/-- The wildcards are all different. -/
theorem wildcardTotal_flood {k : ℕ} (hk : k ≤ 2 ^ 32) :
    wildcardTotal ((List.range k).map wildcardNo).toFinset = k := by
  have hnodup : ((List.range k).map wildcardNo).Nodup := by
    refine List.Nodup.map_on (fun i hi j hj h => ?_) List.nodup_range
    rw [List.mem_range] at hi hj
    exact wildcardNo_injOn (by omega) (by omega) h
  have hall : ∀ t ∈ ((List.range k).map wildcardNo).toFinset, isWildcard t = true := by
    intro t ht
    obtain ⟨i, -, rfl⟩ := List.mem_map.mp (List.mem_toFinset.mp ht)
    have hnul : NulFree (wildcardNo i) := by
      intro hzero
      rcases List.mem_append.mp hzero with hz | hz
      · obtain ⟨k, -, hz⟩ := List.mem_map.mp hz
        have := congrArg UInt8.toNat hz
        rw [UInt8.toNat_ofNat'] at this
        have h0 : (0 : UInt8).toNat = 0 := rfl
        omega
      · revert hz
        decide
    rw [isWildcard, cstr_of_nulFree hnul, getLast?_wildcardNo, beq_self_eq_true]
  rw [wildcardTotal, Finset.filter_true_of_mem hall, List.toFinset_card_of_nodup hnodup,
    List.length_map, List.length_range]

/-- The cache of the bridge that has not examined the broker yet. -/
def watching : BridgeTopicCache :=
  { brokers := {lit "A"}, brokersIter := [lit "A"], state := .building }

/-- From `2 ^ 31` wildcards on the number is negative, and the answer wrong. -/
theorem flooded_answers {k : ℕ} (hk : 2 ^ 31 ≤ k) (hk' : k < 2 ^ 32) :
    ((watching.isSubscriber { guid := lit "L" } steadyEnv.order steadyEnv.iter (flooded k).brokers
        (lit "L") (lit "A") (lit "aaaaaaaa/x")).1 = some false) ∧
      (watching.isSubscriberAlways { guid := lit "L" } steadyEnv.order steadyEnv.iter
        (flooded k).brokers (lit "L") (lit "A") (lit "aaaaaaaa/x")).1 = some true := by
  obtain ⟨-, ⟨s, hs, hsubs⟩, -⟩ := flooded_spec k
  have htotal : wildcardTotal s.subscriptions = k := by
    rw [hsubs]
    exact wildcardTotal_flood hk'.le
  have hbuilt : watching.buildCacheIncrement { guid := lit "L" } steadyEnv.order steadyEnv.iter
      (flooded k).brokers (lit "L") (lit "A") =
      { brokers := {lit "A"}, cachedBrokers := {lit "A"}, topics := s.subscriptions,
        wildcardCount := Int32.ofNat k, state := .completed } := by
    simp only [BridgeTopicCache.buildCacheIncrement, watching, BridgeTopicCache.cacheBroker, hs,
      BridgeTopicCache.addTopics, Finset.empty_union, Finset.sdiff_empty, htotal, Int32.zero_add]
    rfl
  have hnegative : ¬ Int32.ofNat k > 0 := by
    have hsize : Int32.size = 4294967296 := rfl
    have hzero : (0 : Int32).toInt = 0 := rfl
    rw [gt_iff_lt, Int32.lt_iff_toInt_lt, hzero, Int32.toInt_ofNat', hsize, Int.bmod_def]
    split_ifs <;> omega
  have habsent : lit "aaaaaaaa/x" ∉ s.subscriptions := by
    rw [hsubs, List.mem_toFinset, List.mem_map]
    rintro ⟨i, -, hi⟩
    have hlast := congrArg List.getLast? hi
    rw [getLast?_wildcardNo] at hlast
    revert hlast
    decide
  have hpresent : lit "aaaaaaaa/#" ∈ s.subscriptions := by
    rw [hsubs, List.mem_toFinset, List.mem_map]
    exact ⟨0, List.mem_range.mpr (by omega), by decide⟩
  have hancestor : (wildcardAncestors (lit "aaaaaaaa/x")).any
      (fun w => decide (w ∈ s.subscriptions)) = true :=
    List.any_eq_true.mpr ⟨lit "aaaaaaaa/#", by decide, decide_eq_true hpresent⟩
  unfold BridgeTopicCache.isSubscriber BridgeTopicCache.isSubscriberAlways
  simp only [hbuilt, if_true, BridgeTopicCache.answer, BridgeTopicCache.answerAlways, hnegative,
    habsent, hancestor, decide_false]
  exact ⟨rfl, rfl⟩

/-- With `2 ^ 31` wildcards added a cache of a bridge does not find one of them. -/
theorem wildcardShortcut_overflow :
    (∃ n < 2 ^ 32, ReachedAdding { guid := lit "L" } n (flooded (2 ^ 31))) ∧
    (flooded (2 ^ 31)).HasBridgeCache (lit "L") (lit "A") watching ∧
    watching.isSubscriber { guid := lit "L" } steadyEnv.order steadyEnv.iter
        (flooded (2 ^ 31)).brokers (lit "L") (lit "A") (lit "aaaaaaaa/x") ≠
      watching.isSubscriberAlways { guid := lit "L" } steadyEnv.order steadyEnv.iter
        (flooded (2 ^ 31)).brokers (lit "L") (lit "A") (lit "aaaaaaaa/x") := by
  generalize hk : 2 ^ 31 = k
  obtain ⟨hservice, -, n, hn, hreached⟩ := flooded_spec k
  refine ⟨⟨n, by omega, hreached⟩, .inr ⟨_, by rw [hservice]; rfl, rfl⟩, fun heq => ?_⟩
  obtain ⟨hint, halways⟩ := flooded_answers hk.le (by omega)
  rw [heq, halways] at hint
  cases hint

/-- With a single wildcard the shortcut finds it. -/
theorem wildcardShortcut_sound_one :
    (flooded 1).brokers.isSubscriberInBroker { guid := lit "L" } (lit "A") (lit "aaaaaaaa/x") =
      true := by
  obtain ⟨-, -, n, hn, hreached⟩ := flooded_spec 1
  have hsound := wildcardShortcut_sound hreached (by omega)
  exact (hsound.1 (lit "A") (lit "aaaaaaaa/x")).trans (by decide +kernel)

end BrokerRegistry

end DxlBroker
