import DxlBroker.Registry.CacheCoherence

/-!
# Runs of the registry

Any sequence of the registry's operations, with the clock, the cache settings and the iteration
orders free at each of them.  The topic cache stays right as long as no wildcard counter overflows,
of a record or of a cache, and a changed topic belongs to a broker behind one bridge only.
-/

namespace DxlBroker

open Bytes Unordered

/-- The operations of the registry; a batch of pending topics is the list that was received. -/
inductive RegistryOp
  | addBroker (broker : Broker)
  | removeBroker (brokerId : Bytes)
  | updateTtl (brokerId : Bytes) (ttl : UInt32)
  | updateRegistrationTime (brokerId : Bytes)
  | addConnection (brokerId connectionId : Bytes) (isChild : Bool)
  | removeConnection (brokerId connectionId : Bytes)
  | setConnections (brokerId : Bytes) (connectionIds childConnectionIds : List Bytes)
  | addTopic (brokerId topic : Bytes)
  | removeTopic (brokerId topic : Bytes)
  | clearPendingTopics (brokerId : Bytes)
  | addPendingTopics (brokerId : Bytes) (topics : List Bytes)
  | swapPendingTopics (brokerId : Bytes)
  | setTopicsChangeCount (brokerId : Bytes) (changeCount : UInt32)
  | onCoreMaintenance
  | isSubscriberInHierarchy (brokerId connection topic : Bytes)
  | getNextBroker (source target : Bytes)
  | clearCache
  | clearCacheWithDelay (delay : UInt32)

/-- The wildcards that `BrokerStateTopicsEventPayload::read` counts in a batch. -/
def readWildcardCount (topics : List Bytes) : UInt32 := UInt32.ofNat (topics.countP isWildcard)

namespace BrokerRegistry

/-- One operation. -/
def step (settings : BrokerSettings) (env : RegistryEnv) (r : BrokerRegistry) :
    RegistryOp → BrokerRegistry
  | .addBroker b => r.addBroker settings env b
  | .removeBroker id => r.removeBroker settings env id
  | .updateTtl id ttl => r.updateTtl id ttl
  | .updateRegistrationTime id => r.updateRegistrationTime env id
  | .addConnection id connection isChild => r.addConnection env id connection isChild
  | .removeConnection id connection => r.removeConnection env id connection
  | .setConnections id connections children => r.setConnections env id connections children
  | .addTopic id topic => r.addTopic settings env id topic
  | .removeTopic id topic => r.removeTopic settings env id topic
  | .clearPendingTopics id => r.clearPendingTopics id
  | .addPendingTopics id topics =>
      r.addPendingTopics id topics.toFinset (readWildcardCount topics)
  | .swapPendingTopics id => r.swapPendingTopics env id
  | .setTopicsChangeCount id n => r.setTopicsChangeCount id n
  | .onCoreMaintenance => r.onCoreMaintenance settings env
  | .isSubscriberInHierarchy id connection topic =>
      (r.isSubscriberInHierarchy settings env id connection topic).2
  | .getNextBroker source target => (r.getNextBroker env source target).2
  | .clearCache =>
      { r with topicCacheService := r.topicCacheService.clearCache env.toCacheEnv }
  | .clearCacheWithDelay delay =>
      { r with topicCacheService := r.topicCacheService.clearCacheWithDelay env.toCacheEnv delay }

/-- The broker lies in at most one bridge cache of each source broker. -/
def OneBridge (r : BrokerRegistry) (brokerId : Bytes) : Prop :=
  ∀ source caches, r.topicCacheService.brokerCacheById.lookup source = some caches →
    BrokerTopicCache.OneContains caches brokerId

/-- The wildcards of every bridge cache that a topic of a broker comes into can be counted by an
`int`. -/
def RoomForTopic (r : BrokerRegistry) (brokerId topic : Bytes) : Prop :=
  ∀ source bridgeId c, r.topicCacheService.Holds source bridgeId c →
    c.isBrokerCached brokerId = true → wildcardTotal (insert topic c.topics) < 2 ^ 31

/-- And so can those of a bridge cache after the next step of its build. -/
def RoomForBuild (r : BrokerRegistry) (source bridgeId : Bytes) : Prop :=
  ∀ c, r.topicCacheService.Holds source bridgeId c →
    wildcardTotal (c.topics ∪ c.nextTopics r.brokers) < 2 ^ 31

/-- The condition on a step: a topic that changes belongs to a broker that lies in at most one
bridge cache of each source broker, and a wildcard counter that is raised does not overflow. -/
def StepOk (r : BrokerRegistry) : RegistryOp → Prop
  | .addTopic id topic => ∀ s, r.brokers.lookup id = some s → topic ∉ s.subscriptions →
      r.OneBridge id ∧ r.RoomForTopic id topic ∧
        (isWildcard topic = true → s.subscriptionsWildcardCount.toNat + 1 < 2 ^ 32)
  | .removeTopic id topic => ∀ s, r.brokers.lookup id = some s → topic ∈ s.subscriptions →
      r.OneBridge id
  | .addPendingTopics id topics => ∀ s, r.brokers.lookup id = some s →
      s.pendingSubscriptionsWildcardCount.toNat + topics.countP isWildcard < 2 ^ 32
  | .isSubscriberInHierarchy id connection _ => r.RoomForBuild id connection
  | _ => True

/-- The registries reached by steps that meet the condition. -/
inductive ReachedOk (settings : BrokerSettings) : BrokerRegistry → Prop
  | init (env : RegistryEnv) : ReachedOk settings (init env)
  | step {r : BrokerRegistry} (h : ReachedOk settings r) (env : RegistryEnv) (op : RegistryOp)
      (hop : r.StepOk op) : ReachedOk settings (r.step settings env op)

end BrokerRegistry

/-! ### The wildcard counters -/

namespace BrokerState.Counted

variable {settings : BrokerSettings} {s : BrokerState}

theorem of_topics_eq (h : s.Counted) {s' : BrokerState} (hsubs : s'.subscriptions = s.subscriptions)
    (hcount : s'.subscriptionsWildcardCount = s.subscriptionsWildcardCount)
    (hpending : s'.pendingSubscriptions = s.pendingSubscriptions)
    (hpcount : s'.pendingSubscriptionsWildcardCount = s.pendingSubscriptionsWildcardCount) :
    s'.Counted :=
  ⟨by rw [hsubs, hcount]; exact h.subscriptions, by rw [hpending, hpcount]; exact h.pending⟩

theorem addTopic (h : s.Counted) {topic : Bytes} (hnew : topic ∉ s.subscriptions)
    (hfits : isWildcard topic = true → s.subscriptionsWildcardCount.toNat + 1 < 2 ^ 32) :
    (s.addTopic settings topic).1.Counted := by
  refine ⟨?_, ?_⟩
  · rw [addTopic_subscriptions, addTopic_wildcardCount _ _ hnew, wildcardTotal_insert hnew]
    have := h.subscriptions
    split_ifs with hw
    · have hone : (s.subscriptionsWildcardCount + 1).toNat =
          s.subscriptionsWildcardCount.toNat + 1 := by
        rw [UInt32.toNat_add, UInt32.toNat_one, Nat.mod_eq_of_lt (hfits hw)]
      omega
    · omega
  · have := h.pending
    unfold BrokerState.addTopic
    rwa [if_neg hnew]

theorem removeTopic (h : s.Counted) {topic : Bytes} (hmem : topic ∈ s.subscriptions) :
    (s.removeTopic settings topic).1.Counted := by
  refine ⟨?_, ?_⟩
  · rw [removeTopic_subscriptions, removeTopic_wildcardCount _ _ hmem]
    have htotal := wildcardTotal_erase hmem
    have := h.subscriptions
    split_ifs at htotal ⊢ with hw
    · have hone : (s.subscriptionsWildcardCount - 1).toNat =
          s.subscriptionsWildcardCount.toNat - 1 := by
        apply UInt32.toNat_sub_of_le
        rw [UInt32.le_iff_toNat_le, UInt32.toNat_one]
        omega
      omega
    · omega
  · have := h.pending
    unfold BrokerState.removeTopic
    rwa [if_pos hmem]

theorem addPendingTopics (h : s.Counted) {topics : List Bytes}
    (hfits : s.pendingSubscriptionsWildcardCount.toNat + topics.countP isWildcard < 2 ^ 32) :
    (s.addPendingTopics topics.toFinset (readWildcardCount topics)).Counted := by
  refine ⟨h.subscriptions, ?_⟩
  show wildcardTotal (s.pendingSubscriptions ∪ topics.toFinset) ≤
    (s.pendingSubscriptionsWildcardCount + readWildcardCount topics).toNat
  have hbatch : wildcardTotal (topics.toFinset \ s.pendingSubscriptions) ≤
      topics.countP isWildcard := by
    calc wildcardTotal (topics.toFinset \ s.pendingSubscriptions)
        ≤ (topics.toFinset.filter fun f => isWildcard f = true).card :=
          Finset.card_le_card (Finset.filter_subset_filter _ Finset.sdiff_subset)
      _ ≤ (topics.filter isWildcard).length := by
          rw [← List.toFinset_filter]
          exact List.toFinset_card_le _
      _ = topics.countP isWildcard := List.countP_eq_length_filter.symm
  have hread : (readWildcardCount topics).toNat = topics.countP isWildcard := by
    rw [readWildcardCount, UInt32.toNat_ofNat', Nat.mod_eq_of_lt (by omega)]
  rw [wildcardTotal_union, UInt32.toNat_add, hread, Nat.mod_eq_of_lt hfits]
  have := h.pending
  omega

theorem swapPendingTopics (h : s.Counted) : s.swapPendingTopics.Counted :=
  ⟨h.pending, by simp [BrokerState.swapPendingTopics, BrokerState.clearPendingTopics,
    wildcardTotal]⟩

end BrokerState.Counted

/-! ### One record of the table is replaced -/

namespace BrokerTable

variable {settings : BrokerSettings} {brokers : BrokerTable} {id : Bytes} {s s' : BrokerState}

theorem Counted.insert (h : brokers.Counted) (hs : s'.Counted) :
    BrokerTable.Counted (AList.insert id s' brokers) := by
  intro k t hk
  by_cases hid : k = id
  · rw [hid, AList.lookup_insert] at hk
    exact Option.some.inj hk ▸ hs
  · rw [AList.lookup_insert_ne hid] at hk
    exact h k t hk

theorem hasTopic_insert (v t : Bytes) :
    BrokerTable.hasTopic (AList.insert id s' brokers) v t =
      if v = id then s'.hasTopic t else brokers.hasTopic v t := by
  unfold hasTopic
  split_ifs with hv
  · rw [hv, AList.lookup_insert]
    rfl
  · rw [AList.lookup_insert_ne hv]

theorem sameFabric_insert (hlookup : brokers.lookup id = some s)
    (hconn : s'.countedConnections = s.countedConnections)
    (hrouting : s'.isTopicRoutingEnabled settings = s.isTopicRoutingEnabled settings) :
    BridgeTopicCache.SameFabric settings brokers (AList.insert id s' brokers) := by
  refine ⟨fun v w => ?_, fun v => ?_, fun v => ?_⟩
  all_goals by_cases hv : v = id
  · subst hv
    simp [Connected, AList.lookup_insert, hlookup, BrokerState.hasConnection, hconn]
  · simp [Connected, AList.lookup_insert_ne hv]
  · subst hv
    simp [BridgeTopicCache.stopsVisit, AList.lookup_insert, hlookup, hrouting]
  · simp [BridgeTopicCache.stopsVisit, AList.lookup_insert_ne hv]
  · subst hv
    simp [AList.lookup_insert, hlookup]
  · simp [AList.lookup_insert_ne hv]

end BrokerTable

namespace BrokerRegistry

variable {settings : BrokerSettings} {env : RegistryEnv} {r : BrokerRegistry}

variable (settings) in
/-- What holds in every registry that is reached: the counters are right and so is the cache. -/
structure CacheInv (r : BrokerRegistry) : Prop where
  counted : r.brokers.Counted
  valid : r.topicCacheService.Valid settings r.brokers

/-- A registry whose topic cache has just been cleared. -/
theorem cacheInv_clearTopicCache (h : r.brokers.Counted) :
    CacheInv settings (r.clearTopicCache env) :=
  ⟨h, TopicCacheService.valid_clearCacheWithDelay 0⟩

theorem cacheInv_clearAllCaches (h : r.brokers.Counted) :
    CacheInv settings (r.clearAllCaches env) :=
  ⟨h, TopicCacheService.valid_clearCacheWithDelay 0⟩

theorem cacheInv_init : CacheInv settings (init env) where
  counted := by
    intro id s h
    cases h
  valid := TopicCacheService.valid_init

/-- A record that keeps its connections, its topics and its topic routing. -/
theorem CacheInv.setState (h : CacheInv settings r) {id : Bytes} {s s' : BrokerState}
    (hlookup : r.brokers.lookup id = some s) (hcounted : s'.Counted)
    (hconn : s'.countedConnections = s.countedConnections)
    (hsubs : s'.subscriptions = s.subscriptions)
    (hrouting : s'.isTopicRoutingEnabled settings = s.isTopicRoutingEnabled settings) :
    CacheInv settings (r.setState id s') where
  counted := h.counted.insert hcounted
  valid := by
    intro hwas brokerId caches hcaches bridgeId c hc
    refine (h.valid hwas brokerId caches hcaches bridgeId c hc).of_sameFabric
      (BrokerTable.sameFabric_insert hlookup hconn hrouting) fun v _ t => ?_
    show BrokerTable.hasTopic (AList.insert id s' r.brokers) v t = _
    rw [BrokerTable.hasTopic_insert]
    split_ifs with hv
    · rw [hv, BrokerTable.hasTopic, hlookup, BrokerState.hasTopic, hsubs]
      rfl
    · rfl

theorem CacheInv.modifyState (h : CacheInv settings r) {id : Bytes} {f : BrokerState → BrokerState}
    (hcounted : ∀ s, r.brokers.lookup id = some s → s.Counted → (f s).Counted)
    (hconn : ∀ s, (f s).countedConnections = s.countedConnections)
    (hsubs : ∀ s, (f s).subscriptions = s.subscriptions)
    (hrouting : ∀ s, (f s).isTopicRoutingEnabled settings = s.isTopicRoutingEnabled settings) :
    CacheInv settings (r.modifyState id f) := by
  unfold BrokerRegistry.modifyState
  split
  · rename_i s hs
    exact h.setState hs (hcounted s hs (h.counted id s hs)) (hconn s) (hsubs s) (hrouting s)
  · exact h

/-- A record replaced before the caches are cleared. -/
theorem counted_modifyState (h : r.brokers.Counted) {id : Bytes} {f : BrokerState → BrokerState}
    (hcounted : ∀ s, s.Counted → (f s).Counted) : (r.modifyState id f).brokers.Counted := by
  unfold BrokerRegistry.modifyState
  split
  · rename_i s hs
    exact h.insert (hcounted s (h id s hs))
  · exact h

/-! ### The operations -/

theorem counted_fresh (b : Broker) (time : ℤ) :
    BrokerState.Counted { broker := b, regTime := time } :=
  ⟨Nat.zero_le _, Nat.zero_le _⟩

theorem CacheInv.addBroker (h : CacheInv settings r) (b : Broker) :
    CacheInv settings (r.addBroker settings env b) := by
  unfold BrokerRegistry.addBroker
  split_ifs
  · exact h
  · split
    · rename_i s hs
      have hcounted := h.counted b.id s hs
      split_ifs with hstart hrouting
      · -- The flag changes, and the cache is cleared before the record is set.
        refine ⟨BrokerTable.Counted.insert h.counted ⟨hcounted.subscriptions, hcounted.pending⟩, ?_⟩
        exact TopicCacheService.valid_clearCacheWithDelay 0
      · refine h.setState hs ⟨hcounted.subscriptions, hcounted.pending⟩ rfl rfl ?_
        rw [not_not] at hrouting
        unfold BrokerState.isTopicRoutingEnabled Broker.isTopicRoutingEnabled
          Broker.isLocalBroker at *
        cases hlocal : s.broker.id == cstr settings.guid with
        | true => simp
        | false => simpa [hlocal] using hrouting.symm
      · exact cacheInv_clearAllCaches (h.counted.insert (counted_fresh b env.time))
    · exact cacheInv_clearAllCaches (h.counted.insert (counted_fresh b env.time))

theorem counted_removeConnection {s : BrokerState} (h : s.Counted) (connectionId : Bytes) :
    (s.removeConnection connectionId).Counted := by
  unfold BrokerState.removeConnection
  split
  · exact h
  · split_ifs
    · exact ⟨h.subscriptions, h.pending⟩
    · exact ⟨h.subscriptions, h.pending⟩

theorem CacheInv.removeBroker (h : CacheInv settings r) (id : Bytes) :
    CacheInv settings (r.removeBroker settings env id) := by
  unfold BrokerRegistry.removeBroker
  split_ifs
  · refine cacheInv_clearAllCaches fun k s hk => ?_
    obtain ⟨-, hk⟩ := Map.lookup_erase_eq_some.mp hk
    rw [Map.lookup_mapVals] at hk
    obtain ⟨t, ht, rfl⟩ := Option.map_eq_some_iff.mp hk
    have hcounted := h.counted k t ht
    split_ifs
    · exact hcounted
    · exact counted_removeConnection hcounted id
  · exact h

theorem counted_addConnection {s : BrokerState} (h : s.Counted) (connectionId : Bytes)
    (isChild : Bool) : (s.addConnection connectionId isChild).Counted :=
  ⟨h.subscriptions, h.pending⟩

theorem counted_addConnections {children : Finset Bytes} :
    ∀ {connections : List Bytes} {s : BrokerState}, s.Counted →
      (BrokerState.addConnections children s connections).Counted := by
  intro connections
  induction connections with
  | nil => exact id
  | cons c connections ih => exact fun h => ih (counted_addConnection h c _)

theorem counted_setConnections {s : BrokerState} (h : s.Counted) (order : IterOrder Bytes)
    (connections : List Bytes) (children : Finset Bytes) :
    (s.setConnections order connections children).1.Counted := by
  unfold BrokerState.setConnections
  split_ifs
  · exact counted_addConnections ⟨h.subscriptions, h.pending⟩
  · exact h

theorem CacheInv.setConnections (h : CacheInv settings r) (id : Bytes)
    (connections children : List Bytes) :
    CacheInv settings (r.setConnections env id connections children) := by
  unfold BrokerRegistry.setConnections
  split
  · exact h
  · rename_i s hs
    simp only
    split_ifs
    · exact cacheInv_clearAllCaches (h.counted.insert
        (counted_setConnections (h.counted id s hs) env.iter connections children.toFinset))
    · exact h

/-- The topics of one broker change and the caches that contain it are updated. -/
theorem CacheInv.updateTopics (h : CacheInv settings r) {id : Bytes} {s s' : BrokerState}
    (hs : r.brokers.lookup id = some s) (hcounted : s'.Counted)
    (hconn : s'.countedConnections = s.countedConnections) (hbroker : s'.broker = s.broker)
    (hone : r.OneBridge id) {update : BridgeTopicCache → BridgeTopicCache}
    (hupdate : BridgeTopicCache.SameFabric settings r.brokers (AList.insert id s' r.brokers) →
      ∀ {c : BridgeTopicCache} {brokerId bridgeId : Bytes},
        r.topicCacheService.Holds brokerId bridgeId c →
        c.Valid settings r.brokers brokerId bridgeId →
        (update c).Valid settings (AList.insert id s' r.brokers) brokerId bridgeId) :
    CacheInv settings { r.setState id s' with
      topicCacheService := r.topicCacheService.updateTopics env.toCacheEnv id update } := by
  have hfabric : BridgeTopicCache.SameFabric settings r.brokers (AList.insert id s' r.brokers) :=
    BrokerTable.sameFabric_insert hs hconn (by simp [BrokerState.isTopicRoutingEnabled, hbroker])
  refine ⟨h.counted.insert hcounted, ?_⟩
  refine TopicCacheService.Valid.updateTopics h.valid hone (hupdate hfabric) fun hcontains hc => ?_
  refine hc.of_sameFabric hfabric fun v hv t => ?_
  have hvid : v ≠ id := by
    rintro rfl
    rw [BridgeTopicCache.containsBroker, decide_eq_false_iff_not] at hcontains
    exact hcontains hv
  show BrokerTable.hasTopic (AList.insert id s' r.brokers) v t = _
  rw [BrokerTable.hasTopic_insert, if_neg hvid]

theorem CacheInv.addTopic (h : CacheInv settings r) {id topic : Bytes}
    (hop : r.StepOk (.addTopic id topic)) :
    CacheInv settings (r.addTopic settings env id topic) := by
  unfold BrokerRegistry.addTopic
  split
  · exact h
  · rename_i s hs
    simp only [BrokerState.addTopic_snd, decide_eq_true_eq]
    by_cases hmem : topic ∈ s.subscriptions
    · rw [if_neg (not_not.mpr hmem)]
      exact h
    · rw [if_pos hmem]
      obtain ⟨hone, hroom, hfits⟩ := hop s hs hmem
      refine h.updateTopics hs ((h.counted id s hs).addTopic hmem hfits)
        (BrokerState.addTopic_countedConnections _ _ _) (BrokerState.addTopic_broker _ _ _) hone
        fun hfabric {c} {_} {_} hheld hc => hc.addTopic hfabric (by rw [hs]; rfl) (fun v t => ?_)
          (hroom _ _ c hheld)
      show BrokerTable.hasTopic (AList.insert id _ r.brokers) v t = true ↔ _
      rw [BrokerTable.hasTopic_insert]
      by_cases hv : v = id
      · rw [if_pos hv, hv, BrokerTable.hasTopic, hs]
        simp [BrokerState.hasTopic, or_comm]
      · simp [hv]

theorem CacheInv.removeTopic (h : CacheInv settings r) {id topic : Bytes}
    (hop : r.StepOk (.removeTopic id topic)) :
    CacheInv settings (r.removeTopic settings env id topic) := by
  unfold BrokerRegistry.removeTopic
  split
  · exact h
  · rename_i s hs
    simp only [BrokerState.removeTopic_snd, decide_eq_true_eq]
    by_cases hmem : topic ∈ s.subscriptions
    · rw [if_pos hmem]
      refine h.updateTopics hs ((h.counted id s hs).removeTopic hmem)
        (BrokerState.removeTopic_countedConnections _ _ _) (BrokerState.removeTopic_broker _ _ _)
        (hop s hs hmem)
        fun hfabric {c} {_} {_} _ hc => hc.removeTopic hfabric (by rw [hs]; rfl) fun v t => ?_
      show BrokerTable.hasTopic (AList.insert id _ r.brokers) v t = true ↔ _
      rw [BrokerTable.hasTopic_insert]
      by_cases hv : v = id
      · rw [if_pos hv, hv, BrokerTable.hasTopic, hs]
        simp [BrokerState.hasTopic, and_comm]
      · simp [hv]
    · rw [if_neg hmem]
      exact h

theorem CacheInv.onCoreMaintenance (h : CacheInv settings r) :
    CacheInv settings (r.onCoreMaintenance settings env) :=
  onCoreMaintenance_keeps (fun _ id h => h.removeBroker id) (fun _ _ h => ⟨h.counted, h.valid⟩) h

/-- Every operation that meets the condition keeps the cache right. -/
theorem CacheInv.step (h : CacheInv settings r) {op : RegistryOp} (hop : r.StepOk op) :
    CacheInv settings (r.step settings env op) := by
  cases op with
  | addBroker b => exact h.addBroker b
  | removeBroker id => exact h.removeBroker id
  | updateTtl id ttl =>
    exact h.modifyState (fun s _ hs => ⟨hs.subscriptions, hs.pending⟩) (fun _ => rfl)
      (fun _ => rfl) fun _ => rfl
  | updateRegistrationTime id =>
    exact h.modifyState (fun s _ hs => ⟨hs.subscriptions, hs.pending⟩) (fun _ => rfl)
      (fun _ => rfl) fun _ => rfl
  | addConnection id connection isChild =>
    show CacheInv settings (r.addConnection env id connection isChild)
    unfold BrokerRegistry.addConnection
    split_ifs
    · exact cacheInv_clearAllCaches (counted_modifyState h.counted fun s hs =>
        counted_addConnection hs connection isChild)
    · exact h
  | removeConnection id connection =>
    show CacheInv settings (r.removeConnection env id connection)
    unfold BrokerRegistry.removeConnection
    split_ifs
    · exact cacheInv_clearAllCaches (counted_modifyState h.counted fun s hs =>
        counted_removeConnection hs connection)
    · exact h
  | setConnections id connections children => exact h.setConnections id connections children
  | addTopic id topic => exact h.addTopic hop
  | removeTopic id topic => exact h.removeTopic hop
  | clearPendingTopics id =>
    exact h.modifyState (fun s _ hs => ⟨hs.subscriptions, Nat.zero_le _⟩) (fun _ => rfl)
      (fun _ => rfl) fun _ => rfl
  | addPendingTopics id topics =>
    exact h.modifyState (fun s hs hcounted => hcounted.addPendingTopics (hop s hs)) (fun _ => rfl)
      (fun _ => rfl) fun _ => rfl
  | swapPendingTopics id =>
    show CacheInv settings (r.swapPendingTopics env id)
    unfold BrokerRegistry.swapPendingTopics
    split_ifs
    · exact cacheInv_clearTopicCache (counted_modifyState h.counted fun s hs =>
        hs.swapPendingTopics)
    · exact h
  | setTopicsChangeCount id n =>
    exact h.modifyState (fun s _ hs => ⟨hs.subscriptions, hs.pending⟩) (fun _ => rfl)
      (fun _ => rfl) fun _ => rfl
  | onCoreMaintenance => exact h.onCoreMaintenance
  | isSubscriberInHierarchy id connection topic =>
    exact ⟨h.counted, (h.valid.isSubscriber id connection topic hop).1⟩
  | getNextBroker source target =>
    obtain ⟨hbrokers, hservice⟩ := getNextBroker_frame env r source target
    refine ⟨?_, ?_⟩
    · show BrokerTable.Counted (r.getNextBroker env source target).2.brokers
      rw [hbrokers]
      exact h.counted
    · show TopicCacheService.Valid settings (r.getNextBroker env source target).2.brokers
        (r.getNextBroker env source target).2.topicCacheService
      rw [hbrokers, hservice]
      exact h.valid
  | clearCache => exact ⟨h.counted, TopicCacheService.valid_of_empty
      TopicCacheService.clearCache_empty⟩
  | clearCacheWithDelay delay =>
    exact ⟨h.counted, TopicCacheService.valid_clearCacheWithDelay delay⟩

theorem ReachedOk.cacheInv (h : ReachedOk settings r) : CacheInv settings r := by
  induction h with
  | init env => exact cacheInv_init
  | step _ env op hop ih => exact ih.step hop

/-- **The topic cache is transparent.**  In every registry reached by steps that meet the condition,
whenever the topic cache answers a query that meets it, its answer is that of the search of all
brokers. -/
theorem cached_answer_eq_search (h : ReachedOk settings r) (env : RegistryEnv)
    (brokerId bridgeId topic : Bytes)
    (hquery : r.StepOk (.isSubscriberInHierarchy brokerId bridgeId topic)) (answer : Bool)
    (hanswer : (r.topicCacheService.isSubscriber settings env.order env.toCacheEnv r.brokers
      brokerId bridgeId topic).1 = some answer) :
    answer = r.brokers.findSubscriber settings env.order brokerId bridgeId topic :=
  (h.cacheInv.valid.isSubscriber brokerId bridgeId topic hquery).2 h.cacheInv.counted answer hanswer

end BrokerRegistry

instance (caches : BrokerTopicCache) (b : Bytes) : Decidable (caches.OneContains b) :=
  decidable_of_iff (∀ p ∈ caches.pairs, ∀ q ∈ caches.pairs,
      p.2.containsBroker b = true → q.2.containsBroker b = true → p.1 = q.1) <| by
    constructor
    · intro h bridgeId c bridgeId' c' hc hc'
      exact h (bridgeId, c) (Map.mem_pairs.mpr hc) (bridgeId', c') (Map.mem_pairs.mpr hc')
    · intro h p hp q hq
      exact h p.1 p.2 q.1 q.2 (Map.mem_pairs.mp hp) (Map.mem_pairs.mp hq)

namespace BrokerRegistry

instance (r : BrokerRegistry) (brokerId : Bytes) : Decidable (r.OneBridge brokerId) :=
  decidable_of_iff (∀ p ∈ r.topicCacheService.brokerCacheById.pairs,
      BrokerTopicCache.OneContains p.2 brokerId) <| by
    constructor
    · exact fun h source caches hc => h (source, caches) (Map.mem_pairs.mpr hc)
    · exact fun h p hp => h p.1 p.2 (Map.mem_pairs.mp hp)

theorem holds_iff {s : TopicCacheService} {source bridgeId : Bytes} {c : BridgeTopicCache} :
    s.Holds source bridgeId c ↔
      ∃ p ∈ s.brokerCacheById.pairs, p.1 = source ∧ (bridgeId, c) ∈ p.2.pairs := by
  constructor
  · rintro ⟨caches, hcaches, hc⟩
    exact ⟨(source, caches), Map.mem_pairs.mpr hcaches, rfl, Map.mem_pairs.mpr hc⟩
  · rintro ⟨⟨_, caches⟩, hcaches, rfl, hc⟩
    exact ⟨caches, Map.mem_pairs.mp hcaches, Map.mem_pairs.mp hc⟩

instance (r : BrokerRegistry) (brokerId topic : Bytes) : Decidable (r.RoomForTopic brokerId topic) :=
  decidable_of_iff (∀ p ∈ r.topicCacheService.brokerCacheById.pairs, ∀ q ∈ p.2.pairs,
      q.2.isBrokerCached brokerId = true → wildcardTotal (insert topic q.2.topics) < 2 ^ 31) <| by
    constructor
    · rintro h source bridgeId c hheld
      obtain ⟨p, hp, -, hc⟩ := holds_iff.mp hheld
      exact h p hp (bridgeId, c) hc
    · exact fun h p hp q hq => h p.1 q.1 q.2 (holds_iff.mpr ⟨p, hp, rfl, hq⟩)

instance (r : BrokerRegistry) (source bridgeId : Bytes) : Decidable (r.RoomForBuild source bridgeId) :=
  decidable_of_iff (∀ p ∈ r.topicCacheService.brokerCacheById.pairs, ∀ q ∈ p.2.pairs,
      p.1 = source → q.1 = bridgeId →
        wildcardTotal (q.2.topics ∪ q.2.nextTopics r.brokers) < 2 ^ 31) <| by
    constructor
    · rintro h c hheld
      obtain ⟨p, hp, hsource, hc⟩ := holds_iff.mp hheld
      exact h p hp (bridgeId, c) hc hsource rfl
    · exact fun h p hp q hq hsource hbridge => h q.2 (holds_iff.mpr ⟨p, hp, hsource, hbridge ▸ hq⟩)

/-- A clock that stands still, the cache on, no delay, and every loop in the order of its list. -/
def steadyEnv : RegistryEnv where
  now := 0
  cacheEnabled := true
  clearDelay := 0
  iter := .asListed Bytes
  time := 0
  order _ := .asListed Bytes

/-- The registry after some operations. -/
def runSteady (ops : List RegistryOp) : BrokerRegistry :=
  ops.foldl (step { guid := lit "L" } steadyEnv) (init steadyEnv)

/-- Two bridges `A` and `B` of the local broker `L`, and a broker `X` behind both. -/
def diamond : List RegistryOp :=
  [.addBroker { id := lit "L", hostname := lit "h" },
    .addBroker { id := lit "A", hostname := lit "h" },
    .addBroker { id := lit "B", hostname := lit "h" },
    .addBroker { id := lit "X", hostname := lit "h" },
    .setConnections (lit "L") [lit "A", lit "B"] [],
    .setConnections (lit "A") [lit "L", lit "X"] [],
    .setConnections (lit "B") [lit "L", lit "X"] [],
    .setConnections (lit "X") [lit "A", lit "B"] []]

/-- The queries that build the cache of a bridge. -/
def build (bridgeId : Bytes) : List RegistryOp :=
  List.replicate 4 (.isSubscriberInHierarchy (lit "L") bridgeId (lit "t"))

/-- A topic that `X` adds reaches the first bridge cache only. -/
theorem cached_answer_stale :
    let r := runSteady (diamond ++ build (lit "A") ++ build (lit "B") ++
      [.addTopic (lit "X") (lit "t")])
    (r.topicCacheService.isSubscriber { guid := lit "L" } steadyEnv.order steadyEnv.toCacheEnv
      r.brokers (lit "L") (lit "A") (lit "t")).1 = some false ∧
    r.brokers.findSubscriber { guid := lit "L" } steadyEnv.order (lit "L") (lit "A") (lit "t") =
      true := by
  decide +kernel

/-- One bridge, with its cache built. -/
def oneBridge : List RegistryOp :=
  [.addBroker { id := lit "L", hostname := lit "h" },
    .addBroker { id := lit "A", hostname := lit "h" },
    .setConnections (lit "L") [lit "A"] [],
    .setConnections (lit "A") [lit "L"] [],
    .isSubscriberInHierarchy (lit "L") (lit "A") (lit "t"),
    .isSubscriberInHierarchy (lit "L") (lit "A") (lit "t")]

theorem reachedOk_oneBridge : ReachedOk { guid := lit "L" } (runSteady oneBridge) := by
  have h : ReachedOk { guid := lit "L" } (init steadyEnv) := .init steadyEnv
  have h := h.step steadyEnv (.addBroker { id := lit "L", hostname := lit "h" }) trivial
  have h := h.step steadyEnv (.addBroker { id := lit "A", hostname := lit "h" }) trivial
  have h := h.step steadyEnv (.setConnections (lit "L") [lit "A"] []) trivial
  have h := h.step steadyEnv (.setConnections (lit "A") [lit "L"] []) trivial
  have hfirst : (runSteady (oneBridge.take 4)).RoomForBuild (lit "L") (lit "A") := by
    decide +kernel
  have h := h.step steadyEnv (.isSubscriberInHierarchy (lit "L") (lit "A") (lit "t")) hfirst
  have hsecond : (runSteady (oneBridge.take 5)).RoomForBuild (lit "L") (lit "A") := by
    decide +kernel
  exact h.step steadyEnv (.isSubscriberInHierarchy (lit "L") (lit "A") (lit "t")) hsecond

/-- A wildcard that `A` adds is found by the cache. -/
theorem cached_answer_oneBridge :
    ((runSteady oneBridge).step { guid := lit "L" } steadyEnv
      (.addTopic (lit "A") (lit "t/#"))).brokers.findSubscriber { guid := lit "L" } steadyEnv.order
        (lit "L") (lit "A") (lit "t/u") = true := by
  have hop : (runSteady oneBridge).StepOk (.addTopic (lit "A") (lit "t/#")) := by
    rintro s hs -
    exact ⟨by decide +kernel, by decide +kernel, by cases hs; decide⟩
  have hquery : ((runSteady oneBridge).step { guid := lit "L" } steadyEnv
      (.addTopic (lit "A") (lit "t/#"))).RoomForBuild (lit "L") (lit "A") := by decide +kernel
  exact (cached_answer_eq_search (reachedOk_oneBridge.step steadyEnv _ hop) steadyEnv (lit "L")
    (lit "A") (lit "t/u") hquery true (by decide +kernel)).symm

end BrokerRegistry

end DxlBroker
