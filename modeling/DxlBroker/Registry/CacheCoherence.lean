import DxlBroker.Registry.BrokerRegistry

/-!
# The topic cache answers as the search does

A bridge's cache is valid when it is fresh, or knows that a broker without topic routing lies behind
the bridge, or tracks exactly the brokers behind the bridge and the topics of those it has examined.
Validity is kept by every step of the build and by every change of a broker's topics that reaches the
cache; every other change clears the caches.
-/

namespace DxlBroker

open Bytes Unordered

namespace BridgeTopicCache

variable {settings : BrokerSettings} {order : ConnectionOrder} {iter : IterOrder Bytes}
  {brokers : BrokerTable} {brokerId bridgeId : Bytes} {c : BridgeTopicCache}

/-! ### Topics added to a cache -/

theorem addTopicHere_eq (c : BridgeTopicCache) (topic : Bytes) :
    c.addTopicHere topic = c.addTopics {topic} := by
  unfold addTopicHere addTopics
  by_cases h : topic ∈ c.topics
  · have hsdiff : ({topic} : Finset Bytes) \ c.topics = ∅ := by simpa using h
    rw [if_pos h, hsdiff, Finset.union_eq_left.mpr (by simpa using h)]
    simp [wildcardTotal]
  · have hsdiff : ({topic} : Finset Bytes) \ c.topics = insert topic ∅ := by
      rw [Finset.sdiff_eq_self_iff_disjoint.mpr (by simpa using h)]
      rfl
    rw [if_neg h, hsdiff, wildcardTotal_insert (Finset.notMem_empty _), Finset.insert_eq,
      Finset.union_comm]
    congr 1
    split_ifs <;> simp [wildcardTotal]

theorem addTopics_addTopics (c : BridgeTopicCache) (s t : Finset Bytes) :
    (c.addTopics s).addTopics t = c.addTopics (s ∪ t) := by
  have hsdiff : (t \ c.topics) \ (s \ c.topics) = t \ (c.topics ∪ s) := by
    ext x
    simp only [Finset.mem_sdiff, Finset.mem_union]
    tauto
  have hcount : wildcardTotal ((s ∪ t) \ c.topics) =
      wildcardTotal (s \ c.topics) + wildcardTotal (t \ (c.topics ∪ s)) := by
    rw [Finset.union_sdiff_distrib, wildcardTotal_union, hsdiff]
  unfold addTopics
  rw [hcount, Finset.union_assoc, Int32.ofNat_add, ← Int32.add_assoc]

/-- The loop over the topics of a broker, in whatever order. -/
theorem addTopics_eq_foldl (c : BridgeTopicCache) (topics : List Bytes) :
    topics.foldl addTopicHere c = c.addTopics topics.toFinset := by
  induction topics using List.reverseRecOn with
  | nil => simp [addTopics, wildcardTotal]
  | append_singleton topics t ih =>
    rw [List.foldl_append, List.foldl_cons, List.foldl_nil, ih, addTopicHere_eq,
      addTopics_addTopics, List.toFinset_append]
    rfl

/-! ### Valid caches -/

variable (settings brokers brokerId bridgeId) in
/-- The cache tracks the brokers behind the bridge: it holds the topics of those that were examined,
and none of them has topic routing off. -/
structure Tracks (c : BridgeTopicCache) : Prop where
  enabled : c.topicRoutingEnabled = true
  started : c.state ≠ .start
  reach : ∀ v, v ∈ c.brokers ↔ brokers.ReachAvoiding brokerId bridgeId v
  routing : ∀ v ∈ c.brokers, stopsVisit settings brokers v = false
  cached : ∀ v, v ∈ c.cachedBrokers ↔
    v ∈ c.brokers ∧ v ∉ c.brokersIter ∧ (brokers.lookup v).isSome = true
  topics : ∀ t, t ∈ c.topics ↔ ∃ v ∈ c.cachedBrokers, brokers.hasTopic v t = true
  wildcards : c.wildcardCount = Int32.ofNat (wildcardTotal c.topics)
  fits : wildcardTotal c.topics < 2 ^ 31
  nodup : c.brokersIter.Nodup
  iterated : ∀ v ∈ c.brokersIter, v ∈ c.brokers
  completed : c.state = .completed ↔ c.brokersIter = []

variable (settings brokers brokerId bridgeId) in
/-- A cache whose answers, as soon as it has any, are right. -/
inductive Valid : BridgeTopicCache → Prop
  | fresh : Valid {}
  | stopped {c : BridgeTopicCache} (disabled : c.topicRoutingEnabled = false)
      (completed : c.state = .completed)
      (stop : ∃ v, brokers.ReachAvoiding brokerId bridgeId v ∧
        stopsVisit settings brokers v = true) : Valid c
  | tracks {c : BridgeTopicCache} (h : Tracks settings brokers brokerId bridgeId c) : Valid c

theorem mem_occurring {v : Bytes} (h : brokers.ReachAvoiding brokerId bridgeId v) :
    v ∈ occurring order brokers bridgeId := by
  cases h.2 with
  | refl => exact List.mem_cons_self
  | @tail u _ _ hstep =>
    obtain ⟨s, hu, -⟩ := hstep.1
    refine List.mem_cons_of_mem _ (List.mem_flatMap.mpr ⟨u, ?_, BrokerTable.mem_connections.mpr
      hstep.1⟩)
    rw [← AList.mem_keys, ← AList.lookup_isSome, hu]
    rfl

/-- The first step finds the brokers. -/
theorem valid_findBrokers :
    Valid settings brokers brokerId bridgeId
      (({} : BridgeTopicCache).findBrokers settings order iter brokers brokerId bridgeId) := by
  unfold findBrokers
  generalize hfound : brokers.depthFirstTraversal order bridgeId brokerId
    (stopsVisit settings brokers) = found
  have hstop : found.1 = true ↔ ∃ v, brokers.ReachAvoiding brokerId bridgeId v ∧
      stopsVisit settings brokers v = true := by
    rw [← hfound]
    exact BrokerTable.depthFirstTraversal_fst
  simp only [Finset.empty_union, Bool.true_and]
  cases hflag : found.1 with
  | true => exact .stopped rfl rfl (hstop.mp hflag)
  | false =>
    have hreach : ∀ v, v ∈ found.2 ↔ brokers.ReachAvoiding brokerId bridgeId v := by
      rw [← hfound] at hflag ⊢
      exact BrokerTable.depthFirstTraversal_snd hflag
    have hmem : ∀ v, v ∈ iter.enumerate (occurring order brokers bridgeId) found.2 ↔
        v ∈ found.2 := fun v =>
      IterOrder.mem_enumerate iter fun a ha => mem_occurring ((hreach a).mp ha)
    refine .tracks ⟨rfl, ?_, hreach, fun v hv => ?_, fun v => ?_, fun t => ?_, rfl, Nat.two_pow_pos 31,
      IterOrder.nodup_enumerate .., fun v => (hmem v).mp, ?_⟩
    · simp only
      split_ifs <;> simp
    · rw [← Bool.not_eq_true]
      intro hs
      have := hstop.mpr ⟨v, (hreach v).mp hv, hs⟩
      rw [hflag] at this
      cases this
    · simp only [Finset.notMem_empty, false_iff, not_and]
      exact fun hv hn => absurd ((hmem v).mpr hv) hn
    · simp
    · simp only [Bool.not_false, Bool.true_and]
      cases iter.enumerate (occurring order brokers bridgeId) found.2 <;> simp

/-- Examining a broker of the list leaves the others to be examined. -/
theorem Tracks.cacheBroker (h : Tracks settings brokers brokerId bridgeId c) {b : Bytes}
    {rest : List Bytes} (hiter : c.brokersIter = b :: rest)
    (hfits : wildcardTotal (c.topics ∪ (brokers.lookup b).elim ∅ fun s => s.subscriptions) < 2 ^ 31) :
    Tracks settings brokers brokerId bridgeId
      { c.cacheBroker brokers b with
        brokersIter := rest
        state := if rest.isEmpty then .completed else .building } := by
  have hnodup := h.nodup
  rw [hiter, List.nodup_cons] at hnodup
  have hmem : ∀ v, v ∈ c.brokersIter ↔ v = b ∨ v ∈ rest := fun v => by
    rw [hiter, List.mem_cons]
  have hrest : ∀ v ∈ rest, v ∈ c.brokers := fun v hv => h.iterated v ((hmem v).mpr (.inr hv))
  have hcompleted : (if rest.isEmpty then CacheState.completed else .building) = .completed ↔
      rest = [] := by
    cases rest <;> simp
  have hstarted : (if rest.isEmpty then CacheState.completed else .building) ≠ .start := by
    cases rest <;> simp
  unfold BridgeTopicCache.cacheBroker
  cases hlookup : brokers.lookup b with
  | none =>
    refine ⟨h.enabled, hstarted, h.reach, h.routing, fun v => ?_, h.topics, h.wildcards, h.fits,
      hnodup.2, hrest, hcompleted⟩
    simp only [h.cached, hmem, not_or]
    refine and_congr_right fun _ => ⟨fun hv => ⟨hv.1.2, hv.2⟩, fun hv => ⟨⟨?_, hv.1⟩, hv.2⟩⟩
    rintro rfl
    rw [hlookup] at hv
    exact absurd hv.2 Bool.false_ne_true
  | some s =>
    rw [hlookup] at hfits
    refine ⟨h.enabled, hstarted, h.reach, h.routing, fun v => ?_, fun t => ?_, ?_, hfits, hnodup.2,
      hrest, hcompleted⟩
    · simp only [Finset.mem_insert, h.cached, hmem, not_or]
      constructor
      · rintro (rfl | ⟨hv, hn, hs⟩)
        · exact ⟨h.iterated v ((hmem v).mpr (.inl rfl)), hnodup.1, by rw [hlookup]; rfl⟩
        · exact ⟨hv, hn.2, hs⟩
      · rintro ⟨hv, hn, hs⟩
        by_cases hvb : v = b
        · exact .inl hvb
        · exact .inr ⟨hv, ⟨hvb, hn⟩, hs⟩
    · simp only [addTopics, Finset.mem_union, h.topics, Finset.exists_mem_insert]
      rw [or_comm]
      refine or_congr_left ?_
      simp [BrokerTable.hasTopic, hlookup, BrokerState.hasTopic]
    · simp only [addTopics, h.wildcards, wildcardTotal_union, Int32.ofNat_add]

/-- Every step of the build keeps a cache valid, if the wildcards that it adds can be counted. -/
theorem Valid.build (h : Valid settings brokers brokerId bridgeId c)
    (hfits : wildcardTotal (c.topics ∪ c.nextTopics brokers) < 2 ^ 31) :
    Valid settings brokers brokerId bridgeId
      (c.buildCacheIncrement settings order iter brokers brokerId bridgeId) := by
  cases h with
  | fresh => exact valid_findBrokers
  | stopped disabled completed stop =>
    rw [buildCacheIncrement, completed]
    exact .stopped disabled completed stop
  | tracks h =>
    unfold buildCacheIncrement
    split
    · rename_i hstate
      exact absurd hstate h.started
    · rename_i b rest hstate hiter
      rw [nextTopics, hstate, hiter] at hfits
      exact .tracks (h.cacheBroker hiter hfits)
    · exact .tracks h
    · exact .tracks h

end BridgeTopicCache

/-- The wildcard counters of the records are never behind their subscriptions. -/
structure BrokerState.Counted (s : BrokerState) : Prop where
  subscriptions : wildcardTotal s.subscriptions ≤ s.subscriptionsWildcardCount.toNat
  pending : wildcardTotal s.pendingSubscriptions ≤ s.pendingSubscriptionsWildcardCount.toNat

/-- All records of a registry are counted. -/
def BrokerTable.Counted (brokers : BrokerTable) : Prop :=
  ∀ id s, brokers.lookup id = some s → s.Counted

theorem BrokerTable.isSubscriberInBroker_iff {settings : BrokerSettings} {brokers : BrokerTable}
    (hcount : brokers.Counted) {id topic : Bytes} :
    brokers.isSubscriberInBroker settings id topic = true ↔
      BridgeTopicCache.stopsVisit settings brokers id = true ∨
        brokers.hasTopic id topic = true ∨
          ∃ w ∈ wildcardAncestors topic, brokers.hasTopic id w = true := by
  unfold isSubscriberInBroker hasTopic BridgeTopicCache.stopsVisit
  cases h : brokers.lookup id with
  | none => simp
  | some s =>
    simp only [Option.elim_some, hasSubscriber, Bool.or_eq_true, Bool.and_eq_true,
      decide_eq_true_eq, List.any_eq_true, or_assoc]
    refine or_congr_right (or_congr_right (and_iff_right_of_imp ?_))
    rintro ⟨w, hw, hmem⟩
    rw [BrokerState.hasTopic, decide_eq_true_eq] at hmem
    have hpos := wildcardTotal_pos hmem (isWildcard_of_mem_wildcardAncestors hw)
    have := (hcount id s h).subscriptions
    rw [gt_iff_lt, UInt32.lt_iff_toNat_lt, UInt32.toNat_zero]
    omega

namespace BridgeTopicCache

variable {settings : BrokerSettings} {order : ConnectionOrder} {iter : IterOrder Bytes}
  {brokers : BrokerTable} {brokerId bridgeId : Bytes} {c : BridgeTopicCache}

/-! ### The answer -/

theorem Tracks.answer_iff (h : Tracks settings brokers brokerId bridgeId c)
    (hdone : c.state = .completed) (topic : Bytes) :
    c.answer topic = true ↔ ∃ v, brokers.ReachAvoiding brokerId bridgeId v ∧
      (brokers.hasTopic v topic = true ∨
        ∃ w ∈ wildcardAncestors topic, brokers.hasTopic v w = true) := by
  have hiter := h.completed.mp hdone
  have hknown : ∀ v t, brokers.hasTopic v t = true → (brokers.lookup v).isSome = true := by
    intro v t ht
    unfold BrokerTable.hasTopic at ht
    cases hv : brokers.lookup v with
    | none =>
      rw [hv] at ht
      cases ht
    | some s => rfl
  have htopic : ∀ t, t ∈ c.topics ↔ ∃ v, brokers.ReachAvoiding brokerId bridgeId v ∧
      brokers.hasTopic v t = true := by
    intro t
    rw [h.topics]
    simp only [h.cached, hiter, List.not_mem_nil, not_false_eq_true, true_and, h.reach, and_assoc]
    exact exists_congr fun v => and_congr_right fun _ =>
      ⟨fun hv => hv.2, fun hv => ⟨hknown v t hv, hv⟩⟩
  -- A wildcard among the topics makes the count positive.
  have hwild : (c.wildcardCount > 0 ∧ ∃ w ∈ wildcardAncestors topic, w ∈ c.topics) ↔
      ∃ w ∈ wildcardAncestors topic, w ∈ c.topics := by
    refine and_iff_right_of_imp ?_
    rintro ⟨w, hw, hmem⟩
    have hpos := wildcardTotal_pos hmem (isWildcard_of_mem_wildcardAncestors hw)
    rw [gt_iff_lt, Int32.lt_iff_toInt_lt, h.wildcards, Int32.toInt_ofNat_of_lt h.fits]
    exact Int.natCast_pos.mpr hpos
  simp only [answer, h.enabled, Bool.not_true, Bool.false_or, Bool.or_eq_true, Bool.and_eq_true,
    decide_eq_true_eq, List.any_eq_true]
  rw [hwild]
  simp only [htopic]
  constructor
  · rintro (⟨v, hv, ht⟩ | ⟨w, hw, v, hv, ht⟩)
    · exact ⟨v, hv, .inl ht⟩
    · exact ⟨v, hv, .inr ⟨w, hw, ht⟩⟩
  · rintro ⟨v, hv, ht | ⟨w, hw, ht⟩⟩
    · exact .inl ⟨v, hv, ht⟩
    · exact .inr ⟨w, hw, v, hv, ht⟩

/-- A valid cache that answers gives the answer of the search. -/
theorem Valid.answer_eq (h : Valid settings brokers brokerId bridgeId c) (hcount : brokers.Counted)
    (hdone : c.state = .completed) (topic : Bytes) :
    c.answer topic = brokers.findSubscriber settings order brokerId bridgeId topic := by
  rw [Bool.eq_iff_iff, BrokerTable.findSubscriber_iff]
  simp only [BrokerTable.isSubscriberInBroker_iff hcount]
  cases h with
  | fresh => cases hdone
  | stopped disabled completed stop =>
    obtain ⟨v, hv, hstop⟩ := stop
    exact iff_of_true (by simp [answer, disabled]) ⟨v, hv, .inl hstop⟩
  | tracks h =>
    rw [h.answer_iff hdone]
    refine exists_congr fun v => and_congr_right fun hv => ?_
    rw [h.routing v ((h.reach v).mpr hv)]
    simp

/-! ### A broker's topics change -/

variable (settings) in
/-- Two registries with the same brokers and connections, of which the same have topic routing
on. -/
structure SameFabric (brokers brokers' : BrokerTable) : Prop where
  connected : ∀ v w, brokers'.Connected v w ↔ brokers.Connected v w
  stops : ∀ v, stopsVisit settings brokers' v = stopsVisit settings brokers v
  known : ∀ v, (brokers'.lookup v).isSome = (brokers.lookup v).isSome

variable {brokers' : BrokerTable}

theorem SameFabric.reach (h : SameFabric settings brokers brokers') (v : Bytes) :
    brokers'.ReachAvoiding brokerId bridgeId v ↔ brokers.ReachAvoiding brokerId bridgeId v := by
  simp only [BrokerTable.ReachAvoiding, h.connected]

/-- A tracking cache with other topics. -/
theorem Tracks.retopic (h : Tracks settings brokers brokerId bridgeId c)
    (hfabric : SameFabric settings brokers brokers') {topics : Finset Bytes} {n : Int32}
    (htopics : ∀ t, t ∈ topics ↔ ∃ v ∈ c.cachedBrokers, brokers'.hasTopic v t = true)
    (hn : n = Int32.ofNat (wildcardTotal topics)) (hfits : wildcardTotal topics < 2 ^ 31) :
    Tracks settings brokers' brokerId bridgeId
      { c with topics := topics, wildcardCount := n } where
  enabled := h.enabled
  started := h.started
  reach v := (h.reach v).trans (hfabric.reach v).symm
  routing v hv := (hfabric.stops v).trans (h.routing v hv)
  cached v := by rw [h.cached, hfabric.known]
  topics := htopics
  wildcards := hn
  fits := hfits
  nodup := h.nodup
  iterated := h.iterated
  completed := h.completed

theorem Valid.stopped_of_sameFabric (hfabric : SameFabric settings brokers brokers')
    (disabled : c.topicRoutingEnabled = false) (completed : c.state = .completed)
    (stop : ∃ v, brokers.ReachAvoiding brokerId bridgeId v ∧
      stopsVisit settings brokers v = true) :
    Valid settings brokers' brokerId bridgeId c := by
  obtain ⟨v, hv, hstop⟩ := stop
  exact .stopped disabled completed ⟨v, (hfabric.reach v).mpr hv, (hfabric.stops v).trans hstop⟩

/-- A valid cache stays valid when the topics of the brokers it tracks stay. -/
theorem Valid.of_sameFabric (h : Valid settings brokers brokerId bridgeId c)
    (hfabric : SameFabric settings brokers brokers')
    (htopics : ∀ v ∈ c.brokers, ∀ t, brokers'.hasTopic v t = brokers.hasTopic v t) :
    Valid settings brokers' brokerId bridgeId c := by
  cases h with
  | fresh => exact .fresh
  | stopped disabled completed stop => exact .stopped_of_sameFabric hfabric disabled completed stop
  | tracks h =>
    refine .tracks (h.retopic hfabric (fun t => ?_) h.wildcards h.fits)
    rw [h.topics]
    refine exists_congr fun v => and_congr_right fun hv => ?_
    rw [htopics v ((h.cached v).mp hv).1]

/-- A tracking cache has examined a known broker exactly when `isBrokerCached` says so. -/
theorem Tracks.isBrokerCached_iff (h : Tracks settings brokers brokerId bridgeId c) {b : Bytes}
    (hknown : (brokers.lookup b).isSome = true) :
    c.isBrokerCached b = true ↔ b ∈ c.cachedBrokers := by
  unfold isBrokerCached
  split_ifs with hdone
  · rw [containsBroker, decide_eq_true_eq, h.cached, h.completed.mp hdone]
    simp [hknown]
  · exact decide_eq_true_iff

/-- A cache that contains the broker gets its new topic. -/
theorem Valid.addTopic (h : Valid settings brokers brokerId bridgeId c)
    (hfabric : SameFabric settings brokers brokers') {b topic : Bytes}
    (hknown : (brokers.lookup b).isSome = true)
    (htopics : ∀ v t, brokers'.hasTopic v t = true ↔
      brokers.hasTopic v t = true ∨ v = b ∧ t = topic)
    (hfits : c.isBrokerCached b = true → wildcardTotal (insert topic c.topics) < 2 ^ 31) :
    Valid settings brokers' brokerId bridgeId (c.addTopic brokers' b topic) := by
  have hnew : brokers'.hasTopic b topic = true := (htopics b topic).mpr (.inr ⟨rfl, rfl⟩)
  cases h with
  | fresh => exact .fresh
  | stopped disabled completed stop =>
    rw [BridgeTopicCache.addTopic, disabled]
    exact .stopped_of_sameFabric hfabric disabled completed stop
  | tracks h =>
    unfold BridgeTopicCache.addTopic
    simp only [h.enabled, Bool.true_and, hnew, Bool.and_true, Bool.and_eq_true,
      h.isBrokerCached_iff hknown, decide_eq_true_eq]
    by_cases hcond : b ∈ c.cachedBrokers ∧ topic ∉ c.topics
    · rw [if_pos hcond, addTopicHere, if_neg hcond.2]
      refine .tracks (h.retopic hfabric (fun t => ?_) ?_
        (hfits ((h.isBrokerCached_iff hknown).mpr hcond.1)))
      · simp only [Finset.mem_insert, h.topics, htopics]
        constructor
        · rintro (rfl | ⟨v, hv, ht⟩)
          · exact ⟨b, hcond.1, .inr ⟨rfl, rfl⟩⟩
          · exact ⟨v, hv, .inl ht⟩
        · rintro ⟨v, hv, ht | ⟨-, ht⟩⟩
          · exact .inr ⟨v, hv, ht⟩
          · exact .inl ht
      · rw [wildcardTotal_insert hcond.2, h.wildcards, Int32.ofNat_add]
        split_ifs
        · rfl
        · exact (Int32.add_zero _).symm
    · rw [if_neg hcond]
      refine .tracks (h.retopic hfabric (fun t => ?_) h.wildcards h.fits)
      simp only [h.topics, htopics]
      constructor
      · rintro ⟨v, hv, ht⟩
        exact ⟨v, hv, .inl ht⟩
      · rintro ⟨v, hv, ht | ⟨rfl, rfl⟩⟩
        · exact ⟨v, hv, ht⟩
        · -- The broker is examined, so the topic was there already.
          exact (h.topics t).mp (by_contra fun hn => hcond ⟨hv, hn⟩)

/-- A cache that contains the broker loses a topic when no other broker has it. -/
theorem Valid.removeTopic (h : Valid settings brokers brokerId bridgeId c)
    (hfabric : SameFabric settings brokers brokers') {b topic : Bytes}
    (hknown : (brokers.lookup b).isSome = true)
    (htopics : ∀ v t, brokers'.hasTopic v t = true ↔
      brokers.hasTopic v t = true ∧ ¬ (v = b ∧ t = topic)) :
    Valid settings brokers' brokerId bridgeId (c.removeTopic brokers' b topic) := by
  have hgone : brokers'.hasTopic b topic = false := by
    rw [Bool.eq_false_iff, ne_eq, htopics]
    exact fun hn => hn.2 ⟨rfl, rfl⟩
  cases h with
  | fresh => exact .fresh
  | stopped disabled completed stop =>
    rw [BridgeTopicCache.removeTopic, disabled]
    exact .stopped_of_sameFabric hfabric disabled completed stop
  | tracks h =>
    have hother : ∀ t, t ≠ topic → ((∃ v ∈ c.cachedBrokers, brokers.hasTopic v t = true) ↔
        ∃ v ∈ c.cachedBrokers, brokers'.hasTopic v t = true) := by
      intro t ht
      simp only [htopics, ht, and_false, not_false_eq_true, and_true]
    unfold BridgeTopicCache.removeTopic
    split
    all_goals
      rename_i hcond
      simp only [h.enabled, Bool.true_and, hgone, Bool.not_false, Bool.and_true, Bool.and_eq_true,
        h.isBrokerCached_iff hknown, decide_eq_true_eq, Bool.not_eq_true',
        decide_eq_false_iff_not] at hcond
    · have htotal := wildcardTotal_erase hcond.1.2
      refine .tracks (h.retopic hfabric (fun t => ?_) ?_ (by have := h.fits; omega))
      · rw [Finset.mem_erase, h.topics]
        by_cases ht : t = topic
        · rw [ht]
          exact iff_of_false (fun hn => hn.1 rfl) hcond.2
        · rw [hother t ht]
          exact and_iff_right ht
      · rw [h.wildcards, htotal, Int32.ofNat_add]
        split_ifs
        · exact Int32.add_sub_cancel _ _
        · exact Int32.add_zero _
    · refine .tracks (h.retopic hfabric (fun t => ?_) h.wildcards h.fits)
      by_cases ht : t = topic
      · rw [ht]
        constructor
        · intro hmem
          by_cases hb : b ∈ c.cachedBrokers
          · exact by_contra fun hlast => hcond ⟨⟨hb, hmem⟩, hlast⟩
          · obtain ⟨v, hv, hvt⟩ := (h.topics topic).mp hmem
            refine ⟨v, hv, (htopics v topic).mpr ⟨hvt, fun hn => hb ?_⟩⟩
            rwa [← hn.1]
        · rintro ⟨v, hv, hvt⟩
          exact (h.topics topic).mpr ⟨v, hv, ((htopics v topic).mp hvt).1⟩
      · rw [h.topics, hother t ht]

end BridgeTopicCache

/-! ### The caches of a broker's bridges -/

/-- At most one of the bridge caches contains the broker. -/
def BrokerTopicCache.OneContains (caches : BrokerTopicCache) (b : Bytes) : Prop :=
  ∀ bridgeId c bridgeId' c', caches.lookup bridgeId = some c → caches.lookup bridgeId' = some c' →
    c.containsBroker b = true → c'.containsBroker b = true → bridgeId = bridgeId'

/-- The loop over the bridge caches leaves none behind when at most one contains the broker. -/
theorem BrokerTopicCache.lookup_updateFirst {b : Bytes}
    {update : BridgeTopicCache → BridgeTopicCache} {bridgeId : Bytes} :
    ∀ {keys : List Bytes} {caches : BrokerTopicCache}, caches.OneContains b →
      (∀ k ∈ caches.keys, k ∉ keys → ∀ c, caches.lookup k = some c → c.containsBroker b = false) →
      (caches.updateFirst b update keys).lookup bridgeId =
        (caches.lookup bridgeId).map fun c => if c.containsBroker b then update c else c := by
  intro keys
  induction keys with
  | nil =>
    intro caches _ hrest
    rw [updateFirst]
    cases hc : caches.lookup bridgeId with
    | none => rfl
    | some c =>
      have hkey : bridgeId ∈ caches.keys := by
        rw [← AList.mem_keys, ← AList.lookup_isSome, hc]
        rfl
      simp [hrest bridgeId hkey List.not_mem_nil c hc]
  | cons k keys ih =>
    intro caches hone hrest
    have hskip : (∀ c, caches.lookup k = some c → c.containsBroker b = false) →
        ∀ k' ∈ caches.keys, k' ∉ keys → ∀ c, caches.lookup k' = some c →
          c.containsBroker b = false := by
      intro hk k' hmem hnot c hc
      by_cases hkk : k' = k
      · exact hk c (hkk ▸ hc)
      · refine hrest k' hmem (fun h => ?_) c hc
        rcases List.mem_cons.mp h with h | h
        · exact hkk h
        · exact hnot h
    rw [updateFirst]
    split
    · rename_i c hc
      split_ifs with hcontains
      · by_cases hb : bridgeId = k
        · rw [hb, AList.lookup_insert, hc, Option.map_some, if_pos hcontains]
        · rw [AList.lookup_insert_ne hb]
          cases hc' : caches.lookup bridgeId with
          | none => rfl
          | some c' =>
            have : c'.containsBroker b ≠ true := fun h =>
              hb (hone bridgeId c' k c hc' hc h hcontains)
            simp [this]
      · refine ih hone (hskip fun c' hc' => ?_)
        rw [hc] at hc'
        rw [← Option.some.inj hc']
        simpa using hcontains
    · rename_i hnone
      refine ih hone (hskip fun c hc => ?_)
      rw [hnone] at hc
      cases hc

namespace TopicCacheService

variable {settings : BrokerSettings} {order : ConnectionOrder} {env : CacheEnv}
  {brokers brokers' : BrokerTable} {s : TopicCacheService}

/-! ### The service -/

/-- The cache of a bridge that the service keeps. -/
def Holds (s : TopicCacheService) (brokerId bridgeId : Bytes) (c : BridgeTopicCache) : Prop :=
  ∃ caches, s.brokerCacheById.lookup brokerId = some caches ∧ caches.lookup bridgeId = some c

variable (settings brokers) in
/-- While the service counts as enabled all its caches are valid. -/
def Valid (s : TopicCacheService) : Prop :=
  s.wasEnabled = true → ∀ brokerId caches, s.brokerCacheById.lookup brokerId = some caches →
    ∀ bridgeId c, caches.lookup bridgeId = some c →
      c.Valid settings brokers brokerId bridgeId

/-- A cache without content is valid for every registry. -/
theorem valid_of_empty (h : s.wasEnabled = true → s.brokerCacheById = ∅) :
    s.Valid settings brokers := by
  intro hs brokerId caches hlookup
  rw [h hs, AList.lookup_empty] at hlookup
  cases hlookup

theorem clearCache_empty : (s.clearCache env).wasEnabled = true →
    (s.clearCache env).brokerCacheById = ∅ := by
  unfold clearCache checkEnabledOnClear
  cases s.enabledNow env <;> simp

/-- A cleared cache is valid, whatever happened to the registry. -/
theorem valid_clearCacheWithDelay (delay : UInt32) :
    (s.clearCacheWithDelay env delay).Valid settings brokers :=
  valid_of_empty clearCache_empty

/-- A service found enabled has its caches cleared, or they were enabled all the time. -/
theorem checkEnabled_spec (env : CacheEnv) (s : TopicCacheService) :
    (s.checkEnabled env).2.wasEnabled = (s.checkEnabled env).1 ∧
      ((s.checkEnabled env).1 = true →
        (s.checkEnabled env).2.brokerCacheById = ∅ ∨
          s.wasEnabled = true ∧ (s.checkEnabled env).2.brokerCacheById = s.brokerCacheById) := by
  unfold checkEnabled
  cases henabled : s.enabledNow env with
  | false => simp
  | true =>
    refine ⟨rfl, fun _ => ?_⟩
    have hon : env.cacheEnabled = true := by
      rw [enabledNow, Bool.and_eq_true] at henabled
      exact henabled.1
    cases hwas : s.wasEnabled with
    | true => exact .inr ⟨rfl, by simp⟩
    | false => exact .inl (by simp [clearCache, checkEnabledOnClear, enabledNow, hon])

theorem Holds.of_checkEnabled (henabled : (s.checkEnabled env).1 = true) {brokerId bridgeId : Bytes}
    {c : BridgeTopicCache} (h : (s.checkEnabled env).2.Holds brokerId bridgeId c) :
    s.Holds brokerId bridgeId c := by
  obtain ⟨caches, hcaches, hc⟩ := h
  rcases (checkEnabled_spec env s).2 henabled with he | he
  · rw [he, AList.lookup_empty] at hcaches
    cases hcaches
  · exact ⟨caches, he.2 ▸ hcaches, hc⟩

theorem valid_init : (init env).Valid settings brokers := by
  obtain ⟨hwas, hcaches⟩ := checkEnabled_spec env {}
  refine valid_of_empty fun h => ?_
  rcases hcaches (hwas ▸ h) with he | he
  · exact he
  · cases he.1

theorem Valid.checkEnabled (h : s.Valid settings brokers) :
    (s.checkEnabled env).2.Valid settings brokers := by
  obtain ⟨hwas, hcaches⟩ := checkEnabled_spec env s
  intro henabled brokerId caches hlookup
  rcases hcaches (hwas ▸ henabled) with he | he
  · rw [he, AList.lookup_empty] at hlookup
    cases hlookup
  · rw [he.2] at hlookup
    exact h he.1 brokerId caches hlookup

/-- A change of a broker's topics keeps the service valid when it reaches the bridge cache that
contains the broker. -/
theorem Valid.updateTopics (h : s.Valid settings brokers) {b : Bytes}
    {update : BridgeTopicCache → BridgeTopicCache}
    (hone : ∀ brokerId caches, s.brokerCacheById.lookup brokerId = some caches →
      caches.OneContains b)
    (hupdate : ∀ {c : BridgeTopicCache} {brokerId bridgeId : Bytes}, s.Holds brokerId bridgeId c →
      c.Valid settings brokers brokerId bridgeId →
      (update c).Valid settings brokers' brokerId bridgeId)
    (hother : ∀ {c : BridgeTopicCache} {brokerId bridgeId : Bytes}, c.containsBroker b = false →
      c.Valid settings brokers brokerId bridgeId → c.Valid settings brokers' brokerId bridgeId) :
    (s.updateTopics env b update).Valid settings brokers' := by
  obtain ⟨hwas, hcaches⟩ := checkEnabled_spec env s
  cases henabled : (s.checkEnabled env).1 with
  | false =>
    have hrest : s.updateTopics env b update = (s.checkEnabled env).2 :=
      if_neg (by simp [henabled])
    refine valid_of_empty fun hn => ?_
    rw [hrest, hwas, henabled] at hn
    cases hn
  | true =>
    have hall : s.updateTopics env b update = { (s.checkEnabled env).2 with
        brokerCacheById := (s.checkEnabled env).2.brokerCacheById.mapVals fun _ caches =>
          caches.updateFirst b update (env.iter.arrange caches.keys) } := if_pos henabled
    intro _ brokerId caches hlookup bridgeId c hc
    rw [hall, Map.lookup_mapVals] at hlookup
    obtain ⟨caches', hlookup', rfl⟩ := Option.map_eq_some_iff.mp hlookup
    rcases hcaches henabled with he | he
    · rw [he, AList.lookup_empty] at hlookup'
      cases hlookup'
    · rw [he.2] at hlookup'
      rw [BrokerTopicCache.lookup_updateFirst (hone brokerId caches' hlookup')] at hc
      · obtain ⟨c', hc', rfl⟩ := Option.map_eq_some_iff.mp hc
        have hvalid := h he.1 brokerId caches' hlookup' bridgeId c' hc'
        split_ifs with hcontains
        · exact hupdate ⟨caches', hlookup', hc'⟩ hvalid
        · exact hother (by simpa using hcontains) hvalid
      · exact fun k hk hn => absurd ((IterOrder.mem_arrange _).mpr hk) hn

/-- A query keeps the service valid, and its answer is that of the search. -/
theorem Valid.isSubscriber (h : s.Valid settings brokers) (brokerId bridgeId topic : Bytes)
    (hfits : ∀ c, s.Holds brokerId bridgeId c →
      wildcardTotal (c.topics ∪ c.nextTopics brokers) < 2 ^ 31) :
    (s.isSubscriber settings order env brokers brokerId bridgeId topic).2.Valid settings brokers ∧
      (brokers.Counted → ∀ answer,
        (s.isSubscriber settings order env brokers brokerId bridgeId topic).1 = some answer →
          answer = brokers.findSubscriber settings order brokerId bridgeId topic) := by
  have hcheck : (s.checkEnabled env).2.Valid settings brokers := h.checkEnabled
  have hwas := (checkEnabled_spec env s).1
  unfold TopicCacheService.isSubscriber
  simp only
  cases henabled : (s.checkEnabled env).1 with
  | false => exact ⟨hcheck, fun _ answer ha => by cases ha⟩
  | true =>
    have hvalid := hcheck (hwas.trans henabled)
    rw [if_pos rfl]
    -- The caches of the broker, found or made, are valid.
    split
    · exact ⟨hcheck, fun _ answer ha => by cases ha⟩
    · rename_i caches hcaches
      have hbridges : ∀ k c, caches.lookup k = some c → c.Valid settings brokers brokerId k := by
        rcases of_getBrokerCache hcaches with hc | rfl
        · exact hvalid brokerId caches hc
        · intro k c hk
          cases hk
      have hinsert : ∀ caches' : BrokerTopicCache,
          (∀ k c, caches'.lookup k = some c → c.Valid settings brokers brokerId k) →
          ({ (s.checkEnabled env).2 with
            brokerCacheById := (s.checkEnabled env).2.brokerCacheById.insert brokerId caches' } :
              TopicCacheService).Valid settings brokers := by
        intro caches' hcaches' _ id found hfound bridge c hc
        by_cases hid : id = brokerId
        · rw [hid, AList.lookup_insert] at hfound
          rw [hid]
          exact hcaches' bridge c (Option.some.inj hfound ▸ hc)
        · rw [AList.lookup_insert_ne hid] at hfound
          exact hvalid id found hfound bridge c hc
      split
      · exact ⟨hinsert caches hbridges, fun _ answer ha => by cases ha⟩
      · rename_i c hc
        have hc' : c.Valid settings brokers brokerId bridgeId := by
          rcases BrokerTopicCache.of_getBridgeCache hc with hc | rfl
          · exact hbridges bridgeId c hc
          · exact .fresh
        have hroom : wildcardTotal (c.topics ∪ c.nextTopics brokers) < 2 ^ 31 := by
          rcases BrokerTopicCache.of_getBridgeCache hc with hc | rfl
          · rcases of_getBrokerCache hcaches with hcaches | rfl
            · exact hfits c (Holds.of_checkEnabled henabled ⟨caches, hcaches, hc⟩)
            · cases hc
          · exact Nat.two_pow_pos 31
        have hbuilt : (c.buildCacheIncrement settings order env.iter brokers brokerId
            bridgeId).Valid settings brokers brokerId bridgeId := hc'.build hroom
        refine ⟨hinsert _ fun k c' hk => ?_, fun hcount answer ha => ?_⟩
        · by_cases hkb : k = bridgeId
          · rw [hkb, AList.lookup_insert] at hk
            rw [hkb, ← Option.some.inj hk]
            exact hbuilt
          · rw [AList.lookup_insert_ne hkb] at hk
            exact hbridges k c' hk
        · simp only [BridgeTopicCache.isSubscriber] at ha
          split_ifs at ha with hdone
          rw [← Option.some.inj ha]
          exact hbuilt.answer_eq hcount hdone topic

end TopicCacheService

end DxlBroker
