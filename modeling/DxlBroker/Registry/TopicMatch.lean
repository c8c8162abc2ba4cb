import DxlBroker.Mqtt.Delivery
import DxlBroker.Registry.Hierarchy

/-!
# Two matchers of topics

A broker delivers a message through its subscription tree; the brokers before it ask
`isSubscriberInBroker`, which knows the topic itself and its wildcard ancestors only.  The two
agree on a filter unless it has a `+` level or is the topic with `/#` after it.
-/

namespace DxlBroker

open Bytes Unordered

/-! ### Filters without a `+` -/

theorem eq_or_pound_of_matchLevels {fs ts : List Bytes} (h : matchLevels fs ts = true)
    (hplus : plusLevel ∉ fs) :
    fs = ts ∨ ∃ us rest, fs = us ++ [poundLevel] ∧ ts = us ++ rest := by
  induction fs generalizing ts with
  | nil =>
    cases ts with
    | nil => exact .inl rfl
    | cons t ts => simp [matchLevels] at h
  | cons f fs ih =>
    obtain ⟨hf, hfs⟩ := not_or.mp (mt List.mem_cons.mpr hplus)
    cases ts with
    | nil =>
      cases fs with
      | nil =>
        have hpound : f = poundLevel := by simpa [matchLevels] using h
        exact .inr ⟨[], [], by rw [hpound]; rfl, rfl⟩
      | cons g gs => simp [matchLevels] at h
    | cons t ts =>
      simp only [matchLevels, Bool.or_eq_true, Bool.and_eq_true, beq_iff_eq,
        List.isEmpty_iff] at h
      rcases h with ⟨rfl, rfl⟩ | ⟨rfl | rfl, h⟩
      · exact .inr ⟨[], t :: ts, rfl, rfl⟩
      · exact absurd rfl hf
      · rcases ih h hfs with rfl | ⟨us, rest, rfl, rfl⟩
        · exact .inl rfl
        · exact .inr ⟨f :: us, rest, rfl, rfl⟩

/-- The levels put together again. -/
theorem intercalate_levels (s : Bytes) : [slash].intercalate (levels s) = s :=
  List.intercalate_splitOn slash

theorem intercalate_append {us vs : List Bytes} (hu : us ≠ []) (hv : vs ≠ []) :
    [slash].intercalate (us ++ vs) =
      [slash].intercalate us ++ [slash] ++ [slash].intercalate vs := by
  induction us with
  | nil => exact absurd rfl hu
  | cons u us ih =>
    cases us with
    | nil =>
      rw [List.singleton_append, List.intercalate_cons_of_ne_nil hv, List.intercalate_singleton]
    | cons u' us =>
      rw [List.cons_append, List.intercalate_cons_of_ne_nil (by simp), ih (List.cons_ne_nil _ _),
        List.intercalate_cons_of_ne_nil (List.cons_ne_nil _ _)]
      simp only [List.append_assoc]

/-- The kind of filter that the search by ancestors does not see. -/
def MissedKind (filter topic : Bytes) : Prop :=
  plusLevel ∈ levels filter ∨ filter = topic ++ [slash, pound]

instance (filter topic : Bytes) : Decidable (MissedKind filter topic) :=
  inferInstanceAs (Decidable (_ ∨ _))

/-- Every other filter that matches is the topic or one of its wildcard ancestors. -/
theorem eq_or_ancestor_of_mqttMatches {filter topic : Bytes} (hnul : NulFree topic)
    (hpound : pound ∉ topic) (h : mqttMatches filter topic = true)
    (hkind : ¬ MissedKind filter topic) :
    filter = topic ∨ filter ∈ wildcardAncestors topic := by
  obtain ⟨hplus, hzero⟩ := not_or.mp hkind
  rw [mqttMatches, Bool.and_eq_true] at h
  rcases eq_or_pound_of_matchLevels h.2 hplus with he | ⟨us, rest, hf, ht⟩
  · exact .inl (levels_injective he)
  · right
    rw [mem_wildcardAncestors hnul hpound]
    have hfilter : filter = [slash].intercalate (us ++ [poundLevel]) := by
      rw [← hf, intercalate_levels]
    have htopic : topic = [slash].intercalate (us ++ rest) := by rw [← ht, intercalate_levels]
    by_cases hus : us = []
    · refine ⟨[], ⟨List.nil_prefix, .inl rfl⟩, ?_⟩
      rw [hfilter, hus, List.nil_append, List.intercalate_singleton]
      rfl
    · rw [intercalate_append hus (List.cons_ne_nil _ _), List.intercalate_singleton] at hfilter
      by_cases hrest : rest = []
      · -- The `#` stands for no level at all.
        rw [hrest, List.append_nil] at htopic
        rw [← htopic, List.append_assoc] at hfilter
        exact absurd hfilter hzero
      · rw [intercalate_append hus hrest] at htopic
        exact ⟨[slash].intercalate us ++ [slash],
          ⟨⟨_, htopic.symm⟩, .inr ⟨_, rfl⟩⟩, hfilter⟩

/-! ### What a record answers -/

/-- The record of a broker lets every match of a topic be seen: a filter of the missed kind has
the topic itself or one of its wildcard ancestors beside it, and the counter of the wildcards is not
zero when a wildcard is needed. -/
structure SeesMatches (s : BrokerState) (topic : Bytes) : Prop where
  missed : ∀ f ∈ s.subscriptions, mqttMatches f topic = true → MissedKind f topic →
    topic ∈ s.subscriptions ∨ ∃ w ∈ wildcardAncestors topic, w ∈ s.subscriptions
  counted : s.subscriptionsWildcardCount = 0 →
    (∃ f ∈ s.subscriptions, mqttMatches f topic = true) → topic ∈ s.subscriptions

section

variable {settings : BrokerSettings} {brokers : BrokerTable} {id topic : Bytes} {s : BrokerState}

theorem isSubscriberInBroker_eq_true (hrecord : brokers.lookup id = some s) :
    brokers.isSubscriberInBroker settings id topic = true ↔
      s.isTopicRoutingEnabled settings = false ∨ topic ∈ s.subscriptions ∨
        (s.subscriptionsWildcardCount ≠ 0 ∧
          ∃ w ∈ wildcardAncestors topic, w ∈ s.subscriptions) := by
  have hpos : (0 < s.subscriptionsWildcardCount) ↔ s.subscriptionsWildcardCount ≠ 0 :=
    UInt32.pos_iff_ne_zero
  simp only [BrokerTable.isSubscriberInBroker, hrecord, Option.elim_some, BrokerTable.hasSubscriber,
    BrokerState.hasTopic, Bool.or_eq_true, Bool.not_eq_true', Bool.and_eq_true, decide_eq_true_eq,
    gt_iff_lt, hpos, List.any_eq_true, or_assoc]

theorem sees_iff (hrecord : brokers.lookup id = some s) (hnul : NulFree topic)
    (hpound : pound ∉ topic) :
    ((∃ f ∈ s.subscriptions, mqttMatches f topic = true) →
      brokers.isSubscriberInBroker settings id topic = true) ↔
    (s.isTopicRoutingEnabled settings = false ∨ SeesMatches s topic) := by
  rw [isSubscriberInBroker_eq_true hrecord]
  constructor
  · intro h
    by_cases hrouting : s.isTopicRoutingEnabled settings = false
    · exact .inl hrouting
    · refine .inr ⟨fun f hf hmatch _ => ?_, fun hzero hmatch => ?_⟩
      · rcases (h ⟨f, hf, hmatch⟩).resolve_left hrouting with ht | ⟨-, hw⟩
        · exact .inl ht
        · exact .inr hw
      · rcases (h hmatch).resolve_left hrouting with ht | ⟨hne, -⟩
        · exact ht
        · exact absurd hzero hne
  · rintro (hrouting | hsees) hmatch
    · exact .inl hrouting
    · right
      -- A recorded ancestor answers unless the counter is zero, and then the topic is recorded.
      have hancestor : (∃ w ∈ wildcardAncestors topic, w ∈ s.subscriptions) →
          topic ∈ s.subscriptions ∨ (s.subscriptionsWildcardCount ≠ 0 ∧
            ∃ w ∈ wildcardAncestors topic, w ∈ s.subscriptions) := by
        intro hw
        by_cases hzero : s.subscriptionsWildcardCount = 0
        · exact .inl (hsees.counted hzero hmatch)
        · exact .inr ⟨hzero, hw⟩
      obtain ⟨f, hf, hfm⟩ := hmatch
      by_cases hkind : MissedKind f topic
      · rcases hsees.missed f hf hfm hkind with ht | hw
        · exact .inl ht
        · exact hancestor hw
      · rcases eq_or_ancestor_of_mqttMatches hnul hpound hfm hkind with rfl | hw
        · exact .inl hf
        · exact hancestor ⟨f, hw, hf⟩

end

/-! ### The tree of the broker -/

/-- The tree search of a broker with clients only delivers exactly when a filter matches. -/
theorem queue_ne_nil_iff {contexts : Set MqttContext} (hids : Set.InjOn MqttContext.id contexts)
    (hclients : ∀ c ∈ contexts, c.isBridge = false) (s : BrokerSettings) {ops : List SubsOp}
    (hops : ∀ op ∈ ops, op.Admissible contexts) (upgrade : Bool) (sourceId topic : Bytes) (qos : ℕ) :
    mqtt3DbMessagesQueue upgrade (SubsRun.run s ops).db sourceId topic qos ≠ [] ↔
      ∃ f ∈ (SubsRun.run s ops).current.image Prod.snd, mqttMatches f topic = true := by
  have h := holds_run hids s hops
  have hnil : mqtt3DbMessagesQueue upgrade (SubsRun.run s ops).db sourceId topic qos = [] ↔
      deliveries (SubsRun.run s ops).db sourceId topic = [] := by
    rw [← List.map_eq_nil_iff (f := MessageInsert.context), mqtt3DbMessagesQueue_contexts h.wf,
      List.map_eq_nil_iff]
  rw [ne_eq, hnil]
  constructor
  · intro hne
    obtain ⟨⟨c, p⟩, hmem⟩ := List.exists_mem_of_ne_nil _ hne
    obtain ⟨sub, hsub, hmatch, -⟩ := (mem_deliveries h).mp hmem
    rw [Bool.and_eq_true] at hmatch
    exact ⟨sub, Finset.mem_image.mpr ⟨(c, sub), hsub, rfl⟩, hmatch.2⟩
  · rintro ⟨f, hf, hmatch⟩
    obtain ⟨⟨c, sub⟩, hsub, rfl⟩ := Finset.mem_image.mp hf
    have hsource : notSource sourceId c = true := by
      simp [notSource, hclients c (h.mem _ hsub)]
    refine List.ne_nil_of_mem ((mem_deliveries h).mpr ⟨sub, hsub, ?_, rfl⟩)
    rw [hsource, hmatch]
    rfl

/-- **Routing by topic and the tree search.**  Whatever the clients of a broker subscribed to and
however the filters came into its record, a topic that its tree search delivers is also found in the
record, and by every search of the fabric that reaches the broker, exactly when its topic routing is
off or the record sees the matches. -/
theorem delivered_topic_found_iff {contexts : Set MqttContext}
    (hids : Set.InjOn MqttContext.id contexts) (hclients : ∀ c ∈ contexts, c.isBridge = false)
    (limits : BrokerSettings) (ops : List SubsOp) (hops : ∀ op ∈ ops, op.Admissible contexts)
    (upgrade : Bool) (sourceId : Bytes) (qos : ℕ) (topic : Bytes) (hnul : NulFree topic)
    (htopic : plus ∉ topic ∧ pound ∉ topic) (settings : BrokerSettings) (brokers : BrokerTable)
    (id : Bytes) (s : BrokerState) (hrecord : brokers.lookup id = some s)
    (hfilters : s.subscriptions = (SubsRun.run limits ops).current.image Prod.snd) :
    (mqtt3DbMessagesQueue upgrade (SubsRun.run limits ops).db sourceId topic qos ≠ [] →
      brokers.isSubscriberInBroker settings id topic = true ∧
        ∀ order source connection, brokers.ReachAvoiding source connection id →
          brokers.findSubscriber settings order source connection topic = true) ↔
    (s.isTopicRoutingEnabled settings = false ∨ SeesMatches s topic) := by
  rw [queue_ne_nil_iff hids hclients limits hops, ← hfilters, ← sees_iff hrecord hnul htopic.2]
  constructor
  · exact fun h hmatch => (h hmatch).1
  · intro h hmatch
    refine ⟨h hmatch, fun order source connection hreach => ?_⟩
    exact BrokerTable.findSubscriber_iff.mpr ⟨id, hreach, h hmatch⟩

/-- The local broker of the examples. -/
def localSettings : BrokerSettings := { guid := lit "L" }

/-- The record of a broker that is connected with `L`, whose filters came in a batch. -/
def batchedRecord (filters : List Bytes) : BrokerState :=
  (BrokerState.addPendingTopics
    (BrokerState.addConnection { broker := { id := lit "B" }, regTime := 7 } (lit "L") false)
    filters.toFinset (UInt32.ofNat (filters.countP isWildcard))).swapPendingTopics

/-- A registry with this record. -/
def oneBroker (filters : List Bytes) : BrokerTable :=
  AList.singleton (lit "B") (batchedRecord filters)

/-- A client of that broker that made the subscriptions. -/
def subscriptionsOf (filters : List Bytes) : List SubsOp :=
  filters.map fun f => .add subscriber f 0

theorem delivered_topic_found_foo :
    SeesMatches (batchedRecord [lit "foo/#", lit "+/bar"]) (lit "foo/bar") ∧
      (oneBroker [lit "foo/#", lit "+/bar"]).isSubscriberInBroker localSettings (lit "B")
        (lit "foo/bar") = true := by
  have hsees : SeesMatches (batchedRecord [lit "foo/#", lit "+/bar"]) (lit "foo/bar") :=
    ⟨by decide, by decide⟩
  have hids : Set.InjOn MqttContext.id {subscriber} := Set.injOn_singleton _ _
  refine ⟨hsees, (((delivered_topic_found_iff hids (fun c hc => ?_) localSettings
    (subscriptionsOf [lit "foo/#", lit "+/bar"]) (fun op hop => ?_) false [] 0 (lit "foo/bar")
    (by decide) (by decide) localSettings (oneBroker [lit "foo/#", lit "+/bar"]) (lit "B")
    (batchedRecord [lit "foo/#", lit "+/bar"]) (by rfl) (by decide)).mpr (.inr hsees))
      (by decide)).1⟩
  · rw [Set.mem_singleton_iff.mp hc]
    rfl
  · rw [subscriptionsOf, List.mem_map] at hop
    obtain ⟨f, hf, rfl⟩ := hop
    rcases List.mem_pair.mp hf with rfl | rfl
    · exact ⟨rfl, by decide⟩
    · exact ⟨rfl, by decide⟩

/-- The tree delivers through a `+` and through a `#` that stands for no level; the record of the
same filter does not answer. -/
theorem plus_and_zero_level_not_found :
    (mqtt3DbMessagesQueue false (SubsRun.run localSettings (subscriptionsOf [lit "+/bar"])).db []
        (lit "foo/bar") 0 ≠ [] ∧
      (oneBroker [lit "+/bar"]).isSubscriberInBroker localSettings (lit "B") (lit "foo/bar") =
        false) ∧
    mqtt3DbMessagesQueue false (SubsRun.run localSettings (subscriptionsOf [lit "foo/#"])).db []
        (lit "foo") 0 ≠ [] ∧
      (oneBroker [lit "foo/#"]).isSubscriberInBroker localSettings (lit "B") (lit "foo") =
        false := by
  decide

end DxlBroker
