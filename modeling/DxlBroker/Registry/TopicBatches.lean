import DxlBroker.Registry.TopicEvents
import DxlBroker.Registry.WildcardShortcut

/-!
# Topics in batches

A broker sends its topics in batches of at most so many characters, and a receiver puts them together
again.  How the topics are cut does not matter: the first batch clears what was pending, the last one
takes the place of the topics.
-/

namespace DxlBroker

open Bytes Unordered

/-! ### Putting the batches together -/

theorem readWildcardCount_append (s t : List Bytes) :
    readWildcardCount (s ++ t) = readWildcardCount s + readWildcardCount t := by
  rw [readWildcardCount, List.countP_append, UInt32.ofNat_add]
  rfl

theorem readWildcardCount_toNat {topics : List Bytes} (hnodup : topics.Nodup)
    (hsize : topics.length < 2 ^ 32) :
    (readWildcardCount topics).toNat = wildcardTotal topics.toFinset := by
  have hle : topics.countP isWildcard ≤ topics.length := List.countP_le_length
  rw [readWildcardCount, UInt32.toNat_ofNat', Nat.mod_eq_of_lt (by omega), wildcardTotal,
    ← List.toFinset_filter, List.toFinset_card_of_nodup (hnodup.filter _),
    List.countP_eq_length_filter]

/-- The record of a receiver that has not got this state of the broker yet. -/
def BrokerState.Awaits (startTime changeCount : UInt32) (s : BrokerState) : Prop :=
  s.broker.startTime ≠ startTime ∨ s.subscriptionsChangeCount ≠ changeCount

/-- What is pending before a batch is added. -/
def pendingBefore (isFirst : Bool) (s : BrokerState) : Finset Bytes × UInt32 :=
  if isFirst then (∅, 0) else (s.pendingSubscriptions, s.pendingSubscriptionsWildcardCount)

/-- A batch that is not the last. -/
theorem receiveBatch_more {startTime changeCount : UInt32} {s : BrokerState}
    (h : s.Awaits startTime changeCount) (batch : List Bytes) (isFirst : Bool) :
    s.receiveBatch startTime changeCount (TopicBatch.payload ⟨batch, isFirst, false⟩) =
      { s with
        pendingSubscriptions := (pendingBefore isFirst s).1 ∪ batch.toFinset
        pendingSubscriptionsWildcardCount :=
          (pendingBefore isFirst s).2 + readWildcardCount batch } := by
  have hstart := TopicBatch.payload_start ⟨batch, isFirst, false⟩
  have hend := TopicBatch.payload_end ⟨batch, isFirst, false⟩
  unfold BrokerState.Awaits at h
  unfold BrokerState.receiveBatch
  rw [if_pos h]
  simp only [hstart, hend, Bool.false_eq_true, if_false]
  cases isFirst <;> rfl

/-- The last batch. -/
theorem receiveBatch_last {startTime changeCount : UInt32} {s : BrokerState}
    (h : s.Awaits startTime changeCount) (batch : List Bytes) (isFirst : Bool) :
    s.receiveBatch startTime changeCount (TopicBatch.payload ⟨batch, isFirst, true⟩) =
      { s with
        subscriptions := (pendingBefore isFirst s).1 ∪ batch.toFinset
        subscriptionsWildcardCount := (pendingBefore isFirst s).2 + readWildcardCount batch
        pendingSubscriptions := ∅
        pendingSubscriptionsWildcardCount := 0
        subscriptionsChangeCount := changeCount } := by
  have hstart := TopicBatch.payload_start ⟨batch, isFirst, true⟩
  have hend := TopicBatch.payload_end ⟨batch, isFirst, true⟩
  unfold BrokerState.Awaits at h
  unfold BrokerState.receiveBatch
  rw [if_pos h]
  simp only [hstart, hend, if_true]
  cases isFirst <;> rfl

/-- All batches, one after the other. -/
theorem Batched.received {batch rest : List Bytes} {isFirst : Bool} {batches : List TopicBatch}
    (h : Batched batch rest isFirst batches) (startTime changeCount : UInt32) :
    ∀ s : BrokerState, s.Awaits startTime changeCount →
      batches.foldl (fun s b => s.receiveBatch startTime changeCount b.payload) s =
        { s with
          subscriptions := (pendingBefore isFirst s).1 ∪ (batch ++ rest).toFinset
          subscriptionsWildcardCount :=
            (pendingBefore isFirst s).2 + readWildcardCount (batch ++ rest)
          pendingSubscriptions := ∅
          pendingSubscriptionsWildcardCount := 0
          subscriptionsChangeCount := changeCount } := by
  induction h with
  | last batch t isFirst => exact fun s hs => receiveBatch_last hs (batch ++ [t]) isFirst
  | @cut rest batches batch t isFirst h ih =>
    intro s hs
    rw [List.foldl_cons, receiveBatch_more hs]
    refine (ih _ ?_).trans ?_
    · exact hs
    have happend : batch ++ t :: rest = (batch ++ [t]) ++ rest := by simp
    simp only [pendingBefore, Bool.false_eq_true, if_false, List.nil_append, happend,
      List.toFinset_append (l := batch ++ [t]), readWildcardCount_append (batch ++ [t]),
      Finset.union_assoc, UInt32.add_assoc]
  | @more batch rest t isFirst batches h ih =>
    intro s hs
    rw [ih s hs]
    simp

/-! ### The round trip -/

namespace BrokerRegistry

/-- The record of the sender after its batches were received, each in its own environment. -/
theorem lookup_receiveAll (r : BrokerRegistry) (guid : Bytes) (startTime changeCount : UInt32)
    (calls : List BatchCall) (env : Int32 → RegistryEnv) :
    (calls.foldl (fun r c => r.onBrokerStateTopics (env c.index) guid startTime changeCount
        c.payload) r).brokers.lookup guid =
      (r.brokers.lookup guid).map fun s =>
        (calls.map BatchCall.toTopicBatch).foldl
          (fun s b => s.receiveBatch startTime changeCount b.payload) s := by
  induction calls generalizing r with
  | nil => simp
  | cons c calls ih =>
    rw [List.foldl_cons, ih, lookup_onBrokerStateTopics, if_pos rfl, Option.map_map]
    rfl

/-- What a receiver makes of all batches. -/
theorem batchTopics_received {topics : List Bytes} (hsize : topics.length < 2 ^ 31)
    (charCount : Int32) {startTime changeCount : UInt32} {s : BrokerState}
    (hs : s.Awaits startTime changeCount) :
    ((batchTopics charCount topics).map BatchCall.toTopicBatch).foldl
        (fun s b => s.receiveBatch startTime changeCount b.payload) s =
      { s with
        subscriptions := topics.toFinset
        subscriptionsWildcardCount := readWildcardCount topics
        pendingSubscriptions := ∅
        pendingSubscriptionsWildcardCount := 0
        subscriptionsChangeCount := changeCount } := by
  unfold batchTopics
  by_cases hempty : topics = []
  · subst hempty
    exact receiveBatch_last hs [] true
  · simp only [if_neg (mt (int32_length_eq_zero (hsize.trans (by norm_num))).mp hempty)]
    have hbatched := (batched_batchLoop charCount (hsize.trans (by norm_num)) topics [] 0 0 0 true hempty
      (Nat.zero_add _)).1
    refine (hbatched.received startTime changeCount s hs).trans ?_
    simp [pendingBefore]

theorem batchTopics_marks {topics : List Bytes} (hsize : topics.length < 2 ^ 31)
    (charCount : Int32) :
    batchTopics charCount topics ≠ [] ∧
    ∀ (i : ℕ) c, (batchTopics charCount topics)[i]? = some c →
      c.index.toInt = i ∧ (c.isFirst = true ↔ i = 0) ∧
      (c.isLast = true ↔ i + 1 = (batchTopics charCount topics).length) := by
  obtain ⟨hne, -, hlength, hmarks⟩ := batchTopics_spec charCount (hsize.trans (by norm_num))
  refine ⟨hne, fun i c hc => ?_⟩
  obtain ⟨hindex, hfirst, hlast⟩ := hmarks i c hc
  obtain ⟨hi, -⟩ := List.getElem?_eq_some_iff.mp hc
  refine ⟨?_, hfirst, hlast⟩
  rw [hindex, Int32.toInt_ofNat_of_lt (by omega)]

/-- **The round trip of the topics.**  For fewer than `2 ^ 31` topics, in any order, and any limit,
the batches are numbered from zero, the first and the last are marked, and a receiver that takes
them in ends with these topics and the number of their wildcards. -/
theorem topicBatches_roundTrip (topics : List Bytes) (hnodup : topics.Nodup)
    (hsize : topics.length < 2 ^ 31) (charCount : Int32) :
    batchTopics charCount topics ≠ [] ∧
    (∀ (i : ℕ) c, (batchTopics charCount topics)[i]? = some c →
      c.index.toInt = i ∧ (c.isFirst = true ↔ i = 0) ∧
      (c.isLast = true ↔ i + 1 = (batchTopics charCount topics).length)) ∧
    ∀ (r : BrokerRegistry) (guid : Bytes) (s : BrokerState) (startTime changeCount : UInt32)
      (env : Int32 → RegistryEnv), r.brokers.lookup guid = some s →
      s.Awaits startTime changeCount →
      ∃ s', ((batchTopics charCount topics).foldl (fun r c => r.onBrokerStateTopics
          (env c.index) guid startTime changeCount c.payload) r).brokers.lookup guid = some s' ∧
        s'.subscriptions = topics.toFinset ∧
        s'.subscriptionsWildcardCount.toNat = wildcardTotal topics.toFinset := by
  obtain ⟨hne, hmarks⟩ := batchTopics_marks hsize charCount
  refine ⟨hne, hmarks, fun r guid s startTime changeCount env hs hawaits => ?_⟩
  have hrecord := lookup_receiveAll r guid startTime changeCount
    (batchTopics charCount topics) env
  rw [hs, Option.map_some, batchTopics_received hsize charCount hawaits] at hrecord
  exact ⟨_, hrecord, rfl, readWildcardCount_toNat hnodup (by omega)⟩

/-- A receiver with an empty record of `A`. -/
def receiver : BrokerRegistry := runSteady [.addBroker { id := lit "A", hostname := lit "h" }]

theorem receiver_awaits :
    ∃ s, receiver.brokers.lookup (lit "A") = some s ∧ s.Awaits 0 1 :=
  ⟨_, rfl, .inr (by decide)⟩

/-- Two topics, one of them a wildcard, in two batches. -/
theorem topicBatches_roundTrip_two :
    ∃ s', ((batchTopics 1 [lit "a", lit "b/#"]).foldl (fun r c => r.onBrokerStateTopics steadyEnv
        (lit "A") 0 1 c.payload) receiver).brokers.lookup (lit "A") = some s' ∧
      s'.subscriptions = {lit "a", lit "b/#"} ∧ s'.subscriptionsWildcardCount.toNat = 1 := by
  obtain ⟨s, hs, hawaits⟩ := receiver_awaits
  have htrip := topicBatches_roundTrip [lit "a", lit "b/#"] (by decide) (by decide) 1
  obtain ⟨s', hs', hsubs, hcount⟩ :=
    htrip.2.2 receiver (lit "A") s 0 1 (fun _ => steadyEnv) hs hawaits
  refine ⟨s', hs', hsubs.trans rfl, hcount.trans (by decide)⟩

/-! ### A number of topics that is no `int` -/

/-- The number of `2 ^ 32` topics is cut off to zero, and nothing is sent of them. -/
theorem batchTopics_overflow {topics : List Bytes} (hsize : topics.length = 2 ^ 32)
    (charCount : Int32) :
    batchTopics charCount topics =
      [{ topics := [], isFirst := true, isLast := true, index := 0 }] := by
  have hzero : Int32.ofNat (2 ^ 32) = 0 := by decide
  unfold batchTopics
  rw [hsize]
  exact if_pos hzero

/-- All wildcards with a number below `2 ^ 32`. -/
def manyTopics : List Bytes := (List.range (2 ^ 32)).map wildcardNo

theorem manyTopics_spec : manyTopics.Nodup ∧ manyTopics.length = 2 ^ 32 := by
  refine ⟨List.Nodup.map_on (fun i hi j hj h => ?_) List.nodup_range, ?_⟩
  · exact wildcardNo_injOn (List.mem_range.mp hi) (List.mem_range.mp hj) h
  · rw [manyTopics, List.length_map, List.length_range]

/-- A receiver of the batches of `2 ^ 32` topics ends without any. -/
theorem topicBatches_lost :
    manyTopics.Nodup ∧
    ∃ s', ((batchTopics 0 manyTopics).foldl (fun r c => r.onBrokerStateTopics steadyEnv
        (lit "A") 0 1 c.payload) receiver).brokers.lookup (lit "A") = some s' ∧
      s'.subscriptions ≠ manyTopics.toFinset := by
  obtain ⟨hnodup, hlength⟩ := manyTopics_spec
  rw [batchTopics_overflow hlength]
  refine ⟨hnodup, _, rfl, fun heq => ?_⟩
  have hcard := congrArg Finset.card heq
  rw [List.toFinset_card_of_nodup hnodup, hlength] at hcard
  revert hcard
  decide

end BrokerRegistry

end DxlBroker
