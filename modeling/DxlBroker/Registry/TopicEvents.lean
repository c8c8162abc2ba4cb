import DxlBroker.Registry.EventHandlers

/-!
# The topic events of a broker

What a broker sends about its own topics: an event for every topic that a client adds or removes,
and from time to time its whole state, with all topics in batches.
-/

namespace DxlBroker

open Bytes Unordered

/-- The events of a broker in the order they are sent.  The last two arguments of a batch and the last
one of a topic event are bookkeeping: the number of the transfer and of the batch in it, and whether
the sender's topics changed. -/
inductive SyncMessage
  | state (p : BrokerStateEventPayload)
  | topics (startTime changeCount : UInt32) (p : BrokerStateTopicsEventPayload)
      (snapshot index : ℕ)
  | topic (isAdd : Bool) (startTime changeCount : UInt32) (topic : Bytes) (changed : Bool)

/-! ### Batches -/

/-- What a call of `handleBatch` is given of the topics. -/
structure TopicBatch where
  topics : List Bytes
  isFirst : Bool
  isLast : Bool

/-- A call of `handleBatch` with its index. -/
structure BatchCall extends TopicBatch where
  index : Int32

/-- The loop of `batchTopics`, with its `int` counters: a batch is handed over when it has enough
characters or the topics have come to their end. -/
def batchLoop (charCount size : Int32) :
    List Bytes → List Bytes → Int32 → Int32 → Int32 → Bool → List BatchCall
  | [], _, _, _, _, _ => []
  | t :: rest, batch, curCharCount, count, index, isFirst =>
      let batch := batch ++ [t]
      let curCharCount := curCharCount + Int32.ofNat t.length
      let isLast := count == size - 1
      if curCharCount ≥ charCount ∨ isLast = true then
        { topics := batch, isFirst := isFirst, isLast := isLast, index := index } ::
          batchLoop charCount size rest [] 0 (count + 1) (index + 1) false
      else batchLoop charCount size rest batch curCharCount (count + 1) index isFirst

/-- `batchTopics` for the topics in the order they are iterated: their number is an `int`. -/
def batchTopics (charCount : Int32) (topics : List Bytes) : List BatchCall :=
  let size := Int32.ofNat topics.length
  if size = 0 then [{ topics := [], isFirst := true, isLast := true, index := 0 }]
  else batchLoop charCount size topics [] 0 0 0 true

/-- The payload that `BrokerStateTopicsSender` makes of a batch. -/
def TopicBatch.payload (b : TopicBatch) : BrokerStateTopicsEventPayload where
  state := (if b.isFirst then stateStart else 0) ||| (if b.isLast then stateEnd else 0)
  topics := b.topics

/-! ### The senders -/

section

variable (settings : BrokerSettings) (env : RegistryEnv)

/-- A topic of the local broker is added or removed: the registry is told, and an event is sent even
when nothing has changed.  Client channels are left out. -/
def onTopicChanged (isAdd : Bool) (topic : Bytes) (r : BrokerRegistry) :
    BrokerRegistry × List SyncMessage :=
  if settings.topicRoutingEnabled && !startsWith dxlClientPrefixBracket topic then
    let changed := (r.brokers.hasTopic (cstr settings.guid) topic) != isAdd
    let r := if isAdd then r.addTopic settings env (cstr settings.guid) topic
      else r.removeTopic settings env (cstr settings.guid) topic
    (r, (r.brokers.lookup (cstr settings.guid)).elim [] fun s =>
      [.topic isAdd s.broker.startTime s.subscriptionsChangeCount topic changed])
  else (r, [])

/-- `onTopicAddedToBroker` -/
def onTopicAddedToBroker (topic : Bytes) (r : BrokerRegistry) :
    BrokerRegistry × List SyncMessage := onTopicChanged settings env true topic r

/-- `onTopicRemovedFromBroker` -/
def onTopicRemovedFromBroker (topic : Bytes) (r : BrokerRegistry) :
    BrokerRegistry × List SyncMessage := onTopicChanged settings env false topic r

/-- `sendLocalBrokerStateEvent`: the broker's state with its current properties, then its topics in
the order they are iterated. -/
def sendLocalBrokerStateEvent (properties : Broker) (topics : List Bytes) (charCount : Int32)
    (snapshot : ℕ) (r : BrokerRegistry) : List SyncMessage :=
  (r.brokers.lookup (cstr settings.guid)).elim [] fun s =>
    .state ⟨{ properties with id := s.broker.id, startTime := s.broker.startTime },
        s.countedConnections.keys,
        s.countedConnections.keys.filter fun c => c ∈ s.childConnections⟩ ::
      if settings.topicRoutingEnabled then
        (batchTopics charCount topics).zipIdx.map fun b =>
          .topics s.broker.startTime s.subscriptionsChangeCount b.1.payload snapshot b.2
      else []

end

/-! ### What the batches are -/

theorem TopicBatch.payload_start (b : TopicBatch) :
    b.payload.state &&& stateStart ≠ 0 ↔ b.isFirst = true := by
  have key : ∀ isFirst isLast : Bool,
      ((if isFirst then stateStart else 0) ||| (if isLast then stateEnd else 0)) &&& stateStart ≠ 0 ↔
        isFirst = true := by decide
  exact key b.isFirst b.isLast

theorem TopicBatch.payload_end (b : TopicBatch) :
    b.payload.state &&& stateEnd ≠ 0 ↔ b.isLast = true := by
  have key : ∀ isFirst isLast : Bool,
      ((if isFirst then stateStart else 0) ||| (if isLast then stateEnd else 0)) &&& stateEnd ≠ 0 ↔
        isLast = true := by decide
  exact key b.isFirst b.isLast

/-- The batches of some topics, when a batch has been begun. -/
inductive Batched : List Bytes → List Bytes → Bool → List TopicBatch → Prop
  | last (batch : List Bytes) (t : Bytes) (isFirst : Bool) :
      Batched batch [t] isFirst [⟨batch ++ [t], isFirst, true⟩]
  | cut {rest : List Bytes} {batches : List TopicBatch} (batch : List Bytes) (t : Bytes)
      (isFirst : Bool) (h : Batched [] rest false batches) :
      Batched batch (t :: rest) isFirst (⟨batch ++ [t], isFirst, false⟩ :: batches)
  | more {batch rest : List Bytes} {t : Bytes} {isFirst : Bool} {batches : List TopicBatch}
      (h : Batched (batch ++ [t]) rest isFirst batches) :
      Batched batch (t :: rest) isFirst batches

namespace Batched

variable {batch rest : List Bytes} {isFirst : Bool} {batches : List TopicBatch}

theorem ne_nil (h : Batched batch rest isFirst batches) : batches ≠ [] := by
  induction h with
  | last batch t isFirst => exact List.cons_ne_nil _ _
  | cut batch t isFirst _ _ => exact List.cons_ne_nil _ _
  | more _ ih => exact ih

/-- The batches hold all topics, in order. -/
theorem flatten (h : Batched batch rest isFirst batches) :
    (batches.map TopicBatch.topics).flatten = batch ++ rest := by
  induction h with
  | last batch t isFirst => simp
  | cut batch t isFirst _ ih => simp [ih]
  | more _ ih => simpa using ih

/-- The first batch, and no other, is marked as such, and so is the last. -/
theorem marks (h : Batched batch rest isFirst batches) :
    ∀ i b, batches[i]? = some b →
      (b.isFirst = if i = 0 then isFirst else false) ∧ (b.isLast = true ↔ i + 1 = batches.length) := by
  induction h with
  | last batch t isFirst =>
    intro i b hb
    cases i with
    | zero =>
      rw [List.getElem?_cons_zero, Option.some.injEq] at hb
      rw [← hb]
      simp
    | succ i => simp at hb
  | cut batch t isFirst h ih =>
    intro i b hb
    cases i with
    | zero =>
      rw [List.getElem?_cons_zero, Option.some.injEq] at hb
      rw [← hb]
      simpa using h.ne_nil
    | succ i =>
      rw [List.getElem?_cons_succ] at hb
      obtain ⟨hfirst, hlast⟩ := ih i b hb
      refine ⟨?_, ?_⟩
      · rw [hfirst, ite_self, if_neg (Nat.succ_ne_zero i)]
      · rw [hlast, List.length_cons]
        omega
  | more _ ih => exact ih

end Batched

theorem int32_ofNat_inj {k n : ℕ} (hk : k < 2 ^ 32) (hn : n < 2 ^ 32) :
    Int32.ofNat k = Int32.ofNat n ↔ k = n := by
  rw [← Int32.toBitVec_inj, ← BitVec.toNat_inj]
  show k % 2 ^ 32 = n % 2 ^ 32 ↔ _
  omega

/-- The counters of 32 bits meet at the last topic. -/
theorem int32_count_eq_iff {k n : ℕ} (hk : k < 2 ^ 32) (hn : n < 2 ^ 32) (hpos : 0 < n) :
    (Int32.ofNat k == Int32.ofNat n - 1) = true ↔ k + 1 = n := by
  have hone : Int32.ofNat n - 1 = Int32.ofNat (n - 1) := (Int32.ofNat_sub n 1 hpos).symm
  rw [hone, beq_iff_eq, int32_ofNat_inj hk (by omega)]
  omega

theorem int32_length_eq_zero {topics : List Bytes} (hsize : topics.length < 2 ^ 32) :
    Int32.ofNat topics.length = 0 ↔ topics = [] := by
  have hzero : (0 : Int32) = Int32.ofNat 0 := rfl
  rw [hzero, int32_ofNat_inj hsize (by omega), List.length_eq_zero_iff]

/-- The loop makes batches, and counts them. -/
theorem batched_batchLoop (charCount : Int32) {size : ℕ} (hsize : size < 2 ^ 32) :
    ∀ (topics batch : List Bytes) (cur : Int32) (done index : ℕ) (isFirst : Bool), topics ≠ [] →
      done + topics.length = size →
      let calls := batchLoop charCount (Int32.ofNat size) topics batch cur (Int32.ofNat done)
        (Int32.ofNat index) isFirst
      Batched batch topics isFirst (calls.map BatchCall.toTopicBatch) ∧
        calls.length ≤ topics.length ∧
        ∀ i c, calls[i]? = some c → c.index = Int32.ofNat (index + i) := by
  intro topics
  induction topics with
  | nil => exact fun _ _ _ _ _ h => absurd rfl h
  | cons t rest ih =>
    intro batch cur done index isFirst _ hdone
    rw [List.length_cons] at hdone
    have hlast : (Int32.ofNat done == Int32.ofNat size - 1) = true ↔ rest = [] := by
      rw [int32_count_eq_iff (by omega) hsize (by omega), ← List.length_eq_zero_iff]
      omega
    have hnext : ∀ n : ℕ, Int32.ofNat n + 1 = Int32.ofNat (n + 1) := fun n =>
      (Int32.ofNat_add n 1).symm
    simp only [batchLoop, hnext]
    by_cases hrest : rest = []
    · rw [if_pos (.inr (hlast.mpr hrest)), hlast.mpr hrest]
      subst hrest
      refine ⟨.last batch t isFirst, le_rfl, fun i c hc => ?_⟩
      cases i with
      | zero =>
        rw [List.getElem?_cons_zero, Option.some.injEq] at hc
        rw [← hc, Nat.add_zero]
      | succ i => simp [batchLoop] at hc
    · have hnot : (Int32.ofNat done == Int32.ofNat size - 1) = false := by
        rw [← Bool.not_eq_true, hlast]
        exact hrest
      rw [hnot]
      by_cases hfull : cur + Int32.ofNat t.length ≥ charCount
      · rw [if_pos (.inl hfull)]
        obtain ⟨hbatched, hlength, hindex⟩ := ih [] 0 (done + 1) (index + 1) false hrest (by omega)
        refine ⟨.cut batch t isFirst hbatched, by simpa using hlength, fun i c hc => ?_⟩
        cases i with
        | zero =>
          rw [List.getElem?_cons_zero, Option.some.injEq] at hc
          rw [← hc, Nat.add_zero]
        | succ i =>
          rw [List.getElem?_cons_succ] at hc
          rw [hindex i c hc, Nat.add_right_comm, Nat.add_assoc]
      · rw [if_neg (by simpa using hfull)]
        obtain ⟨hbatched, hlength, hindex⟩ := ih (batch ++ [t]) (cur + Int32.ofNat t.length)
          (done + 1) index isFirst hrest (by omega)
        exact ⟨.more hbatched, hlength.trans (Nat.le_succ _), hindex⟩

/-- The calls hold all topics in order, they are numbered, and the first and the last are marked. -/
theorem batchTopics_spec (charCount : Int32) {topics : List Bytes}
    (hsize : topics.length < 2 ^ 32) :
    batchTopics charCount topics ≠ [] ∧
      ((batchTopics charCount topics).map fun c => c.topics).flatten = topics ∧
      (batchTopics charCount topics).length ≤ max 1 topics.length ∧
      ∀ (i : ℕ) c, (batchTopics charCount topics)[i]? = some c →
        c.index = Int32.ofNat i ∧ (c.isFirst = true ↔ i = 0) ∧
        (c.isLast = true ↔ i + 1 = (batchTopics charCount topics).length) := by
  unfold batchTopics
  by_cases hempty : topics = []
  · subst hempty
    refine ⟨List.cons_ne_nil _ _, rfl, le_rfl, fun i c hc => ?_⟩
    cases i with
    | zero =>
      have hcall : _ = c := Option.some.inj hc
      rw [← hcall]
      exact ⟨rfl, iff_of_true rfl rfl, iff_of_true rfl rfl⟩
    | succ i => cases hc
  · simp only [if_neg (mt (int32_length_eq_zero hsize).mp hempty)]
    have hspec := batched_batchLoop charCount hsize topics [] 0 0 0 true hempty (Nat.zero_add _)
    have hzero : Int32.ofNat 0 = (0 : Int32) := rfl
    rw [hzero] at hspec
    obtain ⟨hbatched, hlength, hindex⟩ := hspec
    set calls := batchLoop charCount (Int32.ofNat topics.length) topics [] 0 0 0 true
    have hflat := hbatched.flatten
    rw [List.map_map] at hflat
    refine ⟨fun hnil => hbatched.ne_nil (List.map_eq_nil_iff.mpr hnil), hflat,
      hlength.trans (le_max_right 1 _), fun i c hc => ?_⟩
    obtain ⟨hfirst, hlast⟩ := hbatched.marks i c.toTopicBatch (by rw [List.getElem?_map, hc]; rfl)
    rw [List.length_map] at hlast
    refine ⟨by rw [hindex i c hc, Nat.zero_add], ?_, hlast⟩
    rw [hfirst]
    split_ifs with hi <;> simp [hi]

end DxlBroker
