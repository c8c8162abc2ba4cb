import DxlBroker.Mqtt.MessageQueue
import Mathlib.Data.List.Induction
import Mathlib.Data.List.Perm.Basic

/-!
# Runs of a queue

Whatever happens to a queue, each message that was inserted is there, or was sent without an
acknowledgement, or was acknowledged, and the counts are those of the messages.  With clients that only
answer what they got, no more messages are in flight than may be; and messages without an
acknowledgement are sent in the order in which they came.
-/

namespace DxlBroker

namespace ClientMessage

/-- What never changes of a message. -/
def content (m : ClientMessage) : ℕ × ℕ × ℕ × Bool × Bool :=
  (m.store, m.mid, m.qos, m.retain, m.clientMessage)

variable {m m' : ClientMessage} {now threshold : ℤ}

theorem qos_eq_of_content (h : m.content = m'.content) : m.qos = m'.qos :=
  congrArg (fun c : ℕ × ℕ × ℕ × Bool × Bool => c.2.2.1) h

theorem mid_eq_of_content (h : m.content = m'.content) : m.mid = m'.mid :=
  congrArg (fun c : ℕ × ℕ × ℕ × Bool × Bool => c.2.1) h

@[simp] theorem content_promote : (m.promote now).content = m.content := by
  unfold promote
  split <;> rfl

@[simp] theorem content_retry : (m.retry threshold now).content = m.content := by
  unfold retry
  split
  · split <;> rfl
  · rfl

@[simp] theorem content_reset : m.reset.content = m.content := by
  unfold reset
  split_ifs <;> rfl

/-- A message that needs no acknowledgement, or is in another state than one to be sent without. -/
def Sends (m : ClientMessage) : Prop := m.state = .publishQos0 → m.qos = 0

theorem publishState_eq_zero {qos : ℕ} (h : publishState qos = .publishQos0) : qos = 0 := by
  unfold publishState at h
  split at h
  · rfl
  · exact absurd h (by decide)
  · exact absurd h (by decide)

theorem Sends.promote (h : m.Sends) : (m.promote now).Sends := by
  unfold ClientMessage.promote
  split
  · exact publishState_eq_zero
  · exact h

theorem Sends.retry (h : m.Sends) : (m.retry threshold now).Sends := by
  unfold ClientMessage.retry
  split
  · split
    · exact nofun
    · exact nofun
    · exact nofun
    · exact h
  · exact h

theorem Sends.reset (h : m.Sends) : m.reset.Sends := by
  unfold ClientMessage.reset
  split_ifs
  · exact h
  · exact nofun
  · exact publishState_eq_zero

end ClientMessage

namespace MsgQueue

open ClientMessage

variable {limits : QueueLimits} {now threshold : ℤ} {q : MsgQueue} {msgs : List ClientMessage}
  {mid : Option ℕ} {index : ℕ} {deleted : Bool} {rcs : List ℕ}

/-! ### The loops -/

theorem perm_deleteLoop : (((deleteLoop limits now mid index deleted msgs).1 ++
    (deleteLoop limits now mid index deleted msgs).2).map content).Perm (msgs.map content) := by
  induction msgs generalizing index deleted with
  | nil => exact List.Perm.refl _
  | cons m msgs ih =>
    have hcontent : content (if index + 1 ≤ limits.maxInflight then m.promote now else m) =
        m.content := by
      split
      · exact content_promote
      · rfl
    unfold deleteLoop
    simp only
    generalize (if index + 1 ≤ limits.maxInflight then m.promote now else m) = m' at hcontent ⊢
    split_ifs
    · rw [List.map_append, List.map_singleton, hcontent]
      exact List.perm_append_singleton _ _
    · rw [List.map_append, List.map_cons, hcontent]
      refine List.perm_middle.trans (List.Perm.cons _ ?_)
      rw [← List.map_append]
      exact ih
    · rw [List.append_nil, List.map_cons, hcontent]
      exact List.Perm.refl _
    · rw [List.cons_append, List.map_cons, hcontent]
      exact List.Perm.cons _ ih

theorem mid_of_mem_deleteLoop {m : ClientMessage}
    (hm : m ∈ (deleteLoop limits now mid index deleted msgs).2) : mid = some m.mid := by
  induction msgs generalizing index deleted with
  | nil => cases hm
  | cons m' msgs ih =>
    unfold deleteLoop at hm
    simp only at hm
    split_ifs at hm with hpromote hmid hstop hstop hmid hstop hstop
    · rw [List.mem_singleton.mp hm]
      exact hmid
    · rcases List.mem_cons.mp hm with rfl | hm
      · exact hmid
      · exact ih hm
    · cases hm
    · exact ih hm
    · rw [List.mem_singleton.mp hm]
      exact hmid
    · rcases List.mem_cons.mp hm with rfl | hm
      · exact hmid
      · exact ih hm
    · cases hm
    · exact ih hm

theorem sends_deleteLoop (h : ∀ m ∈ msgs, m.Sends) :
    ∀ m ∈ (deleteLoop limits now mid index deleted msgs).1, m.Sends := by
  induction msgs generalizing index deleted with
  | nil => exact nofun
  | cons m msgs ih =>
    obtain ⟨hm, hmsgs⟩ := List.forall_mem_cons.mp h
    have hsends : (if index + 1 ≤ limits.maxInflight then m.promote now else m).Sends := by
      split
      · exact hm.promote
      · exact hm
    unfold deleteLoop
    simp only
    generalize (if index + 1 ≤ limits.maxInflight then m.promote now else m) = m' at hsends ⊢
    split_ifs
    · exact hmsgs
    · exact ih hmsgs
    · exact List.forall_mem_cons.mpr ⟨hsends, hmsgs⟩
    · exact List.forall_mem_cons.mpr ⟨hsends, ih hmsgs⟩

theorem content_updateFirst {mid : ℕ} {state : MsgState} :
    (updateFirst now mid state msgs).map content = msgs.map content := by
  induction msgs with
  | nil => rfl
  | cons m msgs ih =>
    unfold updateFirst
    split
    · rfl
    · rw [List.map_cons, List.map_cons, ih]

theorem sends_updateFirst {mid : ℕ} (h : ∀ m ∈ msgs, m.Sends) :
    ∀ m ∈ updateFirst now mid .waitForPubcomp msgs, m.Sends := by
  induction msgs with
  | nil => exact nofun
  | cons m msgs ih =>
    obtain ⟨hm, hmsgs⟩ := List.forall_mem_cons.mp h
    unfold updateFirst
    split
    · exact List.forall_mem_cons.mpr ⟨fun h => absurd h (by simp), hmsgs⟩
    · exact List.forall_mem_cons.mpr ⟨hm, ih hmsgs⟩

theorem content_resetFirst : (q.resetFirst limits).map content = q.msgs.map content := by
  have hpromote : (content ∘ fun m : ClientMessage => m.promote m.timestamp) = content :=
    funext fun _ => content_promote
  unfold resetFirst
  rw [List.map_append, List.map_map, hpromote, ← List.map_append, List.take_append_drop]

theorem sends_resetFirst (h : ∀ m ∈ q.msgs, m.Sends) : ∀ m ∈ q.resetFirst limits, m.Sends := by
  intro m hm
  rcases List.mem_append.mp hm with hm | hm
  · obtain ⟨m', hm', rfl⟩ := List.mem_map.mp hm
    exact (h m' (List.mem_of_mem_take hm')).promote
  · exact h m (List.mem_of_mem_drop hm)

theorem perm_writeLoop : (((writeLoop now msgs rcs).kept ++
    (writeLoop now msgs rcs).removed).map content).Perm (msgs.map content) := by
  induction msgs generalizing rcs with
  | nil => exact List.Perm.refl _
  | cons m msgs ih =>
    have hkeep : ∀ (m' : ClientMessage) (sent : List QueueSend) (rcs : List ℕ),
        m'.content = m.content →
        ((((writeLoop now msgs rcs).keep m' sent).kept ++
          ((writeLoop now msgs rcs).keep m' sent).removed).map content).Perm
          ((m :: msgs).map content) := by
      intro m' sent rcs hm'
      show ((m'.content :: ((writeLoop now msgs rcs).kept ++
        (writeLoop now msgs rcs).removed).map content)).Perm (m.content :: msgs.map content)
      rw [hm']
      exact List.Perm.cons _ ih
    have hstop : ((m :: msgs ++ []).map content).Perm ((m :: msgs).map content) := by
      rw [List.append_nil]
    unfold writeLoop
    simp only
    split
    · split_ifs
      · show (((writeLoop now msgs rcs.tail).kept ++ m ::
          (writeLoop now msgs rcs.tail).removed).map content).Perm (m.content :: msgs.map content)
        rw [List.map_append, List.map_cons]
        refine List.perm_middle.trans (List.Perm.cons _ ?_)
        rw [← List.map_append]
        exact ih
      · exact hstop
    · split_ifs
      · exact hkeep _ _ _ rfl
      · exact hstop
    · split_ifs
      · exact hkeep _ _ _ rfl
      · exact hstop
    · split_ifs
      · exact hkeep _ _ _ rfl
      · exact hstop
    · exact hkeep m [] rcs rfl

/-- What is removed was sent. -/
theorem sent_of_mem_writeLoop {m : ClientMessage} (hm : m ∈ (writeLoop now msgs rcs).removed) :
    m ∈ msgs ∧ m.state = .publishQos0 ∧ .publish m ∈ (writeLoop now msgs rcs).sent := by
  induction msgs generalizing rcs with
  | nil => cases hm
  | cons m' msgs ih =>
    have hrest : ∀ (sent : List QueueSend) (rcs : List ℕ), m ∈ (writeLoop now msgs rcs).removed →
        m ∈ m' :: msgs ∧ m.state = .publishQos0 ∧
          QueueSend.publish m ∈ sent ++ (writeLoop now msgs rcs).sent := by
      intro sent rcs hm
      obtain ⟨hmem, hstate, hsent⟩ := ih hm
      exact ⟨List.mem_cons_of_mem m' hmem, hstate, List.mem_append_right sent hsent⟩
    unfold writeLoop at hm ⊢
    simp only at hm ⊢
    split at hm
    · rename_i hstate
      split_ifs at hm ⊢
      · rcases List.mem_cons.mp hm with rfl | hm
        · exact ⟨List.mem_cons_self, hstate, List.mem_cons_self⟩
        · exact hrest [.publish m'] _ hm
      · cases hm
    · split_ifs at hm ⊢
      · exact hrest _ _ hm
      · cases hm
    · split_ifs at hm ⊢
      · exact hrest _ _ hm
      · cases hm
    · split_ifs at hm ⊢
      · exact hrest _ _ hm
      · cases hm
    · exact hrest [] _ hm

theorem sends_writeLoop (h : ∀ m ∈ msgs, m.Sends) :
    ∀ m ∈ (writeLoop now msgs rcs).kept, m.Sends := by
  induction msgs generalizing rcs with
  | nil => exact nofun
  | cons m msgs ih =>
    obtain ⟨hm, hmsgs⟩ := List.forall_mem_cons.mp h
    unfold writeLoop
    simp only
    split
    · split_ifs
      · exact ih hmsgs
      · exact h
    · split_ifs
      · exact List.forall_mem_cons.mpr ⟨nofun, ih hmsgs⟩
      · exact h
    · split_ifs
      · exact List.forall_mem_cons.mpr ⟨nofun, ih hmsgs⟩
      · exact h
    · split_ifs
      · exact List.forall_mem_cons.mpr ⟨nofun, ih hmsgs⟩
      · exact h
    · exact List.forall_mem_cons.mpr ⟨hm, ih hmsgs⟩

/-! ### Inserting -/

/-- A message as it is inserted. -/
structure Fresh (limits : QueueLimits) (conn : InsertConn) (qos store : ℕ) (q : MsgQueue)
    (m : ClientMessage) : Prop where
  qos_eq : m.qos = qos
  store_eq : m.store = store
  mid_zero : m.mid = 0 ↔ m.qos = 0
  state : ∃ rc, q.insertState limits conn.invalid qos = some (m.state, rc)
  online : conn.invalid = true → qos = 0 → limits.queueQos0Messages = true ∨ conn.lazyBridge = true

theorem midGenerate_ne_zero : q.midGenerate.1 ≠ 0 := by
  unfold midGenerate
  simp only
  split_ifs with h
  · exact Nat.one_ne_zero
  · exact h

/-- An insert adds a message, or nothing. -/
theorem subsInsert_cases (limits : QueueLimits) (now : ℤ) (q : MsgQueue) (conn : InsertConn)
    (qos : ℕ) (retain : Bool) (store : ℕ) : ∃ lastMid,
      (∃ dropping, (q.subsInsert limits now conn qos retain store).2 =
        ({ q with lastMid := lastMid, isDropping := dropping }, none)) ∨
      ∃ m, (q.subsInsert limits now conn qos retain store).2 =
          (push m { q with lastMid := lastMid }, some m) ∧ Fresh limits conn qos store q m := by
  have hinsert : ∀ (mid lastMid : ℕ), (mid = 0 ↔ qos = 0) →
      (∃ dropping, (messageInsert limits now conn mid qos retain store
        { q with lastMid := lastMid }).2 =
        ({ q with lastMid := lastMid, isDropping := dropping }, none)) ∨
      ∃ m, (messageInsert limits now conn mid qos retain store { q with lastMid := lastMid }).2 =
          (push m { q with lastMid := lastMid }, some m) ∧ Fresh limits conn qos store q m := by
    intro mid lastMid hmid
    unfold messageInsert
    have hstate : insertState limits { q with lastMid := lastMid } conn.invalid qos =
        q.insertState limits conn.invalid qos := rfl
    rw [hstate]
    split_ifs with hoffline hfull
    · exact .inl ⟨q.isDropping, rfl⟩
    · exact .inl ⟨q.isDropping, rfl⟩
    · cases hs : q.insertState limits conn.invalid qos with
      | none => exact .inl ⟨true, rfl⟩
      | some res =>
        cases honInsert : conn.onInsert with
        | none => exact .inl ⟨q.isDropping, rfl⟩
        | some clientMessage =>
          refine .inr ⟨_, rfl, rfl, rfl, hmid, ⟨res.2, hs⟩, fun hinvalid hqos => ?_⟩
          simp only [hinvalid, hqos, beq_self_eq_true, Bool.true_and, Bool.and_eq_true,
            Bool.not_eq_true', not_and, Bool.not_eq_false] at hoffline
          cases hqueue : limits.queueQos0Messages with
          | true => exact .inl rfl
          | false => exact .inr (hoffline hqueue)
  unfold subsInsert
  split_ifs with hqos
  · exact ⟨q.lastMid, hinsert 0 q.lastMid (by simp [hqos])⟩
  · exact ⟨_, hinsert _ _ (by simp [hqos, midGenerate_ne_zero])⟩

/-! ### A step -/

section

variable {op : Op}

/-- Only a delivery inserts. -/
theorem inserted_step {m : ClientMessage} (hm : m ∈ (q.step limits now op).inserted) :
    ∃ conn qos retain store, op = .deliver conn qos retain store ∧ Fresh limits conn qos store q m := by
  cases op with
  | deliver conn qos retain store =>
    obtain ⟨lastMid, ⟨dropping, hres⟩ | ⟨m', hres, hfresh⟩⟩ :=
      subsInsert_cases limits now q conn qos retain store
    · simp only [step, hres, Option.toList_none, List.not_mem_nil] at hm
    · simp only [step, hres, Option.toList_some, List.mem_singleton] at hm
      rw [hm]
      exact ⟨conn, qos, retain, store, rfl, hfresh⟩
  | pubackcomp mid =>
    simp only [step] at hm
    split_ifs at hm <;> cases hm
  | pubrec mid => cases hm
  | pubrel => cases hm
  | write rcs => cases hm
  | timeout threshold => cases hm
  | reconnect => cases hm
  | clear => cases hm

/-- The messages that leave a queue are those that were there or came, and are not there any more. -/
theorem perm_step : (((q.step limits now op).queue.msgs ++
    (q.step limits now op).released).map content).Perm
      ((q.msgs ++ (q.step limits now op).inserted).map content) := by
  have hsame : ∀ {msgs : List ClientMessage}, msgs.map content = q.msgs.map content →
      ((msgs ++ []).map content).Perm ((q.msgs ++ []).map content) := by
    intro msgs h
    rw [List.append_nil, List.append_nil, h]
  cases op with
  | deliver conn qos retain store =>
    obtain ⟨lastMid, ⟨dropping, hres⟩ | ⟨m, hres, -⟩⟩ :=
      subsInsert_cases limits now q conn qos retain store
    · simp only [step, hres]
      exact hsame rfl
    · simp only [step, hres, push, List.append_nil, Option.toList_some]
      exact List.Perm.refl _
  | pubackcomp mid =>
    simp only [step]
    split_ifs
    · exact hsame rfl
    · rw [List.append_nil]
      exact perm_deleteLoop
  | pubrec mid =>
    simp only [step, messageUpdate]
    split
    · exact hsame content_updateFirst
    · exact hsame rfl
  | pubrel =>
    have hperm := @perm_deleteLoop limits now q.msgs none 0 false
    have hnone : (deleteLoop limits now none 0 false q.msgs).2 = [] :=
      List.eq_nil_iff_forall_not_mem.mpr fun m hm => absurd (mid_of_mem_deleteLoop hm) nofun
    rw [hnone] at hperm
    simp only [step, messageRelease, List.append_nil] at hperm ⊢
    exact hperm
  | write rcs =>
    simp only [step, messageWrite, without]
    rw [List.append_nil]
    exact perm_writeLoop
  | timeout threshold =>
    refine hsame ?_
    simp [step, timeoutCheck, Function.comp_def]
  | reconnect =>
    refine hsame ?_
    simp [step, reconnectReset, content_resetFirst, Function.comp_def]
  | clear =>
    simp only [step, messagesDelete, List.nil_append, List.append_nil]
    exact List.Perm.refl _

/-- The counts are those of the messages. -/
structure Counted (q : MsgQueue) : Prop where
  msgCount : q.msgCount = q.msgs.length
  msgCount12 : q.msgCount12 = q.msgs.countP acked

theorem countP_acked_of_perm {l l' : List ClientMessage} (h : (l.map content).Perm (l'.map content)) :
    l.countP acked = l'.countP acked := by
  have hcount := h.countP_eq fun c => decide (0 < c.2.2.1)
  rw [List.countP_map, List.countP_map] at hcount
  exact hcount

theorem length_of_perm {l l' : List ClientMessage} (h : (l.map content).Perm (l'.map content)) :
    l.length = l'.length := by
  have hlength := h.length_eq
  rwa [List.length_map, List.length_map] at hlength

theorem Counted.congr {q' : MsgQueue} (h : q.Counted) (hmsgs : q'.msgs.map content = q.msgs.map content)
    (hcount : q'.msgCount = q.msgCount) (hcount12 : q'.msgCount12 = q.msgCount12) : q'.Counted := by
  have hperm : (q'.msgs.map content).Perm (q.msgs.map content) := hmsgs ▸ List.Perm.refl _
  constructor
  · rw [hcount, h.msgCount, length_of_perm hperm]
  · rw [hcount12, h.msgCount12, countP_acked_of_perm hperm]

theorem Counted.push (h : q.Counted) (m : ClientMessage) : (q.push m).Counted := by
  have hcount := h.msgCount
  have hcount12 := h.msgCount12
  unfold MsgQueue.push
  constructor
  · simp [hcount]
  · simp only [List.countP_append, List.countP_singleton, acked, decide_eq_true_eq]
    split <;> simp [hcount12]

theorem Counted.without (h : q.Counted) {kept removed : List ClientMessage}
    (hperm : ((kept ++ removed).map content).Perm (q.msgs.map content)) :
    (q.without kept removed).Counted := by
  have hlength := length_of_perm hperm
  have hcountP := countP_acked_of_perm hperm
  rw [List.length_append] at hlength
  rw [List.countP_append] at hcountP
  constructor
  · simp only [MsgQueue.without, h.msgCount]
    omega
  · simp only [MsgQueue.without, h.msgCount12]
    omega

theorem counted_step (h : q.Counted) : (q.step limits now op).queue.Counted := by
  cases op with
  | deliver conn qos retain store =>
    obtain ⟨lastMid, ⟨dropping, hres⟩ | ⟨m, hres, -⟩⟩ :=
      subsInsert_cases limits now q conn qos retain store
    · simp only [step, hres]
      exact h.congr rfl rfl rfl
    · simp only [step, hres]
      exact (h.congr rfl rfl rfl : Counted { q with lastMid := lastMid }).push m
  | pubackcomp mid =>
    simp only [step]
    split_ifs
    · exact h
    · exact h.without perm_deleteLoop
  | pubrec mid =>
    simp only [step, messageUpdate]
    split
    · exact h.congr content_updateFirst rfl rfl
    · exact h
  | pubrel =>
    have hperm := @perm_step limits now q .pubrel
    simp only [step, messageRelease, List.append_nil] at hperm ⊢
    exact ⟨by rw [h.msgCount, ← length_of_perm hperm],
      by rw [h.msgCount12, ← countP_acked_of_perm hperm]⟩
  | write rcs => exact h.without perm_writeLoop
  | timeout threshold => exact h.congr (by simp [step, timeoutCheck, Function.comp_def]) rfl rfl
  | reconnect =>
    have hcontent : (q.step limits now .reconnect).queue.msgs.map content = q.msgs.map content := by
      simp [step, reconnectReset, content_resetFirst, Function.comp_def]
    have hperm : (q.msgs.map content).Perm
        ((q.step limits now .reconnect).queue.msgs.map content) := by rw [hcontent]
    exact ⟨congrArg Nat.cast (length_of_perm hperm), congrArg Nat.cast (countP_acked_of_perm hperm)⟩
  | clear => exact ⟨rfl, rfl⟩

theorem sends_step (hmsgs : ∀ m ∈ q.msgs, m.Sends) :
    ∀ m ∈ (q.step limits now op).queue.msgs, m.Sends := by
  cases op with
  | deliver conn qos retain store =>
    obtain ⟨lastMid, ⟨dropping, hres⟩ | ⟨m, hres, hfresh⟩⟩ :=
      subsInsert_cases limits now q conn qos retain store
    · simp only [step, hres]
      exact hmsgs
    · simp only [step, hres]
      intro m' hm'
      rcases List.mem_append.mp hm' with hm' | hm'
      · exact hmsgs m' hm'
      · rw [List.mem_singleton.mp hm']
        intro hstate
        obtain ⟨rc, hrc⟩ := hfresh.state
        rw [hfresh.qos_eq]
        unfold insertState at hrc
        rw [hstate] at hrc
        split_ifs at hrc
        all_goals first | cases hrc | skip
        exact publishState_eq_zero (congrArg Prod.fst (Option.some.inj hrc))
  | pubackcomp mid =>
    simp only [step]
    split_ifs
    · exact hmsgs
    · exact sends_deleteLoop hmsgs
  | pubrec mid =>
    simp only [step, messageUpdate]
    split
    · exact sends_updateFirst hmsgs
    · exact hmsgs
  | pubrel => exact sends_deleteLoop hmsgs
  | write rcs => exact sends_writeLoop hmsgs
  | timeout threshold => exact List.forall_mem_map.mpr fun m hm => (hmsgs m hm).retry
  | reconnect =>
    exact sends_resetFirst (List.forall_mem_map.mpr fun m hm => (hmsgs m hm).reset)
  | clear => exact nofun

theorem mem_content_of_perm {l l' : List ClientMessage} (h : (l.map content).Perm (l'.map content))
    {m : ClientMessage} (hm : m ∈ l) : ∃ m' ∈ l', m'.content = m.content :=
  List.mem_map.mp (h.mem_iff.mp (List.mem_map_of_mem hm))

/-- Only messages with an acknowledgement have an identifier. -/
theorem mid_step (hmid : ∀ m ∈ q.msgs, m.mid = 0 ↔ m.qos = 0) :
    ∀ m ∈ (q.step limits now op).queue.msgs ++ (q.step limits now op).released,
      m.mid = 0 ↔ m.qos = 0 := by
  intro m hm
  obtain ⟨m', hm', hcontent⟩ := mem_content_of_perm perm_step hm
  rw [← mid_eq_of_content hcontent, ← qos_eq_of_content hcontent]
  rcases List.mem_append.mp hm' with hm' | hm'
  · exact hmid m' hm'
  · obtain ⟨_, _, _, _, _, hfresh⟩ := inserted_step hm'
    exact hfresh.mid_zero

/-- The messages with an acknowledgement are bounded. -/
def Bounded (limits : QueueLimits) (q : MsgQueue) : Prop :=
  0 < limits.maxInflight → 0 < limits.maxQueued →
    q.msgs.countP acked ≤ limits.maxInflight + limits.maxQueued

theorem bounded_step (hcounted : q.Counted) (h : Bounded limits q) :
    Bounded limits (q.step limits now op).queue := by
  intro hinflight hqueued
  have hbound := h hinflight hqueued
  have hcount := countP_acked_of_perm (@perm_step limits now q op)
  rw [List.countP_append, List.countP_append] at hcount
  by_cases hnone : (q.step limits now op).inserted.countP acked = 0
  · omega
  · obtain ⟨m, hm, hacked⟩ := List.countP_pos_iff.mp (Nat.pos_of_ne_zero hnone)
    obtain ⟨conn, qos, retain, store, rfl, hfresh⟩ := inserted_step hm
    -- with an acknowledgement it needs a place
    have hone : (q.step limits now (.deliver conn qos retain store)).inserted.countP acked ≤ 1 := by
      refine List.countP_le_length.trans ?_
      simp only [step]
      cases (q.subsInsert limits now conn qos retain store).2.2 <;> simp
    obtain ⟨rc, hstate⟩ := hfresh.state
    have hcount12 := hcounted.msgCount12
    have hqos : qos ≠ 0 := by
      rw [← hfresh.qos_eq]
      exact Nat.ne_of_gt (of_decide_eq_true hacked)
    unfold insertState at hstate
    split_ifs at hstate <;> omega

end

/-! ### The window -/

/-- Before a message in flight there are fewer messages with an acknowledgement than may be in flight,
those that are counted included. -/
def Windowed (max : ℕ) : ℕ → List ClientMessage → Prop
  | _, [] => True
  | n, m :: msgs =>
      (m.inFlight = true → n < max) ∧ Windowed max (n + if m.acked then 1 else 0) msgs

variable {max n n' : ℕ}

theorem Windowed.mono (h : Windowed max n' msgs) (hle : n ≤ n') : Windowed max n msgs := by
  induction msgs generalizing n n' with
  | nil => trivial
  | cons m msgs ih => exact ⟨fun hm => hle.trans_lt (h.1 hm), ih h.2 (by omega)⟩

theorem Windowed.tail {m : ClientMessage} (h : Windowed max n (m :: msgs)) : Windowed max n msgs :=
  h.2.mono (Nat.le_add_right _ _)

theorem acked_of_content {m m' : ClientMessage} (h : m'.content = m.content) : m'.acked = m.acked := by
  unfold acked
  rw [qos_eq_of_content h]

/-- A message changes, but not to one in flight. -/
theorem Windowed.change {m m' : ClientMessage} (h : Windowed max n (m :: msgs))
    (hcontent : m'.content = m.content) (hflight : m'.inFlight = true → m.inFlight = true ∨ n < max)
    {msgs' : List ClientMessage}
    (hmsgs : Windowed max (n + if m.acked then 1 else 0) msgs') : Windowed max n (m' :: msgs') := by
  refine ⟨fun hm' => (hflight hm').elim h.1 id, ?_⟩
  rw [acked_of_content hcontent]
  exact hmsgs

theorem Windowed.countP_le (h : Windowed max n msgs) (hle : n ≤ max) :
    n + msgs.countP inFlight ≤ max := by
  induction msgs generalizing n with
  | nil => exact hle
  | cons m msgs ih =>
    rw [List.countP_cons]
    split_ifs with hm
    · have hacked : m.acked = true := by
        unfold inFlight at hm
        exact (Bool.and_eq_true_iff.mp hm).1
      have hrest := h.2
      rw [if_pos hacked] at hrest
      have := ih hrest (h.1 hm)
      omega
    · exact ih h.tail hle

theorem Windowed.append {m : ClientMessage} (h : Windowed max n msgs)
    (hm : m.inFlight = true → n + msgs.countP acked < max) : Windowed max n (msgs ++ [m]) := by
  induction msgs generalizing n with
  | nil => exact ⟨fun hflight => hm hflight, trivial⟩
  | cons m' msgs ih =>
    refine ⟨h.1, ih h.2 fun hflight => ?_⟩
    have := hm hflight
    rw [List.countP_cons] at this
    omega

theorem Windowed.map {f : ClientMessage → ClientMessage} (h : Windowed max n msgs)
    (hcontent : ∀ m, (f m).content = m.content)
    (hflight : ∀ m, (f m).inFlight = true → m.inFlight = true) : Windowed max n (msgs.map f) := by
  induction msgs generalizing n with
  | nil => trivial
  | cons m msgs ih => exact h.change (hcontent m) (fun hm => .inl (hflight m hm)) (ih h.2)

theorem inFlight_retry {m : ClientMessage} (h : (m.retry threshold now).inFlight = true) :
    m.inFlight = true := by
  unfold retry at h
  split at h
  · split at h
    all_goals first | exact h | skip
    all_goals
      rename_i hstate
      unfold inFlight at h ⊢
      rw [hstate]
      exact h
  · exact h

theorem inFlight_reset {m : ClientMessage} (h : m.reset.inFlight = true) : m.inFlight = true := by
  have hacked : m.acked = true := by
    rw [← acked_of_content content_reset]
    exact (Bool.and_eq_true_iff.mp h).1
  unfold inFlight
  rw [hacked, Bool.true_and, bne_iff_ne]
  intro hqueued
  unfold reset at h
  rw [if_pos hqueued] at h
  unfold inFlight at h
  rw [hqueued] at h
  simp at h

/-- Only the messages of the window move up. -/
theorem windowed_deleteLoop (h : Windowed limits.maxInflight n msgs) (hle : n ≤ index) :
    Windowed limits.maxInflight n (deleteLoop limits now mid index deleted msgs).1 := by
  induction msgs generalizing n index deleted with
  | nil => trivial
  | cons m msgs ih =>
    have hcontent : content (if index + 1 ≤ limits.maxInflight then m.promote now else m) =
        m.content := by
      split
      · exact content_promote
      · rfl
    have hflight : (if index + 1 ≤ limits.maxInflight then m.promote now else m).inFlight = true →
        m.inFlight = true ∨ n < limits.maxInflight := by
      split_ifs
      · exact fun _ => .inr (by omega)
      · exact .inl
    unfold deleteLoop
    simp only
    generalize (if index + 1 ≤ limits.maxInflight then m.promote now else m) = m' at hcontent hflight ⊢
    split_ifs
    · exact h.tail
    · exact ih h.tail hle
    · exact h.change hcontent hflight h.2
    · exact h.change hcontent hflight (ih h.2 (by split <;> omega))

theorem windowed_resetFirst {count : ℕ} (h : Windowed max n msgs) (hle : n + count ≤ max) :
    Windowed max n
      ((msgs.take count).map (fun m => m.promote m.timestamp) ++ msgs.drop count) := by
  induction msgs generalizing n count with
  | nil =>
    rw [List.take_nil, List.drop_nil]
    trivial
  | cons m msgs ih =>
    cases count with
    | zero => exact h
    | succ count =>
      exact h.change content_promote (fun _ => .inr (by omega)) (ih h.2 (by split <;> omega))

theorem windowed_updateFirst {mid : ℕ} {state : MsgState} (h : Windowed max n msgs)
    (hmid : ∀ m ∈ msgs, m.mid = mid → m.state ≠ .queued) :
    Windowed max n (updateFirst now mid state msgs) := by
  induction msgs generalizing n with
  | nil => trivial
  | cons m msgs ih =>
    obtain ⟨hm, hmsgs⟩ := List.forall_mem_cons.mp hmid
    unfold updateFirst
    split_ifs with heq
    · refine h.change ?_ (fun hflight => .inl ?_) h.2
      · rfl
      unfold inFlight at hflight ⊢
      exact Bool.and_eq_true_iff.mpr
        ⟨(Bool.and_eq_true_iff.mp hflight).1, bne_iff_ne.mpr (hm heq)⟩
    · exact h.change rfl .inl (ih h.2 hmsgs)

theorem windowed_writeLoop (h : Windowed max n msgs) :
    Windowed max n (writeLoop now msgs rcs).kept := by
  induction msgs generalizing n rcs with
  | nil => trivial
  | cons m msgs ih =>
    have hsent : ∀ {m' : ClientMessage}, m'.content = m.content → m.state ≠ .queued →
        Windowed max n (m' :: (writeLoop now msgs rcs.tail).kept) := by
      intro m' hcontent hstate
      refine h.change hcontent (fun hflight => .inl ?_) (ih h.2)
      have hacked := (Bool.and_eq_true_iff.mp hflight).1
      rw [acked_of_content hcontent] at hacked
      exact Bool.and_eq_true_iff.mpr ⟨hacked, bne_iff_ne.mpr hstate⟩
    unfold writeLoop
    simp only
    split
    · split_ifs
      · exact ih h.tail
      · exact h
    · rename_i hstate
      split_ifs
      · exact hsent rfl (by simp [hstate])
      · exact h
    · rename_i hstate
      split_ifs
      · exact hsent rfl (by simp [hstate])
      · exact h
    · rename_i hstate
      split_ifs
      · exact hsent rfl (by simp [hstate])
      · exact h
    · exact h.change rfl .inl (ih h.2)

/-- A PUBREC answers a message that was sent. -/
def Answers (q : MsgQueue) : Op → Prop
  | .pubrec mid => ∀ m ∈ q.msgs, m.mid = mid → m.state ≠ .queued
  | _ => True

theorem windowed_step {op : Op} (hpos : 0 < limits.maxInflight) (hcounted : q.Counted)
    (hop : q.Answers op) (h : Windowed limits.maxInflight 0 q.msgs) :
    Windowed limits.maxInflight 0 (q.step limits now op).queue.msgs := by
  cases op with
  | deliver conn qos retain store =>
    obtain ⟨lastMid, ⟨dropping, hres⟩ | ⟨m, hres, hfresh⟩⟩ :=
      subsInsert_cases limits now q conn qos retain store
    · simp only [step, hres]
      exact h
    · simp only [step, hres, push]
      refine h.append fun hflight => ?_
      obtain ⟨rc, hstate⟩ := hfresh.state
      obtain ⟨hacked, hqueued⟩ := Bool.and_eq_true_iff.mp hflight
      rw [bne_iff_ne] at hqueued
      have hqos : qos ≠ 0 := by
        rw [← hfresh.qos_eq]
        exact Nat.ne_of_gt (of_decide_eq_true hacked)
      have hcount := hcounted.msgCount12
      unfold insertState at hstate
      split_ifs at hstate
      · exact absurd (congrArg Prod.fst (Option.some.inj hstate)).symm hqueued
      · omega
      · exact absurd (congrArg Prod.fst (Option.some.inj hstate)).symm hqueued
  | pubackcomp mid =>
    simp only [step]
    split_ifs
    · exact h
    · exact windowed_deleteLoop h (Nat.le_refl 0)
  | pubrec mid =>
    simp only [step, messageUpdate]
    split
    · exact windowed_updateFirst h hop
    · exact h
  | pubrel => exact windowed_deleteLoop h (Nat.le_refl 0)
  | write rcs => exact windowed_writeLoop h
  | timeout threshold => exact h.map (fun _ => content_retry) fun _ => inFlight_retry
  | reconnect =>
    have hreset := h.map (fun _ => content_reset) fun _ => inFlight_reset
    simp only [step, reconnectReset, resetFirst, if_neg hpos.ne']
    exact windowed_resetFirst hreset (by omega)
  | clear => trivial

/-! ### Messages without an acknowledgement -/

/-- The messages that need no acknowledgement. -/
def unacked (msgs : List ClientMessage) : List ClientMessage := msgs.filter fun m => !m.acked

/-- The messages without an acknowledgement that were sent. -/
def sentUnacked (sent : List QueueSend) : List ClientMessage :=
  sent.filterMap fun
    | .publish m => if m.acked then none else some m
    | .pubrel _ => none

@[simp] theorem unacked_append (l l' : List ClientMessage) : unacked (l ++ l') = unacked l ++ unacked l' :=
  List.filter_append ..

@[simp] theorem sentUnacked_append (sent sent' : List QueueSend) :
    sentUnacked (sent ++ sent') = sentUnacked sent ++ sentUnacked sent' := List.filterMap_append ..

theorem unacked_cons (m : ClientMessage) (msgs : List ClientMessage) :
    unacked (m :: msgs) = if m.acked then unacked msgs else m :: unacked msgs := by
  unfold unacked
  cases hm : m.acked with
  | true => simp [hm]
  | false => simp [hm]

theorem mem_unacked {m : ClientMessage} : m ∈ unacked msgs ↔ m ∈ msgs ∧ m.acked = false := by
  simp [unacked]

theorem acked_eq_false {m : ClientMessage} : m.acked = false ↔ m.qos = 0 := by
  simp [acked]

/-- They are all ready to be sent. -/
def Ready (msgs : List ClientMessage) : Prop := ∀ m ∈ msgs, m.acked = false → m.state = .publishQos0

/-- A change that keeps the messages that are ready. -/
theorem unacked_map {f : ClientMessage → ClientMessage} (h : Ready msgs)
    (hcontent : ∀ m, (f m).content = m.content)
    (hf : ∀ m, m.acked = false → m.state = .publishQos0 → f m = m) :
    unacked (msgs.map f) = unacked msgs := by
  induction msgs with
  | nil => rfl
  | cons m msgs ih =>
    obtain ⟨hm, hmsgs⟩ := List.forall_mem_cons.mp h
    rw [List.map_cons, unacked_cons, unacked_cons, ih hmsgs, acked_of_content (hcontent m)]
    split_ifs with hacked
    · rfl
    · rw [Bool.not_eq_true] at hacked
      rw [hf m hacked (hm hacked)]

theorem promote_of_ready {m : ClientMessage} (h : m.state = .publishQos0) : m.promote now = m := by
  unfold promote
  rw [h, if_neg (by decide)]

theorem retry_of_ready {m : ClientMessage} (h : m.state = .publishQos0) : m.retry threshold now = m := by
  unfold retry
  simp [h]

theorem reset_of_ready {m : ClientMessage} (hacked : m.acked = false) (h : m.state = .publishQos0) :
    m.reset = m := by
  have hstate : publishState m.qos = m.state := by
    rw [acked_eq_false.mp hacked, h]
    rfl
  unfold reset
  rw [if_neg (by simp [h]), if_neg (by simp [h]), hstate]

theorem unacked_deleteLoop (h : Ready msgs) (hmid : ∀ m ∈ msgs, mid = some m.mid → m.acked = true) :
    unacked (deleteLoop limits now mid index deleted msgs).1 = unacked msgs := by
  induction msgs generalizing index deleted with
  | nil => rfl
  | cons m msgs ih =>
    obtain ⟨hm, hready⟩ := List.forall_mem_cons.mp h
    obtain ⟨hmidm, hmids⟩ := List.forall_mem_cons.mp hmid
    have hcons : ∀ msgs' : List ClientMessage, unacked msgs' = unacked msgs →
        unacked ((if index + 1 ≤ limits.maxInflight then m.promote now else m) :: msgs') =
          unacked (m :: msgs) := by
      intro msgs' heq
      rw [unacked_cons, unacked_cons, heq]
      cases hacked : m.acked with
      | true =>
        have : (if index + 1 ≤ limits.maxInflight then m.promote now else m).acked = true := by
          split
          · rw [acked_of_content content_promote, hacked]
          · exact hacked
        rw [if_pos this, if_pos rfl]
      | false =>
        have : (if index + 1 ≤ limits.maxInflight then m.promote now else m) = m := by
          rw [promote_of_ready (hm hacked), ite_self]
        rw [this, hacked]
    have hsame : (if index + 1 ≤ limits.maxInflight then m.promote now else m).mid = m.mid := by
      split
      · exact mid_eq_of_content content_promote
      · rfl
    have hdrop : mid = some m.mid → unacked msgs = unacked (m :: msgs) := by
      intro heq
      rw [unacked_cons, if_pos (hmidm heq)]
    unfold deleteLoop
    simp only
    generalize (if index + 1 ≤ limits.maxInflight then m.promote now else m) = m' at hcons hsame ⊢
    rw [hsame]
    split_ifs with heq
    · exact hdrop heq
    · exact (ih hready hmids).trans (hdrop heq)
    · exact hcons msgs rfl
    · exact hcons _ (ih hready hmids)

theorem unacked_updateFirst {mid : ℕ} {state : MsgState}
    (hmid : ∀ m ∈ msgs, m.mid = mid → m.acked = true) :
    unacked (updateFirst now mid state msgs) = unacked msgs := by
  induction msgs with
  | nil => rfl
  | cons m msgs ih =>
    obtain ⟨hmidm, hmids⟩ := List.forall_mem_cons.mp hmid
    unfold updateFirst
    split_ifs with heq
    · have hacked := hmidm heq
      rw [unacked_cons, unacked_cons, if_pos hacked, if_pos (by exact hacked)]
    · rw [unacked_cons, unacked_cons, ih hmids]

theorem unacked_resetFirst (h : Ready q.msgs) : unacked (q.resetFirst limits) = unacked q.msgs := by
  unfold resetFirst
  rw [unacked_append, unacked_map (fun m hm => h m (List.mem_of_mem_take hm)) (fun _ => content_promote)
    (fun m _ hstate => promote_of_ready hstate), ← unacked_append, List.take_append_drop]

/-- What is written are the first of the messages that are ready. -/
theorem unacked_writeLoop (h : Ready msgs) (hsends : ∀ m ∈ msgs, m.Sends) :
    sentUnacked (writeLoop now msgs rcs).sent ++ unacked (writeLoop now msgs rcs).kept =
      unacked msgs := by
  induction msgs generalizing rcs with
  | nil => rfl
  | cons m msgs ih =>
    obtain ⟨hm, hready⟩ := List.forall_mem_cons.mp h
    obtain ⟨hsend, hsends⟩ := List.forall_mem_cons.mp hsends
    have hacked : m.state ≠ .publishQos0 → m.acked = true := fun hne =>
      Bool.not_eq_false _ ▸ fun hacked => hne (hm hacked)
    have hkeep : ∀ (m' : ClientMessage) (sent : List QueueSend) (rcs : List ℕ), m.acked = true →
        m'.acked = m.acked → sentUnacked sent = [] →
        sentUnacked (sent ++ (writeLoop now msgs rcs).sent) ++
          unacked (m' :: (writeLoop now msgs rcs).kept) = unacked (m :: msgs) := by
      intro m' sent rcs hacked hsame hsent
      rw [sentUnacked_append, hsent, List.nil_append, unacked_cons, hsame, if_pos hacked, ih hready hsends,
        unacked_cons, if_pos hacked]
    unfold writeLoop
    simp only
    split
    · rename_i hstate
      have hfalse : m.acked = false := acked_eq_false.mpr (hsend hstate)
      split_ifs
      · show sentUnacked ([.publish m] ++ (writeLoop now msgs rcs.tail).sent) ++
          unacked (writeLoop now msgs rcs.tail).kept = _
        have hone : sentUnacked [.publish m] = [m] := by simp [sentUnacked, hfalse]
        rw [sentUnacked_append, hone, List.append_assoc, ih hready hsends, unacked_cons, hfalse]
        rfl
      · rfl
    · rename_i hstate
      have htrue := hacked (by simp [hstate])
      split_ifs
      · exact hkeep _ _ _ htrue rfl (by simp [sentUnacked, htrue])
      · rfl
    · rename_i hstate
      have htrue := hacked (by simp [hstate])
      split_ifs
      · exact hkeep _ _ _ htrue rfl (by simp [sentUnacked, htrue])
      · rfl
    · rename_i hstate
      have htrue := hacked (by simp [hstate])
      split_ifs
      · exact hkeep _ _ _ htrue rfl rfl
      · rfl
    · rename_i hstate _ _ _
      exact hkeep m [] rcs (hacked hstate) rfl rfl

/-- The session goes on, no PUBREC is without an identifier, and there are no bridges that connect only
for messages. -/
def Plain : Op → Prop
  | .deliver conn _ _ _ => conn.lazyBridge = false
  | .pubrec mid => mid ≠ 0
  | .clear => False
  | _ => True

theorem acked_of_mid (hmid : ∀ m ∈ q.msgs, m.mid = 0 ↔ m.qos = 0) {mid : ℕ} (hne : mid ≠ 0) :
    ∀ m ∈ q.msgs, m.mid = mid → m.acked = true := by
  intro m hm heq
  rw [← Bool.not_eq_false, acked_eq_false, ← hmid m hm, heq]
  exact hne

theorem unacked_step {op : Op} (hop : Plain op) (hmid : ∀ m ∈ q.msgs, m.mid = 0 ↔ m.qos = 0)
    (hsends : ∀ m ∈ q.msgs, m.Sends) (hready : Ready q.msgs) :
    sentUnacked (q.step limits now op).sent ++ unacked (q.step limits now op).queue.msgs =
      unacked q.msgs ++ unacked (q.step limits now op).inserted := by
  cases op with
  | deliver conn qos retain store =>
    obtain ⟨lastMid, ⟨dropping, hres⟩ | ⟨m, hres, -⟩⟩ :=
      subsInsert_cases limits now q conn qos retain store
    · simp only [step, hres]
      exact (List.append_nil _).symm
    · simp only [step, hres, push, unacked_append]
      rfl
  | pubackcomp mid =>
    simp only [step]
    split_ifs with hzero
    · exact (List.append_nil _).symm
    · refine Eq.trans ?_ (List.append_nil _).symm
      exact unacked_deleteLoop hready fun m hm heq =>
        acked_of_mid hmid hzero m hm (Option.some.inj heq).symm
  | pubrec mid =>
    have hnone : sentUnacked (q.step limits now (.pubrec mid)).sent = [] := by
      simp only [step]
      split <;> rfl
    rw [hnone]
    refine Eq.trans ?_ (List.append_nil _).symm
    simp only [step, messageUpdate]
    split
    · exact unacked_updateFirst (acked_of_mid hmid hop)
    · rfl
  | pubrel =>
    refine Eq.trans ?_ (List.append_nil _).symm
    exact unacked_deleteLoop hready fun m _ heq => absurd heq nofun
  | write rcs => exact (unacked_writeLoop hready hsends).trans (List.append_nil _).symm
  | timeout threshold =>
    refine Eq.trans ?_ (List.append_nil _).symm
    exact unacked_map hready (fun _ => content_retry) fun m _ hstate => retry_of_ready hstate
  | reconnect =>
    have hreset := unacked_map hready (fun _ => content_reset) fun m hacked => reset_of_ready hacked
    refine Eq.trans ?_ (List.append_nil _).symm
    refine (unacked_resetFirst fun m hm hacked => ?_).trans hreset
    obtain ⟨m', hm', rfl⟩ := List.mem_map.mp hm
    rw [acked_of_content content_reset] at hacked
    rw [reset_of_ready hacked (hready m' hm' hacked)]
    exact hready m' hm' hacked
  | clear => exact absurd hop id

theorem ready_step {op : Op} (hqueue : limits.queueQos0Messages = false) (hop : Plain op)
    (hmid : ∀ m ∈ q.msgs, m.mid = 0 ↔ m.qos = 0) (hsends : ∀ m ∈ q.msgs, m.Sends)
    (hready : Ready q.msgs) : Ready (q.step limits now op).queue.msgs := by
  intro m hm hacked
  have hmem := List.mem_append_right (sentUnacked (q.step limits now op).sent)
    (mem_unacked.mpr ⟨hm, hacked⟩)
  rw [unacked_step hop hmid hsends hready] at hmem
  rcases List.mem_append.mp hmem with hmem | hmem
  · exact hready m (mem_unacked.mp hmem).1 hacked
  · obtain ⟨hmem, -⟩ := mem_unacked.mp hmem
    obtain ⟨conn, qos, retain, store, rfl, hfresh⟩ := inserted_step hmem
    obtain ⟨rc, hstate⟩ := hfresh.state
    have hqos : qos = 0 := hfresh.qos_eq.symm.trans (acked_eq_false.mp hacked)
    have honline : conn.invalid ≠ true := by
      intro hinvalid
      rcases hfresh.online hinvalid hqos with h | h
      · exact absurd (hqueue.symm.trans h) (by decide)
      · exact absurd (hop.symm.trans h) (by decide)
    unfold insertState at hstate
    rw [if_neg honline, if_pos (.inl hqos), hqos] at hstate
    exact (congrArg Prod.fst (Option.some.inj hstate)).symm

end MsgQueue

/-! ### Runs -/

/-- A queue with what became of its messages. -/
structure QueueLog where
  queue : MsgQueue := {}
  inserted : List ClientMessage := []
  /-- The messages that were removed, with the step that removed them. -/
  released : List (MsgQueue.Op × ClientMessage) := []
  sent : List QueueSend := []

namespace QueueLog

open ClientMessage MsgQueue

def step (limits : QueueLimits) (log : QueueLog) (event : ℤ × Op) : QueueLog :=
  let res := log.queue.step limits event.1 event.2
  { queue := res.queue
    inserted := log.inserted ++ res.inserted
    released := log.released ++ res.released.map fun m => (event.2, m)
    sent := log.sent ++ res.sent }

/-- The run of a queue that is empty at first. -/
def run (limits : QueueLimits) (events : List (ℤ × Op)) : QueueLog := events.foldl (step limits) {}

/-- Why a message may leave a queue: it was acknowledged, or sent without an acknowledgement, or the
queue was cleared. -/
def Leaves (sent : List QueueSend) : Op × ClientMessage → Prop
  | (.pubackcomp mid, m) => m.mid = mid ∧ 0 < m.qos
  | (.write _, m) => m.qos = 0 ∧ .publish m ∈ sent
  | (.clear, _) => True
  | _ => False

/-- What holds in a run with any client. -/
structure Sound (limits : QueueLimits) (log : QueueLog) : Prop where
  accounts : (log.inserted.map content).Perm
    ((log.queue.msgs ++ log.released.map Prod.snd).map content)
  leaves : ∀ r ∈ log.released, Leaves log.sent r
  counted : log.queue.Counted
  bounded : Bounded limits log.queue
  mid : ∀ m ∈ log.queue.msgs, m.mid = 0 ↔ m.qos = 0
  sends : ∀ m ∈ log.queue.msgs, m.Sends

variable {limits : QueueLimits} {log : QueueLog} {events : List (ℤ × Op)}

@[simp] theorem run_append (event : ℤ × Op) :
    run limits (events ++ [event]) = (run limits events).step limits event := by
  unfold run
  rw [List.foldl_append]
  rfl

theorem leaves_mono {sent sent' : List QueueSend} {r : Op × ClientMessage} (hsub : sent ⊆ sent')
    (h : Leaves sent r) : Leaves sent' r := by
  obtain ⟨op, m⟩ := r
  cases op with
  | write rcs => exact ⟨h.1, hsub h.2⟩
  | deliver conn qos retain store => exact h
  | pubackcomp mid => exact h
  | pubrec mid => exact h
  | pubrel => exact h
  | timeout threshold => exact h
  | reconnect => exact h
  | clear => exact h

/-- A step removes only what may leave. -/
theorem leaves_step {q : MsgQueue} {now : ℤ} {op : Op} {m : ClientMessage}
    (hmid : ∀ m ∈ q.msgs, m.mid = 0 ↔ m.qos = 0) (hsends : ∀ m ∈ q.msgs, m.Sends)
    (hm : m ∈ (q.step limits now op).released) : Leaves (q.step limits now op).sent (op, m) := by
  have hzero := mid_step hmid m (List.mem_append_right _ hm)
  cases op with
  | pubackcomp mid =>
    simp only [MsgQueue.step] at hm
    split_ifs at hm with hne
    · cases hm
    · have heq := Option.some.inj (mid_of_mem_deleteLoop hm)
      exact ⟨heq.symm, Nat.pos_of_ne_zero fun hqos => hne (heq.trans (hzero.mpr hqos))⟩
  | write rcs =>
    obtain ⟨hmem, hstate, hsent⟩ := sent_of_mem_writeLoop hm
    exact ⟨hsends m hmem hstate, hsent⟩
  | clear => trivial
  | deliver conn qos retain store => cases hm
  | pubrec mid => cases hm
  | pubrel => cases hm
  | timeout threshold => cases hm
  | reconnect => cases hm

theorem sound_step (event : ℤ × Op) (h : Sound limits log) : Sound limits (log.step limits event) := by
  constructor
  · have hstep := @perm_step limits event.1 log.queue event.2
    unfold step
    simp only [List.map_append, List.map_map, Function.comp_def, List.map_id'] at hstep ⊢
    have haccounts := h.accounts
    simp only [List.map_append, List.map_map] at haccounts
    refine (haccounts.append_right _).trans ?_
    rw [List.append_assoc]
    refine (List.Perm.append_left _ List.perm_append_comm).trans ?_
    rw [← List.append_assoc]
    refine (hstep.symm.append_right _).trans ?_
    rw [List.append_assoc]
    exact List.Perm.append_left _ List.perm_append_comm
  · intro r hr
    rcases List.mem_append.mp hr with hr | hr
    · exact leaves_mono (List.subset_append_left _ _) (h.leaves r hr)
    · obtain ⟨m, hm, rfl⟩ := List.mem_map.mp hr
      exact leaves_mono (List.subset_append_right _ _) (leaves_step h.mid h.sends hm)
  · exact counted_step h.counted
  · exact bounded_step h.counted h.bounded
  · exact fun m hm => mid_step h.mid m (List.mem_append_left _ hm)
  · exact sends_step h.sends

theorem sound_empty : Sound limits {} where
  accounts := List.Perm.refl _
  leaves := fun _ hr => absurd hr List.not_mem_nil
  counted := ⟨rfl, rfl⟩
  bounded := fun _ _ => Nat.zero_le _
  mid := fun _ hm => absurd hm List.not_mem_nil
  sends := fun _ hm => absurd hm List.not_mem_nil

theorem sound_run (limits : QueueLimits) (events : List (ℤ × Op)) :
    Sound limits (run limits events) := by
  induction events using List.reverseRecOn with
  | nil => exact sound_empty
  | append_singleton events event ih =>
    rw [run_append]
    exact sound_step event ih

/-- **No message is lost.**  Whatever a client does, each message that was inserted is in the queue, or
left it, once: it was sent without an acknowledgement, or acknowledged under its identifier, or the
queue was cleared.  The counts are those of the messages, and the queue is bounded. -/
theorem messages_accounted (limits : QueueLimits) (events : List (ℤ × Op)) :
    let log := run limits events
    (log.inserted.map content).Perm ((log.queue.msgs ++ log.released.map Prod.snd).map content) ∧
      (∀ r ∈ log.released, Leaves log.sent r) ∧
      log.queue.msgCount = log.queue.msgs.length ∧
      log.queue.msgCount12 = log.queue.msgs.countP acked ∧
      (0 < limits.maxInflight → 0 < limits.maxQueued →
        log.queue.msgs.countP acked ≤ limits.maxInflight + limits.maxQueued) := by
  have h := sound_run limits events
  exact ⟨h.accounts, h.leaves, h.counted.msgCount, h.counted.msgCount12, h.bounded⟩

/-- **The window.**  As long as each PUBREC answers a message that was sent, there are never more messages
in flight than may be. -/
theorem inFlight_le {limits : QueueLimits} {events : List (ℤ × Op)} (hpos : 0 < limits.maxInflight)
    (hanswers : ∀ before event, before ++ [event] <+: events →
      (run limits before).queue.Answers event.2) :
    (run limits events).queue.msgs.countP inFlight ≤ limits.maxInflight := by
  have hwindow : Windowed limits.maxInflight 0 (run limits events).queue.msgs := by
    induction events using List.reverseRecOn with
    | nil => trivial
    | append_singleton events event ih =>
      rw [run_append]
      refine windowed_step hpos (sound_run limits events).counted
        (hanswers events event List.prefix_rfl) (ih fun before event' hpast => ?_)
      exact hanswers before event' (hpast.trans (List.prefix_append events [event]))
  have := hwindow.countP_le (Nat.zero_le _)
  omega

/-- One message may be in flight, and a second waits until the client has answered the first. -/
theorem inFlight_le_one :
    (run { maxInflight := 1 } [(1, .deliver {} 2 false 7), (1, .deliver {} 2 false 8), (2, .write []),
      (3, .pubrec 1)]).queue.msgs.countP inFlight ≤ 1 := by
  refine @inFlight_le { maxInflight := 1 } _ Nat.one_pos fun before event hpast => ?_
  rcases before with _ | ⟨_, _ | ⟨_, _ | ⟨_, _ | ⟨_, before⟩⟩⟩⟩
  all_goals
    simp only [List.nil_append, List.cons_append, List.cons_prefix_cons, List.nil_prefix, and_true] at hpast
  · rw [hpast]
    trivial
  · rw [hpast.2]
    trivial
  · rw [hpast.2.2]
    trivial
  · obtain ⟨rfl, rfl, rfl, rfl⟩ := hpast
    unfold Answers
    decide +kernel
  · simp at hpast

/-- **In order, and once.**  In a session whose PUBRECs have identifiers, the messages without an
acknowledgement that were sent, and those that wait, are those that came, unchanged and in their
order. -/
theorem sentUnacked_run {limits : QueueLimits} {events : List (ℤ × Op)}
    (hqueue : limits.queueQos0Messages = false) (hplain : ∀ event ∈ events, Plain event.2) :
    sentUnacked (run limits events).sent ++ unacked (run limits events).queue.msgs =
      unacked (run limits events).inserted := by
  have hrun : Ready (run limits events).queue.msgs ∧ sentUnacked (run limits events).sent ++
      unacked (run limits events).queue.msgs = unacked (run limits events).inserted := by
    induction events using List.reverseRecOn with
    | nil => exact ⟨nofun, rfl⟩
    | append_singleton events event ih =>
      have hsound := sound_run limits events
      have hop := hplain event (List.mem_append_right events (List.mem_singleton_self event))
      obtain ⟨hready, heq⟩ := ih fun e he => hplain e (List.mem_append_left _ he)
      rw [run_append]
      refine ⟨ready_step hqueue hop hsound.mid hsound.sends hready, ?_⟩
      have hstep := @unacked_step limits event.1 _ event.2 hop hsound.mid hsound.sends hready
      unfold step
      simp only [sentUnacked_append, unacked_append]
      rw [List.append_assoc, hstep, ← List.append_assoc, heq]
  exact hrun.2

/-- Two messages, of which the first is sent before the socket fails. -/
theorem sentUnacked_run_two :
    (sentUnacked (run {} [(1, .deliver {} 0 false 7), (1, .deliver {} 0 false 8),
      (2, .write [0, 1])]).sent ++
        unacked (run {} [(1, .deliver {} 0 false 7), (1, .deliver {} 0 false 8),
          (2, .write [0, 1])]).queue.msgs).map ClientMessage.store = [7, 8] :=
  (congrArg (List.map ClientMessage.store) (@sentUnacked_run {} [(1, .deliver {} 0 false 7),
    (1, .deliver {} 0 false 8), (2, .write [0, 1])] rfl (by simp [Plain]))).trans
    (by decide +kernel)

end QueueLog

end DxlBroker
