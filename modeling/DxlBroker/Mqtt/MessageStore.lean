import DxlBroker.Lib.RefCount
import DxlBroker.Mqtt.QueueRuns

/-!
# Stored messages

A message is stored once, and the queues refer to it.  The main loop takes away from time to time what
no queue refers to.  Over any run of publishing, of what happens to the queues, of connections that come
and go, and of cleaning, no queue refers to a message that was taken away, and no message is taken away
twice.
-/

namespace DxlBroker

open RefCount

/-- A connection to which a message goes, as it is found, and how. -/
structure Destination where
  place : ℕ
  conn : InsertConn := {}
  qos : ℕ := 0
  retain : Bool := false

/-- The messages of a broker: `msg_store` with the reference counts, the queues of the contexts at
their places, and `m_contexts`, the messages that are known to the handlers. -/
structure MsgDb where
  store : Objects ℕ := {}
  lastDbId : ℕ := 0
  contexts : List (Option MsgQueue) := []
  handled : List ℕ := []

namespace MsgDb

/-- `CONTEXT_REALLOC_SIZE` -/
def contextReallocSize : ℕ := 0xfff

/-- `mqtt3_db_add_new_context`: the first free place, or new places behind the others. -/
def addNewContext (db : MsgDb) : MsgDb :=
  let i := db.contexts.findIdx fun c => c.isNone
  if i < db.contexts.length then { db with contexts := db.contexts.set i (some {}) }
  else { db with
    contexts := db.contexts ++ some {} :: List.replicate (contextReallocSize - 1) none }

section

variable (limits : QueueLimits) (now : ℤ)

/-- `onInsertMessage` inserts only a message that is known. -/
def insertConn (db : MsgDb) (id : ℕ) (conn : InsertConn) : InsertConn :=
  if id ∈ db.handled then conn else { conn with onInsert := none }

/-- A message is inserted into the queue of a destination. -/
def messageInsert (id : ℕ) (db : MsgDb) (dest : Destination) : MsgDb :=
  match db.contexts[dest.place]? with
  | some (some q) =>
      let res := q.step limits now
        (.deliver (db.insertConn id dest.conn) dest.qos dest.retain id)
      { db with
        contexts := db.contexts.set dest.place (some res.queue)
        store := if res.inserted.isEmpty then db.store else db.store.adjust id 1 }
  | _ => db

/-- `mqtt3_db_message_store`; `onStoreMessage` makes the message known. -/
def messageStore (db : MsgDb) : ℕ × MsgDb :=
  let id := db.lastDbId + 1
  (id, { db with store := db.store.add id, lastDbId := id, handled := id :: db.handled })

/-- `onFinalizeMessage` -/
def finalizeMessage (db : MsgDb) (id : ℕ) : MsgDb :=
  { db with handled := db.handled.filter fun id' => id' != id }

/-- `mqtt3_db_messages_easy_queue`: a message is stored, inserted into the queues of its destinations,
and finalized. -/
def messagesEasyQueue (dests : List Destination) (db : MsgDb) : MsgDb :=
  let res := db.messageStore
  (dests.foldl (messageInsert limits now res.1) res.2).finalizeMessage res.1

/-- Something happens to the queue of a context, other than a delivery; the messages that leave it are
no longer referenced. -/
def queueStep (place : ℕ) (op : MsgQueue.Op) (db : MsgDb) : MsgDb :=
  match db.contexts[place]?, op with
  | _, .deliver .. => db
  | some (some q), op =>
      let res := q.step limits now op
      { db with
        contexts := db.contexts.set place (some res.queue)
        store := db.store.release (res.released.map ClientMessage.store) }
  | _, _ => db

/-- `mqtt3_context_cleanup` of a context that is freed, and its place. -/
def contextFree (place : ℕ) (db : MsgDb) : MsgDb :=
  match db.contexts[place]? with
  | some (some q) =>
      { db with
        contexts := db.contexts.set place none
        store := db.store.release (q.msgs.map ClientMessage.store) }
  | _ => db

/-- `mqtt3_db_store_clean` -/
def storeClean (db : MsgDb) : MsgDb :=
  let unused := (db.store.live.filter fun o => o.2 == 0).map Prod.fst
  { unused.foldl finalizeMessage db with store := db.store.collect }

/-- What happens in a broker. -/
inductive Event
  | connect
  | publish (dests : List Destination)
  | queue (place : ℕ) (op : MsgQueue.Op)
  | free (place : ℕ)
  | clean

def step (db : MsgDb) : Event → MsgDb
  | .connect => db.addNewContext
  | .publish dests => db.messagesEasyQueue limits now dests
  | .queue place op => db.queueStep limits now place op
  | .free place => db.contextFree place
  | .clean => db.storeClean

end

/-- A run of a broker that starts without contexts. -/
def run (limits : QueueLimits) (events : List (ℤ × Event)) : MsgDb :=
  events.foldl (fun db event => db.step limits event.1 event.2) {}

/-! ### The references -/

/-- The messages to which a context refers. -/
def storesOf (c : Option MsgQueue) : List ℕ := c.elim [] fun q => q.msgs.map ClientMessage.store

/-- The references of the queues. -/
def held (contexts : List (Option MsgQueue)) : List ℕ := contexts.flatMap storesOf

/-- What the reference counts are for. -/
structure Sound (db : MsgDb) : Prop where
  holds : Holds (fun k => (held db.contexts).count k) db.store
  ids : (db.store.collected ++ db.store.keys).Perm (List.range' 1 db.lastDbId)

variable {limits : QueueLimits} {now : ℤ} {db : MsgDb} {contexts : List (Option MsgQueue)} {place id : ℕ}

/-- The references change by those of the context that changes. -/
theorem count_held_set {c c' : Option MsgQueue} (h : contexts[place]? = some c) (id : ℕ) :
    (held (contexts.set place c')).count id + (storesOf c).count id =
      (held contexts).count id + (storesOf c').count id := by
  obtain ⟨hlt, rfl⟩ := List.getElem?_eq_some_iff.mp h
  have hsplit : contexts = contexts.take place ++ contexts[place] :: contexts.drop (place + 1) := by
    rw [← List.drop_eq_getElem_cons hlt, List.take_append_drop]
  have hset : held (contexts.set place c') =
      held (contexts.take place) ++ (storesOf c' ++ held (contexts.drop (place + 1))) := by
    rw [List.set_eq_take_append_cons_drop, if_pos hlt]
    simp [held]
  have hheld : held contexts = held (contexts.take place) ++
      (storesOf contexts[place] ++ held (contexts.drop (place + 1))) := by
    have h := congrArg held hsplit
    rwa [held, held, List.flatMap_append, List.flatMap_cons] at h
  rw [hset, hheld]
  simp only [List.count_append]
  omega

/-- What a step of a queue does to its references. -/
theorem count_storesOf_step {q : MsgQueue} {op : MsgQueue.Op} (id : ℕ) :
    (storesOf (some (q.step limits now op).queue)).count id +
      ((q.step limits now op).released.map ClientMessage.store).count id =
        (storesOf (some q)).count id + ((q.step limits now op).inserted.map ClientMessage.store).count id := by
  have hperm := (@MsgQueue.perm_step limits now q op).map Prod.fst
  rw [List.map_map, List.map_map] at hperm
  have hcount := hperm.count_eq id
  rw [List.map_append, List.map_append, List.count_append, List.count_append] at hcount
  exact hcount

/-- A message that is inserted has one more reference. -/
theorem holds_messageInsert {dest : Destination} (hid : id ∈ db.store.keys)
    (h : Holds (fun k => (held db.contexts).count k) db.store) :
    Holds (fun k => (held (db.messageInsert limits now id dest).contexts).count k)
      (db.messageInsert limits now id dest).store := by
  unfold messageInsert
  split
  · rename_i q hq
    simp only
    generalize hop : MsgQueue.Op.deliver (db.insertConn id dest.conn) dest.qos dest.retain id = op
    have hstores : ∀ m ∈ (q.step limits now op).inserted, m.store = id := by
      intro m hm
      obtain ⟨conn, qos, retain, store, rfl, hfresh⟩ := MsgQueue.inserted_step hm
      injection hop with _ _ _ hstore
      rw [hfresh.store_eq, hstore]
    have hreleased : (q.step limits now op).released = [] := by
      rw [← hop]
      rfl
    have hcount : ∀ id', (held (db.contexts.set dest.place
        (some (q.step limits now op).queue))).count id' = (held db.contexts).count id' +
          ((q.step limits now op).inserted.map ClientMessage.store).count id' := by
      intro id'
      have hset := @count_held_set _ _ _ (some (q.step limits now op).queue) hq id'
      have hstep := @count_storesOf_step limits now q op id'
      rw [hreleased, List.map_nil, List.count_nil] at hstep
      omega
    rcases hinserted : (q.step limits now op).inserted with _ | ⟨m, rest⟩
    · rw [hinserted] at hcount
      exact h.congr hcount
    · have hrest : rest = [] := by
        have hone : (q.step limits now op).inserted.length ≤ 1 := by
          rw [← hop]
          simp only [MsgQueue.step]
          cases (q.subsInsert limits now (db.insertConn id dest.conn) dest.qos dest.retain id).2.2 <;> simp
        rw [hinserted] at hone
        exact List.length_eq_zero_iff.mp (Nat.le_zero.mp (Nat.le_of_succ_le_succ hone))
      rw [hinserted, hrest] at hcount hstores
      refine (h.acquire hid).congr fun id' => ?_
      rw [hcount id', List.map_singleton, hstores m List.mem_cons_self]
      by_cases heq : id' = id
      · simp [heq]
      · simp [heq, Ne.symm heq]
  · exact h

theorem messageInsert_keeps {dest : Destination} :
    (db.messageInsert limits now id dest).store.keys = db.store.keys ∧
    (db.messageInsert limits now id dest).store.collected = db.store.collected ∧
    (db.messageInsert limits now id dest).lastDbId = db.lastDbId ∧
    (db.messageInsert limits now id dest).handled = db.handled := by
  unfold messageInsert
  split
  · refine ⟨?_, ?_, rfl, rfl⟩
    · simp only
      split
      · rfl
      · exact Objects.keys_adjust id 1 db.store
    · simp only
      split
      · rfl
      · exact Objects.collected_adjust id 1 db.store
  · exact ⟨rfl, rfl, rfl, rfl⟩

theorem foldl_messageInsert {dests : List Destination} (hid : id ∈ db.store.keys) (h : db.Sound) :
    (dests.foldl (messageInsert limits now id) db).Sound ∧
      (dests.foldl (messageInsert limits now id) db).handled = db.handled := by
  induction dests generalizing db with
  | nil => exact ⟨h, rfl⟩
  | cons dest dests ih =>
    obtain ⟨hkeys, hcollected, hlast, hhandled⟩ := @messageInsert_keeps limits now db id dest
    have hsound : (db.messageInsert limits now id dest).Sound := by
      refine ⟨holds_messageInsert hid h.holds, ?_⟩
      rw [hkeys, hcollected, hlast]
      exact h.ids
    obtain ⟨hrest, hsame⟩ := ih (hkeys ▸ hid) hsound
    exact ⟨hrest, hsame.trans hhandled⟩

/-- What holds between two steps: the messages that are known are none. -/
structure Rests (db : MsgDb) : Prop extends Sound db where
  handled : db.handled = []

theorem rests_addNewContext (h : db.Rests) : db.addNewContext.Rests := by
  have hheld : ∀ k, (held db.addNewContext.contexts).count k = (held db.contexts).count k := by
    intro k
    unfold addNewContext
    simp only
    split_ifs with hlt
    · have hnone := List.findIdx_getElem (w := hlt)
      rw [Option.isNone_iff_eq_none] at hnone
      have hset := @count_held_set _ _ _ (some {})
        (List.getElem?_eq_some_iff.mpr ⟨hlt, hnone⟩) k
      exact hset
    · have hrest : held (List.replicate (contextReallocSize - 1) none) = [] :=
        List.flatMap_eq_nil_iff.mpr fun c hc => by rw [List.eq_of_mem_replicate hc]; rfl
      simp only [held, List.flatMap_append, List.flatMap_cons] at hrest ⊢
      rw [hrest]
      simp [storesOf]
  have hsame : db.addNewContext.store = db.store ∧ db.addNewContext.lastDbId = db.lastDbId ∧
      db.addNewContext.handled = db.handled := by
    unfold addNewContext
    simp only
    split_ifs
    · exact ⟨rfl, rfl, rfl⟩
    · exact ⟨rfl, rfl, rfl⟩
  obtain ⟨hstore, hlast, hhandled⟩ := hsame
  refine ⟨⟨?_, ?_⟩, hhandled.trans h.handled⟩
  · rw [hstore]
    exact h.holds.congr hheld
  · rw [hstore, hlast]
    exact h.ids

theorem rests_messagesEasyQueue {dests : List Destination} (h : db.Rests) :
    (db.messagesEasyQueue limits now dests).Rests := by
  have hfresh : db.lastDbId + 1 ∉ db.store.collected ++ db.store.keys := by
    rw [h.ids.mem_iff, List.mem_range'_1]
    omega
  have hsound : Sound db.messageStore.2 := by
    refine ⟨h.holds.add hfresh, ?_⟩
    show (db.store.collected ++ (db.lastDbId + 1) :: db.store.keys).Perm
      (List.range' 1 (db.lastDbId + 1))
    rw [List.range'_concat]
    refine List.perm_middle.trans ((List.Perm.cons _ h.ids).trans ?_)
    rw [Nat.one_mul, Nat.add_comm 1]
    exact (List.perm_append_singleton _ _).symm
  obtain ⟨hrest, hhandled⟩ := @foldl_messageInsert limits now db.messageStore.2 db.messageStore.1 dests
    List.mem_cons_self hsound
  refine ⟨⟨hrest.holds, hrest.ids⟩, ?_⟩
  show (dests.foldl (messageInsert limits now db.messageStore.1) db.messageStore.2).handled.filter _ = []
  rw [hhandled]
  show List.filter _ ((db.lastDbId + 1) :: db.handled) = []
  rw [h.handled]
  simp [messageStore]

theorem rests_release {c c' : Option MsgQueue} {ids : List ℕ} (h : db.Rests)
    (hc : db.contexts[place]? = some c)
    (hcount : ∀ k, (storesOf c').count k + ids.count k = (storesOf c).count k) :
    Rests { db with contexts := db.contexts.set place c', store := db.store.release ids } := by
  refine ⟨⟨h.holds.release fun k => ?_, ?_⟩, h.handled⟩
  · have hset := @count_held_set _ _ _ c' hc k
    have := hcount k
    simp only at hset ⊢
    omega
  · rw [Objects.collected_release, Objects.keys_release]
    exact h.ids

theorem rests_queueStep {op : MsgQueue.Op} (h : db.Rests) : (db.queueStep limits now place op).Rests := by
  unfold queueStep
  split
  · exact h
  · rename_i op _ _ q hq hdeliver
    refine rests_release h hq fun k => ?_
    have hstep := @count_storesOf_step limits now q op k
    have hnone : (q.step limits now op).inserted = [] :=
      List.eq_nil_iff_forall_not_mem.mpr fun m hm => by
        obtain ⟨conn, qos, retain, store, heq, -⟩ := MsgQueue.inserted_step hm
        exact hdeliver conn qos retain store heq
    rw [hnone, List.map_nil, List.count_nil] at hstep
    exact hstep
  · exact h

theorem rests_contextFree (h : db.Rests) : (db.contextFree place).Rests := by
  unfold contextFree
  split
  · rename_i q hq
    exact rests_release h hq fun k => Nat.zero_add _
  · exact h

theorem foldl_finalizeMessage (ids : List ℕ) (h : db.handled = []) :
    ids.foldl finalizeMessage db = db := by
  induction ids generalizing db with
  | nil => rfl
  | cons id ids ih =>
    have hsame : db.finalizeMessage id = db := by
      unfold finalizeMessage
      rw [h, List.filter_nil, ← h]
    rw [List.foldl_cons, hsame, ih h]

theorem rests_storeClean (h : db.Rests) : db.storeClean.Rests := by
  unfold storeClean
  simp only
  rw [foldl_finalizeMessage _ h.handled]
  exact ⟨⟨h.holds.collect, db.store.perm_collect.trans h.ids⟩, h.handled⟩

theorem rests_step (event : Event) (h : db.Rests) : (db.step limits now event).Rests := by
  cases event with
  | connect => exact rests_addNewContext h
  | publish dests => exact rests_messagesEasyQueue h
  | queue place op => exact rests_queueStep h
  | free place => exact rests_contextFree h
  | clean => exact rests_storeClean h

theorem rests_run (limits : QueueLimits) (events : List (ℤ × Event)) : (run limits events).Rests := by
  unfold run
  have hempty : Rests {} := ⟨⟨Holds.empty, List.Perm.refl _⟩, rfl⟩
  generalize ({} : MsgDb) = db at hempty ⊢
  induction events generalizing db with
  | nil => exact hempty
  | cons event events ih => exact ih _ (rests_step event.2 hempty)

/-- **No message is taken away that is needed.**  Over any run, every message in a queue is still stored;
each message that was ever stored is still there or was taken away once; the counts are those of the
references; no message stays known to the handlers; and a cleaning leaves exactly what is referenced. -/
theorem run_safe (limits : QueueLimits) (events : List (ℤ × Event)) :
    let db := run limits events
    (∀ id ∈ held db.contexts, id ∈ db.store.keys ∧ id ∉ db.store.collected) ∧
      (db.store.collected ++ db.store.keys).Perm (List.range' 1 db.lastDbId) ∧
      (∀ o ∈ db.store.live, o.2 = (held db.contexts).count o.1) ∧
      db.handled = [] ∧
      ∀ id, id ∈ db.storeClean.store.keys ↔ id ∈ held db.contexts := by
  have h := rests_run limits events
  generalize run limits events = db at h
  have hcount : ∀ id, (held db.contexts).count id ≠ 0 ↔ id ∈ held db.contexts := fun id => by
    rw [← Nat.pos_iff_ne_zero, List.count_pos_iff]
  refine ⟨fun id hid => ⟨h.holds.live id ((hcount id).mpr hid), fun hcollected => ?_⟩, h.ids,
    h.holds.count, h.handled, fun id => ⟨fun hid => ?_, fun hid => ?_⟩⟩
  · exact (hcount id).mpr hid (h.holds.not_referenced hcollected)
  · exact (hcount id).mp (h.holds.referenced_of_collect hid)
  · exact h.holds.collect.live id ((hcount id).mpr hid)

end MsgDb

end DxlBroker
