import DxlBroker.Mqtt.Subs
import Mathlib.Data.List.Nodup
import Mathlib.Data.List.Count
import Mathlib.Data.List.Perm.Basic

/-!
# What the subscription tree holds

The meaning of a tree is the list of leaves at each path (`leavesAt`).  In a well-formed tree the
hash tables and the counters agree with the lists of children, and every operation changes the
leaves in the way its name says: adding and removing at one path, cleaning at all of them.
-/

namespace DxlBroker

open Bytes

/-- The element a search finds when only one satisfies the test. -/
theorem find?_eq_some_of_unique {α : Type} {l : List α} {p : α → Bool} {a : α} (ha : a ∈ l)
    (hp : p a = true) (huniq : ∀ b ∈ l, p b = true → b = a) : l.find? p = some a := by
  cases h : l.find? p with
  | none =>
    have := List.find?_eq_none.mp h a ha
    exact absurd hp this
  | some b =>
    rw [huniq b (List.mem_of_find?_eq_some h) (List.find?_some h)]

namespace Subhier

/-! ### Well-formed trees -/

/-- The child of a topic, found along the list. -/
def child? (n : Subhier) (topic : Bytes) : Option Subhier :=
  n.children.find? fun c => c.topic == topic

/-- The leaves at a path below a node. -/
def leavesAt (n : Subhier) : List Bytes → List Subleaf
  | [] => n.subs
  | t :: path =>
      match n.child? t with
      | some c => c.leavesAt path
      | none => []

/-- The hash table and the counters of a node agree with its children. -/
structure Linked (n : Subhier) : Prop where
  topics : (n.children.map topic).Nodup
  addrs : (n.children.map addr).Nodup
  hashTable : n.hashTable.Perm (n.children.map fun c => (c.topic, c.addr))
  poundCount : n.poundCount = (n.children.map topic).count poundLevel
  plusCount : n.plusCount = (n.children.map topic).count plusLevel

/-- No child of the name `#` has children. -/
def PoundLeaf (n : Subhier) : Prop := ∀ c ∈ n.children, c.topic = poundLevel → c.children = []

/-- A property of all nodes of a tree. -/
inductive Everywhere (P : Subhier → Prop) : Subhier → Prop
  | intro {n : Subhier} : P n → (∀ c ∈ n.children, Everywhere P c) → Everywhere P n

theorem Everywhere.here {P : Subhier → Prop} {n : Subhier} (h : Everywhere P n) : P n := by
  cases h with
  | intro h _ => exact h

theorem Everywhere.children {P : Subhier → Prop} {n : Subhier} (h : Everywhere P n) :
    ∀ c ∈ n.children, Everywhere P c := by
  cases h with
  | intro _ h => exact h

section Linked

variable {n : Subhier} (hn : n.Linked)
include hn

theorem Linked.eq_of_topic {c d : Subhier} (hc : c ∈ n.children) (hd : d ∈ n.children)
    (h : c.topic = d.topic) : c = d :=
  List.inj_on_of_nodup_map hn.topics hc hd h

theorem Linked.eq_of_addr {c d : Subhier} (hc : c ∈ n.children) (hd : d ∈ n.children)
    (h : c.addr = d.addr) : c = d :=
  List.inj_on_of_nodup_map hn.addrs hc hd h

theorem Linked.child?_eq_some {c : Subhier} (hc : c ∈ n.children) : n.child? c.topic = some c :=
  find?_eq_some_of_unique hc (by simp) fun d hd h => hn.eq_of_topic hd hc (by simpa using h)

omit hn in
theorem mem_of_child? {t : Bytes} {c : Subhier} (h : n.child? t = some c) :
    c ∈ n.children ∧ c.topic = t :=
  ⟨List.mem_of_find?_eq_some h, by simpa using List.find?_some h⟩

/-- A lookup in the hash table finds the child of the topic. -/
theorem Linked.hashFind_eq (t : Bytes) : n.hashFind t = n.child? t := by
  have hmem : ∀ e, e ∈ n.hashTable ↔ ∃ c ∈ n.children, (c.topic, c.addr) = e := fun e => by
    rw [hn.hashTable.mem_iff, List.mem_map]
  unfold hashFind
  cases h : n.hashTable.find? (fun e => e.1 == t) with
  | none =>
    symm
    apply List.find?_eq_none.mpr
    intro c hc ht
    have := List.find?_eq_none.mp h (c.topic, c.addr) ((hmem _).mpr ⟨c, hc, rfl⟩)
    exact this ht
  | some e =>
    obtain ⟨c, hc, rfl⟩ := (hmem e).mp (List.mem_of_find?_eq_some h)
    have ht : c.topic = t := by simpa using List.find?_some h
    rw [← ht, hn.child?_eq_some hc]
    exact find?_eq_some_of_unique hc (by simp) fun d hd h => hn.eq_of_addr hd hc (by simpa using h)

end Linked

/-! ### Replacing, adding and dropping a child -/

/-- A node that takes the place of a child: the links to it stay as they are. -/
structure Replaces (n c c' : Subhier) : Prop where
  mem : c ∈ n.children
  addr : c'.addr = c.addr
  topic : c'.topic = c.topic

section Replaces

variable {n c c' : Subhier} (hn : n.Linked) (hc : n.Replaces c c')
include hn hc

theorem Replaces.map_eq {β : Type} (f : Subhier → β) (hf : f c' = f c) :
    (n.setChild c').children.map f = n.children.map f := by
  rw [setChild, List.map_map]
  refine List.map_congr_left fun d hd => ?_
  simp only [Function.comp_apply]
  split_ifs with h
  · rw [hn.eq_of_addr hd hc.mem (h.trans hc.addr), hf]
  · rfl

theorem linked_setChild : (n.setChild c').Linked where
  topics := by rw [hc.map_eq hn _ hc.topic]; exact hn.topics
  addrs := by rw [hc.map_eq hn _ hc.addr]; exact hn.addrs
  hashTable := by
    rw [hc.map_eq hn _ (by rw [hc.topic, hc.addr])]
    exact hn.hashTable
  poundCount := by rw [hc.map_eq hn _ hc.topic]; exact hn.poundCount
  plusCount := by rw [hc.map_eq hn _ hc.topic]; exact hn.plusCount

theorem mem_setChild {d : Subhier} :
    d ∈ (n.setChild c').children ↔ d = c' ∨ (d ∈ n.children ∧ d.topic ≠ c.topic) := by
  simp only [setChild, List.mem_map]
  constructor
  · rintro ⟨x, hx, rfl⟩
    split_ifs with h
    · exact .inl rfl
    · refine .inr ⟨hx, fun ht => h ?_⟩
      rw [hn.eq_of_topic hx hc.mem ht, hc.addr]
  · rintro (rfl | ⟨hd, ht⟩)
    · exact ⟨c, hc.mem, if_pos hc.addr.symm⟩
    · refine ⟨d, hd, if_neg fun h => ht ?_⟩
      rw [hn.eq_of_addr hd hc.mem (h.trans hc.addr)]

theorem dropChild_children : ∃ l₁ l₂, n.children = l₁ ++ c :: l₂ ∧
    (n.dropChild c').children = l₁ ++ l₂ := by
  obtain ⟨d, l₁, l₂, -, hd, hl, he⟩ := List.exists_of_eraseP (p := fun d => d.addr == c'.addr)
    hc.mem (by simp [hc.addr])
  have hdc : d = c := by
    refine hn.eq_of_addr (hl ▸ List.mem_append_right _ List.mem_cons_self) hc.mem ?_
    rw [← hc.addr]
    simpa using hd
  rw [hdc] at hl
  exact ⟨l₁, l₂, hl, he⟩

theorem mem_dropChild {d : Subhier} :
    d ∈ (n.dropChild c').children ↔ d ∈ n.children ∧ d.topic ≠ c.topic := by
  obtain ⟨l₁, l₂, hl, hd⟩ := dropChild_children hn hc
  have hnodup := hn.topics
  rw [hl, List.map_append, List.map_cons, List.nodup_middle, List.nodup_cons, ← List.map_append]
    at hnodup
  have hne : ∀ x ∈ l₁ ++ l₂, x.topic ≠ c.topic := fun x hx ht =>
    hnodup.1 (ht ▸ List.mem_map_of_mem hx)
  rw [hd, hl]
  constructor
  · intro h
    refine ⟨?_, hne d h⟩
    rcases List.mem_append.mp h with h | h
    · exact List.mem_append_left _ h
    · exact List.mem_append_right _ (List.mem_cons_of_mem _ h)
  · rintro ⟨h, ht⟩
    rcases List.mem_append.mp h with h | h
    · exact List.mem_append_left _ h
    · rcases List.mem_cons.mp h with rfl | h
      · exact absurd rfl ht
      · exact List.mem_append_right _ h

/-- The hash table loses the entry of the child and no other. -/
theorem perm_removeHeirFromHash {l₁ l₂ : List Subhier} (hl : n.children = l₁ ++ c :: l₂) :
    (removeHeirFromHash n.hashTable c'.topic).Perm
      ((l₁ ++ l₂).map fun d => (d.topic, d.addr)) := by
  have hperm := hn.hashTable
  have hmem : (c.topic, c.addr) ∈ n.hashTable :=
    hperm.mem_iff.mpr (List.mem_map_of_mem (f := fun d => (d.topic, d.addr)) hc.mem)
  obtain ⟨e, k₁, k₂, -, he, hk, hremove⟩ := List.exists_of_eraseP (p := fun e => e.1 == c'.topic)
    hmem (by simp [hc.topic])
  have hec : e = (c.topic, c.addr) := by
    have : e ∈ n.hashTable := hk ▸ List.mem_append_right _ List.mem_cons_self
    obtain ⟨d, hd, rfl⟩ := List.mem_map.mp (hperm.mem_iff.mp this)
    have ht : d.topic = c.topic := by rw [← hc.topic]; simpa using he
    rw [hn.eq_of_topic hd hc.mem ht]
  rw [removeHeirFromHash, hremove]
  rw [hk, hec, hl, List.map_append, List.map_cons] at hperm
  have := (List.perm_middle.symm.trans hperm).trans List.perm_middle
  rw [List.map_append]
  exact this.cons_inv

omit hn hc in
/-- The counter of a wildcard after a child was dropped. -/
theorem count_dropChild {count : ℤ} {rest : ℕ} {wildCard : Bytes}
    (hcount : count = Int.ofNat (rest + if c.topic = wildCard then 1 else 0))
    (htopic : c'.topic = c.topic) :
    count - (if topicIsWildCard c'.topic wildCard ∧ 0 < count then 1 else 0) = (rest : ℤ) := by
  by_cases ht : c.topic = wildCard
  · rw [if_pos ht] at hcount
    have hpos : 0 < count := by rw [hcount]; exact Int.natCast_pos.mpr (Nat.succ_pos rest)
    rw [if_pos ⟨by simp [topicIsWildCard, htopic, ht], hpos⟩, hcount]
    simp
  · rw [if_neg ht] at hcount
    rw [if_neg (by simp [topicIsWildCard, htopic, ht]), hcount]
    simp

theorem linked_dropChild : (n.dropChild c').Linked := by
  obtain ⟨l₁, l₂, hl, hd⟩ := dropChild_children hn hc
  have hcount : ∀ t, (n.children.map topic).count t =
      ((l₁ ++ l₂).map topic).count t + if c.topic = t then 1 else 0 := fun t => by
    rw [hl]
    simp only [List.map_append, List.map_cons, List.count_append, List.count_cons, beq_iff_eq]
    omega
  constructor
  · rw [hd]
    have := hn.topics
    rw [hl, List.map_append, List.map_cons, List.nodup_middle, ← List.map_append] at this
    exact this.of_cons
  · rw [hd]
    have := hn.addrs
    rw [hl, List.map_append, List.map_cons, List.nodup_middle, ← List.map_append] at this
    exact this.of_cons
  · rw [hd]
    exact perm_removeHeirFromHash hn hc hl
  · rw [hd]
    exact count_dropChild (hn.poundCount.trans (congrArg Int.ofNat (hcount _))) hc.topic
  · rw [hd]
    exact count_dropChild (hn.plusCount.trans (congrArg Int.ofNat (hcount _))) hc.topic

end Replaces

theorem addr_lt_foldr_max {l : List ℕ} {a : ℕ} (h : a ∈ l) : a < l.foldr max 0 + 1 := by
  induction l with
  | nil => cases h
  | cons b l ih =>
    simp only [List.foldr_cons]
    rcases List.mem_cons.mp h with rfl | h
    · omega
    · have := ih h
      omega

theorem freshAddr_ne {n c : Subhier} (hc : c ∈ n.children) : c.addr ≠ n.freshAddr := by
  have h : c.addr ∈ n.children.map addr ++ n.hashTable.map Prod.snd :=
    List.mem_append_left _ (List.mem_map_of_mem hc)
  exact Nat.ne_of_lt (addr_lt_foldr_max h)

/-- A node that is linked as a new child. -/
structure Fresh (n branch : Subhier) : Prop where
  addr : branch.addr = n.freshAddr
  topic : ∀ c ∈ n.children, c.topic ≠ branch.topic

section Fresh

variable {n b : Subhier} (hn : n.Linked) (hb : n.Fresh b)
include hn hb

theorem addHeirToHash_fresh :
    addHeirToHash n.hashTable b.topic b.addr = n.hashTable ++ [(b.topic, b.addr)] := by
  rw [addHeirToHash, if_neg]
  simp only [List.any_eq_true, beq_iff_eq, not_exists, not_and]
  intro e he ht
  obtain ⟨c, hc, rfl⟩ := List.mem_map.mp (hn.hashTable.mem_iff.mp he)
  exact hb.topic c hc ht

/-- Linking a new child, at either end of the list. -/
theorem linked_of_perm {m : Subhier} (hchildren : m.children.Perm (b :: n.children))
    (hhash : m.hashTable = addHeirToHash n.hashTable b.topic b.addr)
    (hpound : m.poundCount = n.poundCount + if b.topic = poundLevel then 1 else 0)
    (hplus : m.plusCount = n.plusCount + if b.topic = plusLevel then 1 else 0) : m.Linked where
  topics := by
    rw [(hchildren.map topic).nodup_iff, List.map_cons, List.nodup_cons]
    refine ⟨fun h => ?_, hn.topics⟩
    obtain ⟨c, hc, ht⟩ := List.mem_map.mp h
    exact hb.topic c hc ht
  addrs := by
    rw [(hchildren.map addr).nodup_iff, List.map_cons, List.nodup_cons]
    refine ⟨fun h => ?_, hn.addrs⟩
    obtain ⟨c, hc, ha⟩ := List.mem_map.mp h
    exact freshAddr_ne hc (ha.trans hb.addr)
  hashTable := by
    rw [hhash, addHeirToHash_fresh hn hb]
    refine (List.perm_append_singleton _ _).trans ?_
    refine (hn.hashTable.cons _).trans ?_
    exact (hchildren.map fun c => (c.topic, c.addr)).symm
  poundCount := by
    rw [hpound, hn.poundCount, (hchildren.map topic).count_eq, List.map_cons, List.count_cons]
    by_cases h : b.topic = poundLevel <;> simp [h]
  plusCount := by
    rw [hplus, hn.plusCount, (hchildren.map topic).count_eq, List.map_cons, List.count_cons]
    by_cases h : b.topic = plusLevel <;> simp [h]

theorem linked_addChild : (n.addChild b).Linked := by
  refine linked_of_perm hn hb (List.perm_append_singleton b n.children) rfl ?_ ?_
  · simp [addChild, topicIsWildCard]
  · simp [addChild, topicIsWildCard]

end Fresh

/-! ### Leaves under the changed children -/

theorem Linked.leavesAt_cons {n c : Subhier} (hn : n.Linked) (hc : c ∈ n.children)
    (p : List Bytes) : n.leavesAt (c.topic :: p) = c.leavesAt p := by
  rw [leavesAt, hn.child?_eq_some hc]

theorem leavesAt_cons_eq_nil {n : Subhier} {t : Bytes} (h : ∀ c ∈ n.children, c.topic ≠ t)
    (p : List Bytes) : n.leavesAt (t :: p) = [] := by
  have hnone : n.child? t = none := List.find?_eq_none.mpr fun c hc => by simpa using h c hc
  rw [leavesAt, hnone]

/-- Two nodes with the same child of a topic have the same leaves under it. -/
theorem Linked.leavesAt_congr {m n : Subhier} (hm : m.Linked) (hn : n.Linked) {t : Bytes}
    (h : ∀ c : Subhier, c.topic = t → (c ∈ m.children ↔ c ∈ n.children)) (p : List Bytes) :
    m.leavesAt (t :: p) = n.leavesAt (t :: p) := by
  by_cases ht : ∃ c ∈ m.children, c.topic = t
  · obtain ⟨c, hc, rfl⟩ := ht
    rw [hm.leavesAt_cons hc, hn.leavesAt_cons ((h c rfl).mp hc)]
  · have hne : ∀ c ∈ m.children, c.topic ≠ t := fun c hc he => ht ⟨c, hc, he⟩
    rw [leavesAt_cons_eq_nil hne]
    exact (leavesAt_cons_eq_nil (fun c hc he => hne c ((h c he).mpr hc) he) p).symm

theorem leavesAt_of_isUnused {n : Subhier} (h : n.isUnused = true) (p : List Bytes) :
    n.leavesAt p = [] := by
  simp only [isUnused, Bool.and_eq_true, List.isEmpty_iff] at h
  cases p with
  | nil => exact h.1.2
  | cons t p => exact leavesAt_cons_eq_nil (by simp [h.1.1]) p

section Replaces

variable {n c c' : Subhier} (hn : n.Linked) (hc : n.Replaces c c')
include hn hc

theorem leavesAt_setChild_self (p : List Bytes) :
    (n.setChild c').leavesAt (c.topic :: p) = c'.leavesAt p := by
  rw [← hc.topic]
  exact (linked_setChild hn hc).leavesAt_cons ((mem_setChild hn hc).mpr (.inl rfl)) p

theorem leavesAt_setChild_of_ne {t : Bytes} (ht : t ≠ c.topic) (p : List Bytes) :
    (n.setChild c').leavesAt (t :: p) = n.leavesAt (t :: p) := by
  refine (linked_setChild hn hc).leavesAt_congr hn (fun d hd => ?_) p
  rw [mem_setChild hn hc]
  constructor
  · rintro (rfl | ⟨h, -⟩)
    · exact absurd (hd.symm.trans hc.topic) ht
    · exact h
  · intro h
    exact .inr ⟨h, hd ▸ ht⟩

theorem linked_putChild : (n.putChild c').Linked := by
  unfold putChild
  split_ifs
  · exact linked_dropChild hn hc
  · exact linked_setChild hn hc

theorem leavesAt_putChild_self (p : List Bytes) :
    (n.putChild c').leavesAt (c.topic :: p) = c'.leavesAt p := by
  unfold putChild
  split_ifs with h
  · rw [leavesAt_of_isUnused h]
    exact leavesAt_cons_eq_nil (fun d hd => ((mem_dropChild hn hc).mp hd).2) p
  · exact leavesAt_setChild_self hn hc p

theorem leavesAt_putChild_of_ne {t : Bytes} (ht : t ≠ c.topic) (p : List Bytes) :
    (n.putChild c').leavesAt (t :: p) = n.leavesAt (t :: p) := by
  unfold putChild
  split_ifs
  · refine (linked_dropChild hn hc).leavesAt_congr hn (fun d hd => ?_) p
    rw [mem_dropChild hn hc]
    exact ⟨And.left, fun h => ⟨h, hd ▸ ht⟩⟩
  · exact leavesAt_setChild_of_ne hn hc ht p

theorem mem_of_mem_putChild {d : Subhier} (h : d ∈ (n.putChild c').children) :
    d = c' ∨ (d ∈ n.children ∧ d.topic ≠ c.topic) := by
  unfold putChild at h
  split_ifs at h
  · exact .inr ((mem_dropChild hn hc).mp h)
  · exact (mem_setChild hn hc).mp h

theorem mem_putChild_of_ne {d : Subhier} (hd : d ∈ n.children) (ht : d.topic ≠ c.topic) :
    d ∈ (n.putChild c').children := by
  unfold putChild
  split_ifs
  · exact (mem_dropChild hn hc).mpr ⟨hd, ht⟩
  · exact (mem_setChild hn hc).mpr (.inr ⟨hd, ht⟩)

end Replaces

end Subhier

end DxlBroker
