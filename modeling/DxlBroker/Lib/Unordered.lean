import Mathlib.Data.Finset.Card
import Mathlib.Data.List.AList
import Mathlib.Data.List.Dedup

/-!
# Hash containers

A hash map is an association list without repeated keys.  Nothing may depend on the order of its
entries: a loop over a container runs in the order of an `IterOrder`, which is any rearrangement.
-/

namespace Unordered

/-- An iteration order: some rearrangement of the elements. -/
structure IterOrder (α : Type) where
  arrange : List α → List α
  perm : ∀ l, (arrange l).Perm l

/-- The order of the list itself. -/
def IterOrder.asListed (α : Type) : IterOrder α := ⟨id, fun _ => .refl _⟩

@[simp] theorem IterOrder.mem_arrange {α : Type} (o : IterOrder α) {l : List α} {a : α} :
    a ∈ o.arrange l ↔ a ∈ l := (o.perm l).mem_iff

/-- The loop over a hash set whose elements all occur in a list. -/
def IterOrder.enumerate {α : Type} [DecidableEq α] (o : IterOrder α) (occurring : List α)
    (s : Finset α) : List α :=
  o.arrange (occurring.dedup.filter fun a => a ∈ s)

theorem IterOrder.mem_enumerate {α : Type} [DecidableEq α] (o : IterOrder α) {occurring : List α}
    {s : Finset α} (h : ∀ a ∈ s, a ∈ occurring) {a : α} : a ∈ o.enumerate occurring s ↔ a ∈ s := by
  rw [enumerate, mem_arrange, List.mem_filter, List.mem_dedup]
  simp only [decide_eq_true_eq, and_iff_right_iff_imp]
  exact h a

theorem IterOrder.nodup_enumerate {α : Type} [DecidableEq α] (o : IterOrder α)
    (occurring : List α) (s : Finset α) : (o.enumerate occurring s).Nodup :=
  (o.perm _).nodup_iff.mpr ((List.nodup_dedup occurring).filter _)

/-- A hash map. -/
abbrev Map (κ ν : Type) := AList fun _ : κ => ν

namespace Map

variable {κ ν : Type}

/-- The entries as pairs. -/
def pairs (m : Map κ ν) : List (κ × ν) := m.entries.map fun e => (e.1, e.2)

/-- Every value replaced. -/
def mapVals {ν' : Type} (f : κ → ν → ν') (m : Map κ ν) : Map κ ν' :=
  ⟨m.entries.map (Sigma.map id f), List.NodupKeys.map₂ f _ m.nodupKeys⟩

/-- The number of values with a property. -/
def countVals (p : ν → Bool) (m : Map κ ν) : ℕ := m.entries.countP fun e => p e.2

theorem countVals_congr {p q : ν → Bool} {m : Map κ ν} (h : ∀ e ∈ m.entries, p e.2 = q e.2) :
    m.countVals p = m.countVals q :=
  List.countP_congr fun e he => by rw [h e he]

variable [DecidableEq κ]

@[simp] theorem lookup_mapVals {ν' : Type} (f : κ → ν → ν') (m : Map κ ν) (k : κ) :
    (m.mapVals f).lookup k = (m.lookup k).map (f k) :=
  List.dlookup_map₂ k

theorem lookup_erase_eq_some {m : Map κ ν} {a k : κ} {v : ν} :
    (m.erase a).lookup k = some v ↔ k ≠ a ∧ m.lookup k = some v := by
  by_cases hk : k = a
  · rw [hk, AList.lookup_erase]
    exact iff_of_false nofun fun h => h.1 rfl
  · rw [AList.lookup_erase_ne hk, and_iff_right hk]

/-- The `insert` of a hash map: an entry that is already there stays. -/
def emplace (m : Map κ ν) (k : κ) (v : ν) : Map κ ν := if k ∈ m then m else m.insert k v

theorem lookup_emplace_self (m : Map κ ν) (k : κ) (v : ν) :
    (m.emplace k v).lookup k = some ((m.lookup k).getD v) := by
  unfold emplace
  split_ifs with h
  · obtain ⟨w, hw⟩ := Option.isSome_iff_exists.mp (AList.lookup_isSome.mpr h)
    rw [hw, Option.getD_some]
  · rw [AList.lookup_insert, AList.lookup_eq_none.mpr h, Option.getD_none]

theorem lookup_emplace_of_ne (m : Map κ ν) {k k' : κ} (v : ν) (h : k' ≠ k) :
    (m.emplace k v).lookup k' = m.lookup k' := by
  unfold emplace
  split_ifs
  · rfl
  · exact AList.lookup_insert_ne h

/-- The pairs with a given key. -/
theorem filter_pairs (m : Map κ ν) (k : κ) :
    m.pairs.filter (fun p => p.1 = k) = ((m.lookup k).map fun v => (k, v)).toList := by
  rcases m with ⟨l, hl⟩
  show (l.map fun e => (e.1, e.2)).filter (fun p : κ × ν => p.1 = k) =
    ((l.dlookup k).map fun v => (k, v)).toList
  induction l with
  | nil => rfl
  | cons e l ih =>
    rw [List.nodupKeys_cons] at hl
    obtain ⟨k', v⟩ := e
    by_cases hk : k' = k
    · subst hk
      have hnone : l.dlookup k' = none := List.dlookup_eq_none.mpr hl.1
      have := ih hl.2
      rw [hnone] at this
      simpa using this
    · rw [List.dlookup_cons_ne l ⟨k', v⟩ (Ne.symm hk)]
      simpa [hk] using ih hl.2

theorem mem_pairs {m : Map κ ν} {p : κ × ν} : p ∈ m.pairs ↔ m.lookup p.1 = some p.2 := by
  rw [show m.lookup p.1 = some p.2 ↔ p.2 ∈ m.lookup p.1 from Iff.rfl, AList.mem_lookup_iff, pairs,
    List.mem_map]
  constructor
  · rintro ⟨e, he, rfl⟩
    exact he
  · intro h
    exact ⟨⟨p.1, p.2⟩, h, rfl⟩

theorem mem_pairs_emplace {m : Map κ ν} {k : κ} {v : ν} {p : κ × ν}
    (h : p ∈ (m.emplace k v).pairs) : p ∈ m.pairs ∨ p = (k, v) := by
  rw [mem_pairs] at h ⊢
  by_cases hk : p.1 = k
  · rw [hk, lookup_emplace_self] at h
    cases hm : m.lookup k with
    | none =>
      right
      rw [hm] at h
      exact Prod.ext hk (Option.some.inj h).symm
    | some w =>
      left
      rw [hm] at h
      rw [hk, hm]
      exact h
  · left
    rwa [lookup_emplace_of_ne _ _ hk] at h

/-- A map filled from a list of pairs, one `insert` after the other. -/
def ofPairs (l : List (κ × ν)) : Map κ ν := l.foldl (fun m p => m.emplace p.1 p.2) ∅

/-- The first pair of each key is kept. -/
theorem lookup_ofPairs (l : List (κ × ν)) (k : κ) :
    (ofPairs l).lookup k = (l.find? fun p => p.1 = k).map Prod.snd := by
  have key : ∀ (l : List (κ × ν)) (m : Map κ ν),
      (l.foldl (fun m p => m.emplace p.1 p.2) m).lookup k =
        (m.lookup k).or ((l.find? fun p => p.1 = k).map Prod.snd) := by
    intro l
    induction l with
    | nil => simp
    | cons p l ih =>
      intro m
      rw [List.foldl_cons, ih, List.find?_cons]
      by_cases hk : p.1 = k
      · subst hk
        rw [lookup_emplace_self]
        cases m.lookup p.1 <;> simp
      · rw [lookup_emplace_of_ne _ _ (Ne.symm hk)]
        simp [hk]
  rw [ofPairs, key l ∅, AList.lookup_empty, Option.none_or]

theorem mem_of_mem_pairs_ofPairs {l : List (κ × ν)} {p : κ × ν} (h : p ∈ (ofPairs l).pairs) :
    p ∈ l := by
  rw [mem_pairs, lookup_ofPairs] at h
  obtain ⟨q, hq, hv⟩ := Option.map_eq_some_iff.mp h
  have hk : q.1 = p.1 := by simpa using List.find?_some hq
  rw [← Prod.ext hk hv]
  exact List.mem_of_find?_eq_some hq

theorem countVals_of_lookup {m m' : Map κ ν} (h : ∀ k, m.lookup k = m'.lookup k) (p : ν → Bool) :
    m.countVals p = m'.countVals p :=
  (List.lookup_ext m.nodupKeys m'.nodupKeys fun k v => by
    rw [show m.entries.dlookup k = m'.entries.dlookup k from h k]).countP_eq _

theorem countVals_insert {m : Map κ ν} {k : κ} (h : m.lookup k = none) (v : ν) (p : ν → Bool) :
    countVals p (m.insert k v) = m.countVals p + if p v then 1 else 0 := by
  have hk : k ∉ m := AList.lookup_eq_none.mp h
  unfold countVals
  rw [AList.entries_insert_of_notMem hk, List.countP_cons]

theorem countVals_erase {m : Map κ ν} {k : κ} {v : ν} (h : m.lookup k = some v) (p : ν → Bool) :
    m.countVals p = countVals p (m.erase k) + if p v then 1 else 0 := by
  have hkeys : k ∈ m.entries.keys :=
    AList.mem_keys.mp (AList.lookup_isSome.mp (Option.isSome_iff_exists.mpr ⟨v, h⟩))
  obtain ⟨w, l₁, l₂, -, hm, herase⟩ := List.exists_of_kerase hkeys
  have hw : w = v := by
    have hmem : w ∈ m.lookup k := AList.mem_lookup_iff.mpr (by rw [hm]; simp)
    exact Option.some.inj (hmem.symm.trans h)
  unfold countVals
  rw [show (m.erase k).entries = m.entries.kerase k from rfl, herase, hm, hw]
  simp only [List.countP_append, List.countP_cons]
  omega

/-! ### A map that selects from a relation -/

/-- The map has an entry for every key that the relation gives a value, and each entry is one that
the relation gives. -/
structure Selects (G : κ → ν → Prop) (m : Map κ ν) : Prop where
  backed : ∀ k v, m.lookup k = some v → G k v
  covered : ∀ k v, G k v → k ∈ m

theorem selects_empty : Selects (fun _ _ => False) (∅ : Map κ ν) where
  backed _ _ h := nomatch h
  covered _ _ h := h.elim

theorem Selects.congr {G G' : κ → ν → Prop} {m : Map κ ν} (h : Selects G m)
    (hiff : ∀ k v, G' k v ↔ G k v) : Selects G' m where
  backed k v hv := (hiff k v).mpr (h.backed k v hv)
  covered k v hv := h.covered k v ((hiff k v).mp hv)

theorem Selects.insert {G : κ → ν → Prop} {m : Map κ ν} (h : Selects G m) (k : κ) (v : ν) :
    Selects (fun k' v' => G k' v' ∨ (k' = k ∧ v' = v)) (m.insert k v) where
  backed k' v' hlookup := by
    by_cases hk : k' = k
    · rw [hk, AList.lookup_insert, Option.some.injEq] at hlookup
      exact .inr ⟨hk, hlookup.symm⟩
    · rw [AList.lookup_insert_ne hk] at hlookup
      exact .inl (h.backed k' v' hlookup)
  covered k' v' hv := by
    rw [AList.mem_insert]
    rcases hv with hv | ⟨hk, -⟩
    · exact .inr (h.covered k' v' hv)
    · exact .inl hk

end Map

end Unordered
