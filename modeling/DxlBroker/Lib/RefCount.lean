import Mathlib.Data.List.Basic
import Mathlib.Tactic

/-!
# Reference counts

Objects come with a count of zero and are taken away by a collector that finds their count at zero.
In between, holders add and drop references.  As long as the counts are those of the references, the
collector takes nothing that is referenced, and every object once.
-/

namespace RefCount

variable {κ : Type} [DecidableEq κ]

/-- The objects with their counts, and those that were collected. -/
structure Objects (κ : Type) where
  live : List (κ × ℤ) := []
  collected : List κ := []

namespace Objects

def keys (s : Objects κ) : List κ := s.live.map Prod.fst

/-- A new object. -/
def add (k : κ) (s : Objects κ) : Objects κ := { s with live := (k, 0) :: s.live }

def adjust (k : κ) (n : ℤ) (s : Objects κ) : Objects κ :=
  { s with live := s.live.map fun o => if o.1 = k then (o.1, o.2 + n) else o }

/-- References are dropped, one after the other. -/
def release (ks : List κ) (s : Objects κ) : Objects κ := ks.foldl (fun s k => s.adjust k (-1)) s

/-- The objects without references are taken away. -/
def collect (s : Objects κ) : Objects κ where
  live := s.live.filter fun o => o.2 != 0
  collected := s.collected ++ (s.live.filter fun o => o.2 == 0).map Prod.fst

omit [DecidableEq κ] in
@[simp] theorem collected_add (k : κ) (s : Objects κ) : (s.add k).collected = s.collected := rfl

omit [DecidableEq κ] in
@[simp] theorem keys_add (k : κ) (s : Objects κ) : (s.add k).keys = k :: s.keys := rfl

@[simp] theorem collected_adjust (k : κ) (n : ℤ) (s : Objects κ) :
    (s.adjust k n).collected = s.collected := rfl

@[simp] theorem keys_adjust (k : κ) (n : ℤ) (s : Objects κ) : (s.adjust k n).keys = s.keys := by
  unfold keys adjust
  rw [List.map_map]
  refine List.map_congr_left fun o _ => ?_
  simp only [Function.comp_apply]
  split <;> rfl

theorem mem_live_adjust {k : κ} {n : ℤ} {s : Objects κ} {o : κ × ℤ}
    (h : o ∈ (s.adjust k n).live) :
    ∃ o' ∈ s.live, o.1 = o'.1 ∧ o.2 = o'.2 + if o'.1 = k then n else 0 := by
  obtain ⟨o', ho', rfl⟩ := List.mem_map.mp h
  refine ⟨o', ho', ?_, ?_⟩ <;> split <;> simp

@[simp] theorem collected_release (ks : List κ) (s : Objects κ) :
    (s.release ks).collected = s.collected := by
  induction ks generalizing s with
  | nil => rfl
  | cons k ks ih => exact (ih _).trans (collected_adjust k (-1) s)

@[simp] theorem keys_release (ks : List κ) (s : Objects κ) : (s.release ks).keys = s.keys := by
  induction ks generalizing s with
  | nil => rfl
  | cons k ks ih => exact (ih _).trans (keys_adjust k (-1) s)

omit [DecidableEq κ] in
/-- A collection takes objects away, and makes none. -/
theorem perm_collect (s : Objects κ) :
    (s.collect.collected ++ s.collect.keys).Perm (s.collected ++ s.keys) := by
  unfold collect keys
  rw [List.append_assoc, ← List.map_append]
  refine List.Perm.append_left _ (List.Perm.map _ ?_)
  exact List.filter_append_perm (fun o : κ × ℤ => o.2 == 0) s.live

end Objects

/-- The counts are those of the references, and what is referenced is there. -/
structure Holds (refs : κ → ℕ) (s : Objects κ) : Prop where
  nodup : (s.collected ++ s.keys).Nodup
  count : ∀ o ∈ s.live, o.2 = refs o.1
  live : ∀ k, refs k ≠ 0 → k ∈ s.keys

variable {refs refs' : κ → ℕ} {s : Objects κ} {k : κ}

namespace Holds

omit [DecidableEq κ] in
theorem empty : Holds (fun _ : κ => 0) {} :=
  ⟨List.nodup_nil, nofun, fun _ h => absurd rfl h⟩

omit [DecidableEq κ] in
theorem congr (h : Holds refs s) (heq : ∀ k, refs' k = refs k) : Holds refs' s :=
  (funext heq : refs' = refs) ▸ h

omit [DecidableEq κ] in
/-- What was collected is not referenced. -/
theorem not_referenced (h : Holds refs s) (hk : k ∈ s.collected) : refs k = 0 := by
  by_contra hne
  exact List.disjoint_of_nodup_append h.nodup hk (h.live k hne)

omit [DecidableEq κ] in
theorem add (h : Holds refs s) (hfresh : k ∉ s.collected ++ s.keys) : Holds refs (s.add k) := by
  rw [List.mem_append, not_or] at hfresh
  refine ⟨?_, ?_, ?_⟩
  · rw [Objects.collected_add, Objects.keys_add, List.nodup_middle, List.nodup_cons, List.mem_append,
      not_or]
    exact ⟨hfresh, h.nodup⟩
  · intro o ho
    rcases List.mem_cons.mp ho with rfl | ho
    · have hzero : refs k = 0 := by
        by_contra hne
        exact hfresh.2 (h.live k hne)
      simp [hzero]
    · exact h.count o ho
  · exact fun k' hk' => List.mem_cons_of_mem _ (h.live k' hk')

theorem acquire (h : Holds refs s) (hk : k ∈ s.keys) :
    Holds (fun k' => refs k' + if k' = k then 1 else 0) (s.adjust k 1) := by
  refine ⟨?_, ?_, ?_⟩
  · rw [Objects.collected_adjust, Objects.keys_adjust]
    exact h.nodup
  · intro o ho
    obtain ⟨o', ho', hkey, hcount⟩ := Objects.mem_live_adjust ho
    rw [hcount, hkey, h.count o' ho']
    split <;> simp
  · intro k' hk'
    rw [Objects.keys_adjust]
    by_cases heq : k' = k
    · rw [heq]
      exact hk
    · rw [if_neg heq, Nat.add_zero] at hk'
      exact h.live k' hk'

theorem drop (h : Holds (fun k' => refs k' + if k' = k then 1 else 0) s) :
    Holds refs (s.adjust k (-1)) := by
  refine ⟨?_, ?_, ?_⟩
  · rw [Objects.collected_adjust, Objects.keys_adjust]
    exact h.nodup
  · intro o ho
    obtain ⟨o', ho', hkey, hcount⟩ := Objects.mem_live_adjust ho
    rw [hcount, hkey, h.count o' ho']
    split <;> simp
  · intro k' hk'
    rw [Objects.keys_adjust]
    exact h.live k' (by omega)

/-- The references of a list are dropped. -/
theorem release {ks : List κ} (h : Holds refs s) (hrefs : ∀ k, refs' k + ks.count k = refs k) :
    Holds refs' (s.release ks) := by
  induction ks generalizing s refs with
  | nil => exact h.congr fun k => by simpa using hrefs k
  | cons k ks ih =>
    refine @ih (fun k' => refs' k' + ks.count k') (s.adjust k (-1)) (drop (h.congr fun k' => ?_))
      fun _ => rfl
    rw [← hrefs k', List.count_cons, Nat.add_assoc]
    by_cases hk : k' = k
    · simp [hk]
    · simp [hk, Ne.symm hk]

omit [DecidableEq κ] in
/-- The collector takes only what is not referenced. -/
theorem collect (h : Holds refs s) : Holds refs s.collect := by
  have hkeys : s.collect.keys = (s.live.filter fun o => o.2 != 0).map Prod.fst := rfl
  refine ⟨?_, ?_, ?_⟩
  · exact s.perm_collect.nodup_iff.mpr h.nodup
  · exact fun o ho => h.count o (List.mem_filter.mp ho).1
  · intro k hk
    obtain ⟨o, ho, rfl⟩ := List.mem_map.mp (h.live k hk)
    rw [hkeys]
    refine List.mem_map_of_mem (List.mem_filter.mpr ⟨ho, ?_⟩)
    rw [h.count o ho]
    simpa using hk

omit [DecidableEq κ] in
/-- After a collection there is nothing that is not referenced. -/
theorem referenced_of_collect (h : Holds refs s) (hk : k ∈ s.collect.keys) : refs k ≠ 0 := by
  obtain ⟨o, ho, rfl⟩ := List.mem_map.mp hk
  obtain ⟨hlive, hne⟩ := List.mem_filter.mp ho
  rw [h.count o hlive] at hne
  simpa using hne

end Holds

end RefCount
