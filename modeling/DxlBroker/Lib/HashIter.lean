import Mathlib.Data.List.Nodup
import Mathlib.Data.List.TakeWhile

/-!
# Loops over a set that changes

A loop over a set that is kept in the order of insertion remembers the next element before its body
runs, so that the body may take away the element it is called for.  It may also put elements into the
set, which come behind the others.  If it takes away the element that is remembered, the loop goes on
from freed memory.
-/

namespace HashIter

variable {α σ ι : Type} [DecidableEq α]

/-- An element is put into the set, if it is not there. -/
def add (l : List α) (a : α) : List α := if l.contains a then l else l ++ [a]

@[simp] theorem mem_add {l : List α} {a b : α} : b ∈ add l a ↔ b ∈ l ∨ b = a := by
  unfold add
  split_ifs with h
  · have hmem : a ∈ l := List.contains_iff_mem.mp h
    constructor
    · exact .inl
    · rintro (hb | rfl)
      · exact hb
      · exact hmem
  · simp

theorem nodup_add {l : List α} {a : α} (h : l.Nodup) : (add l a).Nodup := by
  unfold add
  split_ifs with hmem
  · exact h
  · have hnot : a ∉ l := fun ha => hmem (List.contains_iff_mem.mpr ha)
    exact h.append (List.nodup_singleton a) (List.disjoint_singleton.mpr hnot)

/-- The element behind another one. -/
def next (l : List α) (a : α) : Option α := (l.dropWhile fun b => b != a).tail.head?

/-- What a loop comes to: the state, the elements that were visited, whether it came to its end, and
whether the element it had remembered was freed. -/
structure Loop (α σ : Type) where
  state : σ
  visited : List α
  ended : Bool
  fault : Bool

/-- The loop from an element on; every call of the body takes an input, and the loop is looked at when
there are no more. -/
def iterate (set : σ → List α) (body : ι → α → σ → σ) : List ι → Option α → σ → Loop α σ
  | _, none, s => ⟨s, [], true, false⟩
  | [], some _, s => ⟨s, [], false, false⟩
  | input :: inputs, some a, s =>
      let tmp := next (set s) a
      let s := body input a s
      if tmp.all fun b => (set s).contains b then
        let l := iterate set body inputs tmp s
        { l with visited := a :: l.visited }
      else ⟨s, [a], false, true⟩

def loop (set : σ → List α) (body : ι → α → σ → σ) (inputs : List ι) (s : σ) : Loop α σ :=
  iterate set body inputs (set s).head? s

/-- What a body may do to the set: take away the element it is called for, and add others. -/
def Goes (a : α) (l l' : List α) : Prop :=
  ∃ more, l' = l ++ more ∨ l' = l.erase a ++ more

theorem next_append {before rest : List α} {a : α} (h : a ∉ before) :
    next (before ++ a :: rest) a = rest.head? := by
  unfold next
  rw [List.dropWhile_append_of_pos fun b hb => by
    simpa using fun heq : b = a => h (heq ▸ hb)]
  simp

variable {set : σ → List α} {body : ι → α → σ → σ} {P : σ → Prop}

@[simp] theorem iterate_none {inputs : List ι} {s : σ} :
    iterate set body inputs none s = ⟨s, [], true, false⟩ := by
  cases inputs <;> rfl

/-- The loop keeps what its body keeps. -/
theorem iterate_invariant (hbody : ∀ input a s, P s → a ∈ set s → P (body input a s))
    {inputs : List ι} {s : σ} {el : Option α} (hP : P s) (hel : ∀ a, el = some a → a ∈ set s) :
    P (iterate set body inputs el s).state := by
  induction inputs generalizing s el with
  | nil => cases el <;> exact hP
  | cons input inputs ih =>
    cases el with
    | none => exact hP
    | some a =>
      have hP' := hbody input a s hP (hel a rfl)
      simp only [iterate]
      split_ifs with htmp
      · refine ih hP' fun b hb => ?_
        rw [hb] at htmp
        exact List.contains_iff_mem.mp htmp
      · exact hP'

variable {bad : σ → Prop}

/-- Unless the body goes wrong, the loop does not come to freed memory, and visits what it has before
it. -/
theorem iterate_spec (hbody : ∀ input a s, P s → a ∈ set s → P (body input a s))
    (hbad : ∀ input a s, bad s → bad (body input a s))
    (hgoes : ∀ input a s, P s → a ∈ set s → ¬ bad (body input a s) →
      Goes a (set s) (set (body input a s)))
    (hnodup : ∀ s, P s → (set s).Nodup) {inputs : List ι} {s : σ} {before : List α} {el : Option α}
    {rest : List α} (hP : P s) (hset : set s = before ++ rest) (hel : rest.head? = el)
    (hnot : ¬ bad (iterate set body inputs el s).state) :
    (iterate set body inputs el s).fault = false ∧
      ((iterate set body inputs el s).ended = true →
        ∀ a ∈ rest, a ∈ (iterate set body inputs el s).visited) := by
  induction inputs generalizing s before el rest with
  | nil =>
    cases rest with
    | nil =>
      subst hel
      exact ⟨rfl, fun _ a ha => absurd ha List.not_mem_nil⟩
    | cons a rest =>
      subst hel
      exact ⟨rfl, nofun⟩
  | cons input inputs ih =>
    cases rest with
    | nil =>
      subst hel
      exact ⟨rfl, fun _ a ha => absurd ha List.not_mem_nil⟩
    | cons a rest =>
      subst hel
      have hsplit := hnodup s hP
      rw [hset] at hsplit
      have hbefore : a ∉ before := fun ha =>
        List.disjoint_of_nodup_append hsplit ha List.mem_cons_self
      have ha : a ∈ set s := by simp [hset]
      have hP' := hbody input a s hP ha
      -- what goes wrong stays wrong
      have hnot' : ¬ bad (body input a s) := fun hwrong => by
        refine hnot ?_
        simp only [List.head?_cons, iterate]
        split_ifs with htmp
        · refine @iterate_invariant α σ ι _ set body bad (fun input a s h _ => hbad input a s h)
            inputs _ _ hwrong fun b hb => ?_
          rw [hb] at htmp
          exact List.contains_iff_mem.mp htmp
        · exact hwrong
      obtain ⟨more, heq⟩ := hgoes input a s hP ha hnot'
      -- the visited element stays before the others, or is gone
      obtain ⟨before', hafter⟩ : ∃ before', set (body input a s) = before' ++ (rest ++ more) := by
        rcases heq with heq | heq
        · exact ⟨before ++ [a], by rw [heq, hset]; simp⟩
        · refine ⟨before, ?_⟩
          rw [heq, hset, List.erase_append_right _ hbefore, List.erase_cons_head, List.append_assoc]
      simp only [List.head?_cons, iterate] at hnot ⊢
      rw [hset, next_append hbefore] at hnot ⊢
      cases rest with
      | nil =>
        simp only [List.head?_nil, Option.all_none, if_true, iterate_none]
        refine ⟨trivial, fun _ b hb => ?_⟩
        rw [List.mem_singleton] at hb
        rw [hb]
        exact List.mem_cons_self
      | cons b rest =>
        have hb : ((b :: rest).head?.all fun b => (set (body input a s)).contains b) = true := by
          simp [hafter]
        rw [if_pos hb] at hnot ⊢
        obtain ⟨hfault, hvisited⟩ := ih hP' hafter (show (b :: rest ++ more).head? = some b from rfl)
          hnot
        refine ⟨hfault, fun hended c hc => ?_⟩
        rcases List.mem_cons.mp hc with rfl | hc
        · exact List.mem_cons_self
        · exact List.mem_cons_of_mem a (hvisited hended c (List.mem_append_left more hc))

theorem loop_invariant (hbody : ∀ input a s, P s → a ∈ set s → P (body input a s))
    {inputs : List ι} {s : σ} (hP : P s) : P (loop set body inputs s).state :=
  iterate_invariant hbody hP fun _ ha => List.mem_of_head? ha

theorem loop_spec (hbody : ∀ input a s, P s → a ∈ set s → P (body input a s))
    (hbad : ∀ input a s, bad s → bad (body input a s))
    (hgoes : ∀ input a s, P s → a ∈ set s → ¬ bad (body input a s) →
      Goes a (set s) (set (body input a s)))
    (hnodup : ∀ s, P s → (set s).Nodup) {inputs : List ι} {s : σ} (hP : P s)
    (hnot : ¬ bad (loop set body inputs s).state) :
    (loop set body inputs s).fault = false ∧ ((loop set body inputs s).ended = true →
      ∀ a ∈ set s, a ∈ (loop set body inputs s).visited) :=
  iterate_spec hbody hbad hgoes hnodup hP (List.nil_append _).symm rfl hnot

end HashIter
