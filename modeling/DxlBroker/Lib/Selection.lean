import Mathlib.Data.List.Rotate
import Mathlib.Data.Set.Basic

/-!
# Selection by rank and by turns

Candidates are cut into groups of rising rank, and each group is scanned in a circle from where the
last scan stopped.  The scan tries each candidate once, so what is found first is a candidate of the
least rank that passes the test.
-/

namespace Selection

variable {α σ : Type}

/-! ### A scan in a circle -/

section

variable (test : α → σ → Bool × σ)

/-- A bounded number of elements is tried, each from the position after the one before, and from the
start after the last.  The test may change a state. -/
def scan (l : List α) : ℕ → ℕ → σ → Option α × ℕ × σ
  | 0, position, s => (none, position, s)
  | tries + 1, position, s =>
      let position := if position = l.length then 0 else position
      match l[position]? with
      | none => (none, position, s)
      | some a =>
          let res := test a s
          if res.1 then (some a, position + 1, res.2) else scan l tries (position + 1) res.2

/-- The elements that a scan without success tries. -/
def visits (l : List α) : ℕ → ℕ → List α
  | 0, _ => []
  | tries + 1, position =>
      let position := if position = l.length then 0 else position
      match l[position]? with
      | none => []
      | some a => a :: visits l tries (position + 1)

/-- The test keeps the invariant of the state and answers as the property says. -/
def Decides (holds : σ → Prop) (p : α → Prop) : Prop :=
  ∀ a s, holds s → ((test a s).1 = true ↔ p a) ∧ holds (test a s).2

variable {test} {l : List α} {holds : σ → Prop} {p : α → Prop}

/-- A scan starts at the head of the rotation to its position, and goes on with the rotation by one
more; the end is the same rotation as the start. -/
theorem exists_start {position : ℕ} (hpos : position ≤ l.length) (hne : 0 < l.length) :
    ∃ start, (if position = l.length then 0 else position) = start ∧ start < l.length ∧
      ∃ a, l[start]? = some a ∧ l.rotate position = a :: (l.rotate position).tail ∧
        l.rotate (start + 1) = (l.rotate position).tail ++ [a] := by
  obtain ⟨start, hstart, hlt, hrotate⟩ : ∃ start,
      (if position = l.length then 0 else position) = start ∧ start < l.length ∧
        l.rotate position = l.rotate start := by
    by_cases hend : position = l.length
    · exact ⟨0, if_pos hend, hne, by rw [hend, List.rotate_length, List.rotate_zero]⟩
    · exact ⟨position, if_neg hend, by omega, rfl⟩
  have hhead : l.rotate start = l[start] :: (l.rotate start).tail := by
    have hnil : l.rotate start ≠ [] := by
      rw [ne_eq, List.rotate_eq_nil_iff]
      exact List.ne_nil_of_length_pos hne
    conv_lhs => rw [← List.cons_head_tail hnil]
    rw [List.head_eq_getElem, List.getElem_rotate]
    simp only [Nat.zero_add, Nat.mod_eq_of_lt hlt]
  have hnext : l.rotate (start + 1) = (l.rotate start).tail ++ [l[start]] := by
    rw [← List.rotate_rotate, hhead, List.rotate_cons_succ, List.rotate_zero]
    rfl
  rw [hrotate]
  exact ⟨start, hstart, hlt, l[start], List.getElem?_eq_getElem hlt, hhead, hnext⟩

/-- As many tries as there are elements go once around. -/
theorem visits_eq_rotate {tries position : ℕ} (hpos : position ≤ l.length)
    (htries : tries ≤ l.length) : visits l tries position = (l.rotate position).take tries := by
  induction tries generalizing position with
  | zero => rfl
  | succ tries ih =>
    obtain ⟨start, hstart, hlt, a, hget, hhead, hnext⟩ := exists_start hpos (by omega)
    rw [visits, hstart]
    simp only [hget]
    rw [ih (by omega) (by omega), hhead, List.take_succ_cons, hnext, List.take_append_of_le_length]
    rw [List.length_tail, List.length_rotate]
    omega

/-- The scan never stops behind the end. -/
theorem scan_position_le {tries position : ℕ} (hpos : position ≤ l.length) (s : σ) :
    (scan test l tries position s).2.1 ≤ l.length := by
  induction tries generalizing position s with
  | zero => exact hpos
  | succ tries ih =>
    rw [scan]
    generalize hstart : (if position = l.length then 0 else position) = start
    cases hget : l[start]? with
    | none =>
      show start ≤ l.length
      split_ifs at hstart <;> omega
    | some a =>
      have hlt := (List.getElem?_eq_some_iff.mp hget).1
      simp only
      split_ifs
      · exact hlt
      · exact ih hlt _

/-- What a scan finds: the first element that it tries and that has the property. -/
theorem scan_spec (htest : Decides test holds p) {tries position : ℕ} {s : σ} (hs : holds s) :
    holds (scan test l tries position s).2.2 ∧
      match (scan test l tries position s).1 with
      | none => ∀ a ∈ visits l tries position, ¬ p a
      | some a => a ∈ l ∧ p a := by
  induction tries generalizing position s with
  | zero => exact ⟨hs, fun a ha => by cases ha⟩
  | succ tries ih =>
    rw [scan, visits]
    generalize (if position = l.length then 0 else position) = start
    cases hget : l[start]? with
    | none => exact ⟨hs, fun a ha => by cases ha⟩
    | some a =>
      obtain ⟨hiff, hs'⟩ := htest a s hs
      simp only
      split_ifs with hfound
      · exact ⟨hs', List.mem_of_getElem? hget, hiff.mp hfound⟩
      · obtain ⟨hs'', hrest⟩ := @ih (start + 1) (test a s).2 hs'
        refine ⟨hs'', ?_⟩
        revert hrest
        cases (scan test l tries (start + 1) (test a s).2).1 with
        | none =>
          intro hrest b hb
          rcases List.mem_cons.mp hb with rfl | hb
          · exact fun hp => hfound (hiff.mpr hp)
          · exact hrest b hb
        | some b => exact id

/-- What a scan finds is one of the elements that it tries. -/
theorem mem_visits_of_scan {tries position : ℕ} {s : σ} {a : α}
    (h : (scan test l tries position s).1 = some a) : a ∈ visits l tries position := by
  induction tries generalizing position s with
  | zero => cases h
  | succ tries ih =>
    rw [scan] at h
    rw [visits]
    generalize (if position = l.length then 0 else position) = start at h ⊢
    cases hget : l[start]? with
    | none =>
      rw [hget] at h
      cases h
    | some b =>
      rw [hget] at h
      simp only at h ⊢
      split_ifs at h
      · rw [Option.some.inj h]
        exact List.mem_cons_self
      · exact List.mem_cons_of_mem b (ih h)

/-- A scan that reaches an element of the property finds it and stops behind it. -/
theorem scan_of_rotate (htest : Decides test holds p) {tries position : ℕ} {s : σ} (hs : holds s)
    (hpos : position ≤ l.length) {before after : List α} {a : α}
    (hrotate : l.rotate position = before ++ a :: after) (hbefore : ∀ b ∈ before, ¬ p b)
    (ha : p a) (htries : before.length < tries) :
    (scan test l tries position s).1 = some a ∧
      (scan test l tries position s).2.1 ≤ l.length ∧
      l.rotate (scan test l tries position s).2.1 = after ++ (before ++ [a]) := by
  induction before generalizing tries position s after with
  | nil =>
    obtain ⟨tries, rfl⟩ := Nat.exists_eq_succ_of_ne_zero (Nat.ne_of_gt htries)
    have hlength := congrArg List.length hrotate
    rw [List.length_rotate] at hlength
    simp only [List.nil_append, List.length_cons] at hlength
    obtain ⟨start, hstart, hlt, b, hget, hhead, hnext⟩ := exists_start hpos (by omega)
    rw [hrotate] at hhead hnext
    obtain ⟨rfl, -⟩ := List.cons_eq_cons.mp hhead
    rw [scan, hstart]
    simp only [hget]
    rw [if_pos ((htest a s hs).1.mpr ha)]
    exact ⟨rfl, hlt, hnext⟩
  | cons b before ih =>
    obtain ⟨tries, rfl⟩ := Nat.exists_eq_succ_of_ne_zero (Nat.ne_of_gt (Nat.zero_lt_of_lt htries))
    have hlength := congrArg List.length hrotate
    rw [List.length_rotate] at hlength
    simp only [List.cons_append, List.length_cons] at hlength
    obtain ⟨start, hstart, hlt, b', hget, hhead, hnext⟩ := exists_start hpos (by omega)
    rw [hrotate] at hhead hnext
    obtain ⟨rfl, -⟩ := List.cons_eq_cons.mp hhead
    -- A failed try moves the head of the rotation to its end.
    have hfail : ¬ (test b s).1 = true := fun h =>
      hbefore b List.mem_cons_self ((htest b s hs).1.mp h)
    rw [scan, hstart]
    simp only [hget]
    rw [if_neg hfail]
    have hnext' : l.rotate (start + 1) = before ++ a :: (after ++ [b]) := by
      rw [hnext, List.cons_append, List.tail_cons, List.append_assoc, List.cons_append]
    obtain ⟨hfound, hpos', hrotate'⟩ := ih (htest b s hs).2 hlt hnext'
      (fun c hc => hbefore c (List.mem_cons_of_mem b hc)) (Nat.lt_of_succ_lt_succ htries)
    refine ⟨hfound, hpos', ?_⟩
    rw [hrotate']
    simp

end

/-! ### Turns -/

/-- From its first state on the test answers for the elements of a list as the property says. -/
def Settles (test : α → σ → Bool × σ) (s : σ) (l : List α) (p : α → Bool) : Prop :=
  ∃ (holds : σ → Prop) (q : α → Prop), Decides test holds q ∧ holds s ∧ ∀ a ∈ l, q a ↔ p a = true

/-- A scan finds the next element in turn, which is the last one then. -/
theorem scan_turn {test : α → σ → Bool × σ} {s : σ} {l : List α} {p : α → Bool}
    (htest : Settles test s l p) {position : ℕ} (hpos : position ≤ l.length) {a : α}
    {rest : List α} (hfilter : (l.rotate position).filter p = a :: rest) :
    (scan test l l.length position s).1 = some a ∧
      (scan test l l.length position s).2.1 ≤ l.length ∧
      (l.rotate (scan test l l.length position s).2.1).filter p = rest ++ [a] := by
  obtain ⟨holds, q, hdecides, hs, hq⟩ := htest
  obtain ⟨before, after, hrotate, hbefore, ha, hafter⟩ := List.filter_eq_cons_iff.mp hfilter
  have hmem : ∀ b ∈ before ++ a :: after, b ∈ l := fun b hb => by
    rw [← hrotate, List.mem_rotate] at hb
    exact hb
  have hlength := congrArg List.length hrotate
  rw [List.length_rotate, List.length_append, List.length_cons] at hlength
  obtain ⟨hfound, hpos', hrotate'⟩ := scan_of_rotate hdecides hs hpos hrotate
    (fun b hb hqb => hbefore b hb ((hq b (hmem b (List.mem_append_left _ hb))).mp hqb))
    ((hq a (hmem a (by simp))).mpr ha) (show before.length < l.length by omega)
  refine ⟨hfound, hpos', ?_⟩
  rw [hrotate', List.filter_append, List.filter_append, hafter, List.filter_eq_nil_iff.mpr hbefore,
    List.filter_cons_of_pos ha]
  rfl

/-- One scan after the other, each from where the last one stopped.  The scans may have tests and
states of their own. -/
def turns {ι : Type} (test : ι → α → σ → Bool × σ) (init : ι → σ) (l : List α) (tries : ℕ) :
    List ι → ℕ → List (Option α)
  | [], _ => []
  | c :: calls, position =>
      let res := scan (test c) l tries position (init c)
      res.1 :: turns test init l tries calls res.2.1

/-- Scans that decide the same property find its elements in turn. -/
theorem turns_eq {ι : Type} {test : ι → α → σ → Bool × σ} {init : ι → σ} {l : List α}
    {p : α → Bool} {calls : List ι} {position : ℕ} (hpos : position ≤ l.length)
    (htest : ∀ c ∈ calls, Settles (test c) (init c) l p)
    (hcalls : calls.length ≤ ((l.rotate position).filter p).length) :
    turns test init l l.length calls position =
      (((l.rotate position).filter p).take calls.length).map some := by
  induction calls generalizing position with
  | nil => rfl
  | cons c calls ih =>
    rw [List.length_cons] at hcalls
    obtain ⟨a, rest, hfilter⟩ := List.exists_cons_of_length_pos (Nat.zero_lt_of_lt hcalls)
    obtain ⟨hfound, hpos', hfilter'⟩ :=
      scan_turn (htest c List.mem_cons_self) hpos hfilter
    rw [hfilter, List.length_cons] at hcalls
    rw [turns, hfound, hfilter, List.length_cons, List.take_succ_cons, List.map_cons,
      ih hpos' (fun c' hc' => htest c' (List.mem_cons_of_mem c hc')), hfilter',
      List.take_append_of_le_length (by omega)]
    rw [hfilter', List.length_append]
    omega

/-- As many scans as there are elements of the property find each of them once. -/
theorem turns_fair {ι : Type} {test : ι → α → σ → Bool × σ} {init : ι → σ} {l : List α}
    (hnodup : l.Nodup) {p : α → Bool} {calls : List ι} {position : ℕ}
    (hpos : position ≤ l.length)
    (htest : ∀ c ∈ calls, Settles (test c) (init c) l p)
    (hcalls : calls.length = (l.filter p).length) :
    ∃ found : List α, turns test init l l.length calls position = found.map some ∧
      found.Nodup ∧ ∀ a, a ∈ found ↔ a ∈ l ∧ p a = true := by
  have hperm : ((l.rotate position).filter p).Perm (l.filter p) :=
    (List.rotate_perm l position).filter p
  refine ⟨(l.rotate position).filter p, ?_, (List.nodup_rotate.mpr hnodup).filter p, fun a => ?_⟩
  · rw [turns_eq hpos htest (hcalls.trans hperm.length_eq.symm).le,
      List.take_of_length_le (hperm.length_eq.trans hcalls.symm).le]
  · rw [List.mem_filter, List.mem_rotate]

/-! ### Groups of rising rank -/

/-- The first group with an element of the property has this one. -/
def FirstWith (p : α → Prop) (groups : List (List α)) (a : α) : Prop :=
  ∃ before g after, groups = before ++ g :: after ∧ (∀ g' ∈ before, ∀ b ∈ g', ¬ p b) ∧ a ∈ g ∧ p a

theorem FirstWith.head {p : α → Prop} {g : List α} {a : α} (ha : a ∈ g) (hp : p a)
    (groups : List (List α)) : FirstWith p (g :: groups) a :=
  ⟨[], g, groups, rfl, fun _ hg' => absurd hg' List.not_mem_nil, ha, hp⟩

theorem FirstWith.cons {p : α → Prop} {groups : List (List α)} {a : α}
    (h : FirstWith p groups a) {g : List α} (hg : ∀ b ∈ g, ¬ p b) : FirstWith p (g :: groups) a := by
  obtain ⟨before, g', after, rfl, hbefore, ha, hp⟩ := h
  refine ⟨g :: before, g', after, rfl, fun g'' hg'' => ?_, ha, hp⟩
  rcases List.mem_cons.mp hg'' with rfl | hg''
  · exact hg
  · exact hbefore g'' hg''

/-- A group is added, unless it is empty. -/
def addGroup (groups : List (List α)) (g : List α) : List (List α) :=
  if g = [] then groups else groups ++ [g]

/-- A list cut into groups: nothing is lost or added, no group is empty, and a group has one rank,
lower than those of the groups after it. -/
structure Grouping (rank : α → ℕ) (l : List α) (groups : List (List α)) : Prop where
  perm : groups.flatten.Perm l
  nonempty : ∀ g ∈ groups, g ≠ []
  same : ∀ g ∈ groups, ∀ a ∈ g, ∀ b ∈ g, rank a = rank b
  ordered : groups.Pairwise fun g g' => ∀ a ∈ g, ∀ b ∈ g', rank a < rank b

section

variable {rank : α → ℕ} {l : List α} {groups : List (List α)} {p : α → Prop}

theorem Grouping.nil (rank : α → ℕ) : Grouping rank [] [] where
  perm := .refl _
  nonempty g hg := by cases hg
  same g hg := by cases hg
  ordered := .nil

theorem Grouping.mem (h : Grouping rank l groups) {a : α} :
    (∃ g ∈ groups, a ∈ g) ↔ a ∈ l := by
  rw [← h.perm.mem_iff, List.mem_flatten]

theorem Grouping.length_le (h : Grouping rank l groups) {g : List α} (hg : g ∈ groups) :
    g.length ≤ l.length :=
  h.perm.length_eq ▸ (List.sublist_flatten_of_mem hg).length_le

theorem Grouping.of_perm (h : Grouping rank l groups) {l' : List α} (hperm : l.Perm l') :
    Grouping rank l' groups :=
  ⟨h.perm.trans hperm, h.nonempty, h.same, h.ordered⟩

/-- Only the ranks of the elements matter. -/
theorem Grouping.congr (h : Grouping rank l groups) {rank' : α → ℕ}
    (hrank : ∀ a ∈ l, rank' a = rank a) : Grouping rank' l groups := by
  have hmem : ∀ g ∈ groups, ∀ a ∈ g, rank' a = rank a :=
    fun g hg a ha => hrank a (h.mem.mp ⟨g, hg, ha⟩)
  refine ⟨h.perm, h.nonempty, fun g hg a ha b hb => ?_, ?_⟩
  · rw [hmem g hg a ha, hmem g hg b hb]
    exact h.same g hg a ha b hb
  · refine h.ordered.imp_of_mem fun {g g'} hg hg' hlt a ha b hb => ?_
    rw [hmem g hg a ha, hmem g' hg' b hb]
    exact hlt a ha b hb

/-- A group of a higher rank is added at the end. -/
theorem Grouping.add (h : Grouping rank l groups) {g : List α}
    (hhigher : ∀ a ∈ l, ∀ b ∈ g, rank a < rank b)
    (hsame : ∀ a ∈ g, ∀ b ∈ g, rank a = rank b) : Grouping rank (l ++ g) (addGroup groups g) := by
  unfold addGroup
  split_ifs with hg
  · rw [hg, List.append_nil]
    exact h
  · refine ⟨?_, fun g' hg' => ?_, fun g' hg' => ?_, ?_⟩
    · rw [List.flatten_append, List.flatten_singleton]
      exact h.perm.append_right g
    · rcases List.mem_append.mp hg' with hg' | hg'
      · exact h.nonempty g' hg'
      · rw [List.mem_singleton.mp hg']
        exact hg
    · rcases List.mem_append.mp hg' with hg' | hg'
      · exact h.same g' hg'
      · rw [List.mem_singleton.mp hg']
        exact hsame
    · refine List.pairwise_append.mpr ⟨h.ordered, List.pairwise_singleton _ _, ?_⟩
      intro g' hg' g'' hg'' a ha b hb
      rw [List.mem_singleton.mp hg''] at hb
      exact hhigher a (h.mem.mp ⟨g', hg', ha⟩) b hb

/-- The groups of the ranks up to a bound, and the elements of higher ranks. -/
def GroupedUpTo (rank : α → ℕ) (l : List α) (n : ℕ) (groups : List (List α)) (rest : List α) :
    Prop :=
  ∃ taken, Grouping rank taken groups ∧ (taken ++ rest).Perm l ∧ (∀ a ∈ taken, rank a ≤ n) ∧
    ∀ a ∈ rest, n < rank a

/-- The elements of the lowest rank are taken first. -/
theorem GroupedUpTo.start {q : α → Bool} (hq : ∀ a ∈ l, q a = true ↔ rank a = 0) :
    GroupedUpTo rank l 0 (addGroup [] (l.filter q)) (l.filter fun a => !q a) := by
  refine ⟨l.filter q, ?_, List.filter_append_perm q l, fun a ha => ?_, fun a ha => ?_⟩
  · refine (Grouping.nil rank).add (fun a ha => by cases ha) fun a ha b hb => ?_
    rw [List.mem_filter] at ha hb
    rw [(hq a ha.1).mp ha.2, (hq b hb.1).mp hb.2]
  · rw [List.mem_filter] at ha
    exact ((hq a ha.1).mp ha.2).le
  · rw [List.mem_filter] at ha
    by_contra hzero
    have := (hq a ha.1).mpr (by omega)
    simp [this] at ha

/-- The elements of the next rank are taken. -/
theorem GroupedUpTo.take {n : ℕ} {rest : List α} (h : GroupedUpTo rank l n groups rest)
    {q : α → Bool} (hq : ∀ a ∈ rest, q a = true ↔ rank a = n + 1) :
    GroupedUpTo rank l (n + 1) (addGroup groups (rest.filter q)) (rest.filter fun a => !q a) := by
  obtain ⟨taken, hgroups, hperm, hlow, hhigh⟩ := h
  have hfound : ∀ a ∈ rest.filter q, rank a = n + 1 := by
    intro a ha
    rw [List.mem_filter] at ha
    exact (hq a ha.1).mp ha.2
  refine ⟨taken ++ rest.filter q, hgroups.add ?_ ?_, ?_, fun a ha => ?_, fun a ha => ?_⟩
  · intro a ha b hb
    rw [hfound b hb]
    exact Nat.lt_succ_of_le (hlow a ha)
  · intro a ha b hb
    rw [hfound a ha, hfound b hb]
  · rw [List.append_assoc]
    exact ((List.filter_append_perm q rest).append_left taken).trans hperm
  · rcases List.mem_append.mp ha with ha | ha
    · exact (hlow a ha).trans (Nat.le_succ n)
    · exact (hfound a ha).le
  · rw [List.mem_filter] at ha
    have hlt := hhigh a ha.1
    have hne : rank a ≠ n + 1 := by
      intro heq
      have := (hq a ha.1).mpr heq
      simp [this] at ha
    omega

/-- All that is left is one rank. -/
theorem GroupedUpTo.finish {n : ℕ} {rest : List α} (h : GroupedUpTo rank l n groups rest)
    (hrest : ∀ a ∈ rest, rank a = n + 1) : Grouping rank l (addGroup groups rest) := by
  obtain ⟨taken, hgroups, hperm, hlow, hhigh⟩ := h
  refine (hgroups.add ?_ ?_).of_perm hperm
  · exact fun a ha b hb => (hlow a ha).trans_lt (hhigh b hb)
  · intro a ha b hb
    rw [hrest a ha, hrest b hb]

/-- The elements of the first group with the property are those of the least rank. -/
theorem Grouping.firstWith_iff (h : Grouping rank l groups) {a : α} :
    FirstWith p groups a ↔ a ∈ l ∧ p a ∧ ∀ b ∈ l, p b → rank a ≤ rank b := by
  constructor
  · rintro ⟨before, g, after, rfl, hbefore, ha, hp⟩
    have hg : g ∈ before ++ g :: after := by simp
    refine ⟨h.mem.mp ⟨g, hg, ha⟩, hp, fun b hb hpb => ?_⟩
    obtain ⟨g', hg', hbg⟩ := h.mem.mpr hb
    rcases List.mem_append.mp hg' with hg' | hg'
    · exact absurd hpb (hbefore g' hg' b hbg)
    · rcases List.mem_cons.mp hg' with rfl | hg'
      · exact (h.same g' hg a ha b hbg).le
      · have hordered := (List.pairwise_append.mp h.ordered).2.1
        exact ((List.pairwise_cons.mp hordered).1 g' hg' a ha b hbg).le
  · rintro ⟨ha, hp, hleast⟩
    obtain ⟨g, hg, hag⟩ := h.mem.mpr ha
    obtain ⟨before, after, rfl⟩ := List.append_of_mem hg
    refine ⟨before, g, after, rfl, fun g' hg' b hb hpb => ?_, hag, hp⟩
    have hlt := (List.pairwise_append.mp h.ordered).2.2 g' hg' g List.mem_cons_self b hb a hag
    have hb' : b ∈ l := h.mem.mp ⟨g', List.mem_append_left _ hg', hb⟩
    exact absurd (hleast b hb' hpb) (Nat.not_le.mpr hlt)

end

end Selection
