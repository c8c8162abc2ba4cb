import Mathlib.Tactic

/-!
# Transducers that can be interrupted

A transducer reads its input symbol by symbol, with a state, and writes at most one symbol for each.
`run` reads a whole input.  `feed` writes into an output of limited size: it stops before the next
symbol once the output is full and tells how much it has read, so that the rest can be fed later from
the state that was reached.  The parts then make up the run on the whole input.
-/

namespace Transducer

variable {σ α β : Type}

/-- What a feeding ends with. -/
structure Fed (σ β : Type) where
  output : List β
  state : σ
  /-- The number of symbols that were read. -/
  consumed : ℕ

section

variable (step : σ → α → σ × Option β)

/-- The state and the output after the whole input. -/
def run : List α → σ → σ × List β
  | [], s => (s, [])
  | a :: l, s =>
      let res := step s a
      let rest := run l res.1
      (rest.1, res.2.toList ++ rest.2)

/-- The input is read until it ends or the output is full. -/
def feed : List α → ℕ → σ → Fed σ β
  | [], _, s => ⟨[], s, 0⟩
  | _ :: _, 0, s => ⟨[], s, 0⟩
  | a :: l, room + 1, s =>
      let res := step s a
      let rest := feed l (room + 1 - res.2.toList.length) res.1
      ⟨res.2.toList ++ rest.output, rest.state, rest.consumed + 1⟩

end

variable {step : σ → α → σ × Option β}

/-! ### Runs -/

theorem run_append (l₁ l₂ : List α) (s : σ) :
    run step (l₁ ++ l₂) s =
      ((run step l₂ (run step l₁ s).1).1, (run step l₁ s).2 ++ (run step l₂ (run step l₁ s).1).2) := by
  induction l₁ generalizing s with
  | nil => rfl
  | cons a l₁ ih =>
    rw [List.cons_append, run, run, ih]
    simp only [List.append_assoc]

/-- Symbols that change nothing and for which nothing is written may be left out. -/
theorem run_filter {p : α → Bool} (h : ∀ s a, p a = false → step s a = (s, none)) (l : List α)
    (s : σ) : run step (l.filter p) s = run step l s := by
  induction l generalizing s with
  | nil => rfl
  | cons a l ih =>
    cases ha : p a with
    | true => rw [List.filter_cons_of_pos ha, run, run, ih]
    | false =>
      rw [List.filter_cons_of_neg (by simp [ha]), run, h s a ha, ih]
      simp only [Option.toList_none, List.nil_append]

/-- At most one symbol is written for each that is read. -/
theorem length_run_le (l : List α) (s : σ) : (run step l s).2.length ≤ l.length := by
  induction l generalizing s with
  | nil => exact le_rfl
  | cons a l ih =>
    have hone : (step s a).2.toList.length ≤ 1 := by cases (step s a).2 <;> simp
    have hrest := ih (step s a).1
    simp only [run, List.length_append, List.length_cons]
    omega

/-! ### Feedings -/

/-- What was read is a part of the input, and the state and the output are those of the run on it. -/
theorem run_feed (l : List α) (room : ℕ) (s : σ) :
    (feed step l room s).consumed ≤ l.length ∧
      run step (l.take (feed step l room s).consumed) s =
        ((feed step l room s).state, (feed step l room s).output) := by
  induction l generalizing room s with
  | nil => exact ⟨le_rfl, rfl⟩
  | cons a l ih =>
    cases room with
    | zero => exact ⟨Nat.zero_le _, rfl⟩
    | succ room =>
      obtain ⟨hle, hrun⟩ := ih (room + 1 - (step s a).2.toList.length) (step s a).1
      refine ⟨Nat.succ_le_succ hle, ?_⟩
      rw [feed, List.take_succ_cons, run, hrun]

/-- Into an output of limited size goes the beginning of what the run writes. -/
theorem output_feed (l : List α) (room : ℕ) (s : σ) :
    (feed step l room s).output = (run step l s).2.take room := by
  induction l generalizing room s with
  | nil => rw [feed, run, List.take_nil]
  | cons a l ih =>
    cases room with
    | zero => rw [feed, List.take_zero]
    | succ room =>
      have hone : (step s a).2.toList.length ≤ room + 1 := by cases (step s a).2 <;> simp
      rw [feed, run, ih, List.take_append, List.take_of_length_le hone]

/-- A feeding stops at the end of the input, or because the output is full. -/
theorem consumed_feed (l : List α) (room : ℕ) (s : σ) :
    (feed step l room s).consumed = l.length ∨ (feed step l room s).output.length = room := by
  induction l generalizing room s with
  | nil => exact .inl rfl
  | cons a l ih =>
    cases room with
    | zero => exact .inr rfl
    | succ room =>
      have hone : (step s a).2.toList.length ≤ room + 1 := by cases (step s a).2 <;> simp
      rw [feed]
      rcases ih (room + 1 - (step s a).2.toList.length) (step s a).1 with hend | hfull
      · exact .inl (congrArg (· + 1) hend)
      · right
        rw [List.length_append, hfull]
        omega

/-- With room for the whole output everything is read. -/
theorem consumed_feed_of_le {l : List α} {room : ℕ} (s : σ) (h : l.length ≤ room) :
    (feed step l room s).consumed = l.length := by
  obtain ⟨hle, hrun⟩ := @run_feed _ _ _ step l room s
  rcases @consumed_feed _ _ _ step l room s with hend | hfull
  · exact hend
  · have hlength := @length_run_le _ _ _ step (l.take (feed step l room s).consumed) s
    rw [hrun, hfull, List.length_take] at hlength
    omega

/-- With room for a symbol something is read. -/
theorem consumed_feed_pos {l : List α} {room : ℕ} (s : σ) (hl : l ≠ []) (hroom : 0 < room) :
    0 < (feed step l room s).consumed := by
  obtain ⟨a, l, rfl⟩ := List.exists_cons_of_ne_nil hl
  obtain ⟨room, rfl⟩ := Nat.exists_eq_succ_of_ne_zero hroom.ne'
  exact Nat.succ_pos _

end Transducer
