import Mathlib.Tactic

/-!
# A worker behind two queues

A worker takes jobs from an in-queue and puts their results into an out-queue.  It leaves a job in
the in-queue until its result is out, so that an owner who looks at both queues at once finds every
job that it has handed in and not collected.  The status, however, is asked for by looking at the
out-queue and then at the in-queue, and the worker may go on in between.

`Worker.pending` are the jobs that were handed in and not collected, in order: no step of the worker
changes them.  A read is `Torn` when a job is finished between its two halves; it is the only read
that finds nothing while a job is pending.
-/

namespace WorkQueue

/-- The in-queue is `finished` followed by `waiting`. -/
structure Worker (α ρ : Type) where
  /-- The first job, when its result is out already. -/
  finished : Option α := none
  waiting : List α := []
  outqueue : List (α × ρ) := []

/-- What the worker does: put the result of the first job out, or take that job from the queue. -/
inductive WorkerStep (ρ : Type)
  | report (r : ρ)
  | done

inductive WorkStatus
  | nothing
  | working
  | resultsAvailable
  deriving DecidableEq

namespace Worker

variable {α ρ : Type}

def step (w : Worker α ρ) : WorkerStep ρ → Worker α ρ
  | .report r =>
      match w.finished, w.waiting with
      | none, a :: l => { finished := some a, waiting := l, outqueue := w.outqueue ++ [(a, r)] }
      | _, _ => w
  | .done => { w with finished := none }

def steps (w : Worker α ρ) (l : List (WorkerStep ρ)) : Worker α ρ := l.foldl step w

def hasResult (w : Worker α ρ) : Bool := !w.outqueue.isEmpty

def hasWork (w : Worker α ρ) : Bool := w.finished.isSome || !w.waiting.isEmpty

/-- The two reads of a status, with the steps of the worker between them. -/
def getStatus (w : Worker α ρ) (between : List (WorkerStep ρ)) : WorkStatus × Worker α ρ :=
  if w.hasResult then (.resultsAvailable, w)
  else if (w.steps between).hasWork then (.working, w.steps between)
  else (.nothing, w.steps between)

/-- A job is handed in. -/
def push (w : Worker α ρ) (a : α) : Worker α ρ := { w with waiting := w.waiting ++ [a] }

/-- A result is collected. -/
def pop (w : Worker α ρ) : Option ((α × ρ) × Worker α ρ) :=
  match w.outqueue with
  | [] => none
  | x :: l => some (x, { w with outqueue := l })

/-! ### What is pending -/

/-- The jobs that were handed in and whose results were not collected. -/
def pending (w : Worker α ρ) : List α := w.outqueue.map Prod.fst ++ w.waiting

theorem pending_step (w : Worker α ρ) (x : WorkerStep ρ) : (w.step x).pending = w.pending := by
  cases x with
  | report r =>
    simp only [step]
    split
    · rename_i a l hwaiting
      simp [pending, hwaiting]
    · rfl
  | done => rfl

theorem pending_steps (w : Worker α ρ) (l : List (WorkerStep ρ)) :
    (w.steps l).pending = w.pending := by
  induction l generalizing w with
  | nil => rfl
  | cons x l ih => exact (ih _).trans (w.pending_step x)

theorem pending_push (w : Worker α ρ) (a : α) : (w.push a).pending = w.pending ++ [a] := by
  simp [pending, push]

theorem pending_pop {w w' : Worker α ρ} {x : α × ρ} (h : w.pop = some (x, w')) :
    w.pending = x.1 :: w'.pending := by
  unfold pop at h
  split at h
  · cases h
  · rename_i y l hout
    cases h
    simp [pending, hout]

theorem pending_getStatus (w : Worker α ρ) (between : List (WorkerStep ρ)) :
    (w.getStatus between).2.pending = w.pending := by
  unfold getStatus
  split_ifs
  · rfl
  · exact w.pending_steps between
  · exact w.pending_steps between

/-- The worker finishes a job between the two reads. -/
def Torn (w : Worker α ρ) (between : List (WorkerStep ρ)) : Prop :=
  w.hasResult = false ∧ (w.steps between).hasWork = false ∧ (w.steps between).hasResult = true

instance (w : Worker α ρ) (between : List (WorkerStep ρ)) : Decidable (w.Torn between) :=
  inferInstanceAs (Decidable (_ ∧ _ ∧ _))

theorem pending_eq_nil_of_idle {w : Worker α ρ} (hout : w.hasResult = false)
    (hin : w.hasWork = false) : w.pending = [] := by
  simp only [hasResult, hasWork, Bool.not_eq_false', Bool.or_eq_false_iff, List.isEmpty_iff] at hout hin
  rw [pending, hout, hin.2]
  rfl

/-- A read that finds nothing is right unless it is torn. -/
theorem nothing_iff_torn {w w' : Worker α ρ} {between : List (WorkerStep ρ)}
    (h : w.getStatus between = (.nothing, w')) : w.pending ≠ [] ↔ w.Torn between := by
  obtain ⟨hout, hin⟩ : w.hasResult = false ∧ (w.steps between).hasWork = false := by
    unfold getStatus at h
    split_ifs at h with hout hin
    · cases h
    · cases h
    · exact ⟨by simpa using hout, by simpa using hin⟩
  have hsame := w.pending_steps between
  constructor
  · intro hne
    refine ⟨hout, hin, ?_⟩
    -- With both queues empty nothing would be pending.
    by_contra hres
    exact hne (hsame ▸ pending_eq_nil_of_idle (by simpa using hres) hin)
  · rintro ⟨-, -, hres⟩ hnil
    rw [hnil, pending, List.append_eq_nil_iff, List.map_eq_nil_iff] at hsame
    rw [hasResult, hsame.1] at hres
    cases hres

theorem pop_of_resultsAvailable {w w' : Worker α ρ} {between : List (WorkerStep ρ)}
    (h : w.getStatus between = (.resultsAvailable, w')) : ∃ x w'', w'.pop = some (x, w'') := by
  unfold getStatus at h
  split_ifs at h with hout
  · cases h
    unfold hasResult at hout
    unfold pop
    split
    · rename_i hnil
      rw [hnil] at hout
      cases hout
    · exact ⟨_, _, rfl⟩
  · cases h
  · cases h

end Worker

end WorkQueue
