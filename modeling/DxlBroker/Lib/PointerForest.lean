import Mathlib.Combinatorics.SimpleGraph.Acyclic
import Mathlib.Order.WellFoundedSet

/-!
# Graphs of pointers

Every vertex points to one other vertex at most.  If the pointers do not run in circles, the graph
that forgets their direction has no cycle either.  A relation runs in no circle when its steps go up
in one relation without circles and, where they stay at a level of it, down in an order.
-/

namespace PointerForest

variable {α β : Type}

/-- A relation without circles. -/
def NoCircle (R : α → α → Prop) : Prop := ∀ a, ¬Relation.TransGen R a a

theorem NoCircle.mono {R S : α → α → Prop} (h : NoCircle S) (hRS : ∀ a b, R a b → S a b) :
    NoCircle R := fun a ha =>
  h a (Relation.TransGen.mono hRS a a ha)

/-- Steps that make a rank smaller. -/
theorem noCircle_of_rank {R : α → α → Prop} (rank : α → ℕ) (h : ∀ a b, R a b → rank b < rank a) :
    NoCircle R := by
  have key : ∀ a b, Relation.TransGen R a b → rank b < rank a := by
    intro a b hab
    induction hab with
    | single hab => exact h _ _ hab
    | tail _ hstep ih => exact (h _ _ hstep).trans ih
  exact fun a ha => absurd (key a a ha) (lt_irrefl _)

/-- Steps that go up in `P`, or stay at one level and go down in an order. -/
theorem noCircle_of_level {R : α → α → Prop} {P : β → β → Prop} {S : α → α → Prop} (level : α → β)
    (hP : NoCircle P) (hirrefl : ∀ a, ¬S a a) (htrans : ∀ a b c, S a b → S b c → S a c)
    (hR : ∀ a b, R a b → P (level a) (level b) ∨ (level a = level b ∧ S a b)) : NoCircle R := by
  have key : ∀ a b, Relation.TransGen R a b →
      Relation.TransGen P (level a) (level b) ∨ (level a = level b ∧ S a b) := by
    intro a b h
    induction h with
    | single h => exact (hR _ _ h).imp .single id
    | tail _ hstep ih =>
      rcases ih with hup | ⟨hlevel, hdown⟩ <;> rcases hR _ _ hstep with hup' | ⟨hlevel', hdown'⟩
      · exact .inl (hup.tail hup')
      · exact .inl (hlevel' ▸ hup)
      · exact .inl (.single (hlevel ▸ hup'))
      · exact .inr ⟨hlevel.trans hlevel', htrans _ _ _ hdown hdown'⟩
  intro a ha
  rcases key a a ha with h | ⟨-, h⟩
  · exact hP _ h
  · exact hirrefl a h

/-- The graph of the pointers, in both directions. -/
def graph (target : α → Option α) : SimpleGraph α :=
  SimpleGraph.fromRel fun a b => target a = some b

/-- Among finitely many vertices there is one to which none of them points. -/
theorem exists_source {target : α → Option α} (h : NoCircle fun a b => target a = some b)
    {s : Set α} (hs : s.Finite) (hne : s.Nonempty) :
    ∃ v ∈ s, ∀ u ∈ s, target u ≠ some v := by
  have hstrict : IsStrictOrder α (Relation.TransGen fun a b => target a = some b) :=
    { irrefl := h, trans := fun _ _ _ => Relation.TransGen.trans }
  have hwf := hs.wellFoundedOn (r := Relation.TransGen fun a b => target a = some b)
  obtain ⟨x, hx⟩ := hne
  obtain ⟨v, -, hmin⟩ := WellFounded.has_min hwf Set.univ ⟨⟨x, hx⟩, trivial⟩
  exact ⟨v, v.2, fun u hu htarget => hmin ⟨u, hu⟩ trivial (.single htarget)⟩

/-- On a cycle some vertex would point to both of its neighbours. -/
theorem isAcyclic_graph [DecidableEq α] {target : α → Option α}
    (h : NoCircle fun a b => target a = some b) : (graph target).IsAcyclic := by
  intro x c hc
  obtain ⟨v, hv, hsource⟩ := exists_source h (s := {v | v ∈ c.support}) (List.finite_toSet _)
    ⟨x, c.start_mem_support⟩
  have hrotate : (c.rotate v hv).IsCycle := hc.rotate hv
  have hpoints : ∀ w, (graph target).Adj v w → w ∈ (c.rotate v hv).support →
      target v = some w := fun w hadj hw => by
    rw [SimpleGraph.Walk.mem_support_rotate_iff] at hw
    exact ((SimpleGraph.fromRel_adj _ _ _).mp hadj).2.resolve_right (hsource w hw)
  have hsnd := hpoints _ ((c.rotate v hv).adj_snd hrotate.not_nil)
    ((c.rotate v hv).getVert_mem_support 1)
  have hlast := hpoints _ ((c.rotate v hv).adj_penultimate hrotate.not_nil).symm
    ((c.rotate v hv).getVert_mem_support _)
  exact hrotate.snd_ne_penultimate (Option.some.inj (hsnd.symm.trans hlast))

end PointerForest
