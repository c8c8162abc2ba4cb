import Mathlib.Data.List.Basic
import Mathlib.Data.List.TakeWhile

/-!
# Reading items to the end of the input

A loop reads one item after the other until the input ends or an item cannot be read.  Of items that
were written in a row, it reads those before the first one that is refused.
-/

namespace Items

variable {σ α : Type}

variable {item : List σ → Option (α × List σ)} {write : α → List σ} {legal : α → Bool}

/-- The written items can be read back if they are legal, and are refused otherwise. -/
structure ReadsBack (item : List σ → Option (α × List σ)) (write : α → List σ) (legal : α → Bool)
    (items : List α) : Prop where
  ne_nil : ∀ a ∈ items, write a ≠ []
  item_eq : ∀ a ∈ items, ∀ rest,
    item (write a ++ rest) = if legal a then some (a, rest) else none

theorem ReadsBack.tail {a : α} {items : List α} (h : ReadsBack item write legal (a :: items)) :
    ReadsBack item write legal items :=
  ⟨fun b hb => h.ne_nil b (List.mem_cons_of_mem a hb),
    fun b hb => h.item_eq b (List.mem_cons_of_mem a hb)⟩

/-- Every item takes part of the input. -/
theorem ReadsBack.length_le {items : List α} (h : ReadsBack item write legal items) :
    items.length ≤ (items.flatMap write).length := by
  induction items with
  | nil => exact le_rfl
  | cons a items ih =>
    have hpos := List.length_pos_iff.mpr (h.ne_nil a List.mem_cons_self)
    have hrest := ih h.tail
    rw [List.flatMap_cons, List.length_append, List.length_cons]
    omega

end Items
