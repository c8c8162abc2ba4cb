import Mathlib.Data.List.Basic
import Mathlib.Data.List.TakeWhile

/-!
# Byte strings and C strings

A byte buffer is a list of bytes.  A buffer that is read as a C string is read up to its first
NUL: `cstr b` is the string that `strlen`, `strcmp` and `strdup` see, and two buffers are the
same C string when their `cstr` agree.
-/

/-- A byte buffer, also used for `std::string` values. -/
abbrev Bytes := List UInt8

namespace Bytes

/-- The bytes of a literal (one byte per character). -/
def lit (s : String) : Bytes := s.toList.map fun c => c.toNat.toUInt8

/-- The buffer read as a C string: everything before the first NUL. -/
def cstr (b : Bytes) : Bytes := b.takeWhile fun c => c != 0

/-- The buffer holds no NUL, so it is its own C string. -/
def NulFree (b : Bytes) : Prop := (0 : UInt8) ∉ b

instance (b : Bytes) : Decidable (NulFree b) := inferInstanceAs (Decidable (_ ∉ _))

theorem cstr_nulFree (b : Bytes) : NulFree (cstr b) := by
  intro h
  have := List.mem_takeWhile_imp h
  simp at this

theorem cstr_of_nulFree {b : Bytes} (h : NulFree b) : cstr b = b := by
  apply List.takeWhile_eq_self_iff.mpr
  intro c hc
  have : c ≠ 0 := fun e => h (e ▸ hc)
  simpa using this

theorem cstr_isPrefix (b : Bytes) : cstr b <+: b := List.takeWhile_prefix _

theorem takeWhile_ne_append {sep : UInt8} {s : Bytes} (hs : sep ∉ s) (rest : Bytes) :
    (s ++ rest).takeWhile (fun c => c != sep) = s ++ rest.takeWhile fun c => c != sep :=
  List.takeWhile_append_of_pos fun _ hc => bne_iff_ne.mpr fun h => hs (h ▸ hc)

theorem cstr_append {s : Bytes} (h : NulFree s) (rest : Bytes) :
    cstr (s ++ rest) = s ++ cstr rest :=
  takeWhile_ne_append h rest

/-- A C string ends at the first NUL behind it. -/
theorem cstr_append_nul {s : Bytes} (h : NulFree s) (rest : Bytes) : cstr (s ++ 0 :: rest) = s := by
  rw [cstr_append h, cstr, List.takeWhile_cons_of_neg (by simp), List.append_nil]

@[simp] theorem cstr_cstr (b : Bytes) : cstr (cstr b) = cstr b :=
  cstr_of_nulFree (cstr_nulFree b)

@[simp] theorem cstr_nil : cstr [] = [] := rfl

theorem map_cstr_of_nulFree {l : List Bytes} (h : ∀ s ∈ l, NulFree s) : l.map cstr = l := by
  conv_rhs => rw [← List.map_id l]
  exact List.map_congr_left fun s hs => cstr_of_nulFree (h s hs)

@[simp] theorem map_cstr_cstr (l : List Bytes) : (l.map cstr).map cstr = l.map cstr := by
  simp [List.map_map, Function.comp_def]

/-- `strncmp (p, s, strlen p) == 0`: the buffer starts with the given text. -/
def startsWith (p s : Bytes) : Bool := p.isPrefixOf s

end Bytes
