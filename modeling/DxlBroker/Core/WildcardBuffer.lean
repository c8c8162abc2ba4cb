import DxlBroker.Core.CoreUtil
import Mathlib.Tactic

/-!
# The buffer of the wildcard enumeration

`iterateWildcardBegin` copies a topic into a block of two more bytes, and `iterateWildcardNext` rewrites
the copy in place.  Here the functions work on the block: a store outside of it has no result, and
neither has a size that is too large for an `int`.  On the strings in the blocks they are the functions
that the lookups use.

A pointer is an optional block, which is missing for `NULL`.
-/

namespace DxlBroker.WildcardBuffer

open Bytes

/-- A number as an `int`.  Sums out of its range are undefined, and what a larger size is converted to is
up to the implementation. -/
def int (n : ℤ) : Option ℤ := if -2 ^ 31 ≤ n ∧ n < 2 ^ 31 then some n else none

def strlen (buf : Bytes) : Option ℕ := if 0 ∈ buf then some (cstr buf).length else none

/-- One byte is stored in a block. -/
def store (buf : Bytes) (pos : ℕ) (c : UInt8) : Option Bytes :=
  if pos < buf.length then some (buf.set pos c) else none

/-- The string and its NUL are stored in a block. -/
def strcpy (buf s : Bytes) : Option Bytes :=
  if (cstr s).length < buf.length then some (cstr s ++ 0 :: buf.drop ((cstr s).length + 1)) else none

/-- `malloc`: there may be no block, and what a block holds is not known. -/
structure Malloc where
  block : ℕ → Option Bytes
  length_block : ∀ n buf, block n = some buf → buf.length = n

/-- `iterateWildcardBegin` -/
def iterateWildcardBegin (malloc : Malloc) : Option Bytes → Option (Option Bytes)
  | none => some none
  | some topic => do
      let length ← int (cstr topic).length
      let length ← int (length + 2)
      match malloc.block length.toNat with
      | none => some none
      | some retval => (strcpy retval topic).map some

/-- The loop over `searchPos`, from the position before the given one down to the start. -/
def poundPos (buf : Bytes) : ℕ → ℕ
  | 0 => 0
  | searched + 1 => if buf[searched]? = some slash then searched + 1 else poundPos buf searched

/-- `iterateWildcardNext`: the answer, and the block afterwards. -/
def iterateWildcardNext : Option Bytes → Option (Bool × Option Bytes)
  | none => some (false, none)
  | some modifiedTopic => do
      let length ← int (← strlen modifiedTopic)
      if length = 1 ∧ modifiedTopic[0]? = some pound then some (false, some modifiedTopic)
      else
        let searchPos := length - 1
        let searchPos :=
          if 2 ≤ length ∧ modifiedTopic[searchPos.toNat]? = some pound ∧
              modifiedTopic[(searchPos - 1).toNat]? = some slash then searchPos - 2
          else searchPos
        let pos := poundPos modifiedTopic (searchPos + 1).toNat
        let modifiedTopic ← store modifiedTopic pos pound
        let modifiedTopic ← store modifiedTopic (pos + 1) 0
        some (true, some modifiedTopic)

/-- The strings in the block after each call of `while( iterateWildcardNext( .. ) )`; there is no result
when the loop has not ended after so many calls. -/
def wildcardLoop : ℕ → Option Bytes → Option (List Bytes)
  | 0, _ => none
  | calls + 1, modifiedTopic => do
      match ← iterateWildcardNext modifiedTopic with
      | (true, some modifiedTopic) =>
          (wildcardLoop calls (some modifiedTopic)).map (cstr modifiedTopic :: ·)
      | _ => some []

/-! ### Blocks -/

theorem int_of_lt {n : ℕ} (h : n < 2 ^ 31) : int n = some (n : ℤ) :=
  if_pos ⟨by omega, by exact_mod_cast h⟩

theorem strlen_block {s : Bytes} (hs : NulFree s) (rest : Bytes) :
    strlen (s ++ 0 :: rest) = some s.length := by
  rw [strlen, if_pos (by simp), cstr_append_nul hs]

/-- The position is that behind the last slash before the given one. -/
theorem poundPos_eq (buf : Bytes) {n : ℕ} (hn : n ≤ buf.length) :
    poundPos buf n = (uptoSlash (buf.take n)).length := by
  induction n with
  | zero => rfl
  | succ n ih =>
    have hget : buf[n]? = some buf[n] := List.getElem?_eq_getElem hn
    rw [poundPos, List.take_succ_eq_append_getElem hn, uptoSlash_concat]
    by_cases hslash : buf[n] = slash
    · rw [if_pos (by rw [hget, hslash]), if_pos hslash, List.length_append,
        List.length_take_of_le (Nat.le_of_succ_le hn), List.length_singleton]
    · rw [if_neg (by simpa [hget] using hslash), if_neg hslash]
      exact ih (Nat.le_of_succ_le hn)

/-- The two stores at the end. -/
theorem store_store (buf : Bytes) (pos : ℕ) (c : UInt8) :
    ((store buf pos c).bind fun buf => store buf (pos + 1) 0) =
      if pos + 1 < buf.length then some (buf.take pos ++ [c] ++ 0 :: buf.drop (pos + 2)) else none := by
  unfold store
  split_ifs with hpos hnext hnext
  · have hset : buf.set pos c = buf.take pos ++ [c] ++ buf.drop (pos + 1) := by
      rw [List.set_eq_take_append_cons_drop, if_pos hpos, List.append_assoc]
      rfl
    have hlength : (buf.take pos ++ [c]).length = pos + 1 := by
      rw [List.length_append, List.length_take_of_le hpos.le, List.length_singleton]
    rw [Option.bind_some, List.length_set, if_pos hnext, hset, List.set_append_right _ _ hlength.le,
      hlength, Nat.sub_self, List.drop_eq_getElem_cons hnext, List.set_cons_zero]
  · rw [Option.bind_some, List.length_set, if_neg hnext]
  · omega
  · rfl

/-- The last two bytes of a string, by their positions. -/
theorem isSuffixOf_iff (s : Bytes) :
    [slash, pound].isSuffixOf s = true ↔
      2 ≤ s.length ∧ s[s.length - 1]? = some pound ∧ s[s.length - 2]? = some slash := by
  rw [List.isSuffixOf_iff_suffix]
  constructor
  · rintro ⟨l, rfl⟩
    simp
  · rintro ⟨hlength, hpound, hslash⟩
    have hdrop : s.drop (s.length - 2) = [slash, pound] := by
      obtain ⟨_, hslash⟩ := List.getElem?_eq_some_iff.mp hslash
      obtain ⟨_, hpound⟩ := List.getElem?_eq_some_iff.mp hpound
      have hnext : s.length - 2 + 1 = s.length - 1 := by omega
      have hend : s.length - 1 + 1 = s.length := by omega
      rw [List.drop_eq_getElem_cons (by omega), hslash, hnext, List.drop_eq_getElem_cons (by omega),
        hpound, hend, List.drop_length]
    exact ⟨s.take (s.length - 2), by rw [← hdrop, List.take_append_drop]⟩

/-- On the string in the block it is the function of the lookups, and the string that it gives is stored
if the block has room for it. -/
theorem iterateWildcardNext_block {s rest : Bytes} (hs : NulFree s) (hint : s.length < 2 ^ 31) :
    iterateWildcardNext (some (s ++ 0 :: rest)) =
      match DxlBroker.iterateWildcardNext s with
      | none => some (false, some (s ++ 0 :: rest))
      | some t =>
          if t.length < (s ++ 0 :: rest).length then
            some (true, some (t ++ 0 :: (s ++ 0 :: rest).drop (t.length + 1)))
          else none := by
  have hget : ∀ n < s.length, (s ++ 0 :: rest)[n]? = s[n]? := fun n hn =>
    List.getElem?_append_left hn
  have hpound : (s.length : ℤ) = 1 ∧ (s ++ 0 :: rest)[0]? = some pound ↔ s = [pound] := by
    constructor
    · rintro ⟨hone, hfirst⟩
      obtain ⟨c, rfl⟩ := List.length_eq_one_iff.mp (by exact_mod_cast hone)
      rw [hget 0 Nat.zero_lt_one] at hfirst
      exact congrArg (fun c => [c]) (Option.some.inj hfirst)
    · rintro rfl
      exact ⟨rfl, rfl⟩
  have hsuffix : 2 ≤ (s.length : ℤ) ∧
      (s ++ 0 :: rest)[((s.length : ℤ) - 1).toNat]? = some pound ∧
      (s ++ 0 :: rest)[((s.length : ℤ) - 1 - 1).toNat]? = some slash ↔
        [slash, pound].isSuffixOf s = true := by
    have hlast : ((s.length : ℤ) - 1).toNat = s.length - 1 := by omega
    have hbefore : ((s.length : ℤ) - 1 - 1).toNat = s.length - 2 := by omega
    rw [isSuffixOf_iff, hlast, hbefore]
    refine ⟨fun ⟨htwo, hrest⟩ => ?_, fun ⟨htwo, hrest⟩ => ?_⟩
    · rw [hget _ (by omega), hget _ (by omega)] at hrest
      exact ⟨by omega, hrest⟩
    · rw [hget _ (by omega), hget _ (by omega)]
      exact ⟨by omega, hrest⟩
  unfold iterateWildcardNext DxlBroker.iterateWildcardNext
  simp only [Option.bind_eq_bind]
  rw [strlen_block hs, Option.bind_some, int_of_lt hint, Option.bind_some]
  by_cases hend : s = [pound]
  · rw [if_pos hend, if_pos (hpound.mpr hend)]
  · rw [if_neg hend, if_neg fun h => hend (hpound.mp h)]
    simp only [hsuffix]
    -- The search covers a beginning of the string, all of it or all but the filter's end.
    obtain ⟨n, hn, hsearched, hpos⟩ : ∃ n ≤ s.length,
        (if [slash, pound].isSuffixOf s = true then s.take (s.length - 2) else s) = s.take n ∧
        ((if [slash, pound].isSuffixOf s = true then (s.length : ℤ) - 1 - 2
          else (s.length : ℤ) - 1) + 1).toNat = n := by
      split_ifs with hfilter
      · have htwo := ((isSuffixOf_iff s).mp hfilter).1
        exact ⟨s.length - 2, by omega, rfl, by omega⟩
      · exact ⟨s.length, le_rfl, List.take_length.symm, by omega⟩
    have htake : (s ++ 0 :: rest).take n = s.take n := List.take_append_of_le_length hn
    have hlength : (s ++ 0 :: rest).length = s.length + (rest.length + 1) := List.length_append
    rw [hsearched, hpos, poundPos_eq _ (by omega), htake]
    have hprefix : uptoSlash (s.take n) <+: s ++ 0 :: rest :=
      ((uptoSlash_isPrefix _).trans (List.take_prefix n s)).trans (List.prefix_append _ _)
    generalize uptoSlash (s.take n) = kept at hprefix
    have hkept : (kept ++ [pound]).length = kept.length + 1 := List.length_append
    rw [← Option.bind_assoc, store_store, ← List.prefix_iff_eq_take.mp hprefix, hkept]
    split_ifs
    · rfl
    · rfl

/-! ### The enumeration -/

/-- The loop on a block that holds a string without a `#`, or the filter below it, and has room for two
bytes behind the string. -/
theorem wildcardLoop_block {calls : ℕ} {s t rest : Bytes} (hs : NulFree s) (hp : pound ∉ s)
    (ht : t = s ∨ t = s ++ [slash] ++ [pound]) (hroom : s.length + 2 ≤ (t ++ 0 :: rest).length)
    (hint : s.length + 2 < 2 ^ 31) (hcalls : (wildcards s).length < calls) :
    wildcardLoop calls (some (t ++ 0 :: rest)) = some (wildcards s) := by
  induction calls generalizing s t rest with
  | zero => omega
  | succ calls ih =>
    obtain ⟨hnul, hlength, hnext⟩ : NulFree t ∧ t.length < 2 ^ 31 ∧
        DxlBroker.iterateWildcardNext t = some (uptoSlash s ++ [pound]) := by
      rcases ht with rfl | rfl
      · exact ⟨hs, by omega, iterateWildcardNext_of_notMem hp⟩
      · refine ⟨?_, ?_, iterateWildcardNext_filter s⟩
        · simp only [NulFree, List.mem_append, List.mem_singleton, not_or]
          exact ⟨⟨hs, by decide⟩, by decide⟩
        · simp only [List.length_append, List.length_singleton]
          omega
    have hkept : uptoSlash s <+: s := uptoSlash_isPrefix s
    have hstored : (uptoSlash s ++ [pound]).length < (t ++ 0 :: rest).length := by
      have hle := hkept.length_le
      rw [List.length_append, List.length_singleton]
      omega
    have hfree : NulFree (uptoSlash s ++ [pound]) := by
      simp only [NulFree, List.mem_append, List.mem_singleton, not_or]
      exact ⟨fun h0 => hs (hkept.subset h0), by decide⟩
    have hstep := @iterateWildcardNext_block t rest hnul hlength
    simp only [hnext, if_pos hstored] at hstep
    generalize (t ++ 0 :: rest).drop _ = rest' at hstep
    rw [wildcardLoop, hstep]
    simp only [Option.bind_eq_bind, Option.bind_some, cstr_append_nul hfree]
    rw [← wildcards_uptoSlash] at hcalls ⊢
    by_cases hnil : uptoSlash s = []
    · -- The block holds the `#` alone, and the next call ends the loop.
      rw [hnil] at hcalls ⊢
      have hone : (wildcards []).length = 1 := rfl
      obtain ⟨calls, rfl⟩ := Nat.exists_eq_succ_of_ne_zero (show calls ≠ 0 by omega)
      have hend := @iterateWildcardNext_block [pound] rest' (by decide) (by decide)
      rw [List.nil_append, wildcardLoop, hend]
      rfl
    · obtain ⟨q, hq⟩ := exists_of_uptoSlash_ne_nil hnil
      have hqs : q <+: s := (List.prefix_append q [slash]).trans (hq ▸ hkept)
      have hle := hqs.length_le
      rw [hq, wildcards_concat, if_pos rfl, List.length_cons] at hcalls
      rw [hq, wildcards_concat, if_pos rfl, ih (fun h0 => hs (hqs.subset h0))
        (fun h => hp (hqs.subset h)) (.inr rfl) (by simp) (by omega) (by omega)]
      rfl

/-- The block that the enumeration begins with: it has two bytes more than the topic and holds a copy
of it. -/
theorem iterateWildcardBegin_block (malloc : Malloc) {topic : Bytes}
    (hint : (cstr topic).length + 2 < 2 ^ 31) :
    ∃ p, iterateWildcardBegin malloc (some topic) = some p ∧
      (p = none ↔ malloc.block ((cstr topic).length + 2) = none) ∧
      ∀ buf, p = some buf → buf.length = (cstr topic).length + 2 ∧
        ∃ rest, buf = cstr topic ++ 0 :: rest := by
  have hsize : int (((cstr topic).length : ℤ) + 2) = some (((cstr topic).length + 2 : ℕ) : ℤ) :=
    int_of_lt hint
  unfold iterateWildcardBegin
  simp only [Option.bind_eq_bind]
  rw [int_of_lt (by omega), Option.bind_some, hsize, Option.bind_some, Int.toNat_natCast]
  cases hblock : malloc.block ((cstr topic).length + 2) with
  | none => exact ⟨none, rfl, by simp, nofun⟩
  | some block =>
    have hlength := malloc.length_block _ _ hblock
    simp only
    rw [strcpy, if_pos (by omega), Option.map_some]
    refine ⟨_, rfl, by simp, ?_⟩
    rintro _ ⟨⟩
    refine ⟨?_, _, rfl⟩
    rw [List.length_append, List.length_cons, List.length_drop]
    omega

/-- **The wildcard enumeration.**  For a topic without a `#`, of which the copy's length is an `int`, the
calls of `iterateWildcardNext` on the block of `iterateWildcardBegin` end, store within it, and give the
prefixes up to a slash, longest first, and then the empty one, with a `#` after each: the wildcard
ancestors that the lookups go through. -/
theorem wildcard_enumeration (malloc : Malloc) {topic : Bytes} (hp : pound ∉ cstr topic)
    (hint : (cstr topic).length + 2 < 2 ^ 31) :
    ∃ p, iterateWildcardBegin malloc (some topic) = some p ∧
      (p = none ↔ malloc.block ((cstr topic).length + 2) = none) ∧
      (∀ buf, p = some buf → buf.length = (cstr topic).length + 2 ∧
        ∀ calls, (wildcards (cstr topic)).length < calls →
          wildcardLoop calls (some buf) = some (wildcards (cstr topic))) ∧
      wildcards (cstr topic) = wildcardAncestors topic ∧
      (wildcards (cstr topic)).Pairwise (fun v w => w.length < v.length) ∧
      (wildcards (cstr topic)).Nodup := by
  obtain ⟨p, hbegin, hnull, hblock⟩ := iterateWildcardBegin_block malloc hint
  have hsorted := pairwise_wildcards (cstr topic)
  refine ⟨p, hbegin, hnull, fun buf hbuf => ?_, (wildcardAncestors_eq hp).symm, hsorted,
    hsorted.imp fun hlonger heq => ?_⟩
  · obtain ⟨hlength, rest, rfl⟩ := hblock buf hbuf
    exact ⟨hlength, fun calls hcalls =>
      wildcardLoop_block (cstr_nulFree topic) hp (.inl rfl) hlength.ge hint hcalls⟩
  · rw [heq] at hlonger
    exact lt_irrefl _ hlonger

/-- Blocks that are filled with sevens. -/
def sevens : Malloc where
  block n := some (List.replicate n 7)
  length_block := by
    rintro n _ ⟨⟩
    exact List.length_replicate

/-- A topic with a doubled and a trailing slash. -/
theorem wildcard_enumeration_doubled :
    ∃ buf, iterateWildcardBegin sevens (some (lit "a//b/")) = some (some buf) ∧ buf.length = 7 ∧
      wildcardLoop 5 (some buf) = some [lit "a//b/#", lit "a//#", lit "a/#", lit "#"] := by
  obtain ⟨p, hbegin, hnull, hloop, -⟩ :=
    @wildcard_enumeration sevens (lit "a//b/") (by decide) (by decide)
  cases p with
  | none => cases hnull.mp rfl
  | some buf => exact ⟨buf, hbegin, (hloop buf rfl).1, (hloop buf rfl).2 5 (by decide)⟩

end DxlBroker.WildcardBuffer
