import DxlBroker.Mqtt.Topic
import Mathlib.Data.List.Infix

/-!
# Wildcard ancestors of a topic

The functions of `CoreUtil` that enumerate the `#` filters above a topic: the buffer is cut after
its last slash and gets a `#` there, until it is the `#` alone.
-/

namespace DxlBroker

open Bytes

/-- `isWildcard`: the last character is a `#`. -/
def isWildcard (topic : Bytes) : Bool := (cstr topic).getLast? == some pound

/-- The buffer up to and with its last slash (nothing when it has none). -/
def uptoSlash (s : Bytes) : Bytes := (s.reverse.dropWhile fun c => c != slash).reverse

/-- `iterateWildcardNext`: the next buffer, or nothing when the enumeration is over.  A `/#` at the
end is skipped before the slash is searched. -/
def iterateWildcardNext (s : Bytes) : Option Bytes :=
  if s = [pound] then none
  else
    let searched := if [slash, pound].isSuffixOf s then s.take (s.length - 2) else s
    some (uptoSlash searched ++ [pound])

/-- The buffers of the loop `while( iterateWildcardNext( .. ) )`, with a bound on its rounds. -/
def iterateWildcards : ℕ → Bytes → List Bytes
  | 0, _ => []
  | rounds + 1, s =>
      match iterateWildcardNext s with
      | none => []
      | some s => s :: iterateWildcards rounds s

/-- All wildcard ancestors of a topic; the loop ends within this bound
(`wildcardAncestors_eq`). -/
def wildcardAncestors (topic : Bytes) : List Bytes :=
  iterateWildcards (topic.length + 2) (cstr topic)

/-! ### What is enumerated -/

theorem uptoSlash_isPrefix (s : Bytes) : uptoSlash s <+: s := by
  rw [← List.reverse_suffix, uptoSlash, List.reverse_reverse]
  exact List.dropWhile_suffix _

/-- What is kept ends with a slash. -/
theorem exists_of_uptoSlash_ne_nil {s : Bytes} (h : uptoSlash s ≠ []) :
    ∃ q, uptoSlash s = q ++ [slash] := by
  unfold uptoSlash at h ⊢
  have hne : s.reverse.dropWhile (fun c => c != slash) ≠ [] := fun he => h (by rw [he]; rfl)
  obtain ⟨c, l, hl⟩ := List.exists_cons_of_ne_nil hne
  have hc := List.head_dropWhile_not (fun c => c != slash) hne
  simp only [hl, List.head_cons] at hc
  have hslash : c = slash := by simpa using hc
  exact ⟨l.reverse, by rw [hl, List.reverse_cons, hslash]⟩

theorem iterateWildcardNext_of_notMem {s : Bytes} (h : pound ∉ s) :
    iterateWildcardNext s = some (uptoSlash s ++ [pound]) := by
  have hne : s ≠ [pound] := fun he => h (he ▸ List.mem_singleton_self _)
  have hsuffix : [slash, pound].isSuffixOf s = false := by
    rw [Bool.eq_false_iff, ne_eq, List.isSuffixOf_iff_suffix]
    intro hs
    exact h (hs.subset (by simp))
  rw [iterateWildcardNext, if_neg hne, hsuffix, if_neg Bool.false_ne_true]

/-- After a filter the enumeration goes on as from the level above it. -/
theorem iterateWildcardNext_filter (q : Bytes) :
    iterateWildcardNext (q ++ [slash] ++ [pound]) = some (uptoSlash q ++ [pound]) := by
  have hne : q ++ [slash] ++ [pound] ≠ [pound] := by
    intro h
    have := congrArg List.length h
    simp at this
  have hsuffix : [slash, pound].isSuffixOf (q ++ [slash] ++ [pound]) = true := by
    rw [List.isSuffixOf_iff_suffix]
    exact ⟨q, by simp⟩
  rw [iterateWildcardNext, if_neg hne, if_pos hsuffix]
  simp

theorem iterateWildcards_filter {q : Bytes} (hq : pound ∉ q) (rounds : ℕ) :
    iterateWildcards rounds (q ++ [slash] ++ [pound]) = iterateWildcards rounds q := by
  cases rounds with
  | zero => rfl
  | succ rounds =>
    rw [iterateWildcards, iterateWildcards, iterateWildcardNext_filter,
      iterateWildcardNext_of_notMem hq]

/-! ### The list of the ancestors -/

def endsWithSlash (p : Bytes) : Bool := p.getLast? == some slash

/-- The prefixes that end with a slash, longest first, and then the empty one, with a `#` after each. -/
def wildcards (topic : Bytes) : List Bytes :=
  ((topic.inits.filter endsWithSlash).reverse ++ [[]]).map (· ++ [pound])

theorem wildcards_concat (l : Bytes) (c : UInt8) :
    wildcards (l ++ [c]) = if c = slash then (l ++ [slash] ++ [pound]) :: wildcards l else wildcards l := by
  have hinits : (l ++ [c]).inits = l.inits ++ [l ++ [c]] := by
    rw [List.inits_append]
    rfl
  have hends : endsWithSlash (l ++ [c]) = true ↔ c = slash := by simp [endsWithSlash]
  rw [wildcards, hinits, List.filter_append, List.reverse_append]
  split_ifs with hc
  · rw [List.filter_cons_of_pos (hends.mpr hc), hc]
    rfl
  · rw [List.filter_cons_of_neg fun h => hc (hends.mp h)]
    rfl

theorem uptoSlash_concat (l : Bytes) (c : UInt8) :
    uptoSlash (l ++ [c]) = if c = slash then l ++ [c] else uptoSlash l := by
  unfold uptoSlash
  rw [List.reverse_append, List.reverse_singleton, List.singleton_append, List.dropWhile_cons]
  split_ifs with hne hc hc
  · simp [hc] at hne
  · rfl
  · simp
  · simp [hc] at hne

/-- What follows the last slash does not matter. -/
theorem wildcards_uptoSlash (s : Bytes) : wildcards (uptoSlash s) = wildcards s := by
  induction s using List.reverseRecOn with
  | nil => rfl
  | append_singleton l c ih =>
    rw [uptoSlash_concat, wildcards_concat]
    split_ifs with hc
    · rw [wildcards_concat, if_pos hc]
    · exact ih

theorem length_wildcards_le (s : Bytes) : (wildcards s).length ≤ s.length + 1 := by
  induction s using List.reverseRecOn with
  | nil => exact le_rfl
  | append_singleton l c ih =>
    rw [wildcards_concat, List.length_append, List.length_singleton]
    split_ifs
    · rw [List.length_cons]
      omega
    · omega

/-- The loop gives the list, and a `#` in the topic is never reached. -/
theorem iterateWildcards_eq {rounds : ℕ} {s : Bytes} (hs : pound ∉ s)
    (hrounds : (wildcards s).length ≤ rounds) : iterateWildcards rounds s = wildcards s := by
  induction rounds generalizing s with
  | zero => simp [wildcards] at hrounds
  | succ rounds ih =>
    rw [iterateWildcards, iterateWildcardNext_of_notMem hs]
    rw [← wildcards_uptoSlash] at hrounds ⊢
    by_cases hnil : uptoSlash s = []
    · -- No slash is left: the only filter is the `#` alone, and the loop ends.
      rw [hnil]
      cases rounds with
      | zero => rfl
      | succ rounds => rfl
    · obtain ⟨q, hq⟩ := exists_of_uptoSlash_ne_nil hnil
      have hqp : pound ∉ q := fun h =>
        hs ((uptoSlash_isPrefix s).subset (hq ▸ List.mem_append_left _ h))
      rw [hq, wildcards_concat, if_pos rfl, List.length_cons] at hrounds
      simp only [hq, iterateWildcards_filter hqp, wildcards_concat, if_true]
      rw [ih hqp (Nat.le_of_succ_le_succ hrounds)]

theorem wildcardAncestors_eq {topic : Bytes} (h : pound ∉ cstr topic) :
    wildcardAncestors topic = wildcards (cstr topic) := by
  have hlength := (cstr_isPrefix topic).length_le
  have hlist := length_wildcards_le (cstr topic)
  exact iterateWildcards_eq h (by omega)

/-- A prefix of a topic that a `#` may follow. -/
def IsLevelPrefix (p topic : Bytes) : Prop := p <+: topic ∧ (p = [] ∨ ∃ q, p = q ++ [slash])

theorem mem_wildcards {topic w : Bytes} :
    w ∈ wildcards topic ↔ ∃ p, IsLevelPrefix p topic ∧ w = p ++ [pound] := by
  have hends : ∀ p : Bytes, endsWithSlash p = true ↔ ∃ q, p = q ++ [slash] := by
    intro p
    rw [endsWithSlash, beq_iff_eq, List.getLast?_eq_some_iff]
  simp only [wildcards, List.mem_map, List.mem_append, List.mem_reverse, List.mem_filter,
    List.mem_inits, List.mem_singleton, hends]
  constructor
  · rintro ⟨p, ⟨hp, hslash⟩ | rfl, rfl⟩
    · exact ⟨p, ⟨hp, .inr hslash⟩, rfl⟩
    · exact ⟨[], ⟨List.nil_prefix, .inl rfl⟩, rfl⟩
  · rintro ⟨p, ⟨hp, rfl | hslash⟩, rfl⟩
    · exact ⟨[], .inr rfl, rfl⟩
    · exact ⟨p, .inl ⟨hp, hslash⟩, rfl⟩

/-- Each is longer than those that follow. -/
theorem pairwise_wildcards (s : Bytes) : (wildcards s).Pairwise fun v w => w.length < v.length := by
  induction s using List.reverseRecOn with
  | nil => exact List.pairwise_singleton _ _
  | append_singleton l c ih =>
    rw [wildcards_concat]
    split_ifs
    · refine List.pairwise_cons.mpr ⟨fun w hw => ?_, ih⟩
      obtain ⟨p, ⟨hp, -⟩, rfl⟩ := mem_wildcards.mp hw
      have hlength := hp.length_le
      simp only [List.length_append, List.length_singleton]
      omega
    · exact ih

/-- **The wildcard ancestors of a topic** are its prefixes up to a slash, and the empty one, with a
`#` after them. -/
theorem mem_wildcardAncestors {topic w : Bytes} (h : NulFree topic) (hp : pound ∉ topic) :
    w ∈ wildcardAncestors topic ↔ ∃ p, IsLevelPrefix p topic ∧ w = p ++ [pound] := by
  have hcstr : cstr topic = topic := cstr_of_nulFree h
  rw [wildcardAncestors_eq (hcstr.symm ▸ hp), hcstr, mem_wildcards]

theorem mem_iterateWildcards_imp {w : Bytes} : ∀ {rounds : ℕ} {s : Bytes},
    NulFree s → w ∈ iterateWildcards rounds s → NulFree w ∧ w.getLast? = some pound := by
  intro rounds
  induction rounds with
  | zero => exact fun _ h => absurd h List.not_mem_nil
  | succ rounds ih =>
    intro s hs h
    rw [iterateWildcards] at h
    split at h
    · exact absurd h List.not_mem_nil
    · rename_i s' hnext
      have hs' : NulFree s' ∧ s'.getLast? = some pound := by
        unfold iterateWildcardNext at hnext
        split_ifs at hnext with hpound hsuffix
        all_goals
          obtain rfl := Option.some.inj hnext
          refine ⟨fun h0 => ?_, by simp⟩
          rcases List.mem_append.mp h0 with h0 | h0
        · exact hs ((List.take_subset _ _) ((uptoSlash_isPrefix _).subset h0))
        · exact absurd h0 (by decide)
        · exact hs ((uptoSlash_isPrefix _).subset h0)
        · exact absurd h0 (by decide)
      rcases List.mem_cons.mp h with rfl | h
      · exact hs'
      · exact ih hs'.1 h

/-- Whatever the topic is, its wildcard ancestors are wildcards. -/
theorem isWildcard_of_mem_wildcardAncestors {topic w : Bytes} (h : w ∈ wildcardAncestors topic) :
    isWildcard w = true := by
  obtain ⟨hnul, hlast⟩ := mem_iterateWildcards_imp (cstr_nulFree topic) h
  rw [isWildcard, cstr_of_nulFree hnul, hlast, beq_self_eq_true]

end DxlBroker
