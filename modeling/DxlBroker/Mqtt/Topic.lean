import DxlBroker.Lib.Bytes
import Mathlib.Data.List.Basic

/-!
# Topics and subscription filters

The tokeniser of the subscription tree, the two wildcard checks made on incoming packets, and the
matching rules of MQTT (`mqttMatches`), which say what the tree search is for.
-/

namespace DxlBroker

open Bytes

def slash : UInt8 := 0x2f

def plus : UInt8 := 0x2b

def pound : UInt8 := 0x23

def dollar : UInt8 := 0x24

/-- The level `+`. -/
def plusLevel : Bytes := [plus]

/-- The level `#`. -/
def poundLevel : Bytes := [pound]

/-- The levels of a topic: the parts between its slashes. -/
def levels (topic : Bytes) : List Bytes := topic.splitOn slash

/-- `_sub_topic_tokenise`: an empty token before a topic that does not start with `$`, another one
for a leading slash, then one token for each part that ends at a slash or at the end. -/
def subTopicTokenise (topic : Bytes) : List Bytes :=
  (if topic.head? = some dollar then [] else [[]]) ++
    match topic with
    | [] => levels []
    | c :: rest => if c = slash then [] :: levels rest else levels (c :: rest)

/-- `_mosquitto_topic_wildcard_len_check` accepts the topic: it has no wildcard and a legal
length. -/
def topicWildcardLenCheck (topic : Bytes) : Bool :=
  topic.all (fun c => c != plus && c != pound) && topic.length ≤ 65535

/-- The loop of `_mosquitto_topic_wildcard_pos_check`, with the character before. -/
def wildcardPosOk (prev : UInt8) : Bytes → Bool
  | [] => true
  | c :: rest =>
      (if c = plus then
        (prev == 0 || prev == slash) && (rest.head?.all fun next => next == slash)
      else if c = pound then (prev == 0 || prev == slash) && rest.isEmpty
      else true) && wildcardPosOk c rest

/-- `_mosquitto_topic_wildcard_pos_check` accepts the filter. -/
def topicWildcardPosCheck (sub : Bytes) : Bool := wildcardPosOk 0 sub && sub.length ≤ 65535

/-! ### The MQTT rules -/

/-- A filter's levels match a topic's levels: `+` one level, a last `#` any number of them. -/
def matchLevels : List Bytes → List Bytes → Bool
  | [], [] => true
  | [f], [] => f == poundLevel
  | f :: fs, t :: ts =>
      (f == poundLevel && fs.isEmpty) || ((f == plusLevel || f == t) && matchLevels fs ts)
  | _, _ => false

/-- A filter matches a topic; a topic that starts with `$` is out of reach of a wildcard in the
first level. -/
def mqttMatches (filter topic : Bytes) : Bool :=
  !(topic.head? == some dollar &&
    ((levels filter).head? == some plusLevel || (levels filter).head? == some poundLevel)) &&
  matchLevels (levels filter) (levels topic)

/-! ### Levels -/

@[simp] theorem plusLevel_ne_nil : plusLevel ≠ [] := List.cons_ne_nil _ _

@[simp] theorem poundLevel_ne_nil : poundLevel ≠ [] := List.cons_ne_nil _ _

theorem levels_cons (c : UInt8) (s : Bytes) :
    levels (c :: s) = if c = slash then [] :: levels s else (levels s).modifyHead (c :: ·) := by
  rw [levels, List.splitOn_cons_eq_if_modifyHead]
  by_cases h : c = slash <;> simp [h, levels]

theorem levels_ne_nil (s : Bytes) : levels s ≠ [] := List.splitOn_ne_nil _ _

theorem levels_injective : Function.Injective levels := by
  intro s t h
  have hjoin : ∀ u : Bytes, [slash].intercalate (levels u) = u := fun _ =>
    List.intercalate_splitOn slash
  rw [← hjoin s, h, hjoin t]

theorem exists_levels_cons {c : UInt8} {s : Bytes} (hc : c ≠ slash) :
    ∃ l ls, levels s = l :: ls ∧ levels (c :: s) = (c :: l) :: ls := by
  obtain ⟨l, ls, h⟩ := List.exists_cons_of_ne_nil (levels_ne_nil s)
  refine ⟨l, ls, h, ?_⟩
  rw [levels_cons, if_neg hc, h]
  rfl

/-- The characters of the levels are those of the topic. -/
theorem mem_of_mem_levels {topic level : Bytes} {c : UInt8} (hl : level ∈ levels topic)
    (hc : c ∈ level) : c ∈ topic := by
  induction topic generalizing level with
  | nil =>
    rw [levels, List.splitOn_nil, List.mem_singleton] at hl
    rwa [hl] at hc
  | cons x s ih =>
    by_cases hx : x = slash
    · rw [levels_cons, if_pos hx, List.mem_cons] at hl
      rcases hl with rfl | hl
      · cases hc
      · exact List.mem_cons_of_mem _ (ih hl hc)
    · obtain ⟨l, ls, hs, hxs⟩ := exists_levels_cons (s := s) hx
      rw [hxs, List.mem_cons] at hl
      rcases hl with rfl | hl
      · rcases List.mem_cons.mp hc with rfl | hc
        · exact List.mem_cons_self
        · exact List.mem_cons_of_mem _ (ih (hs ▸ List.mem_cons_self) hc)
      · exact List.mem_cons_of_mem _ (ih (hs ▸ List.mem_cons_of_mem _ hl) hc)

/-- The first level starts as the topic does, unless one is empty and the other starts with a
slash. -/
theorem head_levels_head (topic : Bytes) (c : UInt8) (hc : c ≠ slash) :
    ((levels topic).head (levels_ne_nil topic)).head? = some c ↔ topic.head? = some c := by
  cases topic with
  | nil => simp [levels]
  | cons x s =>
    by_cases hx : x = slash
    · have h : (levels (x :: s)).head? = some [] := by rw [levels_cons, if_pos hx]; rfl
      rw [List.head?_eq_some_head (levels_ne_nil _), Option.some.injEq] at h
      rw [h, hx]
      simp [Ne.symm hc]
    · obtain ⟨l, ls, -, hxs⟩ := exists_levels_cons (s := s) hx
      simp [hxs]

/-- No wildcard is a level of a topic without wildcards. -/
structure WildcardFree (topic : List Bytes) : Prop where
  plus : plusLevel ∉ topic
  pound : poundLevel ∉ topic

theorem levels_wildcardFree {topic : Bytes} (h : plus ∉ topic ∧ pound ∉ topic) :
    WildcardFree (levels topic) where
  plus hl := h.1 (mem_of_mem_levels hl (List.mem_singleton_self _))
  pound hl := h.2 (mem_of_mem_levels hl (List.mem_singleton_self _))

/-! ### Tokens -/

theorem subTopicTokenise_eq (topic : Bytes) :
    subTopicTokenise topic =
      (if topic.head? = some dollar then [] else [[]]) ++ levels topic := by
  cases topic with
  | nil => rfl
  | cons c rest =>
    by_cases hc : c = slash
    · simp [subTopicTokenise, levels_cons, hc]
    · simp [subTopicTokenise, hc]

theorem tokenise_of_dollar {topic : Bytes} (h : topic.head? = some dollar) :
    subTopicTokenise topic = levels topic := by
  rw [subTopicTokenise_eq, if_pos h, List.nil_append]

theorem tokenise_of_ne_dollar {topic : Bytes} (h : topic.head? ≠ some dollar) :
    subTopicTokenise topic = [] :: levels topic := by
  rw [subTopicTokenise_eq, if_neg h, List.singleton_append]

theorem subTopicTokenise_ne_nil (topic : Bytes) : subTopicTokenise topic ≠ [] := by
  rw [subTopicTokenise_eq]
  simp [levels_ne_nil]

/-- The first token of a topic. -/
def rootToken (topic : Bytes) : Bytes :=
  (subTopicTokenise topic).head (subTopicTokenise_ne_nil topic)

theorem rootToken_of_ne_dollar {topic : Bytes} (h : topic.head? ≠ some dollar) :
    rootToken topic = [] := by
  unfold rootToken
  simp only [tokenise_of_ne_dollar h, List.head_cons]

theorem rootToken_of_dollar {topic : Bytes} (h : topic.head? = some dollar) :
    rootToken topic = (levels topic).head (levels_ne_nil topic) := by
  unfold rootToken
  simp only [tokenise_of_dollar h]

theorem head_rootToken_of_dollar {topic : Bytes} (h : topic.head? = some dollar) :
    (rootToken topic).head? = some dollar := by
  rw [rootToken_of_dollar h]
  exact (head_levels_head topic dollar (by decide)).mpr h

theorem subTopicTokenise_injective : Function.Injective subTopicTokenise := by
  intro s t h
  have hroot : rootToken s = rootToken t := by
    unfold rootToken
    simp only [h]
  by_cases hs : s.head? = some dollar <;> by_cases ht : t.head? = some dollar
  · rw [tokenise_of_dollar hs, tokenise_of_dollar ht] at h
    exact levels_injective h
  · have := head_rootToken_of_dollar hs
    rw [hroot, rootToken_of_ne_dollar ht] at this
    cases this
  · have := head_rootToken_of_dollar ht
    rw [← hroot, rootToken_of_ne_dollar hs] at this
    cases this
  · rw [tokenise_of_ne_dollar hs, tokenise_of_ne_dollar ht, List.cons.injEq] at h
    exact levels_injective h.2

/-- A `#` can only be the last token. -/
def PoundLast (tokens : List Bytes) : Prop := poundLevel ∉ tokens.dropLast

theorem levels_poundLast {prev : UInt8} {sub : Bytes} (h : wildcardPosOk prev sub = true) :
    PoundLast (levels sub) := by
  unfold PoundLast
  induction sub generalizing prev with
  | nil => simp [levels]
  | cons c rest ih =>
    rw [wildcardPosOk, Bool.and_eq_true] at h
    obtain ⟨hc, hrest⟩ := h
    have ih := ih hrest
    by_cases hslash : c = slash
    · rw [levels_cons, if_pos hslash, List.dropLast_cons_of_ne_nil (levels_ne_nil rest)]
      simp [ih]
    · obtain ⟨l, ls, hl, hcons⟩ := exists_levels_cons (s := rest) hslash
      rw [hcons]
      cases ls with
      | nil => simp
      | cons l' ls =>
        rw [hl] at ih
        simp only [List.dropLast_cons_cons, List.mem_cons, not_or] at ih ⊢
        refine ⟨fun hcl => ?_, ih.2⟩
        -- A `#` is followed by nothing, so there is one level only.
        have hpound : c = pound := (List.cons.inj hcl).1.symm
        have hnil : rest = [] := by
          rw [hpound, if_neg (by decide), if_pos rfl, Bool.and_eq_true] at hc
          exact List.isEmpty_iff.mp hc.2
        rw [hnil] at hl
        simp [levels] at hl

theorem tokenise_poundLast {sub : Bytes} (h : topicWildcardPosCheck sub = true) :
    PoundLast (subTopicTokenise sub) := by
  rw [topicWildcardPosCheck, Bool.and_eq_true] at h
  have hl := levels_poundLast h.1
  by_cases hd : sub.head? = some dollar
  · rwa [tokenise_of_dollar hd]
  · rw [tokenise_of_ne_dollar hd, PoundLast, List.dropLast_cons_of_ne_nil (levels_ne_nil sub)]
    simpa [PoundLast] using hl

/-! ### Matching by tokens -/

theorem tokenise_wildcardFree {topic : Bytes} (h : plus ∉ topic ∧ pound ∉ topic) :
    WildcardFree (subTopicTokenise topic) := by
  have hl := levels_wildcardFree h
  by_cases hd : topic.head? = some dollar
  · rwa [tokenise_of_dollar hd]
  · rw [tokenise_of_ne_dollar hd]
    exact ⟨by simp [hl.plus], by simp [hl.pound]⟩

theorem matchLevels_cons_self {l : Bytes} (hl : l ≠ poundLevel) (fs ts : List Bytes) :
    matchLevels (l :: fs) (l :: ts) = matchLevels fs ts := by
  simp [matchLevels, hl]

/-- A first level that is no wildcard is matched by itself only. -/
theorem head_eq_of_matchLevels {fs ts : List Bytes} (hf : fs ≠ []) (ht : ts ≠ [])
    (hplus : fs.head hf ≠ plusLevel) (hpound : fs.head hf ≠ poundLevel)
    (h : matchLevels fs ts = true) : fs.head hf = ts.head ht := by
  obtain ⟨f, fs, rfl⟩ := List.exists_cons_of_ne_nil hf
  obtain ⟨t, ts, rfl⟩ := List.exists_cons_of_ne_nil ht
  simp only [List.head_cons] at hplus hpound ⊢
  simp only [matchLevels, Bool.or_eq_true, Bool.and_eq_true, beq_iff_eq, hpound, hplus, false_and,
    false_or] at h
  exact h.1

/-- The rules of MQTT are matching of tokens under the same first token. -/
theorem mqttMatches_iff {filter topic : Bytes} :
    mqttMatches filter topic = true ↔
      rootToken filter = rootToken topic ∧
        matchLevels (subTopicTokenise filter) (subTopicTokenise topic) = true := by
  have hhead : ∀ l : Bytes, (levels filter).head? = some l ↔
      (levels filter).head (levels_ne_nil filter) = l := fun l => by
    rw [List.head?_eq_some_head (levels_ne_nil filter), Option.some.injEq]
  -- A filter and a topic of which one starts with `$` have different first levels.
  have hsep : (filter.head? = some dollar ↔ topic.head? ≠ some dollar) →
      mqttMatches filter topic = false := by
    intro hd
    rw [Bool.eq_false_iff]
    intro h
    rw [mqttMatches, Bool.and_eq_true, Bool.not_eq_true', Bool.and_eq_false_iff] at h
    obtain ⟨hwild, hmatch⟩ := h
    have hne : (levels filter).head (levels_ne_nil filter) ≠
        (levels topic).head (levels_ne_nil topic) := by
      intro he
      have h1 := head_levels_head filter dollar (by decide)
      have h2 := head_levels_head topic dollar (by decide)
      rw [he] at h1
      rw [← h1, h2] at hd
      tauto
    refine hne (head_eq_of_matchLevels _ _ ?_ ?_ hmatch)
    all_goals
      intro hf
      by_cases ht : topic.head? = some dollar
      · have := (hhead _).mpr hf
        simp [ht, this] at hwild
      · have := (head_levels_head filter dollar (by decide)).mpr (hd.mpr ht)
        rw [hf] at this
        exact absurd this (by decide)
  by_cases hf : filter.head? = some dollar <;> by_cases ht : topic.head? = some dollar
  · rw [tokenise_of_dollar hf, tokenise_of_dollar ht, rootToken_of_dollar hf,
      rootToken_of_dollar ht, mqttMatches, Bool.and_eq_true]
    have hdollar := (head_levels_head filter dollar (by decide)).mpr hf
    have hplus : (levels filter).head (levels_ne_nil filter) ≠ plusLevel := by
      intro h
      rw [h] at hdollar
      exact absurd hdollar (by decide)
    have hpound : (levels filter).head (levels_ne_nil filter) ≠ poundLevel := by
      intro h
      rw [h] at hdollar
      exact absurd hdollar (by decide)
    constructor
    · rintro ⟨-, h⟩
      exact ⟨head_eq_of_matchLevels _ _ hplus hpound h, h⟩
    · rintro ⟨-, h⟩
      simp only [h, and_true]
      simp [hhead, hplus, hpound]
  · rw [hsep (iff_of_true hf ht)]
    simp only [Bool.false_eq_true, false_iff, not_and]
    intro h
    have := head_rootToken_of_dollar hf
    rw [h, rootToken_of_ne_dollar ht] at this
    cases this
  · rw [hsep (iff_of_false hf (not_not.mpr ht))]
    simp only [Bool.false_eq_true, false_iff, not_and]
    intro h
    have := head_rootToken_of_dollar ht
    rw [← h, rootToken_of_ne_dollar hf] at this
    cases this
  · rw [tokenise_of_ne_dollar hf, tokenise_of_ne_dollar ht, rootToken_of_ne_dollar hf,
      rootToken_of_ne_dollar ht, matchLevels_cons_self (by decide), mqttMatches]
    simp [ht]

end DxlBroker
