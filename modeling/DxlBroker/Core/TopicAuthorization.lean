import DxlBroker.Core.CoreUtil
import DxlBroker.Lib.Unordered

/-!
# Topic authorization

A policy lists for some topics, and for some `#` filters, the keys that may use them: the identifiers
of managed clients and the hashes of certificates.  A topic without an entry is open to all.  The
wildcard ancestors of a topic have a say as well, if the policy has an entry for any filter.
-/

namespace DxlBroker

open Bytes Unordered

/-- `TopicAuthorizationStateData`: the keys of each topic. -/
abbrev TopicAuthorizationStateData := Map Bytes (List Bytes)

/-- `hasWildcards` -/
def hasWildcards (stateData : TopicAuthorizationStateData) : Bool :=
  stateData.pairs.any fun e => isWildcard e.1

/-- `TopicAuthorizationState`; its constructor looks for wildcards. -/
structure TopicAuthorizationState where
  publishers : TopicAuthorizationStateData
  subscribers : TopicAuthorizationStateData
  isWildcardingEnabled : Bool
  looked : isWildcardingEnabled = (hasWildcards publishers || hasWildcards subscribers)

/-- The constructor of `TopicAuthorizationState`. -/
def TopicAuthorizationState.create (publishers subscribers : TopicAuthorizationStateData) :
    TopicAuthorizationState :=
  ⟨publishers, subscribers, _, rfl⟩

/-- `TopicAuthorizationState::isAuthorized`, and whether there was an entry. -/
def isAuthorized (state : TopicAuthorizationStateData) (key topic : Bytes) : Bool × Bool :=
  match state.lookup topic with
  | none => (true, false)
  | some keys => (keys.any fun k => k == key, true)

/-- The loop over the wildcard ancestors, which ends with the first that lists the key. -/
def walkWildcards (state : TopicAuthorizationStateData) (key : Bytes) : List Bytes → Bool → Bool
  | [], authorized => authorized
  | wcTopic :: wcTopics, authorized =>
      let res := isAuthorized state key wcTopic
      if res.1 then if res.2 then true else walkWildcards state key wcTopics authorized
      else walkWildcards state key wcTopics false

/-- What `_isAuthorizedToPublish` and `_isAuthorizedToSubscribe` do with the map that each of them
asks. -/
def isAuthorizedBy (isWildcardingEnabled : Bool) (state : TopicAuthorizationStateData)
    (key topic : Bytes) : Bool :=
  let res := isAuthorized state key topic
  if isWildcardingEnabled then
    if res.2 && res.1 then true
    else walkWildcards state key (wildcardAncestors topic) res.1
  else res.1

/-- What the two functions for certificates do; without certificates the key is empty. -/
def anyAuthorized (isAuthorizedKey : Bytes → Bool) (certHashes : List Bytes) : Bool :=
  if certHashes ≠ [] then certHashes.any isAuthorizedKey else isAuthorizedKey []

namespace TopicAuthorizationState

section

variable (state : TopicAuthorizationState)

/-- `isAuthorizedToPublish` of a client. -/
def isAuthorizedToPublish (key topic : Bytes) : Bool :=
  isAuthorizedBy state.isWildcardingEnabled state.publishers key topic

/-- `isAuthorizedToSubscribe` of a client. -/
def isAuthorizedToSubscribe (key topic : Bytes) : Bool :=
  isAuthorizedBy state.isWildcardingEnabled state.subscribers key topic

/-- `isAuthorizedToPublish` of certificates. -/
def certsAuthorizedToPublish (certHashes : List Bytes) (topic : Bytes) : Bool :=
  anyAuthorized (fun key => state.isAuthorizedToPublish key topic) certHashes

/-- `isAuthorizedToSubscribe` of certificates. -/
def certsAuthorizedToSubscribe (certHashes : List Bytes) (topic : Bytes) : Bool :=
  anyAuthorized (fun key => state.isAuthorizedToSubscribe key topic) certHashes

end

end TopicAuthorizationState

/-! ### The decision -/

/-- The topic, or one of its wildcard ancestors. -/
def Governs (w topic : Bytes) : Prop :=
  w = topic ∨ ∃ p, IsLevelPrefix p (cstr topic) ∧ w = p ++ [pound]

/-- None of the entries that govern a topic is there, or one that is there lists the key. -/
def Allowed (state : TopicAuthorizationStateData) (key topic : Bytes) : Prop :=
  (∀ w, Governs w topic → state.lookup w = none) ∨
    ∃ w, Governs w topic ∧ ∃ keys, state.lookup w = some keys ∧ key ∈ keys

section

variable {state : TopicAuthorizationStateData} {key topic : Bytes}

/-- The wildcard ancestors are those of the topic as a C string. -/
theorem mem_wildcardAncestors_cstr {w : Bytes} (h : pound ∉ topic) :
    w ∈ wildcardAncestors topic ↔ ∃ p, IsLevelPrefix p (cstr topic) ∧ w = p ++ [pound] := by
  rw [wildcardAncestors_eq fun hp => h ((cstr_isPrefix topic).subset hp), mem_wildcards]

theorem isAuthorized_of_none (h : state.lookup topic = none) :
    isAuthorized state key topic = (true, false) := by
  rw [isAuthorized, h]

theorem isAuthorized_of_some {keys : List Bytes} (h : state.lookup topic = some keys) :
    isAuthorized state key topic = (decide (key ∈ keys), true) := by
  rw [isAuthorized, h]
  simp [List.any_beq']

/-- The walk ends well when an ancestor lists the key, or all was well before and no ancestor has an
entry. -/
theorem walkWildcards_iff {wcTopics : List Bytes} {authorized : Bool} :
    walkWildcards state key wcTopics authorized = true ↔
      (authorized = true ∧ ∀ w ∈ wcTopics, state.lookup w = none) ∨
        ∃ w ∈ wcTopics, ∃ keys, state.lookup w = some keys ∧ key ∈ keys := by
  induction wcTopics generalizing authorized with
  | nil => simp [walkWildcards]
  | cons w wcTopics ih =>
    cases hw : state.lookup w with
    | none => simp [walkWildcards, isAuthorized_of_none hw, ih, hw]
    | some keys =>
      by_cases hkey : key ∈ keys
      · simp [walkWildcards, isAuthorized_of_some hw, hw, hkey]
      · simp [walkWildcards, isAuthorized_of_some hw, ih, hw, hkey]

/-- With the walk the decision is the one described. -/
theorem isAuthorizedBy_iff (h : pound ∉ topic) :
    isAuthorizedBy true state key topic = true ↔ Allowed state key topic := by
  have hwalk := @walkWildcards_iff state key (wildcardAncestors topic)
  simp only [mem_wildcardAncestors_cstr h] at hwalk
  unfold isAuthorizedBy Allowed Governs
  cases htopic : state.lookup topic with
  | none =>
    -- Without an entry the topic counts as authorized, and the ancestors decide.
    simp only [isAuthorized_of_none htopic, if_true, Bool.false_and, Bool.false_eq_true, if_false,
      hwalk]
    constructor
    · rintro (⟨-, hnone⟩ | ⟨w, hw, hlisted⟩)
      · left
        rintro w (rfl | hw)
        · exact htopic
        · exact hnone w hw
      · exact .inr ⟨w, .inr hw, hlisted⟩
    · rintro (hnone | ⟨w, rfl | hw, keys, hkeys, hkey⟩)
      · exact .inl ⟨trivial, fun w hw => hnone w (.inr hw)⟩
      · rw [htopic] at hkeys
        cases hkeys
      · exact .inr ⟨w, hw, keys, hkeys, hkey⟩
  | some keys =>
    -- A key in the entry needs no walk; any other one an ancestor that lists it.
    by_cases hkey : key ∈ keys
    · simp only [isAuthorized_of_some htopic, hkey, decide_true, Bool.and_self, if_true, true_iff]
      exact .inr ⟨topic, .inl rfl, keys, htopic, hkey⟩
    · simp only [isAuthorized_of_some htopic, hkey, decide_false, Bool.and_false, if_true,
        Bool.false_eq_true, if_false, hwalk, false_and, false_or]
      constructor
      · rintro ⟨w, hw, hlisted⟩
        exact .inr ⟨w, .inr hw, hlisted⟩
      · rintro (hnone | ⟨w, rfl | hw, keys', hkeys', hkey'⟩)
        · rw [hnone topic (.inl rfl)] at htopic
          cases htopic
        · rw [htopic, Option.some.injEq] at hkeys'
          exact absurd (hkeys' ▸ hkey') hkey
        · exact ⟨w, hw, keys', hkeys', hkey'⟩

/-- A policy without filters has no entry for a wildcard ancestor, and the walk changes nothing. -/
theorem isAuthorizedBy_of_not_hasWildcards (h : hasWildcards state = false) (key topic : Bytes) :
    isAuthorizedBy false state key topic = isAuthorizedBy true state key topic := by
  have hnone : ∀ w ∈ wildcardAncestors topic, state.lookup w = none := by
    intro w hw
    by_contra hentry
    obtain ⟨keys, hkeys⟩ := Option.ne_none_iff_exists'.mp hentry
    have hmem : (w, keys) ∈ state.pairs := Map.mem_pairs.mpr hkeys
    have hfound : hasWildcards state = true :=
      List.any_eq_true.mpr ⟨_, hmem, isWildcard_of_mem_wildcardAncestors hw⟩
    rw [h] at hfound
    cases hfound
  have hwalk : walkWildcards state key (wildcardAncestors topic) (isAuthorized state key topic).1 =
      (isAuthorized state key topic).1 := by
    rw [Bool.eq_iff_iff, walkWildcards_iff]
    constructor
    · rintro (⟨hauthorized, -⟩ | ⟨w, hw, keys, hkeys, -⟩)
      · exact hauthorized
      · rw [hnone w hw] at hkeys
        cases hkeys
    · exact fun hauthorized => .inl ⟨hauthorized, hnone⟩
  simp only [isAuthorizedBy, hwalk, Bool.false_eq_true, if_false, if_true]
  split_ifs with hhit
  · rw [Bool.and_eq_true] at hhit
    exact hhit.2
  · rfl

theorem anyAuthorized_iff {isAuthorizedKey : Bytes → Bool} {certHashes : List Bytes} :
    anyAuthorized isAuthorizedKey certHashes = true ↔
      (certHashes = [] ∧ isAuthorizedKey [] = true) ∨
        ∃ cert ∈ certHashes, isAuthorizedKey cert = true := by
  unfold anyAuthorized
  cases certHashes with
  | nil => simp
  | cons cert certHashes => simp

end

namespace TopicAuthorizationState

variable {state : TopicAuthorizationState}

/-- The flag spares the walk only where it changes nothing. -/
theorem isAuthorizedBy_flag {stateData : TopicAuthorizationStateData}
    (hdata : stateData = state.publishers ∨ stateData = state.subscribers) (key topic : Bytes) :
    isAuthorizedBy state.isWildcardingEnabled stateData key topic =
      isAuthorizedBy true stateData key topic := by
  cases hflag : state.isWildcardingEnabled with
  | true => rfl
  | false =>
    have hlooked := state.looked
    rw [hflag, eq_comm, Bool.or_eq_false_iff] at hlooked
    refine isAuthorizedBy_of_not_hasWildcards ?_ key topic
    rcases hdata with rfl | rfl
    · exact hlooked.1
    · exact hlooked.2

/-- **The authorization decision.**  A key may publish to a topic without a `#`, and likewise
subscribe to it, exactly when neither the topic nor any of its wildcard ancestors has an entry, or
some of those that have one lists the key.  The decision is the same without the wildcard flag, and
for certificates it is the disjunction over them, or that of the empty key if there are none. -/
theorem authorization_iff (state : TopicAuthorizationState) {topic : Bytes} (h : pound ∉ topic) :
    (∀ key, (state.isAuthorizedToPublish key topic = true ↔ Allowed state.publishers key topic) ∧
      (state.isAuthorizedToSubscribe key topic = true ↔ Allowed state.subscribers key topic)) ∧
    (∀ key, state.isAuthorizedToPublish key topic =
        isAuthorizedBy true state.publishers key topic ∧
      state.isAuthorizedToSubscribe key topic =
        isAuthorizedBy true state.subscribers key topic) ∧
    ∀ certHashes, (state.certsAuthorizedToPublish certHashes topic = true ↔
        (certHashes = [] ∧ Allowed state.publishers [] topic) ∨
          ∃ cert ∈ certHashes, Allowed state.publishers cert topic) ∧
      (state.certsAuthorizedToSubscribe certHashes topic = true ↔
        (certHashes = [] ∧ Allowed state.subscribers [] topic) ∨
          ∃ cert ∈ certHashes, Allowed state.subscribers cert topic) := by
  have hpublish : ∀ key, state.isAuthorizedToPublish key topic =
      isAuthorizedBy true state.publishers key topic :=
    fun key => isAuthorizedBy_flag (.inl rfl) key topic
  have hsubscribe : ∀ key, state.isAuthorizedToSubscribe key topic =
      isAuthorizedBy true state.subscribers key topic :=
    fun key => isAuthorizedBy_flag (.inr rfl) key topic
  refine ⟨fun key => ⟨?_, ?_⟩, fun key => ⟨hpublish key, hsubscribe key⟩,
    fun certHashes => ⟨?_, ?_⟩⟩
  · rw [hpublish, isAuthorizedBy_iff h]
  · rw [hsubscribe, isAuthorizedBy_iff h]
  · simp only [certsAuthorizedToPublish, anyAuthorized_iff, hpublish, isAuthorizedBy_iff h]
  · simp only [certsAuthorizedToSubscribe, anyAuthorized_iff, hsubscribe, isAuthorizedBy_iff h]

/-- Only `K` may publish below `/a/`, and on `/a/b` itself `J`. -/
def restrictedState : TopicAuthorizationState :=
  .create (Map.ofPairs [(lit "/a/#", [lit "K"]), (lit "/a/b", [lit "J"])]) ∅

theorem restrictedState_authorization :
    restrictedState.isAuthorizedToPublish (lit "K") (lit "/a/b") = true ∧
      Allowed restrictedState.publishers (lit "K") (lit "/a/b") := by
  have hallowed : restrictedState.isAuthorizedToPublish (lit "K") (lit "/a/b") = true := by decide
  exact ⟨hallowed, ((authorization_iff restrictedState (by decide)).1 (lit "K")).1.mp hallowed⟩

end TopicAuthorizationState

end DxlBroker
