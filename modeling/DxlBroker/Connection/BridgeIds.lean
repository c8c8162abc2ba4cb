import DxlBroker.Connection.Contexts
import DxlBroker.Core.BridgeConfiguration

/-!
# The identifiers of bridges

The identifier of a bridge is made of the host name, the GUID of the broker that makes it and the
GUIDs of the brokers it may connect to.  Both ends take the GUID of the other end from it, and tell
from their own GUID which end they are: a GUID that begins like that of the child passes for it.
-/

namespace DxlBroker

open Bytes

/-- `CoreBridgeConfiguration::getBridgeId` -/
def CoreBridgeConfiguration.getBridgeId (config : CoreBridgeConfiguration) : Bytes :=
  if config.brokers.isEmpty then []
  else config.guid ++ config.brokers.flatMap fun broker => colonByte :: broker.guid

/-- The identifier that `mqtt3_bridge_new` makes of the host name and the name of the bridge. -/
def bridgeContextId (hostname : Bytes) (config : CoreBridgeConfiguration) : Bytes :=
  cstr hostname ++ dotByte :: cstr config.getBridgeId

/-- The context of a bridge of this configuration. -/
structure Context.IsBridgeOf (c : Context) (hostname : Bytes) (config : CoreBridgeConfiguration) :
    Prop where
  isBridge : c.isBridge = true
  id : c.id = some (bridgeContextId hostname config)

/-- Such a context, with the addresses of the bridge where the broker makes it. -/
def Context.ofBridge (hostname : Bytes) (config : CoreBridgeConfiguration)
    (bridge : Option Bridge) : Context :=
  { isBridge := true, bridge := bridge, id := some (bridgeContextId hostname config) }

theorem Context.isBridgeOf_ofBridge (hostname : Bytes) (config : CoreBridgeConfiguration)
    (bridge : Option Bridge) : (ofBridge hostname config bridge).IsBridgeOf hostname config :=
  ⟨rfl, rfl⟩

/-- The child finds the broker of the current address, and every configured broker finds the
child. -/
def BridgeIdRoundTrip (hostname : Bytes) (config : CoreBridgeConfiguration) : Prop :=
  (∀ (settings : BrokerSettings) (c : Context) (bridge : Bridge)
    (h : bridge.curAddress < config.brokers.length), settings.guid = config.guid →
      c.IsBridgeOf hostname config → c.bridge = some bridge →
        c.bridgeBrokerId settings = some (true, (config.brokers[bridge.curAddress]).guid)) ∧
  ∀ (settings : BrokerSettings) (c : Context), ∀ broker ∈ config.brokers,
    settings.guid = broker.guid → c.IsBridgeOf hostname config →
      c.bridgeBrokerId settings = some (false, config.guid)

/-- A GUID without the separators of an identifier. -/
def SeparatorFree (guid : Bytes) : Prop := colonByte ∉ guid ∧ dotByte ∉ guid

instance (guid : Bytes) : Decidable (SeparatorFree guid) := inferInstanceAs (Decidable (_ ∧ _))

/-- The GUIDs are C strings, and those of the configured brokers are not empty and do not begin with
the one of the child. -/
def GuidsTold (config : CoreBridgeConfiguration) : Prop :=
  NulFree config.guid ∧ ∀ broker ∈ config.brokers,
    NulFree broker.guid ∧ broker.guid ≠ [] ∧ ¬ config.guid <+: broker.guid

instance (config : CoreBridgeConfiguration) : Decidable (GuidsTold config) :=
  inferInstanceAs (Decidable (_ ∧ _))

/-! ### Strings with separators -/

/-- Strings with a colon before each of them. -/
def withColons (guids : List Bytes) : Bytes := guids.flatMap fun guid => colonByte :: guid

theorem dropWhile_ne_append {sep : UInt8} {s : Bytes} (hs : sep ∉ s) (rest : Bytes) :
    (s ++ rest).dropWhile (fun c => c != sep) = rest.dropWhile fun c => c != sep :=
  List.dropWhile_append_of_pos fun _ hc => bne_iff_ne.mpr fun h => hs (h ▸ hc)

theorem afterLastDot_append (hostname : Bytes) {s : Bytes} (hs : dotByte ∉ s) :
    afterLastDot (hostname ++ dotByte :: s) = some s := by
  have hreverse : dotByte ∉ s.reverse := by rwa [List.mem_reverse]
  rw [afterLastDot, if_pos (by simp), List.reverse_append, List.reverse_cons, List.append_assoc,
    takeWhile_ne_append hreverse]
  simp

theorem uptoColon_append {guid : Bytes} (hguid : colonByte ∉ guid) (guids : List Bytes) :
    uptoColon (guid ++ withColons guids) = guid := by
  rw [uptoColon, takeWhile_ne_append hguid]
  cases guids <;> simp [withColons]

theorem afterColons_succ {guid : Bytes} (hguid : colonByte ∉ guid) (n : ℕ) (next : Bytes)
    (guids : List Bytes) :
    afterColons (n + 1) (guid ++ withColons (next :: guids)) =
      afterColons n (next ++ withColons guids) := by
  rw [afterColons, if_pos (by simp [withColons]), dropWhile_ne_append hguid]
  simp [withColons]

/-- So many colons further stands the GUID with that index. -/
theorem afterColons_withColons {guid : Bytes} {guids : List Bytes}
    (hguids : ∀ g ∈ guid :: guids, colonByte ∉ g) (i : ℕ) :
    (afterColons i (guid ++ withColons guids)).map uptoColon = (guid :: guids)[i]? := by
  induction i generalizing guid guids with
  | zero =>
    rw [afterColons, Option.map_some, uptoColon_append (hguids guid List.mem_cons_self)]
    rfl
  | succ i ih =>
    cases guids with
    | nil =>
      have hguid : colonByte ∉ guid := hguids guid List.mem_cons_self
      simp [afterColons, withColons, hguid]
    | cons next guids =>
      rw [afterColons_succ (hguids guid List.mem_cons_self)]
      exact ih fun g hg => hguids g (List.mem_cons_of_mem _ hg)

/-! ### The ends of a bridge -/

section

variable {settings : BrokerSettings} {hostname : Bytes} {config : CoreBridgeConfiguration}
  {c : Context}

theorem getBridgeId_eq {first : BridgeBroker} {rest : List BridgeBroker}
    (hbrokers : config.brokers = first :: rest) :
    config.getBridgeId =
      config.guid ++ withColons (first.guid :: rest.map BridgeBroker.guid) := by
  rw [CoreBridgeConfiguration.getBridgeId, hbrokers, withColons, ← List.map_cons,
    List.flatMap_map]
  rfl

theorem nulFree_getBridgeId (hguid : NulFree config.guid)
    (hguids : ∀ broker ∈ config.brokers, NulFree broker.guid) : NulFree config.getBridgeId := by
  unfold CoreBridgeConfiguration.getBridgeId NulFree
  split_ifs
  · simp
  · simp only [List.mem_append, List.mem_flatMap, List.mem_cons, not_or, not_exists, not_and]
    exact ⟨hguid, fun broker hbroker => ⟨by decide, hguids broker hbroker⟩⟩

theorem dotFree_getBridgeId (hguid : SeparatorFree config.guid)
    (hguids : ∀ broker ∈ config.brokers, SeparatorFree broker.guid) :
    dotByte ∉ config.getBridgeId := by
  unfold CoreBridgeConfiguration.getBridgeId
  split_ifs
  · simp
  · simp only [List.mem_append, List.mem_flatMap, List.mem_cons, not_or, not_exists, not_and]
    exact ⟨hguid.2, fun broker hbroker => ⟨by decide, (hguids broker hbroker).2⟩⟩

/-- What a broker finds in the identifier of a bridge: the child, unless its own GUID begins with the
one of the child. -/
theorem brokerIdOfBridge_eq (hc : c.IsBridgeOf hostname config)
    (hguid : SeparatorFree config.guid) (hnul : NulFree config.guid)
    (hguids : ∀ broker ∈ config.brokers, SeparatorFree broker.guid ∧ NulFree broker.guid)
    (hbrokers : config.brokers ≠ []) :
    c.brokerIdOfBridge settings =
      if config.guid <+: cstr settings.guid then
        c.bridge.bind fun bridge =>
          (config.brokers[bridge.curAddress]?).map fun broker => (true, broker.guid)
      else some (false, config.guid) := by
  obtain ⟨first, rest, hlist⟩ := List.exists_cons_of_ne_nil hbrokers
  have hid := getBridgeId_eq hlist
  have hcstr : cstr config.getBridgeId = config.getBridgeId :=
    cstr_of_nulFree (nulFree_getBridgeId hnul fun broker h => (hguids broker h).2)
  have hstart : afterLastDot (bridgeContextId hostname config) = some config.getBridgeId := by
    rw [bridgeContextId, hcstr]
    exact afterLastDot_append _ (dotFree_getBridgeId hguid fun broker h => (hguids broker h).1)
  have hparents : afterColons 1 config.getBridgeId =
      some (first.guid ++ withColons (rest.map BridgeBroker.guid)) := by
    rw [hid, afterColons_succ hguid.1]
    rfl
  have hchild : uptoColon config.getBridgeId = config.guid := by
    rw [hid, uptoColon_append hguid.1]
  unfold Context.brokerIdOfBridge
  rw [hc.id, hc.isBridge]
  simp only [guard_true, Option.pure_def, Option.bind_eq_bind, Option.bind_some, hstart, hparents,
    hchild]
  -- Only as many bytes are compared as the GUID of the child has.
  by_cases hprefix : config.guid <+: cstr settings.guid
  · rw [if_neg (not_not.mpr (List.prefix_iff_eq_take.mp hprefix).symm), if_pos hprefix]
    refine congrArg _ (funext fun bridge => ?_)
    have hcolons : ∀ g ∈ first.guid :: rest.map BridgeBroker.guid, colonByte ∉ g := by
      rw [← List.map_cons, ← hlist]
      intro g hg
      obtain ⟨broker, hbroker, rfl⟩ := List.mem_map.mp hg
      exact (hguids broker hbroker).1.1
    have hindex := afterColons_withColons hcolons bridge.curAddress
    rw [← List.map_cons, ← hlist, List.getElem?_map] at hindex
    have hpair : ∀ found : Option Bytes, (found.bind fun parent => some (true, uptoColon parent)) =
        (found.map uptoColon).map (Prod.mk true) := by
      rintro (_ | _) <;> rfl
    rw [hpair, hindex, Option.map_map]
    rfl
  · rw [if_pos fun h => hprefix (List.prefix_iff_eq_take.mpr h.symm), if_neg hprefix]

/-- What a broker finds has no NUL. -/
theorem nulFree_bridgeBrokerId {id found : Bytes} (hid : c.id = some id) (hnul : NulFree id)
    {isChild : Bool} (h : c.bridgeBrokerId settings = some (isChild, found)) : NulFree found := by
  have hlast : ∀ {s t : Bytes}, afterLastDot s = some t → NulFree s → NulFree t := by
    intro s t ht hs h0
    unfold afterLastDot at ht
    split_ifs at ht
    cases ht
    rw [List.mem_reverse] at h0
    exact hs (List.mem_reverse.mp (List.takeWhile_subset _ h0))
  have hcolons : ∀ {n : ℕ} {s t : Bytes}, afterColons n s = some t → NulFree s → NulFree t := by
    intro n
    induction n with
    | zero =>
      rintro s _ ⟨⟩ hs
      exact hs
    | succ n ih =>
      intro s t ht hs
      unfold afterColons at ht
      split_ifs at ht
      exact ih ht fun h0 => hs (List.dropWhile_subset _ (List.mem_of_mem_drop h0))
  have hupto : ∀ {s : Bytes}, NulFree s → NulFree (uptoColon s) := fun hs h0 =>
    hs (List.takeWhile_subset _ h0)
  unfold Context.bridgeBrokerId at h
  obtain ⟨hfound, -⟩ := Option.filter_eq_some_iff.mp h
  unfold Context.brokerIdOfBridge at hfound
  simp only [Option.bind_eq_bind, Option.bind_eq_some_iff] at hfound
  obtain ⟨-, -, id', hid', start, hstart, parents, hparents, hfound⟩ := hfound
  rw [hid, Option.some.injEq] at hid'
  have hstartNul : NulFree start := hlast hstart (hid' ▸ hnul)
  split_ifs at hfound
  · cases hfound
    exact hupto hstartNul
  · simp only [Option.bind_eq_some_iff] at hfound
    obtain ⟨bridge, -, parent, hparent, hfound⟩ := hfound
    cases hfound
    exact hupto (hcolons hparent (hcolons hparents hstartNul))

/-- **The identifiers of bridges.**  For GUIDs without separators, both ends find the GUID of the other
end exactly when all GUIDs are C strings and those of the configured brokers are not empty and do
not begin with the one of the child. -/
theorem bridgeIdRoundTrip_iff (hostname : Bytes) (config : CoreBridgeConfiguration)
    (hchild : config.guid ≠ []) (hbrokers : config.brokers ≠ [])
    (hguid : SeparatorFree config.guid)
    (hguids : ∀ broker ∈ config.brokers, SeparatorFree broker.guid) :
    BridgeIdRoundTrip hostname config ↔ GuidsTold config := by
  have hidNul : NulFree (bridgeContextId hostname config) := by
    unfold bridgeContextId NulFree
    simp only [List.mem_append, List.mem_cons, not_or]
    exact ⟨cstr_nulFree _, by decide, cstr_nulFree _⟩
  constructor
  · rintro ⟨htoParent, htoChild⟩
    -- The contexts of the bridge at the child and at a broker.
    have hat : ∀ broker ∈ config.brokers, NulFree broker.guid ∧ broker.guid ≠ [] := by
      intro broker hbroker
      obtain ⟨i, hi, rfl⟩ := List.mem_iff_getElem.mp hbroker
      let bridge : Bridge := { addressCount := config.brokers.length, curAddress := i }
      have hfound := htoParent { guid := config.guid } (.ofBridge hostname config bridge) bridge hi
        rfl (Context.isBridgeOf_ofBridge _ _ _) rfl
      refine ⟨nulFree_bridgeBrokerId rfl hidNul hfound, ?_⟩
      unfold Context.bridgeBrokerId at hfound
      exact of_decide_eq_true (Option.filter_eq_some_iff.mp hfound).2
    have hchildAt := fun broker hbroker => htoChild { guid := broker.guid }
      (.ofBridge hostname config none) broker hbroker rfl (Context.isBridgeOf_ofBridge _ _ _)
    obtain ⟨first, hfirst⟩ := List.exists_mem_of_ne_nil _ hbrokers
    have hnul : NulFree config.guid := nulFree_bridgeBrokerId rfl hidNul (hchildAt first hfirst)
    refine ⟨hnul, fun broker hbroker => ⟨(hat broker hbroker).1, (hat broker hbroker).2, ?_⟩⟩
    intro hprefix
    have hfound := hchildAt broker hbroker
    unfold Context.bridgeBrokerId at hfound
    rw [brokerIdOfBridge_eq (Context.isBridgeOf_ofBridge _ _ _) hguid hnul
      (fun b hb => ⟨hguids b hb, (hat b hb).1⟩) hbrokers,
      cstr_of_nulFree (hat broker hbroker).1, if_pos hprefix] at hfound
    simp [Context.ofBridge] at hfound
  · rintro ⟨hnul, htold⟩
    have heq := fun settings c (hc : Context.IsBridgeOf c hostname config) =>
      @brokerIdOfBridge_eq settings hostname config c hc hguid hnul
        (fun b hb => ⟨hguids b hb, (htold b hb).1⟩) hbrokers
    constructor
    -- At the child the GUID begins with itself.
    · intro settings c bridge h hsettings hc hbridge
      have hne := (htold _ (List.getElem_mem h)).2.1
      unfold Context.bridgeBrokerId
      rw [heq settings c hc, hsettings, cstr_of_nulFree hnul, if_pos (List.prefix_refl _), hbridge,
        Option.bind_some, List.getElem?_eq_getElem h, Option.map_some, Option.filter_some,
        if_pos (decide_eq_true hne)]
    · intro settings c broker hbroker hsettings hc
      -- At a broker it does not begin with the one of the child.
      obtain ⟨hnulBroker, -, hprefix⟩ := htold broker hbroker
      unfold Context.bridgeBrokerId
      rw [heq settings c hc, hsettings, cstr_of_nulFree hnulBroker, if_neg hprefix,
        Option.filter_some, if_pos (decide_eq_true hchild)]

/-- The bridge of a broker `a` to one of three brokers. -/
def distinctBridge : CoreBridgeConfiguration where
  guid := lit "a"
  brokers := [⟨lit "b", lit "h", 8883⟩, ⟨lit "ba", lit "g", 8883⟩, ⟨lit "c", lit "h", 8884⟩]

theorem bridgeIdRoundTrip_distinctBridge : BridgeIdRoundTrip (lit "host") distinctBridge :=
  (bridgeIdRoundTrip_iff (lit "host") distinctBridge (by decide) (by decide) (by decide)
    (by decide)).mpr (by decide)

/-- The bridge of a broker `a` to a broker `ab`. -/
def prefixBridge : CoreBridgeConfiguration where
  guid := lit "a"
  brokers := [⟨lit "ab", lit "h", 8883⟩]

/-- The broker `ab` takes itself for the child, and has no addresses. -/
theorem not_bridgeIdRoundTrip_prefixBridge :
    SeparatorFree (lit "a") ∧ SeparatorFree (lit "ab") ∧
      ¬ BridgeIdRoundTrip (lit "host") prefixBridge := by
  refine ⟨by decide, by decide, fun h => ?_⟩
  have hfound := h.2 { guid := lit "ab" } (.ofBridge (lit "host") prefixBridge none) _
    List.mem_cons_self rfl (Context.isBridgeOf_ofBridge _ _ _)
  exact absurd hfound (by decide)

end

end DxlBroker
