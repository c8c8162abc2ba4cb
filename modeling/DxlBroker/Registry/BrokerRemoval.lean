import DxlBroker.Registry.LocalEntry

/-!
# Removal of brokers

The removal of a broker takes one from the count of every connection to it.  It leaves no connection
behind, because only the local broker's connections are ever counted more than once, and only its
record keeps them.
-/

namespace DxlBroker

open Bytes Unordered

/-! ### A record without some connections -/

/-- The record `s'` is `s` without the connections to the brokers that are gone. -/
structure BrokerState.Without (gone : Bytes → Prop) (s s' : BrokerState) : Prop where
  dropped : ∀ c, gone c → s'.countedConnections.lookup c = none
  kept : ∀ c, ¬ gone c → s'.countedConnections.lookup c = s.countedConnections.lookup c
  children : ∀ c, c ∈ s'.childConnections ↔ c ∈ s.childConnections ∧ ¬ gone c
  rest : { s' with
    countedConnections := s.countedConnections
    childConnections := s.childConnections } = s

namespace BrokerState.Without

variable {gone gone' : Bytes → Prop} {s t u : BrokerState}

theorem refl (s : BrokerState) : Without (fun _ => False) s s :=
  ⟨fun _ h => h.elim, fun _ _ => rfl, fun _ => by simp, rfl⟩

theorem congr (h : Without gone s t) (hiff : ∀ c, gone c ↔ gone' c) : Without gone' s t := by
  rwa [← funext fun c => propext (hiff c)]

theorem trans (h : Without gone s t) (h' : Without gone' t u) :
    Without (fun c => gone c ∨ gone' c) s u where
  dropped c hc := by
    by_cases hc' : gone' c
    · exact h'.dropped c hc'
    · rw [h'.kept c hc', h.dropped c (hc.resolve_right hc')]
  kept c hc := by
    obtain ⟨hgone, hgone'⟩ := not_or.mp hc
    rw [h'.kept c hgone', h.kept c hgone]
  children c := by rw [h'.children, h.children, not_or, and_assoc]
  rest := by
    have hu := congrArg (fun v : BrokerState => { v with
      countedConnections := s.countedConnections, childConnections := s.childConnections }) h'.rest
    exact hu.trans h.rest

/-- Nothing but connections decides whether a broker is expired. -/
theorem isExpired (h : Without gone s t) (settings : BrokerSettings) (now : ℤ) :
    t.isExpired settings now = s.isExpired settings now := by
  rw [← h.rest]
  rfl

end BrokerState.Without

/-! ### What holds of every record -/

/-- A record is filed under its broker's identifier, its children are connections, and only the
local broker has connections that are counted more than once. -/
structure BrokerState.Filed (settings : BrokerSettings) (id : Bytes) (s : BrokerState) : Prop where
  named : s.broker.id = id
  nonempty : id ≠ []
  children : ∀ c ∈ s.childConnections, (s.countedConnections.lookup c).isSome = true
  single : id ≠ cstr settings.guid → ∀ c n, s.countedConnections.lookup c = some n → n = 1

namespace BrokerState.Filed

variable {settings : BrokerSettings} {id : Bytes} {s s' : BrokerState}

/-- Only the name and the connections matter. -/
theorem frame (h : s.Filed settings id) (hbroker : s'.broker.id = s.broker.id)
    (hconn : s'.countedConnections = s.countedConnections)
    (hchildren : s'.childConnections = s.childConnections) : s'.Filed settings id := by
  refine ⟨hbroker.trans h.named, h.nonempty, ?_, ?_⟩
  · rw [hchildren, hconn]
    exact h.children
  · rw [hconn]
    exact h.single

theorem addConnection_countedConnections (s : BrokerState) (c : Bytes) (isChild : Bool) :
    (s.addConnection c isChild).countedConnections =
      s.countedConnections.insert c ((s.countedConnections.lookup c).elim 1 (· + 1)) := by
  unfold BrokerState.addConnection
  cases s.countedConnections.lookup c <;> rfl

theorem children_addConnection
    (h : ∀ k ∈ s.childConnections, (s.countedConnections.lookup k).isSome = true)
    (c : Bytes) (isChild : Bool) : ∀ k ∈ (s.addConnection c isChild).childConnections,
      ((s.addConnection c isChild).countedConnections.lookup k).isSome = true := by
  intro k hk
  rw [addConnection_countedConnections]
  by_cases hkc : k = c
  · rw [hkc, AList.lookup_insert]
    rfl
  · rw [AList.lookup_insert_ne hkc]
    refine h k ?_
    have hmem : k ∈ (if isChild then insert c s.childConnections else s.childConnections) := hk
    split_ifs at hmem with hchild
    · exact (Finset.mem_insert.mp hmem).resolve_left hkc
    · exact hmem

/-- A connection of the local broker is made. -/
theorem addConnection (h : s.Filed settings id) (hlocal : id = cstr settings.guid) (c : Bytes)
    (isChild : Bool) : (s.addConnection c isChild).Filed settings id :=
  ⟨h.named, h.nonempty, children_addConnection h.children c isChild, fun hne => absurd hlocal hne⟩

theorem children_addConnections {children : Finset Bytes} (connections : List Bytes) :
    ∀ s : BrokerState, (∀ k ∈ s.childConnections, (s.countedConnections.lookup k).isSome = true) →
      ∀ k ∈ (BrokerState.addConnections children s connections).childConnections,
        ((BrokerState.addConnections children s connections).countedConnections.lookup k).isSome =
          true := by
  induction connections with
  | nil => exact fun _ h => h
  | cons c connections ih => exact fun s h => ih _ (children_addConnection h c _)

/-- The connections of a record are set. -/
theorem setConnections (h : s.Filed settings id) (order : IterOrder Bytes)
    (connections : List Bytes) (children : Finset Bytes) :
    (s.setConnections order connections children).1.Filed settings id := by
  unfold BrokerState.setConnections
  split_ifs
  · refine ⟨?_, h.nonempty, children_addConnections _ _ fun k hk => ?_, fun _ c n hn => ?_⟩
    · exact (congrArg Broker.id addConnections_frame.1).trans h.named
    · exact absurd hk (Finset.notMem_empty k)
    · rw [lookup_addConnections ((order.perm _).nodup_iff.mpr (List.nodup_dedup connections))
        fun d _ => AList.lookup_empty d] at hn
      split_ifs at hn
      · exact (Option.some.inj hn).symm
      · cases hn
  · exact h

theorem lookup_removeConnection_of_ne (s : BrokerState) {c k : Bytes} (hk : k ≠ c) :
    (s.removeConnection c).countedConnections.lookup k = s.countedConnections.lookup k := by
  unfold BrokerState.removeConnection
  split
  · rfl
  · split_ifs
    · exact AList.lookup_erase_ne hk
    · exact AList.lookup_insert_ne hk

/-- The removal of a connection changes the connections only. -/
theorem removeConnection_rest (s : BrokerState) (c : Bytes) :
    { s.removeConnection c with
      countedConnections := s.countedConnections
      childConnections := s.childConnections } = s := by
  unfold BrokerState.removeConnection
  split
  · rfl
  · split_ifs <;> rfl

/-- The removal of a connection with a count of one leaves the record without it. -/
theorem without (h : s.Filed settings id) (hid : id ≠ cstr settings.guid) (b : Bytes) :
    s.Without (· = b) (s.removeConnection b) := by
  refine ⟨?_, fun c hc => lookup_removeConnection_of_ne s hc, fun c => ?_,
    removeConnection_rest s b⟩
  · rintro c rfl
    unfold BrokerState.removeConnection
    split
    · rename_i hnone
      exact hnone
    · rename_i n hn
      rw [if_pos (by rw [h.single hid c n hn]; rfl)]
      exact AList.lookup_erase c _
  · unfold BrokerState.removeConnection
    split
    · rename_i hnone
      refine ⟨fun hc => ⟨hc, ?_⟩, And.left⟩
      rintro rfl
      have := h.children c hc
      rw [hnone] at this
      cases this
    · rename_i n hn
      rw [if_pos (by rw [h.single hid b n hn]; rfl), Finset.mem_erase]
      exact and_comm

/-- A record without some connections is still filed. -/
theorem of_without {gone : Bytes → Prop} (h : s.Filed settings id) (hw : s.Without gone s') :
    s'.Filed settings id := by
  refine ⟨?_, h.nonempty, fun c hc => ?_, fun hid c n hn => ?_⟩
  · have hbroker := congrArg BrokerState.broker hw.rest
    exact (congrArg Broker.id hbroker).trans h.named
  · obtain ⟨hmem, hgone⟩ := (hw.children c).mp hc
    rw [hw.kept c hgone]
    exact h.children c hmem
  · by_cases hgone : gone c
    · rw [hw.dropped c hgone] at hn
      cases hn
    · rw [hw.kept c hgone] at hn
      exact h.single hid c n hn

/-- A connection of the local broker is removed. -/
theorem removeConnection (h : s.Filed settings id) (hlocal : id = cstr settings.guid) (c : Bytes) :
    (s.removeConnection c).Filed settings id := by
  have hbroker := congrArg BrokerState.broker (removeConnection_rest s c)
  refine ⟨(congrArg Broker.id hbroker).trans h.named, h.nonempty, fun k hk => ?_,
    fun hne => absurd hlocal hne⟩
  unfold BrokerState.removeConnection at hk ⊢
  split at hk
  · exact h.children k hk
  · rename_i n hn
    split_ifs at hk ⊢ with hlast
    · obtain ⟨hkc, hmem⟩ := Finset.mem_erase.mp hk
      exact (congrArg Option.isSome (AList.lookup_erase_ne hkc)).trans (h.children k hmem)
    · by_cases hkc : k = c
      · rw [hkc]
        exact congrArg Option.isSome (AList.lookup_insert _)
      · exact (congrArg Option.isSome (AList.lookup_insert_ne hkc)).trans (h.children k hk)

end BrokerState.Filed

namespace BrokerRegistry

variable {settings : BrokerSettings} {env : RegistryEnv} {r r' r'' : BrokerRegistry}

/-! ### Runs -/

/-- Single connections are added and removed for the local broker only. -/
def LocalOnly (settings : BrokerSettings) : RegistryOp → Prop
  | .addConnection id _ _ => id = cstr settings.guid
  | .removeConnection id _ => id = cstr settings.guid
  | _ => True

/-- The registries that are reached in that way. -/
inductive ReachedLocal (settings : BrokerSettings) : BrokerRegistry → Prop
  | init (env : RegistryEnv) : ReachedLocal settings (init env)
  | step {r : BrokerRegistry} (h : ReachedLocal settings r) (env : RegistryEnv) (op : RegistryOp)
      (hop : LocalOnly settings op) : ReachedLocal settings (r.step settings env op)

/-- Every record is filed. -/
def Filed (settings : BrokerSettings) (r : BrokerRegistry) : Prop :=
  ∀ id s, r.brokers.lookup id = some s → s.Filed settings id

/-- One record is changed. -/
theorem Filed.of_lookup (h : Filed settings r) {id : Bytes} {f : BrokerState → BrokerState}
    (hlookup : ∀ k, r'.brokers.lookup k =
      if k = id then (r.brokers.lookup id).map f else r.brokers.lookup k)
    (hf : ∀ s, s.Filed settings id → (f s).Filed settings id) : Filed settings r' := by
  intro k s hk
  rw [hlookup] at hk
  split_ifs at hk with hid
  · obtain ⟨t, ht, rfl⟩ := Option.map_eq_some_iff.mp hk
    rw [hid]
    exact hf t (h id t ht)
  · exact h k s hk

/-- A record keeps its name and its connections. -/
theorem Filed.modifyState (h : Filed settings r) {id : Bytes} {f : BrokerState → BrokerState}
    (hf : ∀ s, s.Filed settings id → (f s).Filed settings id) :
    Filed settings (r.modifyState id f) :=
  h.of_lookup (fun k => lookup_modifyState r id k f) hf

theorem Filed.addBroker (h : Filed settings r) (b : Broker) :
    Filed settings (r.addBroker settings env b) := by
  intro k s hk
  rw [lookup_addBroker] at hk
  split_ifs at hk with hadd
  · obtain ⟨rfl, hid, -⟩ := hadd
    rw [← Option.some.inj hk]
    have hfresh : BrokerState.Filed settings b.id { broker := b, regTime := env.time } :=
      ⟨rfl, hid, fun c hc => absurd hc (Finset.notMem_empty c), fun _ c n hn => by cases hn⟩
    cases hold : r.brokers.lookup b.id with
    | none => exact hfresh
    | some t =>
      unfold registered
      simp only
      split_ifs
      · exact (h b.id t hold).frame rfl rfl rfl
      · exact hfresh
  · exact h k s hk

/-- The records after a removal. -/
theorem lookup_removeBroker {b : Bytes} (hb : r.brokers.hasBroker b = true) (k : Bytes) :
    (r.removeBroker settings env b).brokers.lookup k =
      if k = b then none
      else (r.brokers.lookup k).map fun s =>
        if k = cstr settings.guid then s else s.removeConnection b := by
  unfold removeBroker
  rw [if_pos hb]
  by_cases hk : k = b
  · rw [if_pos hk, hk]
    exact AList.lookup_erase b _
  · rw [if_neg hk]
    exact (AList.lookup_erase_ne hk).trans (Map.lookup_mapVals _ _ k)

theorem Filed.removeBroker (h : Filed settings r) (b : Bytes) :
    Filed settings (r.removeBroker settings env b) := by
  cases hb : r.brokers.hasBroker b with
  | false =>
    rw [removeBroker_of_unknown hb]
    exact h
  | true =>
    intro k s hk
    rw [lookup_removeBroker hb] at hk
    by_cases hkb : k = b
    · rw [if_pos hkb] at hk
      cases hk
    · rw [if_neg hkb] at hk
      obtain ⟨t, ht, rfl⟩ := Option.map_eq_some_iff.mp hk
      split_ifs with hlocal
      · exact h k t ht
      · exact (h k t ht).of_without ((h k t ht).without hlocal b)

theorem Filed.onCoreMaintenance (h : Filed settings r) :
    Filed settings (r.onCoreMaintenance settings env) :=
  onCoreMaintenance_keeps (fun _ id h => h.removeBroker id) (fun _ _ h => h) h

/-- Every operation of such a run keeps the records filed. -/
theorem Filed.step (h : Filed settings r) {op : RegistryOp} (hop : LocalOnly settings op) :
    Filed settings (r.step settings env op) := by
  cases op with
  | addBroker b => exact h.addBroker b
  | removeBroker id => exact h.removeBroker id
  | updateTtl id ttl => exact h.modifyState fun s hs => hs.frame rfl rfl rfl
  | updateRegistrationTime id => exact h.modifyState fun s hs => hs.frame rfl rfl rfl
  | addConnection id connection isChild =>
    show Filed settings (r.addConnection env id connection isChild)
    unfold BrokerRegistry.addConnection
    split_ifs
    · exact h.modifyState fun s hs => hs.addConnection hop connection isChild
    · exact h
  | removeConnection id connection =>
    show Filed settings (r.removeConnection env id connection)
    unfold BrokerRegistry.removeConnection
    split_ifs
    · exact h.modifyState fun s hs => hs.removeConnection hop connection
    · exact h
  | setConnections id connections children =>
    exact h.of_lookup (fun k => lookup_setConnections r id k connections children)
      fun s hs => hs.setConnections env.iter connections children.toFinset
  | addTopic id topic =>
    exact h.of_lookup (fun k => lookup_addTopic r id k topic) fun s hs =>
      hs.frame (by simp) (by simp) (by simp)
  | removeTopic id topic =>
    exact h.of_lookup (fun k => lookup_removeTopic r id k topic) fun s hs =>
      hs.frame (by simp) (by simp) (by simp)
  | clearPendingTopics id => exact h.modifyState fun s hs => hs.frame rfl rfl rfl
  | addPendingTopics id topics => exact h.modifyState fun s hs => hs.frame rfl rfl rfl
  | swapPendingTopics id =>
    exact h.of_lookup (fun k => lookup_swapPendingTopics r id k) fun s hs => hs.frame rfl rfl rfl
  | setTopicsChangeCount id n => exact h.modifyState fun s hs => hs.frame rfl rfl rfl
  | onCoreMaintenance => exact h.onCoreMaintenance
  | isSubscriberInHierarchy id connection topic => exact h
  | getNextBroker source target =>
    show Filed settings (r.getNextBroker env source target).2
    unfold Filed
    rw [(getNextBroker_frame env r source target).1]
    exact h
  | clearCache => exact h
  | clearCacheWithDelay delay => exact h

theorem ReachedLocal.filed (h : ReachedLocal settings r) : Filed settings r := by
  induction h with
  | init env =>
    intro id s hs
    cases hs
  | step _ env op hop ih => exact ih.step hop

/-! ### A registry without some brokers -/

/-- The registry `r'` is `r` without the brokers that are gone: they have no record, the local
broker's record is what it was, and the others have lost their connections to them. -/
structure Without (settings : BrokerSettings) (gone : Bytes → Prop) (r r' : BrokerRegistry) :
    Prop where
  removed : ∀ id, gone id → r'.brokers.lookup id = none
  own : r'.brokers.lookup (cstr settings.guid) = r.brokers.lookup (cstr settings.guid)
  others : ∀ id, ¬ gone id → id ≠ cstr settings.guid →
    Option.Rel (BrokerState.Without gone) (r.brokers.lookup id) (r'.brokers.lookup id)

variable {gone gone' : Bytes → Prop}

theorem Without.refl (r : BrokerRegistry) : Without settings (fun _ => False) r r where
  removed _ h := h.elim
  own := rfl
  others id _ _ := by
    cases r.brokers.lookup id with
    | none => exact .none
    | some s => exact .some (.refl s)

theorem Without.congr (h : Without settings gone r r') (hiff : ∀ c, gone c ↔ gone' c) :
    Without settings gone' r r' := by
  rwa [← funext fun c => propext (hiff c)]

theorem Without.trans (h : Without settings gone r r') (h' : Without settings gone' r' r'')
    (hlocal : ¬ gone (cstr settings.guid)) :
    Without settings (fun c => gone c ∨ gone' c) r r'' where
  removed id hid := by
    by_cases hid' : gone' id
    · exact h'.removed id hid'
    · have hgone := hid.resolve_right hid'
      have hne : id ≠ cstr settings.guid := fun he => hlocal (he ▸ hgone)
      have hrel := h'.others id hid' hne
      rw [h.removed id hgone] at hrel
      cases hrel' : r''.brokers.lookup id with
      | none => rfl
      | some s =>
        rw [hrel'] at hrel
        cases hrel
  own := h'.own.trans h.own
  others id hid hne := by
    obtain ⟨hgone, hgone'⟩ := not_or.mp hid
    have h₁ := h.others id hgone hne
    have h₂ := h'.others id hgone' hne
    revert h₁ h₂
    generalize r.brokers.lookup id = x
    generalize r'.brokers.lookup id = y
    generalize r''.brokers.lookup id = z
    intro h₁ h₂
    cases h₁ with
    | none =>
      cases h₂ with
      | none => exact .none
    | some h₁ =>
      cases h₂ with
      | some h₂ => exact .some (h₁.trans h₂)

/-- The removal of another broker. -/
theorem Filed.without (h : Filed settings r) {b : Bytes} (hlocal : b ≠ cstr settings.guid)
    (hb : r.brokers.hasBroker b = true) :
    Without settings (· = b) r (r.removeBroker settings env b) where
  removed id hid := by rw [lookup_removeBroker hb, if_pos hid]
  own := by
    rw [lookup_removeBroker hb, if_neg (Ne.symm hlocal)]
    cases r.brokers.lookup (cstr settings.guid) <;> simp
  others id hid hne := by
    rw [lookup_removeBroker hb, if_neg hid]
    cases hs : r.brokers.lookup id with
    | none => exact .none
    | some s =>
      simp only [Option.map_some, if_neg hne]
      exact .some ((h id s hs).without hne b)

/-! ### Expired brokers -/

/-- The broker has a record whose time to live has passed, and it is not the local broker. -/
def Expired (settings : BrokerSettings) (now : ℤ) (r : BrokerRegistry) (id : Bytes) : Prop :=
  id ≠ cstr settings.guid ∧ ∃ s, r.brokers.lookup id = some s ∧
    now - s.regTime > (s.broker.ttl.toNat + settings.ttlGracePeriodMins) * 60 % 2 ^ 32

theorem Filed.expired_iff (h : Filed settings r) {id : Bytes} {s : BrokerState}
    (hs : r.brokers.lookup id = some s) (now : ℤ) :
    s.isExpired settings now = true ↔ Expired settings now r id := by
  have hlocal : s.broker.isLocalBroker settings = true ↔ id = cstr settings.guid := by
    rw [Broker.isLocalBroker, (h id s hs).named, beq_iff_eq]
  unfold BrokerState.isExpired Expired
  rw [hs]
  split_ifs with hown
  · simp [hlocal.mp hown]
  · simp [mt hlocal.mpr hown]

/-- What the check of one broker leaves. -/
theorem Filed.removeIfExpired_spec (h : Filed settings r) (env : RegistryEnv) (id : Bytes) :
    Without settings (fun k => k = id ∧ Expired settings env.time r id) r
        (r.removeIfExpired settings env id) ∧
      (Expired settings env.time r id →
        r.removeIfExpired settings env id = r.removeBroker settings env id ∧
          r.brokers.hasBroker id = true) := by
  unfold BrokerRegistry.removeIfExpired
  cases hs : r.brokers.lookup id with
  | none =>
    have hnot : ¬ Expired settings env.time r id := by
      rintro ⟨-, s, hs', -⟩
      rw [hs] at hs'
      cases hs'
    exact ⟨(Without.refl r).congr fun c => by simp [hnot], fun hexp => absurd hexp hnot⟩
  | some s =>
    have hiff := h.expired_iff hs env.time
    simp only
    split_ifs with hexpired
    · have hexp := hiff.mp hexpired
      have hb : r.brokers.hasBroker id = true := by
        simp [BrokerTable.hasBroker, hs, (h id s hs).nonempty]
      exact ⟨(h.without hexp.1 hb).congr fun c => by simp [hexp], fun _ => ⟨rfl, hb⟩⟩
    · have hexp := mt hiff.mpr hexpired
      exact ⟨(Without.refl r).congr fun c => by simp [hexp], fun he => absurd he hexp⟩

/-- The removal of other brokers does not make a broker expired. -/
theorem Without.expired_iff (h : Without settings gone r r') (now : ℤ) (id : Bytes) :
    Expired settings now r' id ↔ Expired settings now r id ∧ ¬ gone id := by
  by_cases hne : id = cstr settings.guid
  · simp [Expired, hne]
  · by_cases hgone : gone id
    · simp [Expired, hgone, h.removed id hgone]
    · have hrel := h.others id hgone hne
      simp only [Expired, ne_eq, hne, not_false_eq_true, true_and, hgone, and_true]
      revert hrel
      generalize r.brokers.lookup id = x
      generalize r'.brokers.lookup id = y
      intro hrel
      cases hrel with
      | none => simp
      | @some s s' hrel =>
        have hrest := hrel.rest
        have hbroker := congrArg BrokerState.broker hrest
        have htime := congrArg BrokerState.regTime hrest
        simp only at hbroker htime
        simp [hbroker, htime]

/-! ### Forgotten caches -/

/-- Nothing of the two caches can be used any more. -/
structure Forgotten (r : BrokerRegistry) : Prop where
  routes : r.cache = ∅
  topics : r.topicCacheService.wasEnabled = true → r.topicCacheService.brokerCacheById = ∅

theorem forgotten_removeBroker {b : Bytes} (hb : r.brokers.hasBroker b = true) :
    Forgotten (r.removeBroker settings env b) := by
  unfold removeBroker
  rw [if_pos hb]
  exact ⟨rfl, TopicCacheService.clearCache_empty⟩

theorem Forgotten.removeIfExpired (h : Forgotten r) (id : Bytes) :
    Forgotten (r.removeIfExpired settings env id) := by
  refine removeIfExpired_keeps (fun h => ?_) h
  cases hb : r.brokers.hasBroker id with
  | false =>
    rw [removeBroker_of_unknown hb]
    exact h
  | true => exact forgotten_removeBroker hb

/-- The loop over some brokers. -/
theorem Filed.removeAll (env : RegistryEnv) (ids : List Bytes) :
    ∀ {r : BrokerRegistry}, Filed settings r →
    Without settings (fun k => k ∈ ids ∧ Expired settings env.time r k) r
        (ids.foldl (BrokerRegistry.removeIfExpired settings env) r) ∧
      (Forgotten r ∨ (∃ k ∈ ids, Expired settings env.time r k) →
        Forgotten (ids.foldl (BrokerRegistry.removeIfExpired settings env) r)) := by
  induction ids with
  | nil =>
    intro r h
    exact ⟨(Without.refl r).congr fun c => by simp, fun hor => hor.resolve_right (by simp)⟩
  | cons id ids ih =>
    intro r h
    obtain ⟨hone, hremoved⟩ := h.removeIfExpired_spec env id
    obtain ⟨hrest, hforgotten⟩ := ih (removeIfExpired_keeps (fun h => h.removeBroker id) h)
    have hlocal : ¬ (cstr settings.guid = id ∧ Expired settings env.time r id) := by
      rintro ⟨rfl, hexp⟩
      exact hexp.1 rfl
    refine ⟨(hone.trans hrest hlocal).congr fun c => ?_, fun hor => hforgotten ?_⟩
    · rw [hone.expired_iff, List.mem_cons]
      by_cases hc : c = id
      · rw [hc]
        tauto
      · tauto
    · by_cases hexp : Expired settings env.time r id
      · obtain ⟨heq, hb⟩ := hremoved hexp
        rw [heq]
        exact .inl (forgotten_removeBroker hb)
      · rcases hor with hor | ⟨k, hk, hk'⟩
        · exact .inl (hor.removeIfExpired id)
        · refine .inr ⟨k, ?_, (hone.expired_iff env.time k).mpr ⟨hk', fun hn => hexp hn.2⟩⟩
          exact (List.mem_cons.mp hk).resolve_left fun he => hexp (he ▸ hk')

end BrokerRegistry

/-! ### What a forgotten cache answers -/

namespace TopicCacheService

variable {env : CacheEnv} {s t : TopicCacheService}

/-- The two services differ in content that neither of them uses. -/
structure Agree (s t : TopicCacheService) : Prop where
  wasEnabled : t.wasEnabled = s.wasEnabled
  enabledTime : t.enabledTime = s.enabledTime
  caches : s.wasEnabled = true → t.brokerCacheById = s.brokerCacheById

theorem Agree.eq (h : Agree s t) (hwas : s.wasEnabled = true) : t = s := by
  cases s
  cases t
  obtain ⟨hw, ht, hc⟩ := h
  simp only at hw ht hc hwas
  rw [hw, ht, hc hwas]

theorem Agree.enabledNow (h : Agree s t) : t.enabledNow env = s.enabledNow env := by
  unfold TopicCacheService.enabledNow
  rw [h.enabledTime]

theorem Agree.clearCache (h : Agree s t) : Agree (s.clearCache env) (t.clearCache env) := by
  unfold TopicCacheService.clearCache checkEnabledOnClear
  simp only [h.enabledNow]
  cases s.enabledNow env with
  | false => exact ⟨rfl, h.enabledTime, fun hwas => by cases hwas⟩
  | true => exact ⟨rfl, rfl, fun _ => rfl⟩

theorem Agree.clearCacheWithDelay (h : Agree s t) (delay : UInt32) :
    Agree (s.clearCacheWithDelay env delay) (t.clearCacheWithDelay env delay) :=
  ⟨h.clearCache.wasEnabled, rfl, h.clearCache.caches⟩

theorem Agree.checkEnabled (h : Agree s t) :
    (t.checkEnabled env).1 = (s.checkEnabled env).1 ∧
      Agree (s.checkEnabled env).2 (t.checkEnabled env).2 := by
  refine ⟨h.enabledNow, ?_⟩
  cases hwas : s.wasEnabled with
  | true =>
    rw [h.eq hwas]
    exact ⟨rfl, rfl, fun _ => rfl⟩
  | false =>
    obtain ⟨hs, hs'⟩ := checkEnabled_spec env s
    obtain ⟨ht, ht'⟩ := checkEnabled_spec env t
    have hflag : (t.checkEnabled env).1 = (s.checkEnabled env).1 := h.enabledNow
    refine ⟨by rw [hs, ht, hflag], ?_, fun hon => ?_⟩
    · have htime : ∀ time, Agree { s with enabledTime := time } { t with enabledTime := time } :=
        fun time => ⟨h.wasEnabled, rfl, h.caches⟩
      unfold TopicCacheService.checkEnabled
      simp only [h.enabledNow, h.wasEnabled, h.enabledTime]
      by_cases hstart : (!s.wasEnabled && s.enabledNow env) = true
      · rw [if_pos hstart, if_pos hstart]
        exact (htime _).clearCache.enabledTime
      · rw [if_neg hstart, if_neg hstart]
    · -- Both services become enabled, and are cleared.
      rw [hs] at hon
      have hs'' := (hs' hon).resolve_right (by simp [hwas])
      have ht'' := (ht' (hflag.trans hon)).resolve_right (by simp [h.wasEnabled, hwas])
      rw [hs'', ht'']

/-- As soon as the service is enabled there is no difference. -/
theorem Agree.checkEnabled_eq (h : Agree s t) (hon : (s.checkEnabled env).1 = true) :
    (t.checkEnabled env).2 = (s.checkEnabled env).2 :=
  h.checkEnabled.2.eq ((checkEnabled_spec env s).1.trans hon)

theorem Agree.updateTopics (h : Agree s t) (b : Bytes)
    (update : BridgeTopicCache → BridgeTopicCache) :
    Agree (s.updateTopics env b update) (t.updateTopics env b update) := by
  unfold TopicCacheService.updateTopics
  simp only [h.checkEnabled.1]
  cases hon : (s.checkEnabled env).1 with
  | false => exact h.checkEnabled.2
  | true =>
    rw [h.checkEnabled_eq hon]
    exact ⟨rfl, rfl, fun _ => rfl⟩

theorem Agree.isSubscriber (h : Agree s t) (settings : BrokerSettings) (order : ConnectionOrder)
    (brokers : BrokerTable) (brokerId bridgeId topic : Bytes) :
    (t.isSubscriber settings order env brokers brokerId bridgeId topic).1 =
        (s.isSubscriber settings order env brokers brokerId bridgeId topic).1 ∧
      Agree (s.isSubscriber settings order env brokers brokerId bridgeId topic).2
        (t.isSubscriber settings order env brokers brokerId bridgeId topic).2 := by
  unfold TopicCacheService.isSubscriber
  simp only [h.checkEnabled.1]
  cases hon : (s.checkEnabled env).1 with
  | false => exact ⟨rfl, h.checkEnabled.2⟩
  | true =>
    rw [h.checkEnabled_eq hon]
    exact ⟨rfl, rfl, rfl, fun _ => rfl⟩

end TopicCacheService

namespace BrokerRegistry

variable {settings : BrokerSettings} {env : RegistryEnv} {r r' : BrokerRegistry}

/-- Two registries that differ in content of the topic cache that is not used. -/
structure Twin (r r' : BrokerRegistry) : Prop where
  brokers : r'.brokers = r.brokers
  cache : r'.cache = r.cache
  ttlCheckTime : r'.ttlCheckTime = r.ttlCheckTime
  service : r.topicCacheService.Agree r'.topicCacheService

namespace Twin

theorem setState (h : Twin r r') (id : Bytes) (s : BrokerState) :
    Twin (r.setState id s) (r'.setState id s) :=
  ⟨by rw [BrokerRegistry.setState, BrokerRegistry.setState, h.brokers], h.cache, h.ttlCheckTime,
    h.service⟩

theorem clearTopicCache (h : Twin r r') : Twin (r.clearTopicCache env) (r'.clearTopicCache env) :=
  ⟨h.brokers, h.cache, h.ttlCheckTime, h.service.clearCacheWithDelay 0⟩

theorem clearAllCaches (h : Twin r r') : Twin (r.clearAllCaches env) (r'.clearAllCaches env) :=
  ⟨h.brokers, rfl, h.ttlCheckTime, h.service.clearCacheWithDelay 0⟩

theorem modifyState (h : Twin r r') (id : Bytes) (f : BrokerState → BrokerState) :
    Twin (r.modifyState id f) (r'.modifyState id f) := by
  unfold BrokerRegistry.modifyState
  rw [h.brokers]
  split
  · exact h.setState id _
  · exact h

theorem addBroker (h : Twin r r') (b : Broker) :
    Twin (r.addBroker settings env b) (r'.addBroker settings env b) := by
  unfold BrokerRegistry.addBroker
  rw [h.brokers]
  split_ifs
  · exact h
  · split
    · split_ifs
      · exact h.clearTopicCache.setState _ _
      · exact h.setState _ _
      · exact (h.setState _ _).clearAllCaches
    · exact (h.setState _ _).clearAllCaches

theorem removeBroker (h : Twin r r') (id : Bytes) :
    Twin (r.removeBroker settings env id) (r'.removeBroker settings env id) := by
  unfold BrokerRegistry.removeBroker
  simp only [h.brokers]
  split_ifs
  · exact ⟨rfl, rfl, h.ttlCheckTime, h.service.clearCacheWithDelay 0⟩
  · exact h

theorem removeIfExpired (h : Twin r r') (id : Bytes) :
    Twin (r.removeIfExpired settings env id) (r'.removeIfExpired settings env id) := by
  unfold BrokerRegistry.removeIfExpired
  rw [h.brokers]
  split
  · split_ifs
    · exact h.removeBroker id
    · exact h
  · exact h

theorem onCoreMaintenance (h : Twin r r') :
    Twin (r.onCoreMaintenance settings env) (r'.onCoreMaintenance settings env) := by
  have key : ∀ (ids : List Bytes) (r r' : BrokerRegistry), Twin r r' →
      Twin (ids.foldl (BrokerRegistry.removeIfExpired settings env) r)
        (ids.foldl (BrokerRegistry.removeIfExpired settings env) r') := by
    intro ids
    induction ids with
    | nil => exact fun _ _ h => h
    | cons id ids ih => exact fun _ _ h => ih _ _ (h.removeIfExpired id)
  unfold BrokerRegistry.onCoreMaintenance
  rw [h.ttlCheckTime, h.brokers]
  split_ifs
  · exact key _ _ _ ⟨rfl, h.cache, rfl, h.service⟩
  · exact h

theorem addConnection (h : Twin r r') (id connection : Bytes) (isChild : Bool) :
    Twin (r.addConnection env id connection isChild)
      (r'.addConnection env id connection isChild) := by
  unfold BrokerRegistry.addConnection
  rw [h.brokers]
  split_ifs
  · exact (h.modifyState id _).clearAllCaches
  · exact h

theorem removeConnection (h : Twin r r') (id connection : Bytes) :
    Twin (r.removeConnection env id connection) (r'.removeConnection env id connection) := by
  unfold BrokerRegistry.removeConnection
  rw [h.brokers]
  split_ifs
  · exact (h.modifyState id _).clearAllCaches
  · exact h

theorem setConnections (h : Twin r r') (id : Bytes) (connections children : List Bytes) :
    Twin (r.setConnections env id connections children)
      (r'.setConnections env id connections children) := by
  unfold BrokerRegistry.setConnections
  rw [h.brokers]
  split
  · exact h
  · simp only
    split_ifs
    · exact (h.setState id _).clearAllCaches
    · exact h

theorem addTopic (h : Twin r r') (id topic : Bytes) :
    Twin (r.addTopic settings env id topic) (r'.addTopic settings env id topic) := by
  unfold BrokerRegistry.addTopic
  rw [h.brokers]
  split
  · exact h
  · rename_i s _
    have hset := h.setState id (s.addTopic settings topic).1
    simp only
    split_ifs
    · refine ⟨hset.brokers, h.cache, h.ttlCheckTime, ?_⟩
      rw [hset.brokers]
      exact h.service.updateTopics id _
    · exact h

theorem removeTopic (h : Twin r r') (id topic : Bytes) :
    Twin (r.removeTopic settings env id topic) (r'.removeTopic settings env id topic) := by
  unfold BrokerRegistry.removeTopic
  rw [h.brokers]
  split
  · exact h
  · rename_i s _
    have hset := h.setState id (s.removeTopic settings topic).1
    simp only
    split_ifs
    · refine ⟨hset.brokers, h.cache, h.ttlCheckTime, ?_⟩
      rw [hset.brokers]
      exact h.service.updateTopics id _
    · exact h

theorem swapPendingTopics (h : Twin r r') (id : Bytes) :
    Twin (r.swapPendingTopics env id) (r'.swapPendingTopics env id) := by
  unfold BrokerRegistry.swapPendingTopics
  rw [h.brokers]
  split_ifs
  · exact (h.modifyState id _).clearTopicCache
  · exact h

/-- The answers are the same. -/
theorem isSubscriberInHierarchy (h : Twin r r') (id connection topic : Bytes) :
    (r'.isSubscriberInHierarchy settings env id connection topic).1 =
        (r.isSubscriberInHierarchy settings env id connection topic).1 ∧
      Twin (r.isSubscriberInHierarchy settings env id connection topic).2
        (r'.isSubscriberInHierarchy settings env id connection topic).2 := by
  unfold BrokerRegistry.isSubscriberInHierarchy
  simp only [h.brokers]
  obtain ⟨hanswer, hservice⟩ := h.service.isSubscriber settings env.order r.brokers id connection
    topic
  exact ⟨by rw [hanswer], rfl, h.cache, h.ttlCheckTime, hservice⟩

theorem getNextBroker (h : Twin r r') (source target : Bytes) :
    (r'.getNextBroker env source target).1 = (r.getNextBroker env source target).1 ∧
      Twin (r.getNextBroker env source target).2 (r'.getNextBroker env source target).2 := by
  unfold BrokerRegistry.getNextBroker
  rw [h.brokers, h.cache]
  split_ifs
  · exact ⟨rfl, h⟩
  · split
    · exact ⟨rfl, h⟩
    · split
      · refine ⟨rfl, ?_⟩
        simp only
        split_ifs
        · exact h
        · exact ⟨rfl, rfl, h.ttlCheckTime, h.service⟩
      · exact ⟨rfl, h⟩
  · exact ⟨rfl, h⟩

/-- Every operation keeps two such registries alike. -/
theorem step (h : Twin r r') (op : RegistryOp) :
    Twin (r.step settings env op) (r'.step settings env op) := by
  cases op with
  | addBroker b => exact h.addBroker b
  | removeBroker id => exact h.removeBroker id
  | updateTtl id ttl => exact h.modifyState id _
  | updateRegistrationTime id => exact h.modifyState id _
  | addConnection id connection isChild => exact h.addConnection id connection isChild
  | removeConnection id connection => exact h.removeConnection id connection
  | setConnections id connections children => exact h.setConnections id connections children
  | addTopic id topic => exact h.addTopic id topic
  | removeTopic id topic => exact h.removeTopic id topic
  | clearPendingTopics id => exact h.modifyState id _
  | addPendingTopics id topics => exact h.modifyState id _
  | swapPendingTopics id => exact h.swapPendingTopics id
  | setTopicsChangeCount id n => exact h.modifyState id _
  | onCoreMaintenance => exact h.onCoreMaintenance
  | isSubscriberInHierarchy id connection topic =>
    exact (h.isSubscriberInHierarchy id connection topic).2
  | getNextBroker source target => exact (h.getNextBroker source target).2
  | clearCache => exact ⟨h.brokers, h.cache, h.ttlCheckTime, h.service.clearCache⟩
  | clearCacheWithDelay delay =>
    exact ⟨h.brokers, h.cache, h.ttlCheckTime, h.service.clearCacheWithDelay delay⟩

end Twin

/-- The registry after some operations. -/
def runFrom (settings : BrokerSettings) (r : BrokerRegistry)
    (ops : List (RegistryEnv × RegistryOp)) : BrokerRegistry :=
  ops.foldl (fun r p => r.step settings p.1 p.2) r

theorem Twin.runFrom {ops : List (RegistryEnv × RegistryOp)} (h : Twin r r') :
    Twin (r.runFrom settings ops) (r'.runFrom settings ops) := by
  induction ops generalizing r r' with
  | nil => exact h
  | cons p ops ih => exact ih (h.step p.2)

/-- The registry with its two caches emptied. -/
def emptied (r : BrokerRegistry) : BrokerRegistry :=
  { r with
    cache := ∅
    topicCacheService := { r.topicCacheService with brokerCacheById := ∅ } }

/-- However the registry goes on, its answers are those of one whose caches are empty now. -/
def AnswersAfresh (settings : BrokerSettings) (r : BrokerRegistry) : Prop :=
  ∀ (ops : List (RegistryEnv × RegistryOp)) (env : RegistryEnv),
    (∀ source target, ((r.runFrom settings ops).getNextBroker env source target).1 =
      ((r.emptied.runFrom settings ops).getNextBroker env source target).1) ∧
    ∀ id connection topic,
      ((r.runFrom settings ops).isSubscriberInHierarchy settings env id connection topic).1 =
        ((r.emptied.runFrom settings ops).isSubscriberInHierarchy settings env id connection
          topic).1

theorem Forgotten.answersAfresh (h : Forgotten r) : AnswersAfresh settings r := by
  have htwin : Twin r.emptied r :=
    ⟨rfl, h.routes, rfl, rfl, rfl, fun hwas => h.topics hwas⟩
  intro ops env
  have hrun : Twin (r.emptied.runFrom settings ops) (r.runFrom settings ops) := htwin.runFrom
  exact ⟨fun source target => (hrun.getNextBroker source target).1,
    fun id connection topic => (hrun.isSubscriberInHierarchy id connection topic).1⟩

/-! ### Removal -/

/-- **A removal leaves no trace.**  The removal of another broker, and the check of the times to
live, leave the registry without the brokers that go, and nothing is answered from before. -/
theorem removal_leaves_no_trace (h : ReachedLocal settings r) (env : RegistryEnv) :
    (∀ b, b ≠ cstr settings.guid →
      (r.brokers.hasBroker b = true →
        Without settings (· = b) r (r.removeBroker settings env b) ∧
          AnswersAfresh settings (r.removeBroker settings env b)) ∧
      (r.brokers.hasBroker b = false → r.removeBroker settings env b = r)) ∧
    (env.time - r.ttlCheckTime ≥ settings.ttlCheckIntervalMins * 60 →
      Without settings (Expired settings env.time r) r (r.onCoreMaintenance settings env) ∧
        ((∃ b, Expired settings env.time r b) →
          AnswersAfresh settings (r.onCoreMaintenance settings env))) ∧
    (¬ env.time - r.ttlCheckTime ≥ settings.ttlCheckIntervalMins * 60 →
      r.onCoreMaintenance settings env = r) := by
  have hfiled := h.filed
  refine ⟨fun b hlocal => ⟨fun hb => ?_, fun hb => ?_⟩, fun hdue => ?_, fun hdue => if_neg hdue⟩
  · exact ⟨hfiled.without hlocal hb, (forgotten_removeBroker hb).answersAfresh⟩
  · exact removeBroker_of_unknown (by simpa using hb)
  · have hchecked : Filed settings { r with ttlCheckTime := env.time } := hfiled
    obtain ⟨hwithout, hforgotten⟩ := hchecked.removeAll env (env.iter.arrange r.brokers.keys)
    have hrun : r.onCoreMaintenance settings env =
        (env.iter.arrange r.brokers.keys).foldl (BrokerRegistry.removeIfExpired settings env)
          { r with ttlCheckTime := env.time } := if_pos hdue
    have hkeys : ∀ b, Expired settings env.time r b → b ∈ env.iter.arrange r.brokers.keys := by
      rintro b ⟨-, s, hs, -⟩
      rw [IterOrder.mem_arrange, ← AList.mem_keys, ← AList.lookup_isSome, hs]
      rfl
    have hexpired := hwithout.congr fun b => ⟨And.right, fun hb => ⟨hkeys b hb, hb⟩⟩
    rw [hrun]
    refine ⟨⟨hexpired.removed, hexpired.own, hexpired.others⟩, ?_⟩
    rintro ⟨b, hb⟩
    exact (hforgotten (.inr ⟨b, hkeys b hb, hb⟩)).answersAfresh

theorem reachedLocal_runSteady {ops : List RegistryOp}
    (hops : ∀ op ∈ ops, LocalOnly { guid := lit "L" } op) :
    ReachedLocal { guid := lit "L" } (runSteady ops) := by
  induction ops using List.reverseRecOn with
  | nil => exact .init steadyEnv
  | append_singleton ops op ih =>
    rw [runSteady, List.foldl_append]
    exact (ih fun op' hop' => hops op' (List.mem_append_left _ hop')).step steadyEnv op
      (hops op (by simp))

/-- The broker behind the two bridges is removed. -/
theorem removal_leaves_no_trace_diamond :
    Without { guid := lit "L" } (· = lit "X") (runSteady diamond)
      ((runSteady diamond).removeBroker { guid := lit "L" } steadyEnv (lit "X")) := by
  have hreached : ReachedLocal { guid := lit "L" } (runSteady diamond) :=
    reachedLocal_runSteady (by simp [diamond, LocalOnly])
  exact (((removal_leaves_no_trace hreached steadyEnv).1 (lit "X") (by decide)).1
    (by decide +kernel)).1

end BrokerRegistry

end DxlBroker
