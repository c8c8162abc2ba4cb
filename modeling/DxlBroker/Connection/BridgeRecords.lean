import DxlBroker.Connection.BrokerLoop

/-!
# Bridges and recorded connections

The record of the local broker counts its connections to another broker.  It is told of bridges that
connect and disconnect by notifications.  A context that is disconnected is notified if its state is
no longer new: the count stays right if the context was connected, or if no other is.
-/

namespace DxlBroker

open Bytes Unordered

namespace Context

variable (settings : BrokerSettings)

/-- The broker at the other end of a bridge. -/
def peer (c : Context) : Option Bytes := (c.bridgeBrokerId settings).map Prod.snd

/-- The context is connected. -/
def live (c : Context) : Bool := c.state = .connected ∧ c.invalid = false

/-- The context is connected as a bridge with a broker. -/
def connectedTo (brokerId : Bytes) (c : Context) : Bool :=
  c.live && c.peer settings == some brokerId

/-- A bridge of the broker has no WebSocket, and a new WebSocket has no identifier. -/
def Sound (c : Context) : Prop :=
  (c.bridge.isSome = true → c.wsi = false) ∧ (c.wsi = true → c.state = .new → c.id = none)

end Context

namespace MqttBroker

section

variable (settings : BrokerSettings) (env : RegistryEnv)

/-- The number of contexts that are connected as a bridge with a broker. -/
def connectedBridges (β : MqttBroker) (brokerId : Bytes) : ℕ :=
  β.contexts.countVals (Context.connectedTo settings brokerId)

/-- The number of such contexts other than one. -/
def otherBridges (β : MqttBroker) (i : ℕ) (brokerId : Bytes) : ℕ :=
  Map.countVals (Context.connectedTo settings brokerId) (β.contexts.erase i)

/-- The local broker has a record, whose counts are the given ones; a broker with count zero is
absent. -/
def Records (β : MqttBroker) (n : Bytes → ℕ) : Prop :=
  ∃ s, β.registry.brokers.lookup (cstr settings.guid) = some s ∧
    ∀ b, n b < 2 ^ 32 ∧
      s.countedConnections.lookup b = if n b = 0 then none else some (UInt32.ofNat (n b))

/-- The recorded counts are the numbers of contexts. -/
def Paired (β : MqttBroker) : Prop := β.Records settings (β.connectedBridges settings)

/-! ### The conditions -/

/-- A bridge that is disconnected is connected, or no other is connected with its broker. -/
def DisconnectOk (β : MqttBroker) (i : ℕ) : Prop :=
  ∀ c b, β.contexts.lookup i = some c → c.state ≠ .new → c.peer settings = some b →
    c.live = true ∨ β.otherBridges settings i b = 0

/-- A bridge that is disconnected twice is the only one with its broker. -/
def DisconnectTwiceOk (β : MqttBroker) (i : ℕ) : Prop :=
  ∀ c b, β.contexts.lookup i = some c → c.socketClose.state ≠ .new → c.peer settings = some b →
    β.otherBridges settings i b = 0

/-- Whatever its state, the bridge is the only one with its broker. -/
def Alone (β : MqttBroker) (i : ℕ) : Prop :=
  ∀ c b, β.contexts.lookup i = some c → c.peer settings = some b →
    β.otherBridges settings i b = 0

end

variable {settings : BrokerSettings} {env : RegistryEnv} {β : MqttBroker} {c : Context} {i : ℕ}

/-! ### Counting -/

theorem connectedBridges_eq (b : Bytes) : β.connectedBridges settings b =
    β.otherBridges settings i b +
      if (β.contexts.lookup i).any (Context.connectedTo settings b) then 1 else 0 :=
  countVals_contexts _

@[simp] theorem otherBridges_setContext (b : Bytes) :
    (β.setContext i c).otherBridges settings i b = β.otherBridges settings i b := by
  rw [otherBridges, erase_setContext]
  rfl

theorem connectedBridges_setContext (b : Bytes) : (β.setContext i c).connectedBridges settings b =
    β.otherBridges settings i b + if c.connectedTo settings b then 1 else 0 :=
  countVals_setContext _

/-! ### Recording -/

theorem Records.congr {β' : MqttBroker} {n : Bytes → ℕ} (h : β.Records settings n)
    (hregistry : β'.registry.brokers = β.registry.brokers) : β'.Records settings n := by
  unfold Records
  rw [hregistry]
  exact h

theorem Records.addConnection {n : Bytes → ℕ} (h : β.Records settings n) {b : Bytes} (hb : b ≠ [])
    (hn : n b + 1 < 2 ^ 32) (isChild : Bool) :
    Records settings
      { β with registry := β.registry.onBridgeConnected settings env isChild b }
      (Function.update n b (n b + 1)) := by
  obtain ⟨s, hs, hcount⟩ := h
  refine ⟨s.addConnection b isChild, ?_, fun a => ?_⟩
  · show (β.registry.addConnection env (cstr settings.guid) b isChild).brokers.lookup _ = _
    unfold BrokerRegistry.addConnection
    rw [if_pos ⟨hb, by rw [hs]; rfl⟩]
    simp [BrokerRegistry.lookup_modifyState, hs]
  · obtain ⟨hless, hlookup⟩ := hcount a
    by_cases ha : a = b
    · subst ha
      rw [Function.update_self]
      refine ⟨hn, ?_⟩
      rw [if_neg (Nat.succ_ne_zero _)]
      unfold BrokerState.addConnection
      simp only [hlookup]
      by_cases hzero : n a = 0
      · simp [hzero, AList.lookup_insert]
      · simp [hzero, AList.lookup_insert]
    · rw [Function.update_of_ne ha]
      refine ⟨hless, ?_⟩
      rw [← hlookup]
      unfold BrokerState.addConnection
      simp only
      split <;> rw [AList.lookup_insert_ne ha]

theorem Records.removeConnection {n : Bytes → ℕ} (h : β.Records settings n) {b : Bytes}
    (hb : b ≠ []) :
    Records settings
      { β with registry := β.registry.removeConnection env (cstr settings.guid) b }
      (Function.update n b (n b - 1)) := by
  obtain ⟨s, hs, hcount⟩ := h
  refine ⟨s.removeConnection b, ?_, fun a => ?_⟩
  · show (β.registry.removeConnection env (cstr settings.guid) b).brokers.lookup _ = _
    unfold BrokerRegistry.removeConnection
    rw [if_pos ⟨hb, by rw [hs]; rfl⟩]
    simp [BrokerRegistry.lookup_modifyState, hs]
  · obtain ⟨hless, hlookup⟩ := hcount a
    obtain ⟨hlessb, hlookupb⟩ := hcount b
    unfold BrokerState.removeConnection
    by_cases hzero : n b = 0
    · rw [if_pos hzero] at hlookupb
      rw [hlookupb, hzero]
      by_cases ha : a = b
      · subst ha
        simp [hlookupb]
      · rw [Function.update_of_ne ha]
        exact ⟨hless, hlookup⟩
    · rw [if_neg hzero] at hlookupb
      rw [hlookupb]
      have htoNat : ∀ m < 2 ^ 32, (UInt32.ofNat m).toNat = m := fun m hm => by
        rw [UInt32.toNat_ofNat', Nat.mod_eq_of_lt hm]
      have hone : UInt32.ofNat (n b) - 1 = UInt32.ofNat (n b - 1) := by
        refine UInt32.toNat_inj.mp ?_
        rw [UInt32.toNat_sub_of_le _ _ (UInt32.le_iff_toNat_le.mpr ?_), htoNat _ hlessb,
          htoNat _ (by omega)]
        · rfl
        · rw [htoNat _ hlessb]
          exact Nat.one_le_iff_ne_zero.mpr hzero
      have hlast : UInt32.ofNat (n b) - 1 = 0 ↔ n b - 1 = 0 := by
        rw [hone, ← UInt32.toNat_inj, htoNat _ (by omega)]
        rfl
      simp only [hlast]
      by_cases ha : a = b
      · subst ha
        rw [Function.update_self]
        refine ⟨by omega, ?_⟩
        split_ifs with hdone
        · exact AList.lookup_erase _ _
        · rw [hone]
          exact AList.lookup_insert _
      · rw [Function.update_of_ne ha]
        refine ⟨hless, ?_⟩
        rw [← hlookup]
        split_ifs
        · exact AList.lookup_erase_ne ha
        · exact AList.lookup_insert_ne ha

theorem peer_ne_nil {b : Bytes} (h : c.peer settings = some b) : b ≠ [] := by
  obtain ⟨⟨isChild, b'⟩, hid, rfl⟩ := Option.map_eq_some_iff.mp h
  simpa using (Option.filter_eq_some_iff.mp hid).2

theorem peer_of_bridgeBrokerId {res : Option (Bool × Bytes)}
    (h : c.bridgeBrokerId settings = res) : c.peer settings = res.map Prod.snd := by
  rw [Context.peer, h]

theorem peer_of_not_isBridge (h : c.isBridge = false) : c.peer settings = none := by
  simp [Context.peer, Context.bridgeBrokerId, Context.brokerIdOfBridge, h, guard]

/-- The numbers after the notification of a bridge that connects. -/
theorem Records.dxlOnBridgeConnected {n : Bytes → ℕ} (h : β.Records settings n)
    (hn : ∀ b, n b + 1 < 2 ^ 32) :
    (β.dxlOnBridgeConnected settings env c).Records settings
      fun b => n b + if c.peer settings = some b then 1 else 0 := by
  unfold MqttBroker.dxlOnBridgeConnected
  cases hid : c.bridgeBrokerId settings with
  | none => simpa [peer_of_bridgeBrokerId hid] using h
  | some res =>
    obtain ⟨isChild, b⟩ := res
    have hpeer : c.peer settings = some b := peer_of_bridgeBrokerId hid
    have hadd := @Records.addConnection settings env β n h b (peer_ne_nil hpeer) (hn b) isChild
    convert hadd using 2 with a
    rw [Function.update_apply, hpeer]
    by_cases ha : a = b
    · simp [ha]
    · simp [ha, Ne.symm ha]

/-- The numbers after the notification of a bridge that disconnects. -/
theorem Records.dxlOnBridgeDisconnected {n : Bytes → ℕ} (h : β.Records settings n) :
    (β.dxlOnBridgeDisconnected settings env c).Records settings
      fun b => n b - if c.state ≠ .new ∧ c.peer settings = some b then 1 else 0 := by
  unfold MqttBroker.dxlOnBridgeDisconnected
  split_ifs with hstate
  · simpa [hstate] using h
  · cases hid : c.bridgeBrokerId settings with
    | none => simpa [peer_of_bridgeBrokerId hid] using h
    | some res =>
      obtain ⟨isChild, b⟩ := res
      have hpeer : c.peer settings = some b := peer_of_bridgeBrokerId hid
      have hremove := @Records.removeConnection settings env β n h b (peer_ne_nil hpeer)
      convert hremove using 2 with a
      rw [Function.update_apply, hpeer]
      by_cases ha : a = b
      · simp [ha, hstate]
      · simp [ha, Ne.symm ha]

/-! ### Disconnecting -/

theorem live_socketClose : c.socketClose.live = false := by
  unfold Context.socketClose Context.live Context.invalid
  cases hwsi : c.wsi <;> simp [Context.withState]

theorem connectedTo_of_not_live (h : c.live = false) (b : Bytes) :
    c.connectedTo settings b = false := by
  simp [Context.connectedTo, h]

theorem peer_socketClose : c.socketClose.peer settings = c.peer settings := by
  unfold Context.socketClose
  split_ifs <;> rfl

/-- The numbers once a context is as given and the others are as before. -/
theorem Paired.of_records (β : MqttBroker) (i : ℕ) (c : Context) {β' : MqttBroker} {n : Bytes → ℕ} (h : β'.Records settings n)
    (hn : ∀ b, n b = β.otherBridges settings i b + if c.connectedTo settings b then 1 else 0)
    (hcontexts : β'.contexts = (β.setContext i c).contexts) : β'.Paired settings := by
  have hcount : β'.connectedBridges settings = n := by
    funext b
    rw [hn b, ← connectedBridges_setContext, connectedBridges, hcontexts]
    rfl
  rw [Paired, hcount]
  exact h

/-- The numbers after a context is disconnected. -/
theorem Records.contextDisconnect {n : Bytes → ℕ} (h : β.Records settings n)
    (hc : β.contexts.lookup i = some c)
    (hn : ∀ b, n b - (if c.state ≠ .new ∧ c.peer settings = some b then 1 else 0) =
      β.otherBridges settings i b) :
    (β.contextDisconnect settings env i).Paired settings := by
  unfold MqttBroker.contextDisconnect
  rw [hc]
  simp only
  have hclosed : ∀ b, β.otherBridges settings i b = β.otherBridges settings i b +
      if c.socketClose.connectedTo settings b then 1 else 0 := by
    intro b
    rw [connectedTo_of_not_live live_socketClose]
    rfl
  cases hbridge : c.isBridge with
  | false =>
    refine Paired.of_records β i c.socketClose (h.congr rfl) (fun b => ?_) rfl
    have hnb := hn b
    rw [peer_of_not_isBridge hbridge, if_neg (by simp), Nat.sub_zero] at hnb
    rw [hnb]
    exact hclosed b
  | true =>
    refine Paired.of_records β i c.socketClose
      (Records.congr (@Records.dxlOnBridgeDisconnected settings env β c _ h) rfl) (fun b => ?_) ?_
    · rw [hn b]
      exact hclosed b
    · show AList.insert i _ (β.dxlOnBridgeDisconnected settings env c).contexts = _
      rw [dxlOnBridgeDisconnected_frame.1]
      rfl

theorem Paired.contextDisconnect (h : β.Paired settings) (hok : β.DisconnectOk settings i) :
    (β.contextDisconnect settings env i).Paired settings := by
  cases hc : β.contexts.lookup i with
  | none =>
    unfold MqttBroker.contextDisconnect
    rw [hc]
    exact h
  | some c =>
    refine Records.contextDisconnect h hc fun b => ?_
    rw [@connectedBridges_eq settings β i b, hc, Option.any_some]
    by_cases hpeer : c.peer settings = some b
    · cases hlive : c.live with
      | true =>
        have hstate : c.state ≠ .new := by
          intro hnew
          simp [Context.live, hnew] at hlive
        simp [Context.connectedTo, hpeer, hlive, hstate]
      | false =>
        by_cases hnew : c.state = .new
        · simp [Context.connectedTo, hlive, hnew]
        · -- No bridge with the broker is connected, and the notification has no effect.
          have halone := (hok c b hc hnew hpeer).resolve_left (by simp [hlive])
          simp [Context.connectedTo, hlive, halone]
    · simp [Context.connectedTo, hpeer]

/-! ### Contexts of reachable states -/

def Wellformed (β : MqttBroker) : Prop :=
  ∀ i c, β.contexts.lookup i = some c → i < maxContexts ∧ c.Sound

theorem Wellformed.setContext (h : β.Wellformed) (hi : i < maxContexts) (hc : c.Sound) :
    (β.setContext i c).Wellformed := by
  intro j d hd
  rw [lookup_setContext] at hd
  split_ifs at hd with hj
  · cases hd
    exact ⟨hj ▸ hi, hc⟩
  · exact h j d hd

theorem sound_socketClose (h : c.Sound) : c.socketClose.Sound := by
  unfold Context.socketClose
  split_ifs
  · exact ⟨h.1, fun _ hstate => nomatch hstate⟩
  · exact h

theorem Wellformed.contextDisconnect (h : β.Wellformed) :
    (β.contextDisconnect settings env i).Wellformed := by
  intro j d hd
  rw [lookup_contextDisconnect] at hd
  split_ifs at hd with hj
  · obtain ⟨c, hc, rfl⟩ := Option.map_eq_some_iff.mp hd
    exact ⟨hj ▸ (h i c hc).1, sound_socketClose (h i c hc).2⟩
  · exact h j d hd

theorem Wellformed.of_contexts {β' : MqttBroker} (h : β.Wellformed)
    (hcontexts : β'.contexts = β.contexts) : β'.Wellformed := by
  unfold Wellformed
  rw [hcontexts]
  exact h

/-- There are few enough contexts that no count overflows. -/
theorem Wellformed.connectedBridges_lt (h : β.Wellformed) (b : Bytes) :
    β.connectedBridges settings b + 1 < 2 ^ 32 := by
  have hkeys : β.contexts.keys.length ≤ maxContexts := by
    have hsubset : β.contexts.keys ⊆ List.range maxContexts := by
      intro i hi
      obtain ⟨c, hc⟩ := Option.isSome_iff_exists.mp
        (AList.lookup_isSome.mpr (AList.mem_keys.mpr hi))
      exact List.mem_range.mpr (h i c hc).1
    have hlength := (β.contexts.keys_nodup.subperm hsubset).length_le
    rwa [List.length_range] at hlength
  have hcount : β.connectedBridges settings b ≤ β.contexts.keys.length := by
    rw [show β.contexts.keys.length = β.contexts.entries.length from List.length_map _]
    exact List.countP_le_length
  have hmax : maxContexts + 1 < 2 ^ 32 := by decide
  omega

/-! ### Changes of one context -/

theorem Paired.setContext (h : β.Paired settings) {c' : Context}
    (hc : β.contexts.lookup i = some c)
    (hsame : ∀ b, c'.connectedTo settings b = c.connectedTo settings b) :
    (β.setContext i c').Paired settings := by
  refine Paired.of_records β i c' (h.congr rfl) (fun b => ?_) rfl
  rw [@connectedBridges_eq settings β i b, hc, hsame]
  rfl

theorem otherBridges_setContext_ne {j : ℕ} (hj : j ≠ i) {c' : Context}
    (hc : β.contexts.lookup i = some c) {b : Bytes}
    (hsame : c'.connectedTo settings b = c.connectedTo settings b) :
    (β.setContext i c').otherBridges settings j b = β.otherBridges settings j b := by
  have h1 := @connectedBridges_setContext settings β c' i b
  have h2 := @connectedBridges_eq settings β i b
  have h3 := @connectedBridges_eq settings β j b
  have h4 := @connectedBridges_eq settings (β.setContext i c') j b
  rw [lookup_setContext, if_neg hj] at h4
  rw [hc, Option.any_some] at h2
  rw [hsame] at h1
  omega

theorem otherBridges_contextDisconnect (b : Bytes) :
    (β.contextDisconnect settings env i).otherBridges settings i b =
      β.otherBridges settings i b := by
  unfold MqttBroker.contextDisconnect
  split
  · rfl
  · rw [otherBridges_setContext]
    split_ifs
    · rw [otherBridges, dxlOnBridgeDisconnected_frame.1]
      rfl
    · rfl

theorem state_socketClose (h : c.socketClose.state = .new) : c.state = .new := by
  unfold Context.socketClose at h
  split_ifs at h
  · cases h
  · exact h

theorem disconnectOk_of_new (hc : β.contexts.lookup i = some c) (h : c.state = .new) :
    β.DisconnectOk settings i := by
  intro d b hd hstate
  cases hc.symm.trans hd
  exact absurd h hstate

theorem disconnectOk_of_live (hc : β.contexts.lookup i = some c) (h : c.live = true) :
    β.DisconnectOk settings i := by
  intro d b hd _ _
  cases hc.symm.trans hd
  exact .inl h

theorem disconnectOk_of_peer (hc : β.contexts.lookup i = some c) (h : c.peer settings = none) :
    β.DisconnectOk settings i := by
  intro d b hd _ hpeer
  cases hc.symm.trans hd
  rw [h] at hpeer
  cases hpeer

theorem DisconnectTwiceOk.once (h : β.DisconnectTwiceOk settings i) :
    β.DisconnectOk settings i := fun c b hc hstate hpeer =>
  .inr (h c b hc (fun hnew => hstate (state_socketClose hnew)) hpeer)

theorem DisconnectTwiceOk.again (h : β.DisconnectTwiceOk settings i) :
    (β.contextDisconnect settings env i).DisconnectTwiceOk settings i := by
  intro d b hd hstate hpeer
  rw [lookup_contextDisconnect, if_pos rfl] at hd
  obtain ⟨c, hc, rfl⟩ := Option.map_eq_some_iff.mp hd
  rw [otherBridges_contextDisconnect]
  refine h c b hc (fun hnew => hstate ?_) (peer_socketClose.symm.trans hpeer)
  have hwsi : c.wsi = false := by
    cases hwsi : c.wsi with
    | false => rfl
    | true => simp [Context.socketClose, Context.withState, hwsi] at hnew
  simpa [Context.socketClose, hwsi] using hnew

theorem Alone.twice (h : β.Alone settings i) : β.DisconnectTwiceOk settings i :=
  fun c b hc _ hpeer => h c b hc hpeer

/-- A context keeps its broker while its state changes. -/
theorem Alone.setContext (h : β.Alone settings i) {c' : Context}
    (hc : β.contexts.lookup i = some c) (hpeer : c'.peer settings = c.peer settings) :
    (β.setContext i c').Alone settings i := by
  intro d b hd hb
  rw [lookup_setContext, if_pos rfl] at hd
  cases hd
  rw [otherBridges_setContext]
  exact h c b hc (hpeer.symm.trans hb)

theorem Alone.contextDisconnect (h : β.Alone settings i) :
    (β.contextDisconnect settings env i).Alone settings i := by
  intro d b hd hb
  rw [lookup_contextDisconnect, if_pos rfl] at hd
  obtain ⟨c, hc, rfl⟩ := Option.map_eq_some_iff.mp hd
  rw [otherBridges_contextDisconnect]
  exact h c b hc (peer_socketClose.symm.trans hb)

end MqttBroker

end DxlBroker
