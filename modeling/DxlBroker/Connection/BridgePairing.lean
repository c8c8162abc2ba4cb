import DxlBroker.Connection.BridgeRecords

/-!
# Bridges that connect and disconnect

The notifications about bridges come from several places, with different guards on the context.  Here
the conditions are found under which each of them stands for a context that starts or ends to be
connected, for every step of the loop.
-/

namespace DxlBroker

open Bytes Unordered

namespace MqttBroker

section

variable (settings : BrokerSettings) (env : RegistryEnv)

/-! ### The conditions -/

/-- A context that is taken over is a bridge no more connected that is allowed again, or a connected
bridge that is refused. -/
def TakeOverOk (β : MqttBroker) (c old : Context) (id : Bytes) (sendOk : Bool) : Prop :=
  old.id = some id ∧ (sendOk = true ∨ c.id = none) ∧ ∀ b, old.peer settings = some b →
    if (β.registry.isBridgeConnectAllowed settings env b).1 then old.live = false
    else old.live = true ∨ β.connectedBridges settings b = 0

/-- A context does not send a second CONNECT, unless it is the only one with its broker; and the
context with the same identifier, if there is one, can be disconnected or taken over. -/
def ConnectOk (β : MqttBroker) (i : ℕ) (c : Context) (cenv : ConnectEnv) (command : UInt8)
    (payload guid : Bytes) (sendOk : Bool) : Prop :=
  if c.state ≠ .new then β.DisconnectTwiceOk settings i
  else ∀ c' id j old,
    connectPacket settings cenv c β.clientIndex.length command payload guid = .ok (c', id) →
    β.clientIndex.lookup id = some j → β.contexts.lookup j = some old →
      j ≠ i ∧ if old.wsi || c.wsi then β.DisconnectOk settings j
        else β.TakeOverOk settings env c old id sendOk

/-- A bridge of the broker is not connected before its CONNACK, and all subscriptions are sent; on
another context a CONNACK finds the bridge connected. -/
def ConnackOk (c : Context) (sendOk : Bool) : Prop :=
  ∀ b, c.peer settings = some b →
    if c.bridge.isSome then c.live = false ∧ sendOk = true else c.live = true

/-- The condition on a packet that is handled. -/
def HandleOk (β : MqttBroker) (i : ℕ) (c : Context) : Packet → Prop
  | .connect cenv command payload guid sendOk =>
      β.ConnectOk settings env i c cenv command payload guid sendOk
  | .connack code sendOk =>
      if code = some 0 then ConnackOk settings c sendOk else β.DisconnectOk settings i
  | .disconnect command remainingLength =>
      if remainingLength ≠ 0 then β.DisconnectOk settings i
      else if c.protocol311 && command &&& 0x0f != 0 then β.DisconnectTwiceOk settings i
      else ∀ b, c.peer settings = some b → c.live = true ∨ β.otherBridges settings i b = 0
  | .other _ rc => rc ≠ 0 → β.DisconnectOk settings i

/-- The condition on a packet that exceeds a limit: the context is disconnected once when the rest of
the packet can be read and handled, and twice when not. -/
def ExceedsOk (β : MqttBroker) (i : ℕ) (c : Context) (packet : Packet) : Prop :=
  match packet with
  | .other _ 0 =>
      if c.wsi || packet.isEmpty then β.DisconnectOk settings i else β.DisconnectTwiceOk settings i
  | .connack (some 0) _ =>
      if c.wsi then c.peer settings = none else β.DisconnectTwiceOk settings i
  | .disconnect _ _ => β.Alone settings i
  | _ => β.DisconnectTwiceOk settings i

/-- The condition on a packet that is read. -/
def ReadOk (β : MqttBroker) (i : ℕ) (c : Context) (packet : Packet) (exceeds : Bool) : Prop :=
  c.bridge = none ∧ c.state = .new ∧ packet.isConnect = false ∨
    if exceeds && !packet.isConnect then β.ExceedsOk settings i c packet
    else β.HandleOk settings env i c packet

/-- The primary address answers, and the bridge leaves the address it has. -/
def switches (bridge : Bridge) (ping : Option Bool) : Prop :=
  bridge.roundRobin = false ∧ bridge.primaryAddressCount ≤ bridge.curAddress ∧ ping = some true

/-- A bridge that times out and leaves its address at once is disconnected twice. -/
def MaintainOk (β : MqttBroker) (i : ℕ) (c : Context) (timedOut : Bool) (ping : Option Bool) :
    Prop :=
  ∀ bridge, c.bridge = some bridge →
    (timedOut = true ∧ switches bridge ping → β.DisconnectTwiceOk settings i) ∧
    (timedOut = true ∨ switches bridge ping → β.DisconnectOk settings i)

/-- The condition on a step. -/
def PairingOk (β : MqttBroker) (env : RegistryEnv) : Step → Prop
  | .read i packet exceeds => ∀ c, β.contexts.lookup i = some c → readable c = true →
      β.ReadOk settings env i c packet exceeds
  | .drop i => ∀ c, β.contexts.lookup i = some c → c.invalid = false → β.DisconnectOk settings i
  | .forceDisconnect i => β.DisconnectOk settings i
  | .wsDestroy i => ∀ c, β.contexts.lookup i = some c → c.wsi = true → c.state ≠ .wsDead →
      β.DisconnectOk settings i
  | .maintainBridge i timedOut ping => ∀ c, β.contexts.lookup i = some c → c.invalid = false →
      β.MaintainOk settings i c timedOut ping
  | .clearBridge i => ∀ c, β.contexts.lookup i = some c → c.bridge.isSome = true →
      β.DisconnectOk settings i
  | _ => True

end

variable {settings : BrokerSettings} {env : RegistryEnv} {β : MqttBroker} {c : Context} {i : ℕ}

/-! ### CONNECT -/

theorem dxlIsBridgeConnectAllowed_brokers :
    (β.dxlIsBridgeConnectAllowed settings env c).2.registry.brokers = β.registry.brokers := by
  unfold dxlIsBridgeConnectAllowed
  split_ifs
  · rfl
  · split
    · exact (BrokerRegistry.getNextBroker_frame _ _ _ _).1
    · rfl

/-- The answer for a bridge whose broker is known. -/
theorem dxlIsBridgeConnectAllowed_peer {b : Bytes} (hb : c.peer settings = some b) :
    (β.dxlIsBridgeConnectAllowed settings env c).1 =
      (β.registry.isBridgeConnectAllowed settings env b).1 := by
  obtain ⟨⟨isChild, b'⟩, hid, rfl⟩ := Option.map_eq_some_iff.mp hb
  have hbridge : c.isBridge = true := by
    by_contra hnot
    rw [peer_of_not_isBridge (Bool.not_eq_true _ ▸ hnot)] at hb
    cases hb
  have hsome : c.id ≠ none := by
    intro hnone
    simp [Context.bridgeBrokerId, Context.brokerIdOfBridge, hnone] at hid
  unfold dxlIsBridgeConnectAllowed
  rw [if_neg (by simp [hbridge, hsome]), hid]

theorem otherBridges_congr {β' : MqttBroker} (h : β'.contexts = β.contexts) (b : Bytes) :
    β'.otherBridges settings i b = β.otherBridges settings i b := by
  rw [otherBridges, h]
  rfl

theorem live_connected (h : c.invalid = false) : (c.withState .connected).live = true :=
  decide_eq_true ⟨rfl, h⟩

/-- What the check and the announcement of a context do to the numbers: a bridge that is allowed is
connected, and one that is refused is disconnected. -/
theorem Records.announce {n : Bytes → ℕ} {j : ℕ} {sendOk : Bool} (h : β.Records settings n)
    (hn : ∀ b, n b + 1 < 2 ^ 32) (hc : β.contexts.lookup j = some c) (hvalid : c.invalid = false)
    (hpeer : ∀ b, c.peer settings = some b →
      if (β.registry.isBridgeConnectAllowed settings env b).1 then
        n b = β.otherBridges settings j b
      else n b - (if c.state = .new then 0 else 1) = β.otherBridges settings j b)
    (hother : ∀ b, c.peer settings ≠ some b → n b = β.otherBridges settings j b) :
    (β.announce settings env j c sendOk).2.Paired settings := by
  have hchecked := h.congr (@dxlIsBridgeConnectAllowed_brokers settings env β c)
  have hcontexts := (@dxlIsBridgeConnectAllowed_frame settings env β c).1
  have hanswer : ∀ b, c.peer settings = some b →
      (β.dxlIsBridgeConnectAllowed settings env c).1 =
        (β.registry.isBridgeConnectAllowed settings env b).1 :=
    fun b hb => dxlIsBridgeConnectAllowed_peer hb
  unfold MqttBroker.announce
  generalize β.dxlIsBridgeConnectAllowed settings env c = res at *
  simp only
  split
  · rename_i hyes
    have hn' : ∀ b, n b = β.otherBridges settings j b := by
      intro b
      by_cases hb : c.peer settings = some b
      · have hnb := hpeer b hb
        rwa [← hanswer b hb, if_pos hyes] at hnb
      · exact hother b hb
    have hconnected : ∀ b, (c.withState .connected).connectedTo settings b =
        (c.peer settings == some b) := by
      intro b
      rw [Context.connectedTo, live_connected hvalid, Bool.true_and]
      rfl
    have hinsert : (res.2.setContext j (c.withState .connected)).contexts =
        (β.setContext j (c.withState .connected)).contexts := by
      unfold MqttBroker.setContext
      rw [hcontexts]
    cases hbridge : (c.withState .connected).isBridge with
    | true =>
      refine Paired.of_records β j (c.withState .connected)
        (Records.dxlOnBridgeConnected (hchecked.congr rfl) hn) (fun b => ?_) ?_
      · rw [hn' b, hconnected]
        simp only [beq_iff_eq]
        rfl
      · rw [if_pos rfl, dxlOnBridgeConnected_frame.1]
        exact hinsert
    | false =>
      refine Paired.of_records β j (c.withState .connected) (hchecked.congr rfl) (fun b => ?_)
        hinsert
      have hnone : c.peer settings = none := peer_of_not_isBridge hbridge
      rw [hn' b, hconnected, hnone]
      simp
  · rename_i hno
    refine hchecked.contextDisconnect (hcontexts ▸ hc) fun b => ?_
    rw [otherBridges_congr hcontexts]
    by_cases hb : c.peer settings = some b
    · have hnb := hpeer b hb
      rw [← hanswer b hb, if_neg hno] at hnb
      rw [← hnb]
      by_cases hnew : c.state = .new <;> simp [hnew, hb]
    · rw [if_neg (by simp [hb]), Nat.sub_zero]
      exact hother b hb

/-- The state after a handler: the numbers are right, and when the handler failed the context can be
disconnected. -/
def Handled (settings : BrokerSettings) (i : ℕ) (res : ℕ × MqttBroker) : Prop :=
  res.2.Paired settings ∧ (res.1 ≠ 0 → res.2.DisconnectOk settings i)

theorem announce_failed {j : ℕ} {sendOk : Bool}
    (h : (β.announce settings env j c sendOk).1 ≠ 0) :
    (β.announce settings env j c sendOk).2.contexts.lookup j = some (c.withState .connected) ∧
      ∀ k ≠ j, (β.announce settings env j c sendOk).2.contexts.lookup k =
        β.contexts.lookup k := by
  have hcontexts := (@dxlIsBridgeConnectAllowed_frame settings env β c).1
  unfold announce at h ⊢
  generalize β.dxlIsBridgeConnectAllowed settings env c = res at *
  simp only at h ⊢
  split at h
  · rename_i hyes
    rw [if_pos hyes]
    have hset : ∀ k, (if (c.withState .connected).isBridge then
        (res.2.setContext j (c.withState .connected)).dxlOnBridgeConnected settings env
          (c.withState .connected)
        else res.2.setContext j (c.withState .connected)).contexts.lookup k =
        if k = j then some (c.withState .connected) else β.contexts.lookup k := by
      intro k
      split
      · rw [dxlOnBridgeConnected_frame.1, lookup_setContext, hcontexts]
      · rw [lookup_setContext, hcontexts]
    exact ⟨by rw [hset, if_pos rfl], fun k hk => by rw [hset, if_neg hk]⟩
  · exact absurd rfl h

theorem not_live_of_new (h : c.state = .new) : c.live = false := by
  simp [Context.live, h]

theorem handled_enroll {id : Bytes} {sendOk : Bool} (h : β.Paired settings) (hw : β.Wellformed)
    (hc : β.contexts.lookup i = some c) (hnew : c.state = .new) (hvalid : c.invalid = false) :
    Handled settings i (β.enroll settings env i id sendOk) := by
  obtain ⟨hcontexts, hregistry⟩ := @identify_frame settings β (c.withId id) i
  have hlookup : (β.identify settings i (c.withId id)).contexts.lookup i = some (c.withId id) := by
    rw [hcontexts, lookup_setContext, if_pos rfl]
  have hcount : ∀ b, β.connectedBridges settings b =
      (β.identify settings i (c.withId id)).otherBridges settings i b := by
    intro b
    rw [otherBridges_congr hcontexts, otherBridges_setContext, @connectedBridges_eq settings β i b,
      hc, Option.any_some, connectedTo_of_not_live (not_live_of_new hnew)]
    rfl
  have hstate : (c.withId id).state = .new := hnew
  unfold enroll
  rw [hc]
  refine ⟨?_, fun hfailed => disconnectOk_of_live (announce_failed hfailed).1 (live_connected hvalid)⟩
  refine Records.announce (h.congr (congrArg BrokerRegistry.brokers hregistry))
    hw.connectedBridges_lt hlookup hvalid (fun b _ => ?_) fun b _ => hcount b
  rw [if_pos hstate, Nat.sub_zero]
  split_ifs <;> exact hcount b

theorem handled_refused {rc : ℕ} (h : β.Paired settings) (hc : β.contexts.lookup i = some c)
    (hsound : c.Sound) (hnew : c.state = .new) :
    Handled settings i (rc, β.contextDisconnect settings env i) := by
  refine ⟨h.contextDisconnect (disconnectOk_of_new hc hnew), fun _ => ?_⟩
  have hlookup : (β.contextDisconnect settings env i).contexts.lookup i = some c.socketClose := by
    rw [lookup_contextDisconnect, if_pos rfl, hc]
    rfl
  cases hwsi : c.wsi with
  | true =>
    refine disconnectOk_of_peer hlookup ?_
    rw [peer_socketClose]
    simp [Context.peer, Context.bridgeBrokerId, Context.brokerIdOfBridge, hsound.2 hwsi hnew]
  | false => exact disconnectOk_of_new hlookup (by simp [Context.socketClose, hwsi, hnew])

theorem peer_congr {d : Context} (hbridge : d.isBridge = c.isBridge) (hid : d.id = c.id)
    (haddress : d.bridge = c.bridge) : d.peer settings = c.peer settings := by
  simp only [Context.peer, Context.bridgeBrokerId, Context.brokerIdOfBridge, hbridge, hid, haddress]

theorem peer_reused {old : Context} {id : Bytes} (hid : old.id = some id) :
    ((reused c old).withId id).peer settings = old.peer settings := by
  refine peer_congr ?_ hid.symm ?_
  · show old.closed.isBridge = _
    unfold Context.closed Context.socketClose
    simp only
    split_ifs <;> rfl
  · show old.closed.bridge = _
    unfold Context.closed Context.socketClose
    simp only
    split_ifs <;> rfl

theorem handled_takeOver {j : ℕ} {old : Context} {id : Bytes} {sendOk : Bool}
    (h : β.Paired settings) (hw : β.Wellformed) (hc : β.contexts.lookup i = some c)
    (hold : β.contexts.lookup j = some old) (hj : j ≠ i) (hnew : c.state = .new)
    (hsock : c.sock = true) (hok : β.TakeOverOk settings env c old id sendOk) :
    Handled settings i
      ((β.takeOver settings i j c old).enroll settings env j id sendOk) := by
  obtain ⟨hid, hsend, hpeers⟩ := hok
  obtain ⟨hcontexts, hregistry⟩ := @takeOver_frame settings β c i j old
  obtain ⟨hcontexts', hregistry'⟩ :=
    @identify_frame settings (β.takeOver settings i j c old) ((reused c old).withId id) j
  have hlookup : (β.takeOver settings i j c old).contexts.lookup j = some (reused c old) := by
    rw [hcontexts, lookup_setContext, if_neg hj, lookup_setContext, if_pos rfl]
  have hlookup' : ((β.takeOver settings i j c old).identify settings j
      ((reused c old).withId id)).contexts.lookup j = some ((reused c old).withId id) := by
    rw [hcontexts', lookup_setContext, if_pos rfl]
  -- Neither the new context nor what is left of it is connected.
  have hothers : ∀ b, ((β.takeOver settings i j c old).identify settings j
      ((reused c old).withId id)).otherBridges settings j b = β.otherBridges settings j b := by
    intro b
    have hlookupi : (β.setContext j (reused c old)).contexts.lookup i = some c := by
      rw [lookup_setContext, if_neg hj.symm, hc]
    rw [otherBridges_congr hcontexts', otherBridges_setContext, otherBridges_congr hcontexts,
      otherBridges_setContext_ne hj hlookupi, otherBridges_setContext]
    rw [connectedTo_of_not_live (not_live_of_new hnew),
      connectedTo_of_not_live (by simp [Context.live, given])]
  have hcount : ∀ b, β.connectedBridges settings b =
      β.otherBridges settings j b + if old.connectedTo settings b then 1 else 0 := by
    intro b
    rw [@connectedBridges_eq settings β j b, hold]
    rfl
  have hvalid : ((reused c old).withId id).invalid = false := by
    show (!c.sock && _) = false
    rw [hsock]
    rfl
  unfold enroll
  rw [hlookup]
  refine ⟨?_, fun hfailed => ?_⟩
  · refine Records.announce (h.congr (congrArg BrokerRegistry.brokers (hregistry'.trans hregistry)))
      hw.connectedBridges_lt hlookup' hvalid (fun b hb => ?_) fun b hb => ?_
    · rw [peer_reused hid] at hb
      have hpeer := hpeers b hb
      have hstate : ((reused c old).withId id).state ≠ .new := by
        show ClientState.connected ≠ .new
        decide
      rw [hregistry'.trans hregistry, hothers, if_neg hstate, hcount]
      split_ifs at hpeer ⊢ with hallowed hconnected hconnected
      · simp [Context.connectedTo, hpeer] at hconnected
      · rfl
      · rfl
      · rcases hpeer with hlive | hzero
        · simp [Context.connectedTo, hlive, hb] at hconnected
        · rw [hcount] at hzero
          omega
    · rw [peer_reused hid] at hb
      rw [hothers, hcount]
      simp [Context.connectedTo, hb]
  · -- The CONNACK could not be sent, and the context that gave its connection away is closed.
    have hgiven := (announce_failed hfailed).2 i hj.symm
    rw [hcontexts', lookup_setContext, if_neg hj.symm, hcontexts, lookup_setContext, if_pos rfl]
      at hgiven
    refine disconnectOk_of_peer hgiven ?_
    have hnone : (given c).id = none := by
      refine hsend.resolve_left fun hsent => hfailed ?_
      unfold announce
      simp only [hsent]
      split <;> rfl
    simp [Context.peer, Context.bridgeBrokerId, Context.brokerIdOfBridge, hnone]

theorem invalid_of_readable (h : readable c = true) : c.invalid = false := by
  unfold readable at h
  unfold Context.invalid
  cases hwsi : c.wsi with
  | true => simp
  | false => simpa [hwsi] using h

theorem handled_contextFor {id : Bytes} {sendOk : Bool} (h : β.Paired settings)
    (hw : β.Wellformed) (hc : β.contexts.lookup i = some c) (hnew : c.state = .new)
    (hvalid : c.invalid = false)
    (hok : ∀ j old, β.clientIndex.lookup id = some j → β.contexts.lookup j = some old →
      j ≠ i ∧ if old.wsi || c.wsi then β.DisconnectOk settings j
        else β.TakeOverOk settings env c old id sendOk) :
    Handled settings i ((β.contextFor settings env i c id).2.enroll settings env
      (β.contextFor settings env i c id).1 id sendOk) := by
  unfold contextFor
  cases hj : β.clientIndex.lookup id with
  | none => exact handled_enroll h hw hc hnew hvalid
  | some j =>
    simp only
    cases hold : β.contexts.lookup j with
    | none => exact handled_enroll h hw hc hnew hvalid
    | some old =>
      obtain ⟨hji, hcond⟩ := hok j old hj hold
      simp only
      split at hcond
      · rename_i hws
        rw [if_pos hws]
        refine handled_enroll (h.contextDisconnect hcond) hw.contextDisconnect ?_ hnew hvalid
        rw [lookup_contextDisconnect, if_neg hji.symm]
        exact hc
      · rename_i hws
        rw [if_neg hws]
        have hsock : c.sock = true := by
          have hplain : c.wsi = false := by simp_all
          simpa [Context.invalid, hplain] using hvalid
        exact handled_takeOver h hw hc hold hji hnew hsock hcond

theorem handled_handleConnect {cenv : ConnectEnv} {command : UInt8} {payload guid : Bytes}
    {sendOk : Bool} (h : β.Paired settings) (hw : β.Wellformed)
    (hc : β.contexts.lookup i = some c) (hreadable : readable c = true)
    (hok : β.ConnectOk settings env i c cenv command payload guid sendOk) :
    Handled settings i (β.handleConnect settings env cenv i command payload guid sendOk) := by
  obtain ⟨hbound, hsound⟩ := hw i c hc
  unfold handleConnect
  rw [hc]
  unfold ConnectOk at hok
  simp only
  split at hok
  · rename_i hstate
    rw [if_pos hstate]
    exact ⟨h.contextDisconnect hok.once, fun _ => hok.again.once⟩
  · rename_i hstate
    rw [if_neg hstate]
    have hnew : c.state = .new := not_not.mp hstate
    obtain ⟨herror, hpacket⟩ := @connectPacket_keeps settings c cenv β.clientIndex.length command
      payload guid
    have hlookup : ∀ c', (β.setContext i c').contexts.lookup i = some c' := by
      intro c'
      rw [lookup_setContext, if_pos rfl]
    -- The context with what the packet gave it is as little connected as before.
    have hidle : ∀ c' : Context, c'.state = c.state → ∀ b,
        c'.connectedTo settings b = c.connectedTo settings b := by
      intro c' hstate' b
      rw [connectedTo_of_not_live (not_live_of_new (hstate'.trans hnew)),
        connectedTo_of_not_live (not_live_of_new hnew)]
    have hsound' : ∀ c' : Context, c'.state = c.state → c'.wsi = c.wsi → c'.bridge = c.bridge →
        c'.id = c.id → c'.Sound := by
      intro c' hstate' hwsi hbridge hid
      rw [Context.Sound, hstate', hwsi, hbridge, hid]
      exact hsound
    cases hres : connectPacket settings cenv c β.clientIndex.length command payload guid with
    | error res =>
      obtain ⟨rc, c'⟩ := res
      obtain ⟨hstate', -, hwsi, hbridge, hid⟩ := herror rc c' hres
      exact handled_refused (h.setContext hc (hidle c' hstate')) (hlookup c')
        (hsound' c' hstate' hwsi hbridge hid) (hstate'.trans hnew)
    | ok res =>
      obtain ⟨c', id⟩ := res
      obtain ⟨hstate', hsock, hwsi, hbridge, hid⟩ := hpacket c' id hres
      refine handled_contextFor (h.setContext hc (hidle c' hstate'))
        (hw.setContext hbound (hsound' c' hstate' hwsi hbridge hid)) (hlookup c')
        (hstate'.trans hnew) ?_ fun j old hj hold => ?_
      · rw [Context.invalid, hsock, hwsi]
        exact invalid_of_readable hreadable
      · have hexists : ∃ old', β.contexts.lookup j = some old' ∧ (j ≠ i → old' = old) := by
          rw [lookup_setContext] at hold
          split_ifs at hold with hji
          · exact ⟨c, hji ▸ hc, fun hne => absurd hji hne⟩
          · exact ⟨old, hold, fun _ => rfl⟩
        obtain ⟨old', hold', hsame⟩ := hexists
        obtain ⟨hji, hcond⟩ := hok c' id j old' hres hj hold'
        cases hsame hji
        refine ⟨hji, ?_⟩
        have hothers : ∀ b, (β.setContext i c').otherBridges settings j b =
            β.otherBridges settings j b := fun b =>
          otherBridges_setContext_ne hji hc (hidle c' hstate' b)
        rw [hwsi]
        split_ifs at hcond ⊢
        · intro d b hd hstate hpeer
          rw [hothers]
          exact hcond d b (by rwa [lookup_setContext, if_neg hji] at hd) hstate hpeer
        · obtain ⟨holdId, hsend, hpeers⟩ := hcond
          refine ⟨holdId, hid ▸ hsend, fun b hb => ?_⟩
          have hbridges : (β.setContext i c').connectedBridges settings b =
              β.connectedBridges settings b := by
            rw [@connectedBridges_eq settings _ j b, hothers,
              @connectedBridges_eq settings β j b, lookup_setContext, if_neg hji]
          rw [hbridges]
          exact hpeers b hb

/-! ### The other packets -/

theorem bridgeBrokerId_of_peer (h : c.peer settings = none) : c.bridgeBrokerId settings = none :=
  Option.map_eq_none_iff.mp h

theorem dxlOnBridgeConnected_of_peer (h : c.peer settings = none) :
    β.dxlOnBridgeConnected settings env c = β := by
  unfold dxlOnBridgeConnected
  rw [bridgeBrokerId_of_peer h]

theorem connectedBridges_of_lookup (hc : β.contexts.lookup i = some c) (b : Bytes) :
    β.connectedBridges settings b =
      β.otherBridges settings i b + if c.connectedTo settings b then 1 else 0 := by
  rw [@connectedBridges_eq settings β i b, hc]
  rfl

theorem handled_handleConnack {code : Option UInt8} {sendOk : Bool} (h : β.Paired settings)
    (hw : β.Wellformed) (hc : β.contexts.lookup i = some c)
    (hvalid : c.peer settings ≠ none → c.invalid = false)
    (hok : if code = some 0 then ConnackOk settings c sendOk else β.DisconnectOk settings i) :
    Handled settings i (β.handleConnack settings env i code sendOk) := by
  unfold handleConnack
  rw [hc]
  simp only
  split at hok
  · rename_i hcode
    rw [if_pos hcode]
    cases hpeer : c.peer settings with
    | none =>
      -- Nothing is recorded, whatever the state.
      have hidle : ∀ b, (c.withState .connected).connectedTo settings b =
          c.connectedTo settings b := by
        intro b
        have hnone : (c.withState .connected).peer settings = none := hpeer
        simp [Context.connectedTo, hpeer, hnone]
      rw [dxlOnBridgeConnected_of_peer hpeer, ite_self]
      split_ifs
      · exact ⟨h.setContext hc hidle, fun hrc => absurd rfl hrc⟩
      · exact ⟨h, fun _ => disconnectOk_of_peer hc hpeer⟩
      · exact ⟨h.setContext hc hidle, fun hrc => absurd rfl hrc⟩
    | some a =>
      have hlive := live_connected (hvalid (by simp [hpeer]))
      have hconnack := hok a hpeer
      have hisBridge : c.isBridge = true := by
        by_contra hnot
        rw [peer_of_not_isBridge (Bool.not_eq_true _ ▸ hnot)] at hpeer
        cases hpeer
      rw [if_pos hisBridge]
      split_ifs at hconnack ⊢ with hbridge hsend
      · refine ⟨Paired.of_records β i (c.withState .connected)
          (Records.congr (Records.dxlOnBridgeConnected h hw.connectedBridges_lt) rfl) (fun b => ?_) ?_,
          fun hrc => absurd rfl hrc⟩
        · rw [connectedBridges_of_lookup hc, connectedTo_of_not_live hconnack.1,
            Context.connectedTo, hlive, Bool.true_and]
          simp only [Bool.false_eq_true, if_false, add_zero, beq_iff_eq]
          rfl
        · unfold MqttBroker.setContext
          rw [dxlOnBridgeConnected_frame.1]
      · exact absurd hconnack.2 hsend
      · refine ⟨h.setContext hc fun b => ?_, fun hrc => absurd rfl hrc⟩
        rw [Context.connectedTo, Context.connectedTo, hlive, hconnack]
        rfl
  · rename_i hcode
    rw [if_neg hcode]
    exact ⟨h, fun _ => hok⟩

theorem handled_handleDisconnect {command : UInt8} {remainingLength : ℕ} (h : β.Paired settings)
    (hc : β.contexts.lookup i = some c)
    (hok : β.HandleOk settings env i c (.disconnect command remainingLength)) :
    Handled settings i (β.handleDisconnect settings env i command remainingLength) := by
  unfold HandleOk at hok
  unfold handleDisconnect
  rw [hc]
  simp only at hok ⊢
  split_ifs at hok ⊢ with hlength hflags
  · exact ⟨h, fun _ => hok⟩
  · exact ⟨h.contextDisconnect hok.once, fun _ => hok.again.once⟩
  · refine ⟨Records.contextDisconnect (Records.congr h rfl) (c := c.withState .disconnecting) ?_
      fun b => ?_, fun hrc => absurd rfl hrc⟩
    · rw [lookup_setContext, if_pos rfl]
    · rw [otherBridges_setContext, connectedBridges_of_lookup hc,
        show (c.withState .disconnecting).peer settings = c.peer settings from rfl]
      have hstate : (c.withState .disconnecting).state ≠ .new := nofun
      by_cases hb : c.peer settings = some b
      · rcases hok b hb with hlive | hzero
        · simp [Context.connectedTo, hb, hlive, hstate]
        · cases hlive : c.live <;> simp [Context.connectedTo, hb, hlive, hstate, hzero]
      · simp [Context.connectedTo, hb]

/-- A packet that exceeds a limit, and is no CONNECT. -/
theorem handled_exceeds {packet : Packet} (h : β.Paired settings) (hw : β.Wellformed)
    (hc : β.contexts.lookup i = some c) (hconnect : packet.isConnect = false)
    (hok : β.ExceedsOk settings i c packet) :
    Handled settings i
      (if c.wsi || packet.isEmpty then
        (β.contextDisconnect settings env i).packetHandle settings env i packet
      else (errErrno, β.contextDisconnect settings env i)) := by
  have hlookup : (β.contextDisconnect settings env i).contexts.lookup i = some c.socketClose := by
    rw [lookup_contextDisconnect, if_pos rfl, hc]
    rfl
  have htwice : ∀ rc, β.DisconnectTwiceOk settings i →
      Handled settings i (rc, β.contextDisconnect settings env i) :=
    fun rc hok => ⟨h.contextDisconnect hok.once, fun _ => hok.again.once⟩
  cases packet with
  | connect cenv command payload guid sendOk => cases hconnect
  | connack code sendOk =>
    by_cases hcode : code = some 0
    · subst hcode
      have hcases : if c.wsi then c.peer settings = none else β.DisconnectTwiceOk settings i := hok
      split_ifs at hcases with hwsi
      · rw [if_pos (by rw [hwsi]; rfl)]
        have hnone : c.socketClose.peer settings = none := peer_socketClose.trans hcases
        refine handled_handleConnack (h.contextDisconnect (disconnectOk_of_peer hc hcases))
          hw.contextDisconnect hlookup (fun hpeer => absurd hnone hpeer) ?_
        rw [if_pos rfl]
        intro b hb
        rw [hnone] at hb
        cases hb
      · rw [if_neg (by simp [hwsi, Packet.isEmpty])]
        exact htwice _ hcases
    · have hcases : β.DisconnectTwiceOk settings i := by
        unfold ExceedsOk at hok
        split at hok
        · rename_i heq
          cases heq
        · rename_i heq
          cases heq
          exact absurd rfl hcode
        · rename_i heq
          cases heq
        · exact hok
      split_ifs
      · unfold packetHandle handleConnack
        rw [hlookup]
        simp only [if_neg hcode]
        exact htwice _ hcases
      · exact htwice _ hcases
  | disconnect command remainingLength =>
    have halone : β.Alone settings i := hok
    split_ifs
    · refine handled_handleDisconnect (h.contextDisconnect halone.twice.once) hlookup ?_
      unfold HandleOk
      simp only
      split_ifs
      · exact halone.contextDisconnect.twice.once
      · exact halone.contextDisconnect.twice
      · exact fun b hb => .inr (halone.contextDisconnect _ b hlookup hb)
    · exact htwice _ halone.twice
  | other remainingLength rc =>
    cases rc with
    | zero =>
      have hcases : if c.wsi || (Packet.other remainingLength 0).isEmpty then
          β.DisconnectOk settings i else β.DisconnectTwiceOk settings i := hok
      split_ifs at hcases ⊢
      · exact ⟨h.contextDisconnect hcases, fun hrc => absurd rfl hrc⟩
      · exact htwice _ hcases
    | succ rc =>
      have hcases : β.DisconnectTwiceOk settings i := hok
      split_ifs <;> exact htwice _ hcases

theorem handled_packetHandle {packet : Packet} (h : β.Paired settings) (hw : β.Wellformed)
    (hc : β.contexts.lookup i = some c) (hreadable : readable c = true)
    (hok : β.HandleOk settings env i c packet) :
    Handled settings i (β.packetHandle settings env i packet) := by
  cases packet with
  | connect cenv command payload guid sendOk => exact handled_handleConnect h hw hc hreadable hok
  | connack code sendOk =>
    exact handled_handleConnack h hw hc (fun _ => invalid_of_readable hreadable) hok
  | disconnect command remainingLength => exact handled_handleDisconnect h hc hok
  | other remainingLength rc => exact ⟨h, hok⟩

theorem Paired.handleRead {packet : Packet} {exceeds : Bool} (h : β.Paired settings)
    (hw : β.Wellformed) (hc : β.contexts.lookup i = some c) (hreadable : readable c = true)
    (hok : β.ReadOk settings env i c packet exceeds) :
    (β.handleRead settings env i packet exceeds).Paired settings := by
  have hhandled : Handled settings i (β.packetRead settings env i packet exceeds) := by
    unfold packetRead
    rw [hc]
    simp only
    by_cases hfirst : c.bridge = none ∧ c.state = .new ∧ packet.isConnect = false
    · rw [if_pos hfirst]
      exact ⟨h, fun _ => disconnectOk_of_new hc hfirst.2.1⟩
    · have hcases := hok.resolve_left hfirst
      rw [if_neg hfirst]
      by_cases hexceeds : (exceeds && !packet.isConnect) = true
      · rw [if_pos hexceeds] at hcases ⊢
        rw [Bool.and_eq_true, Bool.not_eq_true'] at hexceeds
        exact handled_exceeds h hw hc hexceeds.2 hcases
      · rw [if_neg hexceeds] at hcases ⊢
        exact handled_packetHandle h hw hc hreadable hcases
  unfold MqttBroker.handleRead
  simp only
  split_ifs with hrc
  · exact hhandled.1
  · exact hhandled.1.contextDisconnect (hhandled.2 hrc)

/-! ### The broker's own bridge -/

theorem dxlOnBridgeDisconnected_setContext {d : Context} :
    (β.setContext i d).dxlOnBridgeDisconnected settings env c =
      (β.dxlOnBridgeDisconnected settings env c).setContext i d := by
  unfold dxlOnBridgeDisconnected
  split_ifs
  · rfl
  · split <;> rfl

/-- The contexts and the registry after the socket of a bridge was closed and this was notified. -/
theorem contextDisconnect_eq (hc : β.contexts.lookup i = some c) :
    β.contextDisconnect settings env i =
      (β.dxlOnBridgeDisconnected settings env c).setContext i c.socketClose := by
  unfold MqttBroker.contextDisconnect
  rw [hc]
  simp only
  split_ifs with hbridge
  · rfl
  · have hnone := bridgeBrokerId_of_peer
      (@peer_of_not_isBridge settings c (Bool.not_eq_true _ ▸ hbridge))
    unfold dxlOnBridgeDisconnected
    rw [hnone]
    split_ifs <;> rfl

theorem live_withBridge {bridge : Bridge} : (c.withBridge bridge).live = c.live := rfl

theorem Paired.checkPrimaryBridge {bridge : Bridge} {ping : Option Bool} (h : β.Paired settings)
    (hc : β.contexts.lookup i = some c) (hbridge : c.bridge = some bridge)
    (hok : switches bridge ping → β.DisconnectOk settings i) :
    (β.checkPrimaryBridge settings env i c bridge ping).Paired settings := by
  unfold MqttBroker.checkPrimaryBridge
  split
  · rename_i hprimary
    cases ping with
    | none => exact h
    | some found =>
      cases found with
      | true =>
        have hdisconnected := @Paired.contextDisconnect settings env β i h
          (hok ⟨hprimary.1, hprimary.2, rfl⟩)
        have hlookup : (β.contextDisconnect settings env i).contexts.lookup i =
            some c.socketClose := by
          rw [lookup_contextDisconnect, if_pos rfl, hc]
          rfl
        simp only
        rw [← @setContext_setContext _ _ i c.socketClose, ← contextDisconnect_eq hc]
        refine hdisconnected.setContext hlookup fun b => ?_
        rw [connectedTo_of_not_live live_socketClose,
          connectedTo_of_not_live (live_withBridge.trans live_socketClose)]
      | false =>
        refine h.setContext hc fun b => ?_
        rw [Context.connectedTo, live_withBridge, Context.connectedTo]
        simp only [Context.peer, Context.bridgeBrokerId, Context.brokerIdOfBridge, hbridge,
          Context.withBridge]
        rfl
  · exact h

theorem Paired.maintainBridge {timedOut : Bool} {ping : Option Bool} (h : β.Paired settings)
    (hw : β.Wellformed) (hc : β.contexts.lookup i = some c) (hvalid : c.invalid = false)
    (hok : β.MaintainOk settings i c timedOut ping) :
    (β.maintainBridge settings env i timedOut ping).Paired settings := by
  unfold MqttBroker.maintainBridge
  rw [hc]
  simp only
  cases hbridge : c.bridge with
  | none => exact h
  | some bridge =>
    simp only
    obtain ⟨htwice, honce⟩ := hok bridge hbridge
    have hwsi : c.wsi = false := (hw i c hc).2.1 (by rw [hbridge]; rfl)
    cases timedOut with
    | true =>
      have hclosed : c.socketClose.sock = false := by simp [Context.socketClose, hwsi]
      have hstate : c.socketClose.state = c.state := by simp [Context.socketClose, hwsi]
      have heq : (β.setContext i c.socketClose).dxlOnBridgeDisconnected settings env
          c.socketClose = β.contextDisconnect settings env i := by
        rw [dxlOnBridgeDisconnected_setContext, contextDisconnect_eq hc]
        unfold dxlOnBridgeDisconnected
        rw [hstate, show c.socketClose.bridgeBrokerId settings = c.bridgeBrokerId settings by
          simp [Context.socketClose, hwsi, Context.bridgeBrokerId, Context.brokerIdOfBridge]]
      rw [if_pos rfl, if_neg (by simp [hclosed]), heq]
      refine (h.contextDisconnect (honce (.inl rfl))).checkPrimaryBridge ?_ ?_ fun hswitches => ?_
      · rw [lookup_contextDisconnect, if_pos rfl, hc]
        rfl
      · simp [Context.socketClose, hwsi, hbridge]
      · exact (htwice ⟨rfl, hswitches⟩).again.once
    | false =>
      have hsock : c.sock = true := by simpa [Context.invalid, hwsi] using hvalid
      rw [if_neg Bool.false_ne_true, if_pos hsock]
      refine (h.setContext hc fun _ => rfl).checkPrimaryBridge ?_ hbridge fun hswitches => ?_
      · rw [lookup_setContext, if_pos rfl]
      · intro d b hd hstate hpeer
        rw [lookup_setContext, if_pos rfl] at hd
        rw [otherBridges_setContext]
        exact honce (.inr hswitches) d b (hd ▸ hc) hstate hpeer

/-! ### New contexts, certificates and the clean-up -/

theorem Paired.addContext (h : β.Paired settings) (hc : c.live = false) :
    (β.addContext i c).Paired settings := by
  unfold MqttBroker.addContext
  split_ifs with hfree
  · refine Paired.of_records β i c (Records.congr h rfl) (fun b => ?_) rfl
    rw [@connectedBridges_eq settings β i b, hfree.2, connectedTo_of_not_live hc]
    rfl
  · exact h

theorem Paired.contextFree (h : β.Paired settings) (hc : β.contexts.lookup i = some c)
    (hlive : c.live = false) : (β.contextFree settings i).Paired settings := by
  obtain ⟨hcontexts, hregistry⟩ := @forgetClient_frame settings β c.closed
  have hcount : (β.contextFree settings i).connectedBridges settings =
      β.connectedBridges settings := by
    funext b
    rw [connectedBridges_of_lookup hc, connectedTo_of_not_live hlive]
    unfold MqttBroker.contextFree connectedBridges otherBridges
    rw [hc]
    simp only [hcontexts]
    rfl
  unfold Paired
  rw [hcount]
  refine Records.congr h ?_
  unfold MqttBroker.contextFree
  rw [hc]
  exact congrArg BrokerRegistry.brokers hregistry

theorem SameConnection.connectedTo {c' : Context} (h : SameConnection c c') (b : Bytes) :
    c'.connectedTo settings b = c.connectedTo settings b := by
  rw [Context.connectedTo, Context.connectedTo, peer_congr h.isBridge h.id h.bridge, Context.live,
    Context.live, Context.invalid, Context.invalid, h.state, h.sock, h.wsi]

theorem SameConnection.sound {c' : Context} (h : SameConnection c c') (hsound : c.Sound) :
    c'.Sound := by
  rw [Context.Sound, h.state, h.wsi, h.bridge, h.id]
  exact hsound

/-! ### Reachable contexts are sound -/

theorem Wellformed.enroll {j : ℕ} {id : Bytes} {sendOk : Bool} (h : β.Wellformed) :
    (β.enroll settings env j id sendOk).2.Wellformed := by
  unfold MqttBroker.enroll
  cases hc : β.contexts.lookup j with
  | none => exact h
  | some c =>
    obtain ⟨hcontexts, -⟩ := @identify_frame settings β (c.withId id) j
    have hlookup : (β.identify settings j (c.withId id)).contexts.lookup j =
        some (c.withId id) := by
      rw [hcontexts, lookup_setContext, if_pos rfl]
    obtain ⟨d, hd, hannounced, -⟩ :=
      @announce_frame settings env _ (c.withId id) j sendOk hlookup
    obtain ⟨hbound, hsound⟩ := h j c hc
    have hsound' : d.Sound := by
      rcases hd with rfl | ⟨-, rfl⟩
      · exact ⟨hsound.1, fun _ hstate => nomatch hstate⟩
      · unfold Context.socketClose
        split_ifs with hwsi
        · exact ⟨hsound.1, fun _ hstate => nomatch hstate⟩
        · exact ⟨hsound.1, fun hwsi' => absurd hwsi' hwsi⟩
    refine Wellformed.of_contexts (h.setContext hbound hsound') ?_
    rw [hannounced]
    unfold MqttBroker.setContext
    rw [hcontexts]
    exact AList.insert_insert _

theorem wsi_closed : c.closed.wsi = c.wsi := by
  unfold Context.closed Context.socketClose
  simp only
  split_ifs <;> rfl

theorem Wellformed.contextFor {id : Bytes} (h : β.Wellformed)
    (hc : β.contexts.lookup i = some c) : (β.contextFor settings env i c id).2.Wellformed := by
  unfold MqttBroker.contextFor
  cases β.clientIndex.lookup id with
  | none => exact h
  | some j =>
    cases hold : β.contexts.lookup j with
    | none =>
      simp only [hold]
      exact h
    | some old =>
      simp only [hold]
      split_ifs with hws
      · exact h.contextDisconnect
      · have hplain : old.wsi = false := by simp_all
        have hreused : (reused c old).Sound :=
          ⟨fun _ => wsi_closed.trans hplain, fun _ hstate => nomatch hstate⟩
        have hgiven : (given c).Sound := ⟨(h i c hc).2.1, fun _ hstate => nomatch hstate⟩
        exact ((h.setContext (h j old hold).1 hreused).setContext (h i c hc).1 hgiven).of_contexts
          takeOver_frame.1

theorem Wellformed.handleConnect {cenv : ConnectEnv} {command : UInt8} {payload guid : Bytes}
    {sendOk : Bool} (h : β.Wellformed) :
    (β.handleConnect settings env cenv i command payload guid sendOk).2.Wellformed := by
  unfold MqttBroker.handleConnect
  cases hc : β.contexts.lookup i with
  | none => exact h
  | some c =>
    simp only
    obtain ⟨hbound, hsound⟩ := h i c hc
    obtain ⟨herror, hpacket⟩ := @connectPacket_keeps settings c cenv β.clientIndex.length command
      payload guid
    split
    · exact h.contextDisconnect
    · cases hres : connectPacket settings cenv c β.clientIndex.length command payload guid with
      | error res =>
        obtain ⟨rc, c'⟩ := res
        obtain ⟨hstate, -, hwsi, hbridge, hid⟩ := herror rc c' hres
        refine (h.setContext hbound ?_).contextDisconnect
        rw [Context.Sound, hstate, hwsi, hbridge, hid]
        exact hsound
      | ok res =>
        obtain ⟨c', id⟩ := res
        obtain ⟨hstate, -, hwsi, hbridge, hid⟩ := hpacket c' id hres
        refine Wellformed.enroll (Wellformed.contextFor (h.setContext hbound ?_) ?_)
        · rw [Context.Sound, hstate, hwsi, hbridge, hid]
          exact hsound
        · rw [lookup_setContext, if_pos rfl]

theorem Wellformed.packetHandle {packet : Packet} (h : β.Wellformed) :
    (β.packetHandle settings env i packet).2.Wellformed := by
  have hset : ∀ c, β.contexts.lookup i = some c → ∀ state : ClientState, state ≠ .new →
      (β.setContext i (c.withState state)).Wellformed := fun c hc state hstate =>
    h.setContext (h i c hc).1 ⟨(h i c hc).2.1, fun _ hnew => absurd hnew hstate⟩
  cases packet with
  | connect cenv command payload guid sendOk => exact h.handleConnect
  | connack code sendOk =>
    show (β.handleConnack settings env i code sendOk).2.Wellformed
    unfold handleConnack
    cases hc : β.contexts.lookup i with
    | none => exact h
    | some c =>
      have hconnected := hset c hc .connected nofun
      simp only
      split_ifs
      · refine hconnected.of_contexts ?_
        unfold MqttBroker.setContext
        rw [dxlOnBridgeConnected_frame.1]
      · exact hconnected
      · exact h.of_contexts dxlOnBridgeConnected_frame.1
      · exact h
      · exact hconnected
      · exact h
  | disconnect command remainingLength =>
    show (β.handleDisconnect settings env i command remainingLength).2.Wellformed
    unfold handleDisconnect
    cases hc : β.contexts.lookup i with
    | none => exact h
    | some c =>
      simp only
      split_ifs
      · exact h
      · exact h.contextDisconnect
      · exact (hset c hc .disconnecting nofun).contextDisconnect
  | other remainingLength rc => exact h

theorem Wellformed.handleRead {packet : Packet} {exceeds : Bool} (h : β.Wellformed) :
    (β.handleRead settings env i packet exceeds).Wellformed := by
  have hread : (β.packetRead settings env i packet exceeds).2.Wellformed := by
    unfold packetRead
    split
    · exact h
    · simp only
      split_ifs
      · exact h
      · exact h.contextDisconnect.packetHandle
      · exact h.contextDisconnect
      · exact h.packetHandle
  unfold MqttBroker.handleRead
  simp only
  split_ifs
  · exact hread
  · exact hread.contextDisconnect

theorem Wellformed.contextFree (h : β.Wellformed) : (β.contextFree settings i).Wellformed := by
  unfold MqttBroker.contextFree
  cases hc : β.contexts.lookup i with
  | none => exact h
  | some c =>
    intro j d hd
    simp only [forgetClient_frame.1] at hd
    exact h j d (Map.lookup_erase_eq_some.mp hd).2

theorem Wellformed.checkPrimaryBridge {bridge : Bridge} {ping : Option Bool} (h : β.Wellformed)
    (hi : i < maxContexts) (hwsi : c.wsi = false) :
    (β.checkPrimaryBridge settings env i c bridge ping).Wellformed := by
  have hplain : ∀ d : Context, d.wsi = false → d.Sound := fun d hd =>
    ⟨fun _ => hd, fun hwsi => by rw [hd] at hwsi; cases hwsi⟩
  unfold MqttBroker.checkPrimaryBridge
  split
  · split
    · exact h
    · refine (h.of_contexts dxlOnBridgeDisconnected_frame.1).setContext hi (hplain _ ?_)
      show c.socketClose.wsi = false
      simp [Context.socketClose, hwsi]
    · exact h.setContext hi (hplain _ hwsi)
  · exact h

theorem Wellformed.maintainBridge {timedOut : Bool} {ping : Option Bool} (h : β.Wellformed) :
    (β.maintainBridge settings env i timedOut ping).Wellformed := by
  unfold MqttBroker.maintainBridge
  cases hc : β.contexts.lookup i with
  | none => exact h
  | some c =>
    cases hbridge : c.bridge with
    | none =>
      simp only [hbridge]
      exact h
    | some bridge =>
      simp only [hbridge]
      obtain ⟨hbound, hsound⟩ := h i c hc
      have hwsi : c.wsi = false := hsound.1 (by rw [hbridge]; rfl)
      have hclosed : (if timedOut then c.socketClose else c).Sound ∧
          (if timedOut then c.socketClose else c).wsi = false := by
        split_ifs
        · exact ⟨sound_socketClose hsound, by simp [Context.socketClose, hwsi]⟩
        · exact ⟨hsound, hwsi⟩
      generalize (if timedOut then c.socketClose else c) = d at *
      refine Wellformed.checkPrimaryBridge ?_ hbound hclosed.2
      split
      · exact h.setContext hbound hclosed.1
      · exact (h.setContext hbound hclosed.1).of_contexts dxlOnBridgeDisconnected_frame.1

/-! ### Steps and runs -/

theorem not_live_of_invalid (h : c.invalid = true) : c.live = false := by
  simp [Context.live, h]

/-- The numbers are right and the contexts are sound. -/
def Sane (settings : BrokerSettings) (β : MqttBroker) : Prop :=
  β.Paired settings ∧ β.Wellformed

theorem Sane.addContext (h : Sane settings β) (hc : c.live = false) (hsound : c.Sound) :
    Sane settings (β.addContext i c) := by
  refine ⟨h.1.addContext hc, ?_⟩
  unfold MqttBroker.addContext
  split_ifs with hfree
  · exact h.2.setContext hfree.1 hsound
  · exact h.2

theorem Sane.contextDisconnect (h : Sane settings β) (hok : β.DisconnectOk settings i) :
    Sane settings (β.contextDisconnect settings env i) :=
  ⟨h.1.contextDisconnect hok, h.2.contextDisconnect⟩

theorem Sane.wsDestroy (h : Sane settings β) (hok : β.PairingOk settings env (.wsDestroy i)) :
    Sane settings (β.step settings env (.wsDestroy i)) := by
  simp only [step]
  cases hc : β.contexts.lookup i with
  | none => exact h
  | some c =>
    have hplain : ∀ d : Context, Context.Sound { d with wsi := false } :=
      fun d => ⟨fun _ => rfl, fun hwsi => nomatch hwsi⟩
    obtain ⟨hbound, -⟩ := h.2 i c hc
    simp only
    split_ifs with hws
    · have hws' : c.wsi = true ∧ c.state ≠ .wsDead := by simpa using hws
      have hdisconnected := @Sane.contextDisconnect settings env β i h (hok c hc hws'.1 hws'.2)
      have hlookup : (β.contextDisconnect settings env i).contexts.lookup i =
          some c.socketClose := by
        rw [lookup_contextDisconnect, if_pos rfl, hc]
        rfl
      simp only [hlookup]
      refine ⟨hdisconnected.1.setContext hlookup fun b => ?_,
        hdisconnected.2.setContext hbound (hplain _)⟩
      have hdead : c.socketClose.state = .wsDead := by
        simp [Context.socketClose, hws'.1, Context.withState]
      rw [connectedTo_of_not_live live_socketClose, connectedTo_of_not_live]
      simp [Context.live, hdead]
    · simp only [hc]
      refine ⟨h.1.setContext hc fun b => ?_, h.2.setContext hbound (hplain _)⟩
      cases hwsi : c.wsi with
      | false =>
        have hsame : ({ c with wsi := false } : Context) = c := by rw [← hwsi]
        rw [hsame]
      | true =>
        have hdead : c.state = .wsDead := by simpa [hwsi] using hws
        rw [connectedTo_of_not_live (by simp [Context.live, hdead]),
          connectedTo_of_not_live (by simp [Context.live, hdead])]

theorem Sane.restartBridge {next : Bool} {connect : Option Bool} (h : Sane settings β)
    (hc : β.contexts.lookup i = some c) (hinvalid : c.invalid = true)
    (hbridge : c.bridge.isSome = true) :
    Sane settings (β.restartBridge i next connect) := by
  obtain ⟨hbound, hsound⟩ := h.2 i c hc
  have hwsi := hsound.1 hbridge
  have hplain : ∀ d : Context, d.wsi = false → d.Sound := fun d hd =>
    ⟨fun _ => hd, fun hwsi => by rw [hd] at hwsi; cases hwsi⟩
  -- The next address changes neither the socket nor the state.
  have hnext : ∀ d : Context, d.wsi = false → d.live = false →
      Sane settings (β.setContext i d) := by
    intro d hd hlive
    refine ⟨h.1.setContext hc fun b => ?_, h.2.setContext hbound (hplain d hd)⟩
    rw [connectedTo_of_not_live hlive, connectedTo_of_not_live (not_live_of_invalid hinvalid)]
  unfold MqttBroker.restartBridge
  rw [hc]
  simp only
  cases connect with
  | none =>
    refine hnext _ ?_ (not_live_of_invalid ?_)
    · split_ifs <;> exact hwsi
    · split_ifs <;> exact hinvalid
  | some ok =>
    refine hnext _ ?_ (not_live_of_new rfl)
    show (if next = true then _ else c).wsi = false
    split_ifs <;> exact hwsi

theorem Sane.certificate {bytesExceeded : Bytes → Bool} {cert : Certificate}
    (h : Sane settings β) (hc : β.contexts.lookup i = some c) (hnew : c.state = .new) :
    Sane settings (if (β.processClientCertificate settings bytesExceeded i cert).1 then
      (β.processClientCertificate settings bytesExceeded i cert).2
      else (β.processClientCertificate settings bytesExceeded i cert).2.contextDisconnect settings
        env i) := by
  obtain ⟨c', hsame, heq⟩ := @processClientCertificate_frame settings β c i bytesExceeded cert hc
  rw [heq]
  have hset : Sane settings (β.setContext i c') :=
    ⟨h.1.setContext hc hsame.connectedTo,
      h.2.setContext (h.2 i c hc).1 (hsame.sound (h.2 i c hc).2)⟩
  split_ifs
  · exact hset
  · refine hset.contextDisconnect (disconnectOk_of_new (c := c') ?_ (hsame.state.trans hnew))
    rw [lookup_setContext, if_pos rfl]

theorem Sane.step (h : Sane settings β) {st : Step} (hok : β.PairingOk settings env st) :
    Sane settings (β.step settings env st) := by
  cases st with
  | accept i wsi => exact h.addContext (not_live_of_new rfl) ⟨nofun, fun _ _ => rfl⟩
  | certificate i bytesExceeded cert =>
    refine whenContext_cases h fun c hc hp => ?_
    simp only [decide_eq_true_eq] at hp
    exact h.certificate hc hp.1
  | read i packet exceeds =>
    refine whenContext_cases h fun c hc hp => ?_
    exact ⟨h.1.handleRead h.2 hc hp (hok c hc hp), h.2.handleRead⟩
  | drop i =>
    refine whenContext_cases h fun c hc hp => ?_
    exact h.contextDisconnect (hok c hc (by simpa using hp))
  | forceDisconnect i => exact h.contextDisconnect hok
  | wsDestroy i => exact h.wsDestroy hok
  | maintainBridge i timedOut ping =>
    refine whenContext_cases h fun c hc hp => ?_
    have hvalid : c.invalid = false := by simpa using hp
    exact ⟨h.1.maintainBridge h.2 hc hvalid (hok c hc hvalid), h.2.maintainBridge⟩
  | restartBridge i next connect =>
    refine whenContext_cases h fun c hc hp => ?_
    rw [Bool.and_eq_true] at hp
    exact h.restartBridge hc hp.1 hp.2
  | cleanSession i =>
    refine whenContext_cases h fun c hc hp => ?_
    rw [Bool.and_eq_true] at hp
    exact ⟨h.1.contextFree hc (not_live_of_invalid hp.1), h.2.contextFree⟩
  | bridgeNew i id bridge =>
    exact h.addContext (not_live_of_new rfl) ⟨fun _ => rfl, fun hwsi => nomatch hwsi⟩
  | clearBridge i =>
    refine whenContext_cases h fun c hc hp => ?_
    have hdisconnected := @Sane.contextDisconnect settings env β i h (hok c hc hp)
    refine ⟨hdisconnected.1.contextFree (c := c.socketClose) ?_ live_socketClose,
      hdisconnected.2.contextFree⟩
    rw [lookup_contextDisconnect, if_pos rfl, hc]
    rfl

/-- The broker `L` makes a bridge to `P` and connects. -/
def bridging : MqttBroker :=
  [Step.bridgeNew 0 (lit "h.L:P") { addressCount := 1 },
    .restartBridge 0 false (some true)].foldl (step { guid := lit "L" } BrokerRegistry.steadyEnv)
    started

/-- The CONNACK of `P`, after which the subscriptions are sent or not. -/
def bridged (sendOk : Bool) : MqttBroker :=
  bridging.step { guid := lit "L" } BrokerRegistry.steadyEnv
    (.read 0 (.connack (some 0) sendOk) false)

end MqttBroker

end DxlBroker
