import DxlBroker.Connection.Contexts

/-!
# The packets and the loop

What the main loop of the broker does to the contexts: the packets that open and end a connection, a
handler that fails, the maintenance of the broker's own bridge, time-outs and the clean-up.
-/

namespace DxlBroker

open Bytes Unordered

/-! ### Reading a packet -/

/-- `_mosquitto_read_byte` -/
def readByte : Bytes → Option (UInt8 × Bytes)
  | [] => none
  | b :: rest => some (b, rest)

/-- `_mosquitto_read_uint16` -/
def readUint16 : Bytes → Option (ℕ × Bytes)
  | msb :: lsb :: rest => some (msb.toNat * 256 + lsb.toNat, rest)
  | _ => none

/-- `_mosquitto_read_bytes` -/
def readBytes (count : ℕ) (s : Bytes) : Option (Bytes × Bytes) :=
  if count ≤ s.length then some (s.take count, s.drop count) else none

/-- `_mosquitto_read_string`; the string is used as a C string. -/
def readString (s : Bytes) : Option (Bytes × Bytes) := do
  let (len, s) ← readUint16 s
  let (str, s) ← readBytes len s
  some (cstr str, s)

/-- `MOSQ_ERR_PROTOCOL` -/
def errProtocol : ℕ := 2

/-- `MOSQ_ERR_ERRNO` -/
def errErrno : ℕ := 14

/-- What the checks of a CONNECT packet read from outside. -/
structure ConnectEnv where
  /-- `mqtt3_config_is_broker_cert` -/
  isBrokerCert : Bytes → Bool
  maxConnectCount : ℤ

/-- The first part of a CONNECT packet. -/
structure ConnectHeader where
  protocol311 : Bool
  isBridge : Bool
  rest : Bytes

/-- The packet is refused with the code when it ends too early. -/
def orRefuse {α : Type} (rc : ℕ) : Option α → Except ℕ α
  | none => .error rc
  | some a => .ok a

/-- The protocol of a CONNECT packet, and whether a broker sent it, up to the check of its
certificates. -/
def connectHeader (cenv : ConnectEnv) (c : Context) (command : UInt8) (payload : Bytes) :
    Except ℕ ConnectHeader := do
  let (name, s) ← orRefuse 1 (readString payload)
  let (version, s) ← orRefuse 1 (readByte s)
  let protocol311 ←
    if name = lit "MQIsdp" then
      if version &&& 0x7f ≠ 3 then throw errProtocol else pure false
    else if name = lit "MQTT" then
      if version &&& 0x7f ≠ 4 ∨ command &&& 0x0f ≠ 0 then throw errProtocol else pure true
    else throw errProtocol
  let broker := version &&& 0x80 == 0x80
  if broker && !(c.certHashes.any cenv.isBrokerCert) then throw errProtocol
  pure { protocol311 := protocol311, isBridge := broker, rest := s }

/-- The will of a CONNECT packet is read to its end. -/
def connectWill (s : Bytes) : Except ℕ Unit := do
  let (topic, s) ← orRefuse 1 (readString s)
  if topic = [] then throw 1
  if !topicWildcardPosCheck topic then throw 1
  if startsWith (lit "/mcafee/event/dxl/") topic then throw errProtocol
  let (len, s) ← orRefuse 1 (readUint16 s)
  let _ ← orRefuse 1 (readBytes len s)
  pure ()

/-- The identifier of a context: that of a broker is its own, that of a client is a new GUID after
the hash of its last certificate. -/
def connectId (c : Context) (header : ConnectHeader) (clientId guid : Bytes) : Bytes :=
  let id := if header.isBridge then clientId else guid
  if c.isBridge then id
  else
    match c.certHashes.getLast? with
    | some cert => cert ++ colonByte :: id
    | none => id

/-- The rest of a CONNECT packet: the identifier of the context.  The context already has the
protocol of the packet.  A context without a tenant is refused in multi-tenant mode, with the code
for success. -/
def connectFields (settings : BrokerSettings) (cenv : ConnectEnv) (c : Context) (clientCount : ℕ)
    (header : ConnectHeader) (guid : Bytes) : Except ℕ Bytes := do
  if !c.isBridge && 0 < cenv.maxConnectCount && cenv.maxConnectCount ≤ clientCount then
    throw errProtocol
  let (flags, s) ← orRefuse 1 (readByte header.rest)
  let willQos := (flags &&& 0x18) >>> 3
  if willQos = 3 then throw errProtocol
  if flags &&& 0x02 = 0 then throw 1
  let (_, s) ← orRefuse 1 (readUint16 s)
  let (clientId, s) ← orRefuse 1 (readString s)
  if (if header.isBridge then clientId else guid) = [] then throw errProtocol
  if settings.multiTenantModeEnabled && c.tenantGuid.isNone then throw 0
  if flags &&& 0x04 ≠ 0 then connectWill s
  else if c.protocol311 && (willQos ≠ 0 || flags &&& 0x20 ≠ 0) then throw errProtocol
  pure (connectId c header clientId guid)

/-- The context of a client of the broker's own tenant is flagged. -/
def Context.withOpsFlag (settings : BrokerSettings) (c : Context) : Context :=
  if settings.multiTenantModeEnabled && c.tenantGuid == some (cstr settings.tenantGuid) then
    { c with dxlFlags := c.dxlFlags ||| dxlFlagOps }
  else c

/-- A CONNECT packet: the context with what it was given, and the code of the refusal or the
identifier. -/
def connectPacket (settings : BrokerSettings) (cenv : ConnectEnv) (c : Context) (clientCount : ℕ)
    (command : UInt8) (payload guid : Bytes) : Except (ℕ × Context) (Context × Bytes) :=
  match connectHeader cenv c command payload with
  | .error rc => .error (rc, c)
  | .ok header =>
      let c := { c with
        isBridge := c.isBridge || header.isBridge, protocol311 := header.protocol311 }
      match connectFields settings cenv c clientCount header guid with
      | .error rc => .error (rc, c)
      | .ok id => .ok (c.withOpsFlag settings, id)

namespace MqttBroker

section

variable (settings : BrokerSettings) (env : RegistryEnv)

/-! ### CONNECT -/

/-- A context that is cleaned up and goes on with the connection of another one. -/
def reused (c old : Context) : Context :=
  { old.cleaned with
    state := .connected, sock := c.sock, dxlFlags := c.dxlFlags, tenantGuid := c.tenantGuid
    certHashes := c.certHashes }

/-- A context that gave its connection away. -/
def given (c : Context) : Context := { c with sock := false, state := .disconnecting }

/-- The context `j` with the same identifier goes on with the connection of the context `i`. -/
def takeOver (i j : ℕ) (c old : Context) (β : MqttBroker) : MqttBroker :=
  ((β.forgetClient settings old.closed).setContext j (reused c old)).setContext i (given c)

/-- The context for an identifier, where an older context may have it.  Over a WebSocket the older
one is disconnected. -/
def contextFor (i : ℕ) (c : Context) (id : Bytes) (β : MqttBroker) : ℕ × MqttBroker :=
  match β.clientIndex.lookup id with
  | none => (i, β)
  | some j =>
      match β.contexts.lookup j with
      | none => (i, β)
      | some old =>
          if old.wsi || c.wsi then (i, β.contextDisconnect settings env j)
          else (j, β.takeOver settings i j c old)

/-- The identifier of a context is recorded, and a client is counted. -/
def identify (j : ℕ) (c : Context) (β : MqttBroker) : MqttBroker :=
  let β := { β.setContext j c with clientIndex := (c.id.getD [], j) :: β.clientIndex }
  β.dxlOnClientConnected settings c

/-- A bridge is checked and announced. -/
def announce (j : ℕ) (c : Context) (sendOk : Bool) (β : MqttBroker) : ℕ × MqttBroker :=
  let res := β.dxlIsBridgeConnectAllowed settings env c
  if res.1 then
    let c := c.withState .connected
    let β := res.2.setContext j c
    (if sendOk then 0 else 1, if c.isBridge then β.dxlOnBridgeConnected settings env c else β)
  else (0, res.2.contextDisconnect settings env j)

/-- The end of `mqtt3_handle_connect`. -/
def enroll (j : ℕ) (id : Bytes) (sendOk : Bool) (β : MqttBroker) : ℕ × MqttBroker :=
  match β.contexts.lookup j with
  | none => (0, β)
  | some c => (β.identify settings j (c.withId id)).announce settings env j (c.withId id) sendOk

/-- `mqtt3_handle_connect`; `guid` is the identifier generated for a client. -/
def handleConnect (cenv : ConnectEnv) (i : ℕ) (command : UInt8) (payload guid : Bytes)
    (sendOk : Bool) (β : MqttBroker) : ℕ × MqttBroker :=
  match β.contexts.lookup i with
  | none => (0, β)
  | some c =>
      if c.state ≠ .new then (errProtocol, β.contextDisconnect settings env i)
      else
        match connectPacket settings cenv c β.clientIndex.length command payload guid with
        | .error (rc, c) => (rc, (β.setContext i c).contextDisconnect settings env i)
        | .ok (c, id) =>
            let res := (β.setContext i c).contextFor settings env i c id
            res.2.enroll settings env res.1 id sendOk

/-! ### The other packets -/

/-- `mqtt3_handle_connack`, with the code of the packet if it can be read; `sendOk` says whether all
subscriptions could be sent. -/
def handleConnack (i : ℕ) (code : Option UInt8) (sendOk : Bool) (β : MqttBroker) :
    ℕ × MqttBroker :=
  match β.contexts.lookup i with
  | none => (0, β)
  | some c =>
      if code = some 0 then
        if c.bridge.isSome then
          let β := if c.isBridge then β.dxlOnBridgeConnected settings env c else β
          if sendOk then (0, β.setContext i (c.withState .connected)) else (1, β)
        else (0, β.setContext i (c.withState .connected))
      else (1, β)

/-- `mqtt3_handle_disconnect` -/
def handleDisconnect (i : ℕ) (command : UInt8) (remainingLength : ℕ) (β : MqttBroker) :
    ℕ × MqttBroker :=
  match β.contexts.lookup i with
  | none => (0, β)
  | some c =>
      if remainingLength ≠ 0 then (errProtocol, β)
      else if c.protocol311 && command &&& 0x0f != 0 then
        (errProtocol, β.contextDisconnect settings env i)
      else (0, (β.setContext i (c.withState .disconnecting)).contextDisconnect settings env i)

/-- The packets, and what their handlers are given by the connection. -/
inductive Packet
  | connect (cenv : ConnectEnv) (command : UInt8) (payload guid : Bytes) (sendOk : Bool)
  | connack (code : Option UInt8) (sendOk : Bool)
  | disconnect (command : UInt8) (remainingLength : ℕ)
  /-- Any other packet, with the result of its handler. -/
  | other (remainingLength rc : ℕ)

def Packet.isConnect : Packet → Bool
  | .connect _ _ _ _ _ => true
  | _ => false

/-- Whether the packet has nothing after its header. -/
def Packet.isEmpty : Packet → Bool
  | .connect _ _ payload _ _ => payload.isEmpty
  | .connack _ _ => false
  | .disconnect _ remainingLength => remainingLength == 0
  | .other remainingLength _ => remainingLength == 0

/-- `mqtt3_packet_handle` -/
def packetHandle (i : ℕ) (β : MqttBroker) : Packet → ℕ × MqttBroker
  | .connect cenv command payload guid sendOk =>
      β.handleConnect settings env cenv i command payload guid sendOk
  | .connack code sendOk => β.handleConnack settings env i code sendOk
  | .disconnect command remainingLength =>
      β.handleDisconnect settings env i command remainingLength
  | .other _ rc => (rc, β)

/-- `_mosquitto_packet_read` of one packet.  When the packet is too large, or the tenant has sent too
much, the context is disconnected; what is left of the packet cannot be read from its socket then, but
from the buffer of a WebSocket. -/
def packetRead (i : ℕ) (packet : Packet) (exceeds : Bool) (β : MqttBroker) : ℕ × MqttBroker :=
  match β.contexts.lookup i with
  | none => (0, β)
  | some c =>
      if c.bridge = none ∧ c.state = .new ∧ packet.isConnect = false then (errProtocol, β)
      else if exceeds && !packet.isConnect then
        let β := β.contextDisconnect settings env i
        if c.wsi || packet.isEmpty then β.packetHandle settings env i packet else (errErrno, β)
      else β.packetHandle settings env i packet

/-- `handle_read`, or the receive callback of a WebSocket: a context whose packet could not be handled
is disconnected. -/
def handleRead (i : ℕ) (packet : Packet) (exceeds : Bool) (β : MqttBroker) : MqttBroker :=
  let res := β.packetRead settings env i packet exceeds
  if res.1 = 0 then res.2 else res.2.contextDisconnect settings env i

/-! ### The broker's own bridge -/

/-- `checkPrimaryBridge`, for a bridge that is to be tried; `ping` is the result of the connection
check, if there is one for the address. -/
def checkPrimaryBridge (i : ℕ) (c : Context) (bridge : Bridge) (ping : Option Bool)
    (β : MqttBroker) : MqttBroker :=
  if bridge.roundRobin = false ∧ bridge.primaryAddressCount ≤ bridge.curAddress then
    match ping with
    | none => β
    | some true =>
        let β := β.dxlOnBridgeDisconnected settings env c
        let address := if bridge.curPrimaryAddress = 0 then bridge.addressCount - 1
          else bridge.curPrimaryAddress - 1
        β.setContext i (c.socketClose.withBridge { bridge with curAddress := address })
    | some false =>
        let address := if bridge.primaryAddressCount ≤ bridge.curPrimaryAddress + 1 then 0
          else bridge.curPrimaryAddress + 1
        β.setContext i (c.withBridge { bridge with curPrimaryAddress := address })
  else β

/-- The maintenance of a bridge that is connected; `timedOut` says whether
`_mosquitto_check_keepalive` closes its socket. -/
def maintainBridge (i : ℕ) (timedOut : Bool) (ping : Option Bool) (β : MqttBroker) : MqttBroker :=
  match β.contexts.lookup i with
  | none => β
  | some c =>
      match c.bridge with
      | none => β
      | some bridge =>
          let c := if timedOut then c.socketClose else c
          let β := β.setContext i c
          let β := if c.sock then β else β.dxlOnBridgeDisconnected settings env c
          β.checkPrimaryBridge settings env i c bridge ping

/-- `restart_bridge_connection`: the next address is taken, and a connection may be tried. -/
def restartBridge (i : ℕ) (next : Bool) (connect : Option Bool) (β : MqttBroker) : MqttBroker :=
  match β.contexts.lookup i with
  | none => β
  | some c =>
      let c := if next then
          { c with bridge := c.bridge.map fun bridge => { bridge with
              curAddress := if bridge.curAddress + 1 = bridge.addressCount then 0
                else bridge.curAddress + 1 } }
        else c
      match connect with
      | none => β.setContext i c
      | some ok => β.setContext i { c with state := .new, sock := ok }

/-! ### Steps -/

/-- What the loop does next. -/
inductive Step
  /-- A connection is accepted, or a WebSocket created. -/
  | accept (i : ℕ) (wsi : Bool)
  | certificate (i : ℕ) (bytesExceeded : Bytes → Bool) (cert : Certificate)
  | read (i : ℕ) (packet : Packet) (exceeds : Bool)
  /-- An error or a hang-up of the connection, or a time-out of a client. -/
  | drop (i : ℕ)
  /-- A disconnect from outside: of a client by its identifier, or of a revoked certificate. -/
  | forceDisconnect (i : ℕ)
  | wsDestroy (i : ℕ)
  | maintainBridge (i : ℕ) (timedOut : Bool) (ping : Option Bool)
  | restartBridge (i : ℕ) (next : Bool) (connect : Option Bool)
  | cleanSession (i : ℕ)
  /-- `mqtt3_bridge_new` -/
  | bridgeNew (i : ℕ) (id : Bytes) (bridge : Bridge)
  /-- `clearCurrentBridges`, for one of the bridges. -/
  | clearBridge (i : ℕ)

/-- The number of contexts is an `int`. -/
def maxContexts : ℕ := 2 ^ 31

/-- The context `i` with a property of it. -/
def whenContext (i : ℕ) (p : Context → Bool) (f : MqttBroker → MqttBroker) (β : MqttBroker) :
    MqttBroker :=
  if (β.contexts.lookup i).any p then f β else β

/-- A new context in a free place. -/
def addContext (i : ℕ) (c : Context) (β : MqttBroker) : MqttBroker :=
  if i < maxContexts ∧ β.contexts.lookup i = none then β.setContext i c else β

/-- Packets are read while there is a socket, or a WebSocket that is not marked. -/
def readable (c : Context) : Bool := if c.wsi then c.state ≠ .wsDead else c.sock

def step (β : MqttBroker) : Step → MqttBroker
  | .accept i wsi => β.addContext i { sock := !wsi, wsi := wsi }
  | .certificate i bytesExceeded cert =>
      β.whenContext i (fun c => c.state = .new ∧ readable c ∧ c.bridge = none) fun β =>
        let res := β.processClientCertificate settings bytesExceeded i cert
        if res.1 then res.2 else res.2.contextDisconnect settings env i
  | .read i packet exceeds =>
      β.whenContext i readable fun β => β.handleRead settings env i packet exceeds
  | .drop i =>
      β.whenContext i (fun c => !c.invalid) fun β => β.contextDisconnect settings env i
  | .forceDisconnect i => β.contextDisconnect settings env i
  | .wsDestroy i =>
      match β.contexts.lookup i with
      | none => β
      | some c =>
          let β := if c.wsi && c.state ≠ .wsDead then β.contextDisconnect settings env i else β
          match β.contexts.lookup i with
          | none => β
          | some c => β.setContext i { c with wsi := false }
  | .maintainBridge i timedOut ping =>
      β.whenContext i (fun c => !c.invalid) fun β => β.maintainBridge settings env i timedOut ping
  | .restartBridge i next connect =>
      β.whenContext i (fun c => c.invalid && c.bridge.isSome) fun β =>
        β.restartBridge i next connect
  | .cleanSession i =>
      β.whenContext i (fun c => c.invalid && c.bridge.isNone) fun β => β.contextFree settings i
  | .bridgeNew i id bridge =>
      β.addContext i { isBridge := true, bridge := some bridge, id := some id }
  | .clearBridge i =>
      β.whenContext i (fun c => c.bridge.isSome) fun β =>
        (β.contextDisconnect settings env i).contextFree settings i

end

/-! ### What stays -/

section

variable {settings : BrokerSettings} {env : RegistryEnv} {β : MqttBroker} {c : Context} {i : ℕ}

theorem erase_setContext : (β.setContext i c).contexts.erase i = β.contexts.erase i := by
  refine AList.ext ?_
  show List.kerase i (List.kinsert i c β.contexts.entries) = _
  rw [List.kinsert_def]
  exact List.kerase_cons_eq rfl

/-- A number of contexts, with one context apart. -/
theorem countVals_contexts (p : Context → Bool) : β.contexts.countVals p =
    Map.countVals p (β.contexts.erase i) + if (β.contexts.lookup i).any p then 1 else 0 := by
  cases hc : β.contexts.lookup i with
  | none =>
    rw [show β.contexts.erase i = β.contexts from
      AList.ext (List.kerase_of_notMem_keys (AList.mem_keys.not.mp (AList.lookup_eq_none.mp hc)))]
    rfl
  | some c => exact Map.countVals_erase hc _

theorem countVals_setContext (p : Context → Bool) : (β.setContext i c).contexts.countVals p =
    Map.countVals p (β.contexts.erase i) + if p c then 1 else 0 := by
  rw [@countVals_contexts _ i p, erase_setContext, lookup_setContext, if_pos rfl]
  rfl

theorem setContext_setContext {d : Context} :
    (β.setContext i d).setContext i c = β.setContext i c := by
  unfold MqttBroker.setContext
  simp only [AList.insert_insert]

/-- What a CONNECT packet leaves as it is when it is parsed. -/
structure Parsed (c c' : Context) : Prop where
  state : c'.state = c.state
  sock : c'.sock = c.sock
  wsi : c'.wsi = c.wsi
  bridge : c'.bridge = c.bridge
  id : c'.id = c.id
  isBridge : c.isBridge = true → c'.isBridge = true

theorem connectPacket_keeps {cenv : ConnectEnv} {count : ℕ} {command : UInt8}
    {payload guid : Bytes} :
    (∀ rc c', connectPacket settings cenv c count command payload guid = .error (rc, c') →
      Parsed c c') ∧
    ∀ c' id, connectPacket settings cenv c count command payload guid = .ok (c', id) →
      Parsed c c' := by
  unfold connectPacket
  cases connectHeader cenv c command payload with
  | error rc =>
    refine ⟨fun rc' c' h => ?_, fun c' id h => nomatch h⟩
    cases h
    exact ⟨rfl, rfl, rfl, rfl, rfl, id⟩
  | ok header =>
    simp only
    split
    · refine ⟨fun rc' c' h => ?_, fun c' id h => nomatch h⟩
      cases h
      exact ⟨rfl, rfl, rfl, rfl, rfl, fun hbridge => by simp [hbridge]⟩
    · refine ⟨fun rc' c' h => (nomatch h), fun c' id h => ?_⟩
      cases h
      unfold Context.withOpsFlag
      split_ifs <;> exact ⟨rfl, rfl, rfl, rfl, rfl, fun hbridge => by simp [hbridge]⟩

theorem identify_frame {j : ℕ} :
    (β.identify settings j c).contexts = (β.setContext j c).contexts ∧
      (β.identify settings j c).registry = β.registry :=
  ⟨dxlOnClientConnected_frame.1, dxlOnClientConnected_frame.2.2⟩

theorem takeOver_frame {j : ℕ} {old : Context} :
    (β.takeOver settings i j c old).contexts =
      ((β.setContext j (reused c old)).setContext i (given c)).contexts ∧
    (β.takeOver settings i j c old).registry = β.registry := by
  obtain ⟨hcontexts, hregistry⟩ := @forgetClient_frame settings β old.closed
  refine ⟨?_, hregistry⟩
  show AList.insert i _ (AList.insert j _ (β.forgetClient settings old.closed).contexts) = _
  rw [hcontexts]
  rfl

/-- The context that was checked is connected, or it was a bridge and is closed. -/
theorem announce_frame {j : ℕ} {sendOk : Bool} (hc : β.contexts.lookup j = some c) :
    ∃ d, (d = c.withState .connected ∨ c.isBridge = true ∧ d = c.socketClose) ∧
      (β.announce settings env j c sendOk).2.contexts = (β.setContext j d).contexts ∧
      (β.announce settings env j c sendOk).2.clientIndex = β.clientIndex ∧
      (β.announce settings env j c sendOk).2.connectionsPerTenant = β.connectionsPerTenant := by
  obtain ⟨hcontexts, hindex, hcounts⟩ := @dxlIsBridgeConnectAllowed_frame settings env β c
  have hclient : c.isBridge = false → (β.dxlIsBridgeConnectAllowed settings env c).1 = true := by
    intro hbridge
    unfold dxlIsBridgeConnectAllowed
    rw [if_pos (.inr hbridge)]
  unfold announce
  generalize β.dxlIsBridgeConnectAllowed settings env c = res at *
  simp only
  split
  · refine ⟨_, .inl rfl, ?_⟩
    have hset : (res.2.setContext j (c.withState .connected)).contexts =
        (β.setContext j (c.withState .connected)).contexts := by
      unfold MqttBroker.setContext
      rw [hcontexts]
    simp only
    split
    · obtain ⟨hcontexts', hindex', hcounts'⟩ := @dxlOnBridgeConnected_frame settings env
        (res.2.setContext j (c.withState .connected)) (c.withState .connected)
      exact ⟨hcontexts'.trans hset, hindex'.trans hindex, hcounts'.trans hcounts⟩
    · exact ⟨hset, hindex, hcounts⟩
  · rename_i hno
    have hbridge : c.isBridge = true := by
      by_contra hnot
      exact hno (hclient (Bool.not_eq_true _ ▸ hnot))
    refine ⟨_, .inr ⟨hbridge, rfl⟩, ?_, contextDisconnect_frame.1.trans hindex,
      contextDisconnect_frame.2.trans hcounts⟩
    unfold MqttBroker.contextDisconnect
    rw [hcontexts, hc]
    simp only [hbridge, if_true]
    unfold MqttBroker.setContext
    rw [dxlOnBridgeDisconnected_frame.1, hcontexts]

/-- A step on a context that does not have the property does nothing. -/
theorem whenContext_cases {p : Context → Bool} {f : MqttBroker → MqttBroker} {P : MqttBroker → Prop}
    (hβ : P β) (hf : ∀ c, β.contexts.lookup i = some c → p c = true → P (f β)) :
    P (β.whenContext i p f) := by
  unfold whenContext
  split_ifs with h
  · obtain ⟨c, hc, hp⟩ := (Option.any_eq_true _ _).mp h
    exact hf c hc hp
  · exact hβ

/-- What a certificate does not change. -/
structure SameConnection (c c' : Context) : Prop where
  state : c'.state = c.state
  sock : c'.sock = c.sock
  wsi : c'.wsi = c.wsi
  isBridge : c'.isBridge = c.isBridge
  bridge : c'.bridge = c.bridge
  id : c'.id = c.id

theorem SameConnection.trans {c' c'' : Context} (h : SameConnection c c')
    (h' : SameConnection c' c'') : SameConnection c c'' :=
  ⟨h'.state.trans h.state, h'.sock.trans h.sock, h'.wsi.trans h.wsi, h'.isBridge.trans h.isBridge,
    h'.bridge.trans h.bridge, h'.id.trans h.id⟩

/-- Only the context that presents the certificate changes, and its connection stays. -/
theorem processClientCertificate_frame {bytesExceeded : Bytes → Bool} {cert : Certificate}
    (hc : β.contexts.lookup i = some c) :
    ∃ c', SameConnection c c' ∧
      (β.processClientCertificate settings bytesExceeded i cert).2 = β.setContext i c' := by
  have hfold : ∀ (guids : List Bytes) (ok : Bool) (d : Context), SameConnection c d →
      ∃ c', SameConnection c c' ∧
        (guids.foldl (readTenantGuid settings bytesExceeded i) (ok, β.setContext i d)).2 =
          β.setContext i c' := by
    intro guids
    induction guids with
    | nil => exact fun ok d hd => ⟨d, hd, rfl⟩
    | cons guid guids ih =>
      intro ok d hd
      rw [List.foldl_cons, readTenantGuid]
      simp only [lookup_setContext, if_pos, setContext_setContext]
      exact ih _ _ (hd.trans ⟨rfl, rfl, rfl, rfl, rfl, rfl⟩)
  unfold processClientCertificate
  rw [hc]
  exact hfold _ _ _ ⟨rfl, rfl, rfl, rfl, rfl, rfl⟩

end

/-- The states reached from the start by steps that meet a condition.  In between the registry may
change, but not the connections in the local broker's record. -/
inductive Reached (settings : BrokerSettings) (Ok : MqttBroker → RegistryEnv → Step → Prop) :
    MqttBroker → Prop
  | init {registry : BrokerRegistry} {s : BrokerState}
      (hlocal : registry.brokers.lookup (cstr settings.guid) = some s)
      (hempty : s.countedConnections = ∅) : Reached settings Ok { registry := registry }
  | step {β : MqttBroker} (h : Reached settings Ok β) (env : RegistryEnv) (st : Step)
      (hok : Ok β env st) : Reached settings Ok (β.step settings env st)
  | other {β : MqttBroker} (h : Reached settings Ok β) {registry : BrokerRegistry}
      (hlocal : ∀ s, β.registry.brokers.lookup (cstr settings.guid) = some s →
        ∃ s', registry.brokers.lookup (cstr settings.guid) = some s' ∧
          s'.countedConnections = s.countedConnections) :
      Reached settings Ok { β with registry := registry }

theorem Reached.foldl {Ok : MqttBroker → RegistryEnv → Step → Prop} {steps : List Step}
    {settings : BrokerSettings} {env : RegistryEnv} {β : MqttBroker}
    (h : Reached settings Ok β) (hok : ∀ β st, st ∈ steps → Ok β env st) :
    Reached settings Ok (steps.foldl (MqttBroker.step settings env) β) := by
  induction steps generalizing β with
  | nil => exact h
  | cons st steps ih =>
    exact ih (.step h env st (hok β st List.mem_cons_self)) fun β' st' hst' =>
      hok β' st' (List.mem_cons_of_mem _ hst')

/-- A broker `L` that starts. -/
def started : MqttBroker where
  registry := BrokerRegistry.runSteady [.addBroker { id := lit "L", hostname := lit "h" }]

end MqttBroker

end DxlBroker
