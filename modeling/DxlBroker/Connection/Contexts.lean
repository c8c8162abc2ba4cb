import DxlBroker.Registry.CycleCheck
import DxlBroker.Service.ServiceRegistry
import DxlBroker.Mqtt.Topic

/-!
# Contexts

The broker keeps one context per connection: of the clients and bridges that connected to it, and of
the bridge it makes itself.  A context lives from the accepted socket, over the TLS handshake and the
CONNECT packet, to the maintenance loop that cleans it up some time after its socket was closed.
-/

namespace DxlBroker

open Bytes Unordered

/-- `mosquitto_client_state`, the states that the broker uses. -/
inductive ClientState
  | new
  | connected
  | disconnecting
  | wsDead
  deriving DecidableEq

/-- `_mqtt3_bridge`: the addresses of a bridge that the broker makes. -/
structure Bridge where
  addressCount : ℕ
  curAddress : ℕ := 0
  primaryAddressCount : ℕ := 1
  curPrimaryAddress : ℕ := 0
  roundRobin : Bool := false
  deriving DecidableEq

/-- `mosquitto`: a context.  Its session is always a clean one. -/
structure Context where
  state : ClientState := .new
  /-- The socket is open. -/
  sock : Bool := false
  /-- There is a WebSocket. -/
  wsi : Bool := false
  protocol311 : Bool := false
  isBridge : Bool := false
  /-- Only contexts of bridges that the broker makes have one. -/
  bridge : Option Bridge := none
  id : Option Bytes := none
  tenantGuid : Option Bytes := none
  dxlFlags : UInt8 := 0
  /-- The hashes of the certificates in the order in which they were presented. -/
  certHashes : List Bytes := []
  deriving DecidableEq

def dotByte : UInt8 := 0x2e

def colonByte : UInt8 := 0x3a

/-- What follows the last dot. -/
def afterLastDot (s : Bytes) : Option Bytes :=
  if dotByte ∈ s then some (s.reverse.takeWhile fun c => c != dotByte).reverse else none

/-- What follows so many colons. -/
def afterColons : ℕ → Bytes → Option Bytes
  | 0, s => some s
  | n + 1, s =>
      if colonByte ∈ s then afterColons n ((s.dropWhile fun c => c != colonByte).drop 1) else none

/-- What stands before the first colon. -/
def uptoColon (s : Bytes) : Bytes := s.takeWhile fun c => c != colonByte

namespace Context

/-- `IS_CONTEXT_INVALID` -/
def invalid (c : Context) : Bool := !c.sock && !c.wsi

section

variable (settings : BrokerSettings)

/-- What the identifier of a bridge says: whether the local broker is the child, and the GUID of the
other broker.  The identifier is `host.child:parent:parent...`. -/
def brokerIdOfBridge (c : Context) : Option (Bool × Bytes) := do
  guard c.isBridge
  let start ← (← c.id) |> afterLastDot
  let parents ← afterColons 1 start
  let child := uptoColon start
  -- A prefix of the own GUID passes for it.
  if (cstr settings.guid).take child.length ≠ child then some (false, child)
  else do
    let parent ← afterColons (← c.bridge).curAddress parents
    some (true, uptoColon parent)

/-- `getBridgeBrokerIdFromContext`: an empty GUID is an error. -/
def bridgeBrokerId (c : Context) : Option (Bool × Bytes) :=
  (c.brokerIdOfBridge settings).filter fun res => res.2 ≠ []

/-- `isTenantLimited` -/
def isTenantLimited (c : Context) : Bool :=
  settings.multiTenantModeEnabled && c.dxlFlags &&& dxlFlagOps == 0 && !c.isBridge &&
    c.tenantGuid.isSome

end

def withState (c : Context) (state : ClientState) : Context := { c with state := state }

def withId (c : Context) (id : Bytes) : Context := { c with id := some id }

def withBridge (c : Context) (bridge : Bridge) : Context := { c with bridge := some bridge }

/-- `_mosquitto_socket_close`: a WebSocket cannot be closed here and is marked. -/
def socketClose (c : Context) : Context :=
  if c.wsi then c.withState .wsDead else { c with sock := false }

/-- The connection of a context that is cleaned up. -/
def closed (c : Context) : Context :=
  let c := if c.sock then c.socketClose else c
  if c.wsi then c.withState .wsDead else c

/-- What remains of a context that is cleaned up and not freed. -/
def cleaned (c : Context) : Context :=
  { c.closed with id := none, tenantGuid := none, certHashes := [] }

end Context

/-- `updateTenantLimitCount`, what it records. -/
def updateTenantLimitCount (tenantGuid : Bytes) (adjCount limit : ℤ) (counts : Map Bytes ℤ) :
    Map Bytes ℤ :=
  if limit = 0 then counts
  else counts.insert tenantGuid
    (BrokerCore.clampCount limit ((counts.lookup tenantGuid).getD 0 + adjCount))

/-- `checkTenantWithinLimit` -/
def checkTenantWithinLimit (tenantGuid : Bytes) (limit : ℤ) (counts : Map Bytes ℤ) : Bool :=
  limit == 0 || (counts.lookup tenantGuid).elim true fun n => n < limit

/-- The limit as it is compared. -/
def connectionLimit (settings : BrokerSettings) : ℤ := settings.tenantConnectionLimit.toInt32.toInt

/-- The contexts of a broker, and what the notifications about them change. -/
structure MqttBroker where
  contexts : Map ℕ Context := ∅
  /-- `clientid_index_hash`: a search finds the entry that was added last. -/
  clientIndex : List (Bytes × ℕ) := []
  registry : BrokerRegistry
  connectionsPerTenant : Map Bytes ℤ := ∅

namespace MqttBroker

section

variable (settings : BrokerSettings) (env : RegistryEnv)

def setContext (β : MqttBroker) (i : ℕ) (c : Context) : MqttBroker :=
  { β with contexts := β.contexts.insert i c }

/-! ### Notifications -/

/-- `dxl_on_bridge_connected` -/
def dxlOnBridgeConnected (c : Context) (β : MqttBroker) : MqttBroker :=
  match c.bridgeBrokerId settings with
  | some (isChild, brokerId) =>
      { β with registry := β.registry.onBridgeConnected settings env isChild brokerId }
  | none => β

/-- `dxl_on_bridge_disconnected` -/
def dxlOnBridgeDisconnected (c : Context) (β : MqttBroker) : MqttBroker :=
  if c.state = .new then β
  else
    match c.bridgeBrokerId settings with
    | some (_, brokerId) =>
        { β with registry := β.registry.removeConnection env (cstr settings.guid) brokerId }
    | none => β

/-- `updateTenantConnectionCount` -/
def updateTenantConnectionCount (c : Context) (adjCount : ℤ) (β : MqttBroker) : MqttBroker :=
  if c.isTenantLimited settings then
    let counts := updateTenantLimitCount (c.tenantGuid.getD []) adjCount (connectionLimit settings)
      β.connectionsPerTenant
    { β with connectionsPerTenant := counts }
  else β

/-- `dxl_on_client_connected` -/
def dxlOnClientConnected (c : Context) (β : MqttBroker) : MqttBroker :=
  if c.id = none ∨ c.isBridge = true then β else β.updateTenantConnectionCount settings c 1

/-- `dxl_on_client_disconnected` -/
def dxlOnClientDisconnected (c : Context) (β : MqttBroker) : MqttBroker :=
  if c.isBridge = true ∨ c.state = .new ∨ c.id = none then β
  else β.updateTenantConnectionCount settings c (-1)

/-- `dxl_is_tenant_connection_allowed` -/
def dxlIsTenantConnectionAllowed (c : Context) (β : MqttBroker) : Bool :=
  !c.isTenantLimited settings ||
    checkTenantWithinLimit (c.tenantGuid.getD []) (connectionLimit settings) β.connectionsPerTenant

/-- `dxl_is_bridge_connect_allowed`: a bridge whose broker is not found is not allowed. -/
def dxlIsBridgeConnectAllowed (c : Context) (β : MqttBroker) : Bool × MqttBroker :=
  if c.id = none ∨ c.isBridge = false then (true, β)
  else
    match c.bridgeBrokerId settings with
    | some (_, brokerId) =>
        let res := β.registry.isBridgeConnectAllowed settings env brokerId
        (res.1, { β with registry := res.2 })
    | none => (false, β)

/-! ### The end of a context -/

/-- `mqtt3_context_disconnect`: the context stays until it is cleaned up. -/
def contextDisconnect (i : ℕ) (β : MqttBroker) : MqttBroker :=
  match β.contexts.lookup i with
  | none => β
  | some c =>
      let β := if c.isBridge then β.dxlOnBridgeDisconnected settings env c else β
      β.setContext i c.socketClose

/-- `mqtt3_context_cleanup`, before the context is freed or used again: the client is disconnected
when its identifier is found in the index. -/
def forgetClient (c : Context) (β : MqttBroker) : MqttBroker :=
  match c.id with
  | none => β
  | some id =>
      if β.clientIndex.any fun e => e.1 == id then
        let β := { β with clientIndex := β.clientIndex.eraseP fun e => e.1 == id }
        β.dxlOnClientDisconnected settings c
      else β

/-- `mqtt3_context_cleanup` of a context that is freed. -/
def contextFree (i : ℕ) (β : MqttBroker) : MqttBroker :=
  match β.contexts.lookup i with
  | none => β
  | some c =>
      let β := β.forgetClient settings c.closed
      { β with contexts := β.contexts.erase i }

/-! ### The TLS handshake -/

/-- A certificate that a client presents. -/
structure Certificate where
  sha1 : Bytes
  revoked : Bool := false
  /-- The tenant GUIDs among its extensions. -/
  tenantGuids : List Bytes := []

/-- One tenant GUID is read and checked. -/
def readTenantGuid (bytesExceeded : Bytes → Bool) (i : ℕ) (res : Bool × MqttBroker)
    (tenantGuid : Bytes) : Bool × MqttBroker :=
  match res.2.contexts.lookup i with
  | none => res
  | some c =>
      let c := { c with tenantGuid := some (cstr tenantGuid) }
      (res.1 && !(bytesExceeded (cstr tenantGuid)) && res.2.dxlIsTenantConnectionAllowed settings c,
        res.2.setContext i c)

/-- `mosquitto_process_client_certificate`: whether the certificate is accepted. -/
def processClientCertificate (bytesExceeded : Bytes → Bool) (i : ℕ) (cert : Certificate)
    (β : MqttBroker) : Bool × MqttBroker :=
  match β.contexts.lookup i with
  | none => (true, β)
  | some c =>
      let c := { c with certHashes :=
        if c.certHashes.contains cert.sha1 then c.certHashes
        else c.certHashes ++ [cert.sha1] }
      cert.tenantGuids.foldl (readTenantGuid settings bytesExceeded i)
        (!cert.revoked, β.setContext i c)

end

/-! ### What stays -/

section

variable {settings : BrokerSettings} {env : RegistryEnv} {β : MqttBroker} {c : Context}

@[simp] theorem lookup_setContext {i j : ℕ} :
    (β.setContext i c).contexts.lookup j = if j = i then some c else β.contexts.lookup j := by
  unfold setContext
  split_ifs with h
  · rw [h]
    exact AList.lookup_insert _
  · exact AList.lookup_insert_ne h

/-- A notification about a bridge changes the registry only. -/
theorem dxlOnBridgeConnected_frame : (β.dxlOnBridgeConnected settings env c).contexts = β.contexts ∧
    (β.dxlOnBridgeConnected settings env c).clientIndex = β.clientIndex ∧
    (β.dxlOnBridgeConnected settings env c).connectionsPerTenant = β.connectionsPerTenant := by
  unfold dxlOnBridgeConnected
  split <;> exact ⟨rfl, rfl, rfl⟩

theorem dxlOnBridgeDisconnected_frame :
    (β.dxlOnBridgeDisconnected settings env c).contexts = β.contexts ∧
    (β.dxlOnBridgeDisconnected settings env c).clientIndex = β.clientIndex ∧
    (β.dxlOnBridgeDisconnected settings env c).connectionsPerTenant = β.connectionsPerTenant := by
  unfold dxlOnBridgeDisconnected
  split_ifs
  · exact ⟨rfl, rfl, rfl⟩
  · split <;> exact ⟨rfl, rfl, rfl⟩

theorem dxlIsBridgeConnectAllowed_frame :
    (β.dxlIsBridgeConnectAllowed settings env c).2.contexts = β.contexts ∧
    (β.dxlIsBridgeConnectAllowed settings env c).2.clientIndex = β.clientIndex ∧
    (β.dxlIsBridgeConnectAllowed settings env c).2.connectionsPerTenant =
      β.connectionsPerTenant := by
  unfold dxlIsBridgeConnectAllowed
  split_ifs
  · exact ⟨rfl, rfl, rfl⟩
  · split <;> exact ⟨rfl, rfl, rfl⟩

/-- A notification about a client changes the counts only. -/
theorem updateTenantConnectionCount_frame {n : ℤ} :
    (β.updateTenantConnectionCount settings c n).contexts = β.contexts ∧
    (β.updateTenantConnectionCount settings c n).clientIndex = β.clientIndex ∧
    (β.updateTenantConnectionCount settings c n).registry = β.registry := by
  unfold updateTenantConnectionCount
  split_ifs <;> exact ⟨rfl, rfl, rfl⟩

theorem dxlOnClientConnected_frame :
    (β.dxlOnClientConnected settings c).contexts = β.contexts ∧
    (β.dxlOnClientConnected settings c).clientIndex = β.clientIndex ∧
    (β.dxlOnClientConnected settings c).registry = β.registry := by
  unfold dxlOnClientConnected
  split_ifs
  · exact ⟨rfl, rfl, rfl⟩
  · exact updateTenantConnectionCount_frame

theorem forgetClient_frame :
    (β.forgetClient settings c).contexts = β.contexts ∧
    (β.forgetClient settings c).registry = β.registry := by
  unfold forgetClient
  split
  · exact ⟨rfl, rfl⟩
  · split_ifs
    · unfold dxlOnClientDisconnected
      split_ifs
      · exact ⟨rfl, rfl⟩
      · exact ⟨updateTenantConnectionCount_frame.1, updateTenantConnectionCount_frame.2.2⟩
    · exact ⟨rfl, rfl⟩

theorem contextDisconnect_frame {i : ℕ} :
    (β.contextDisconnect settings env i).clientIndex = β.clientIndex ∧
    (β.contextDisconnect settings env i).connectionsPerTenant = β.connectionsPerTenant := by
  unfold contextDisconnect
  split
  · exact ⟨rfl, rfl⟩
  · split_ifs
    · exact dxlOnBridgeDisconnected_frame.2
    · exact ⟨rfl, rfl⟩

theorem lookup_contextDisconnect {i j : ℕ} :
    (β.contextDisconnect settings env i).contexts.lookup j =
      if j = i then (β.contexts.lookup i).map Context.socketClose else β.contexts.lookup j := by
  unfold contextDisconnect
  cases hc : β.contexts.lookup i with
  | none =>
    split_ifs with h
    · rw [h, hc]
      rfl
    · rfl
  | some c =>
    simp only [lookup_setContext, Option.map_some]
    split_ifs
    · rfl
    · rw [dxlOnBridgeDisconnected_frame.1]
    · rfl

end

end MqttBroker

end DxlBroker
