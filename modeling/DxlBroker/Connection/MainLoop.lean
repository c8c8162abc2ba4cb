import DxlBroker.Connection.BrokerLoop
import DxlBroker.Lib.HashIter

/-!
# The main loop

The loop keeps three sets of pointers to contexts beside their array: the contexts that are new, those
that were given messages, and those for which bytes wait in their TLS connection.  In each round it
writes what there is to write, sometimes looks after the contexts and frees those that are closed,
reads, and carries out the tasks that other threads have handed in.
-/

namespace DxlBroker

open Bytes Unordered

/-- A pointer to a context: its place in the array, and how many contexts had been freed there. -/
structure ContextRef where
  place : ℕ
  generation : ℕ
  deriving DecidableEq

/-- The contexts of a broker with the sets of the loop. -/
structure MainLoop where
  broker : MqttBroker
  /-- How many contexts were freed at a place. -/
  generation : ℕ → ℕ := fun _ => 0
  newClients : List ContextRef := []
  newClient : Bool := false
  newMsgs : List ContextRef := []
  pendingBytes : List ContextRef := []
  /-- `pending_bytes` of the context at a place. -/
  pendingFlag : ℕ → Bool := fun _ => false
  /-- The context at a place has messages. -/
  hasMsgs : ℕ → Bool := fun _ => false
  /-- A broker to which this one has made a bridge has sent it a CONNECT. -/
  connectFromParent : Bool := false
  /-- Freed memory was used. -/
  faulted : Bool := false

namespace MqttBroker

/-- The first place of the array that is free. -/
def freePlace (β : MqttBroker) : ℕ :=
  ((List.range (β.contexts.keys.length + 1)).find? fun i => (β.contexts.lookup i).isNone).getD 0

/-- The places that are in use are below this one. -/
def contextCount (β : MqttBroker) : ℕ := β.contexts.keys.foldr (fun i n => max (i + 1) n) 0

/-- The context that loses its connection to a CONNECT packet, as `mqtt3_handle_connect` finds it. -/
def takenOver (settings : BrokerSettings) (i : ℕ) (β : MqttBroker) : Packet → Option ℕ
  | .connect cenv command payload guid _ =>
      match β.contexts.lookup i with
      | none => none
      | some c =>
          if c.state ≠ .new then none
          else
            match connectPacket settings cenv c β.clientIndex.length command payload guid with
            | .error _ => none
            | .ok (c, id) =>
                (β.clientIndex.lookup id).filter fun j =>
                  ((β.setContext i c).contexts.lookup j).any fun old => !(old.wsi || c.wsi)
  | _ => none

/-- `_mosquitto_packet_read` comes to the end of the packet. -/
def readToEnd (c : Context) (packet : Packet) (exceeds : Bool) : Bool :=
  (c.bridge.isSome || c.state ≠ .new || packet.isConnect) &&
    (!exceeds || packet.isConnect || c.wsi || packet.isEmpty)

end MqttBroker

/-- What the loop finds when it reads from a context: a whole packet, and whether there are more bytes
in the TLS connection then; a part of a packet; or an error. -/
inductive Receipt
  | packet (packet : MqttBroker.Packet) (exceeds pending : Bool)
  | part
  | error

/-- What comes of writing the messages of a context: whether it is to be disconnected, whether there
are no messages left, and the places of contexts that get a message from its will. -/
structure Writing where
  failed : Bool
  emptied : Bool
  inserts : List ℕ := []

namespace MainLoop

/-- The pointer to the context at a place. -/
def ref (s : MainLoop) (i : ℕ) : ContextRef := ⟨i, s.generation i⟩

/-- The memory of the context was not freed. -/
def live (s : MainLoop) (r : ContextRef) : Bool :=
  s.generation r.place == r.generation && (s.broker.contexts.lookup r.place).isSome

/-! ### The sets -/

/-- `mosquitto_add_new_msgs_set` -/
def addNewMsgs (s : MainLoop) (i : ℕ) : MainLoop :=
  { s with newMsgs := HashIter.add s.newMsgs (s.ref i) }

/-- `mosquitto_add_new_clients_set` -/
def addNewClients (s : MainLoop) (i : ℕ) : MainLoop :=
  { s with newClient := true, newClients := HashIter.add s.newClients (s.ref i) }

/-- `mosquitto_add_pending_bytes_set` -/
def addPendingBytes (s : MainLoop) (i : ℕ) : MainLoop :=
  if s.pendingFlag i then s
  else { s with
    pendingBytes := HashIter.add s.pendingBytes (s.ref i)
    pendingFlag := Function.update s.pendingFlag i true }

/-- `mosquitto_remove_pending_bytes_set` -/
def removePendingBytes (s : MainLoop) (i : ℕ) : MainLoop :=
  if s.pendingFlag i then { s with
    pendingBytes := s.pendingBytes.erase (s.ref i)
    pendingFlag := Function.update s.pendingFlag i false }
  else s

/-- The messages of a context are gone. -/
def clearMsgs (s : MainLoop) (i : ℕ) : MainLoop :=
  { s with hasMsgs := Function.update s.hasMsgs i false }

/-- The end of `mqtt3_db_message_insert`. -/
def messageInsert (s : MainLoop) (i : ℕ) : MainLoop :=
  if (s.broker.contexts.lookup i).isSome then
    { s with hasMsgs := Function.update s.hasMsgs i true }.addNewMsgs i
  else s

/-! ### Contexts -/

/-- `mqtt3_db_add_new_context`, apart from the set; the context has no messages. -/
def addContext (s : MainLoop) (c : Context) : MainLoop :=
  let i := s.broker.freePlace
  { s with
    broker := s.broker.setContext i c
    pendingFlag := Function.update s.pendingFlag i false
    hasMsgs := Function.update s.hasMsgs i false }

/-- `mqtt3_socket_accept`, or the callback of a new WebSocket. -/
def accept (s : MainLoop) (wsi : Bool) : MainLoop :=
  let i := s.broker.freePlace
  let s := s.addContext { sock := !wsi, wsi := wsi }
  if wsi then s else s.addNewClients i

/-- `mqtt3_bridge_new` -/
def bridgeNew (s : MainLoop) (id : Bytes) (bridge : Bridge) : MainLoop :=
  let i := s.broker.freePlace
  (s.addContext { isBridge := true, bridge := some bridge, id := some id }).addNewClients i

section

variable (settings : BrokerSettings) (env : RegistryEnv)

def disconnect (s : MainLoop) (i : ℕ) : MainLoop :=
  { s with broker := s.broker.contextDisconnect settings env i }

/-- `clean_sessions`, for one context. -/
def contextFree (s : MainLoop) (i : ℕ) : MainLoop :=
  if (s.broker.contexts.lookup i).isSome then
    { s.removePendingBytes i with
      broker := s.broker.contextFree settings i
      generation := Function.update s.generation i (s.generation i + 1)
      newMsgs := s.newMsgs.erase (s.ref i) }
  else s

/-! ### Writing -/

/-- The body of the second loop of `write_message_loop`, with `write_context_messages`. -/
def writeContext (w : Writing) (r : ContextRef) (s : MainLoop) : MainLoop :=
  if s.live r then
    if (s.broker.contexts.lookup r.place).any Context.invalid then s
    else
      let s := if w.emptied then s.clearMsgs r.place else s
      let s := if w.failed then s.disconnect settings env r.place else s
      let s := w.inserts.foldl messageInsert s
      if s.hasMsgs r.place then s else { s with newMsgs := s.newMsgs.erase r }
  else { s with faulted := true }

/-- The first loop of `write_message_loop`: every entry is removed after the context was looked at. -/
def greetClients (s : MainLoop) : MainLoop :=
  if s.newClient then { s with
    newClients := []
    newClient := false
    faulted := s.faulted || s.newClients.any fun r => !s.live r }
  else s

/-- A loop over a set, the use of a freed entry included. -/
def settle (l : HashIter.Loop ContextRef MainLoop) : MainLoop :=
  { l.state with faulted := l.state.faulted || l.fault }

/-- The second loop of `write_message_loop`. -/
def writeLoop (writes : List Writing) (s : MainLoop) : HashIter.Loop ContextRef MainLoop :=
  HashIter.loop newMsgs (writeContext settings env) writes s

/-- `write_message_loop` -/
def writeMessageLoop (writes : List Writing) (s : MainLoop) : MainLoop :=
  settle (writeLoop settings env writes s.greetClients)

/-! ### Reading -/

/-- A context whose connection is taken over loses its messages, and no bytes wait for it. -/
def releaseTakenOver (s : MainLoop) (i : ℕ) (packet : MqttBroker.Packet) : MainLoop :=
  match s.broker.takenOver settings i packet with
  | some j => (s.removePendingBytes j).clearMsgs j
  | none => s

/-- The end of `_mosquitto_packet_read`, for a TLS connection. -/
def updatePending (s : MainLoop) (i : ℕ) (pending : Bool) : MainLoop :=
  if (s.broker.contexts.lookup i).any fun c => c.sock && !c.wsi then
    if pending then s.addPendingBytes i else s.removePendingBytes i
  else s

/-- `_mosquitto_packet_read` of a whole packet. -/
def packetRead (i : ℕ) (c : Context) (packet : MqttBroker.Packet) (exceeds pending : Bool)
    (s : MainLoop) : MainLoop :=
  let s := { s with
    connectFromParent := s.connectFromParent || (packet.isConnect && c.bridge.isSome) }
  let s := { s.releaseTakenOver settings i packet with
    broker := (s.broker.packetRead settings env i packet exceeds).2 }
  if MqttBroker.readToEnd c packet exceeds then s.updatePending i pending else s

/-- `handle_read`, or the receive callback of a WebSocket. -/
def handleRead (i : ℕ) (receipt : Receipt) (s : MainLoop) : MainLoop :=
  match s.broker.contexts.lookup i with
  | none => s
  | some c =>
      if MqttBroker.readable c then
        match receipt with
        | .part => s
        | .error => s.disconnect settings env i
        | .packet packet exceeds pending =>
            let s' := s.packetRead settings env i c packet exceeds pending
            if (s.broker.packetRead settings env i packet exceeds).1 = 0 then s'
            else s'.disconnect settings env i
      else s

/-- The body of the loop over the contexts for which bytes wait; the packet may be a message that is
put into queues. -/
def readPending (input : Receipt × List ℕ) (r : ContextRef) (s : MainLoop) : MainLoop :=
  if s.live r then input.2.foldl messageInsert (s.handleRead settings env r.place input.1)
  else { s with faulted := true }

/-- The loop over the contexts for which bytes wait, in `loop_handle_reads_writes`. -/
def pendingLoop (inputs : List (Receipt × List ℕ)) (s : MainLoop) :
    HashIter.Loop ContextRef MainLoop :=
  HashIter.loop pendingBytes (readPending settings env) inputs s

/-- What happens while the loop handles the events of its connections. -/
inductive Io
  | accept (wsi : Bool)
  | certificate (i : ℕ) (bytesExceeded : Bytes → Bool) (cert : MqttBroker.Certificate)
  | read (i : ℕ) (receipt : Receipt)
  /-- An error of the connection, or a disconnect by the identifier of the client. -/
  | disconnect (i : ℕ)
  | wsDestroy (i : ℕ)
  | insert (i : ℕ)
  /-- The last message of a context is acknowledged. -/
  | acknowledge (i : ℕ)

def io (s : MainLoop) : Io → MainLoop
  | .accept wsi => s.accept wsi
  | .certificate i bytesExceeded cert =>
      { s with broker := s.broker.step settings env (.certificate i bytesExceeded cert) }
  | .read i receipt => s.handleRead settings env i receipt
  | .disconnect i => s.disconnect settings env i
  | .wsDestroy i => { s with broker := s.broker.step settings env (.wsDestroy i) }
  | .insert i => s.messageInsert i
  | .acknowledge i => s.clearMsgs i

/-! ### Maintenance -/

/-- What `maintenance_loop` does for a context. -/
inductive Upkeep
  | disconnect (i : ℕ)
  | maintainBridge (i : ℕ) (timedOut : Bool) (ping : Option Bool)
  | restartBridge (i : ℕ) (next : Bool) (connect : Option Bool)
  | insert (i : ℕ)

/-- A bridge that is connected anew loses its messages. -/
def upkeep (s : MainLoop) : Upkeep → MainLoop
  | .disconnect i => s.disconnect settings env i
  | .maintainBridge i timedOut ping =>
      { s with broker := s.broker.step settings env (.maintainBridge i timedOut ping) }
  | .restartBridge i next connect =>
      let restarts := (s.broker.contexts.lookup i).any fun c => c.invalid && c.bridge.isSome
      let s := if restarts && connect.isSome then s.clearMsgs i else s
      { s with broker := s.broker.step settings env (.restartBridge i next connect) }
  | .insert i => s.messageInsert i

/-- A session that was found to be closed is cleaned. -/
def cleanSession (s : MainLoop) (i : ℕ) : MainLoop :=
  if (s.broker.contexts.lookup i).any fun c => c.invalid && c.bridge.isNone then
    s.contextFree settings i
  else s

/-- A maintenance: what is done for the contexts, the sessions that are cleaned, and what the
WebSockets do in their maintenance. -/
structure Maintenance where
  upkeep : List Upkeep := []
  clean : List ℕ := []
  service : List Io := []

def maintain (s : MainLoop) (m : Maintenance) : MainLoop :=
  let s := m.upkeep.foldl (upkeep settings env) s
  let s := m.clean.foldl (cleanSession settings) s
  m.service.foldl (io settings env) s

/-! ### Tasks -/

/-- The tasks of the queue.  Revoked certificates disconnect contexts, and a message that is sent is put
into the queues of contexts. -/
inductive Task
  /-- `BridgeConfigurationRunner`, with the bridge if bridging is enabled. -/
  | configure (config : Option (Bytes × Bridge))
  | disconnect (i : ℕ)
  | insert (i : ℕ)

/-- `clearCurrentBridges`, for one place. -/
def clearBridge (s : MainLoop) (i : ℕ) : MainLoop :=
  if (s.broker.contexts.lookup i).any fun c => c.bridge.isSome then
    (s.disconnect settings env i).contextFree settings i
  else s

/-- `clearCurrentBridges` -/
def clearCurrentBridges (s : MainLoop) : MainLoop :=
  (List.range s.broker.contextCount).foldl (clearBridge settings env) s

def task (s : MainLoop) : Task → MainLoop
  | .configure config =>
      let s := s.clearCurrentBridges settings env
      match config with
      | some (id, bridge) => s.bridgeNew id bridge
      | none => s
  | .disconnect i => s.disconnect settings env i
  | .insert i => s.messageInsert i

end

/-! ### The loop -/

/-- A round of the loop, and what the registry reads from outside in it. -/
structure Round where
  env : RegistryEnv
  writes : List Writing := []
  maintenance : Option Maintenance := none
  pending : List (Receipt × List ℕ) := []
  io : List Io := []
  tasks : List Task := []

variable (settings : BrokerSettings)

/-- The round up to the tasks. -/
def roundIo (r : Round) (s : MainLoop) : MainLoop :=
  let s := s.writeMessageLoop settings r.env r.writes
  let s := r.maintenance.elim s (s.maintain settings r.env)
  let s := settle (s.pendingLoop settings r.env r.pending)
  r.io.foldl (io settings r.env) s

/-- `mosquitto_main_loop`, one round. -/
def round (s : MainLoop) (r : Round) : MainLoop :=
  r.tasks.foldl (task settings r.env) (s.roundIo settings r)

/-- The loop of a broker that starts. -/
def start (registry : BrokerRegistry) : MainLoop := { broker := { registry := registry } }

def run (s : MainLoop) (rounds : List Round) : MainLoop := rounds.foldl (round settings) s

end MainLoop

end DxlBroker
