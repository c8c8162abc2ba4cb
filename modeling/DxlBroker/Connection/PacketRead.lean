import DxlBroker.Connection.BrokerLoop

/-!
# The packet readers

One function reads the packets of plain connections and of WebSockets.  It can stop after any byte and
go on with the next one: what it has of a packet is kept with the connection.  A plain connection is
read packet by packet from the socket.  A WebSocket hands over a buffer, and the function loops until
the buffer is used up, whatever the handler of a packet says.
-/

namespace DxlBroker

open Bytes

/-- `_mosquitto_packet`: the packet that is being read.  A command of zero stands for none. -/
structure InPacket where
  command : UInt8 := 0
  haveRemaining : Bool := false
  remainingCount : ℕ := 0
  remainingMult : ℕ := 1
  remainingLength : ℕ := 0
  toProcess : ℕ := 0
  /-- The bytes read so far, up to `pos`. -/
  payload : Bytes := []
  deriving DecidableEq

/-- How far a part of the reader comes with the bytes it is given. -/
inductive Progress (α : Type)
  /-- The part is read. -/
  | next (a : α) (rest : Bytes)
  /-- There are no more bytes for now. -/
  | more (a : α)
  | fail (rc : ℕ) (a : α) (rest : Bytes)

namespace Progress

variable {α β : Type}

def bind (p : Progress α) (f : α → Bytes → Progress α) : Progress α :=
  match p with
  | .next a rest => f a rest
  | .more a => .more a
  | .fail rc a rest => .fail rc a rest

def map (f : α → β) : Progress α → Progress β
  | .next a rest => .next (f a) rest
  | .more a => .more (f a)
  | .fail rc a rest => .fail rc (f a) rest

/-- More bytes, for a part that goes on with them. -/
def append (p : Progress α) (f : α → Bytes → Progress α) (bytes : Bytes) : Progress α :=
  match p with
  | .next a rest => .next a (rest ++ bytes)
  | .more a => f a bytes
  | .fail rc a rest => .fail rc a (rest ++ bytes)

def state : Progress α → α
  | .next a _ => a
  | .more a => a
  | .fail _ a _ => a

def isNext : Progress α → Bool
  | .next _ _ => true
  | _ => false

end Progress

namespace InPacket

/-- The command byte. -/
def readCommand (p : InPacket) (buf : Bytes) : Progress InPacket :=
  if p.command ≠ 0 then .next p buf
  else
    match buf with
    | [] => .more p
    | byte :: buf => .next { p with command := byte } buf

/-- The bytes of the remaining length, at most four. -/
def readLength (p : InPacket) : Bytes → Progress InPacket
  | [] => .more p
  | byte :: buf =>
      let p := { p with remainingCount := p.remainingCount + 1 }
      if 4 < p.remainingCount then .fail errProtocol p buf
      else
        let p := { p with
          remainingLength := p.remainingLength + (byte &&& 127).toNat * p.remainingMult
          remainingMult := p.remainingMult * 128 }
        if byte &&& 128 ≠ 0 then p.readLength buf else .next p buf

/-- The remaining length is known, and the payload can be read. -/
def withRemaining (p : InPacket) : InPacket :=
  { p with haveRemaining := true, toProcess := p.remainingLength }

/-- What is left of the payload. -/
def readPayload (p : InPacket) (buf : Bytes) : Progress InPacket :=
  if p.toProcess ≤ buf.length then
    .next { p with payload := p.payload ++ buf.take p.toProcess, toProcess := 0 }
      (buf.drop p.toProcess)
  else .more { p with payload := p.payload ++ buf, toProcess := p.toProcess - buf.length }

/-- What follows the command byte, apart from what is done on the way. -/
def scanRest (p : InPacket) (buf : Bytes) : Progress InPacket :=
  (if p.haveRemaining then .next p buf
    else (p.readLength buf).bind fun p buf => .next p.withRemaining buf).bind readPayload

/-- A whole packet. -/
def scan (p : InPacket) (buf : Bytes) : Progress InPacket := (p.readCommand buf).bind scanRest

end InPacket

/-- The bytes hold a whole packet. -/
def holdsPacket (buf : Bytes) : Bool := (InPacket.scan {} buf).isNext

/-- `CONNECT` -/
def connectCommand : UInt8 := 0x10

def isConnectCommand (command : UInt8) : Bool := command &&& 0xf0 == connectCommand

/-- What the reader does to a connection. -/
structure Reader (σ : Type) where
  /-- The socket is closed, or the WebSocket marked as dead. -/
  isClosed : σ → Bool
  /-- The context is new and not that of a bridge that the broker makes. -/
  mustConnect : σ → Bool
  /-- The packet is too long, or its tenant has sent too much with it. -/
  exceeds : UInt8 → ℕ → σ → Bool × σ
  /-- `mqtt3_context_disconnect` -/
  disconnect : σ → σ
  /-- `mqtt3_packet_handle` -/
  handle : UInt8 → Bytes → σ → ℕ × σ
  isClosed_exceeds : ∀ command length s, isClosed (exceeds command length s).2 = isClosed s
  isClosed_disconnect : ∀ s, isClosed (disconnect s) = true
  /-- A packet without payload does not open a connection that is closed. -/
  isClosed_handle : ∀ command s, isClosed s = true → isClosed (handle command [] s).2 = true

/-- A connection that is read, and what has been seen of it: the number of packets begun, the packets
handed to their handlers, and the packet at which the connection was closed. -/
structure Reading (σ : Type) where
  conn : σ
  inPacket : InPacket := {}
  packets : ℕ := 0
  handled : List (UInt8 × Bytes) := []
  closedAt : Option ℕ := none

def Reading.withPacket {σ : Type} (s : Reading σ) (p : InPacket) : Reading σ :=
  { s with inPacket := p }

def Reading.withConn {σ : Type} (s : Reading σ) (conn : σ) : Reading σ := { s with conn := conn }

/-- The command byte of a packet was read. -/
def Reading.begun {σ : Type} (s : Reading σ) (byte : UInt8) : Reading σ :=
  { s with inPacket := { s.inPacket with command := byte }, packets := s.packets + 1 }

namespace Reader

variable {σ : Type} (R : Reader σ)

/-- The connection may have been closed. -/
def observe (s : Reading σ) : Reading σ :=
  if s.closedAt = none ∧ R.isClosed s.conn = true then { s with closedAt := some s.packets } else s

def close (s : Reading σ) : Reading σ := R.observe (s.withConn (R.disconnect s.conn))

/-- Clients must send CONNECT as their first command. -/
def refuses (conn : σ) (byte : UInt8) : Bool := R.mustConnect conn && !isConnectCommand byte

def readCommand (s : Reading σ) (buf : Bytes) : Progress (Reading σ) :=
  if s.inPacket.command ≠ 0 then .next s buf
  else
    match buf with
    | [] => .more s
    | byte :: buf =>
        if R.refuses s.conn byte then .fail errProtocol (s.begun byte) buf
        else .next (s.begun byte) buf

/-- The limits do not hold for CONNECT. -/
def exceedsLimits (s : Reading σ) : Bool × σ :=
  if isConnectCommand s.inPacket.command then (false, s.conn)
  else R.exceeds s.inPacket.command s.inPacket.remainingLength s.conn

/-- The limits, once the length is known: the connection is closed, and the reader goes on. -/
def checkLimits (s : Reading σ) : Reading σ :=
  let res := R.exceedsLimits s
  let read := (s.withConn res.2).withPacket s.inPacket.withRemaining
  if res.1 then R.close read else read

def readRemaining (s : Reading σ) (buf : Bytes) : Progress (Reading σ) :=
  if s.inPacket.haveRemaining then .next s buf
  else ((s.inPacket.readLength buf).map s.withPacket).bind fun s buf => .next (R.checkLimits s) buf

/-- The payload.  There is nothing to read from a socket that is closed. -/
def readPayload (ws : Bool) (s : Reading σ) (buf : Bytes) : Progress (Reading σ) :=
  if !ws && R.isClosed s.conn && s.inPacket.toProcess != 0 then .fail errErrno s buf
  else (s.inPacket.readPayload buf).map s.withPacket

/-- A whole packet. -/
def readPacket (ws : Bool) (s : Reading σ) (buf : Bytes) : Progress (Reading σ) :=
  (R.readCommand s buf).bind fun s buf => (R.readRemaining s buf).bind (R.readPayload ws)

/-- The packet is handed to its handler. -/
def handlePacket (s : Reading σ) : ℕ × Reading σ :=
  let res := R.handle s.inPacket.command s.inPacket.payload s.conn
  let handled := s.handled ++ [(s.inPacket.command, s.inPacket.payload)]
  (res.1, R.observe { s with conn := res.2, inPacket := {}, handled := handled })

/-- `_mosquitto_packet_read`: the code, the connection, and what was not read.  Every round of the loop
reads at least one byte. -/
def packetRead (ws : Bool) : ℕ → Reading σ → Bytes → ℕ × Reading σ × Bytes
  | 0, s, buf => (0, s, buf)
  | rounds + 1, s, buf =>
      match R.readPacket ws s buf with
      | .more s => (0, s, [])
      | .fail rc s rest => (rc, s, rest)
      | .next s rest =>
          let res := R.handlePacket s
          if ws && !rest.isEmpty then packetRead ws rounds res.2 rest else (res.1, res.2, rest)

/-- A connection that could not be read is disconnected. -/
def settle (rc : ℕ) (s : Reading σ) : Reading σ := if rc = 0 then s else R.close s

/-- The receive callback of a WebSocket. -/
def receive (s : Reading σ) (buf : Bytes) : Reading σ :=
  if R.isClosed s.conn then s
  else
    let res := R.packetRead true (buf.length + 1) s buf
    R.settle res.1 res.2.1

/-- `handle_read`, with the bytes that the socket has. -/
def handleRead (s : Reading σ) (buf : Bytes) : Reading σ × Bytes :=
  let res := R.packetRead false 1 s buf
  (R.settle res.1 res.2.1, res.2.2)

/-- The loop calls `handle_read` as long as the socket is open and has bytes. -/
def readSocket : ℕ → Reading σ → Bytes → Reading σ
  | 0, s, _ => s
  | calls + 1, s, buf =>
      if buf = [] ∨ R.isClosed s.conn = true then s
      else
        let res := R.handleRead s buf
        readSocket calls res.1 res.2

end Reader

/-! ### Going on with more bytes -/

namespace InPacket

variable {p p' : InPacket} {a b rest : Bytes}

theorem readLength_append : p.readLength (a ++ b) = (p.readLength a).append readLength b := by
  induction a generalizing p with
  | nil => rfl
  | cons byte a ih =>
    simp only [List.cons_append, readLength]
    split
    · rfl
    · split
      · exact ih
      · rfl

theorem readPayload_append : p.readPayload (a ++ b) = (p.readPayload a).append readPayload b := by
  unfold readPayload
  by_cases ha : p.toProcess ≤ a.length
  · have hab : p.toProcess ≤ (a ++ b).length := by
      rw [List.length_append]
      omega
    rw [if_pos hab, if_pos ha, List.take_append_of_le_length ha, List.drop_append_of_le_length ha]
    rfl
  · have hlength : a.length ≤ p.toProcess := by omega
    rw [if_neg ha]
    simp only [Progress.append, List.length_append, Nat.sub_le_iff_le_add']
    split_ifs
    · rw [List.take_append, List.drop_append, List.take_of_length_le hlength,
        List.drop_of_length_le hlength, List.append_assoc]
      rfl
    · rw [List.append_assoc, Nat.sub_add_eq]

/-- What the bytes of the length do not change. -/
theorem readLength_keeps :
    (∀ p', p.readLength a = .more p' → p'.command = p.command ∧
      p'.haveRemaining = p.haveRemaining ∧ p'.payload = p.payload) ∧
    (∀ p' rest, p.readLength a = .next p' rest → p'.command = p.command ∧
      p'.haveRemaining = p.haveRemaining ∧ p'.payload = p.payload ∧ rest.length < a.length) ∧
    ∀ rc p' rest, p.readLength a = .fail rc p' rest → rc = errProtocol := by
  induction a generalizing p with
  | nil => exact ⟨fun p' h => by cases h; exact ⟨rfl, rfl, rfl⟩, fun _ _ h => (nomatch h),
      fun _ _ _ h => (nomatch h)⟩
  | cons byte a ih =>
    simp only [readLength]
    split
    · refine ⟨fun _ h => (nomatch h), fun _ _ h => (nomatch h), fun rc p' rest h => ?_⟩
      cases h
      rfl
    · split
      · obtain ⟨hmore, hnext, hfail⟩ := @ih { p with
          remainingCount := p.remainingCount + 1
          remainingLength := p.remainingLength + (byte &&& 127).toNat * p.remainingMult
          remainingMult := p.remainingMult * 128 }
        refine ⟨hmore, fun p' rest h => ?_, hfail⟩
        obtain ⟨hcommand, hremaining, hpayload, hless⟩ := hnext p' rest h
        exact ⟨hcommand, hremaining, hpayload, hless.trans (Nat.lt_succ_self _)⟩
      · refine ⟨fun _ h => (nomatch h), fun p' rest h => ?_, fun _ _ _ h => (nomatch h)⟩
        cases h
        exact ⟨rfl, rfl, rfl, Nat.lt_succ_self _⟩

end InPacket

namespace Reader

variable {σ : Type} {R : Reader σ} {ws : Bool} {s : Reading σ} {a b : Bytes}

@[simp] theorem observe_conn : (R.observe s).conn = s.conn := by
  unfold observe
  split_ifs <;> rfl

@[simp] theorem observe_inPacket : (R.observe s).inPacket = s.inPacket := by
  unfold observe
  split_ifs <;> rfl

@[simp] theorem observe_packets : (R.observe s).packets = s.packets := by
  unfold observe
  split_ifs <;> rfl

@[simp] theorem observe_handled : (R.observe s).handled = s.handled := by
  unfold observe
  split_ifs <;> rfl

@[simp] theorem close_inPacket : (R.close s).inPacket = s.inPacket := observe_inPacket

theorem checkLimits_inPacket : (R.checkLimits s).inPacket = s.inPacket.withRemaining := by
  unfold checkLimits
  simp only
  split
  · rw [close_inPacket]
    rfl
  · rfl

/-- What is read of a packet belongs to its command. -/
theorem readPayload_command {s' : Reading σ} (h : R.readPayload ws s a = .more s') :
    s'.inPacket.command = s.inPacket.command := by
  unfold Reader.readPayload InPacket.readPayload at h
  split at h
  · cases h
  · split at h
    · cases h
    · cases h
      rfl

theorem readRest_command {s' : Reading σ}
    (h : (R.readRemaining s a).bind (R.readPayload ws) = .more s') :
    s'.inPacket.command = s.inPacket.command := by
  unfold readRemaining at h
  split at h
  · exact readPayload_command h
  · obtain ⟨hmore, hnext, -⟩ := @InPacket.readLength_keeps s.inPacket a
    cases hlength : s.inPacket.readLength a with
    | next p rest =>
      rw [hlength] at h
      have hsame := readPayload_command h
      rw [checkLimits_inPacket] at hsame
      exact hsame.trans (hnext p rest hlength).1
    | more p =>
      rw [hlength] at h
      cases h
      exact (hmore p hlength).1
    | fail rc p rest =>
      rw [hlength] at h
      cases h

/-- The payload, cut in two. -/
theorem readPayload_append (hremaining : s.inPacket.haveRemaining = true)
    (hcommand : ∀ s', R.readPayload ws s a = .more s' → s.inPacket.command ≠ 0) :
    R.readPayload ws s (a ++ b) = (R.readPayload ws s a).append (R.readPacket ws) b := by
  unfold Reader.readPayload at hcommand ⊢
  split
  · rfl
  · rename_i hopen
    rw [if_neg hopen] at hcommand
    rw [InPacket.readPayload_append]
    unfold InPacket.readPayload at hcommand ⊢
    split
    · rfl
    · rename_i hlength
      rw [if_neg hlength] at hcommand
      have hne : s.inPacket.command ≠ 0 := hcommand _ rfl
      have hprocess : s.inPacket.toProcess ≠ 0 := by
        intro hzero
        rw [hzero] at hlength
        exact hlength (Nat.zero_le _)
      have hopen' : (!ws && R.isClosed s.conn) = false := by
        cases hclosed : (!ws && R.isClosed s.conn) with
        | false => rfl
        | true => simp [hclosed, hprocess] at hopen
      simp only [Progress.append, Progress.map, readPacket, Reader.readCommand, readRemaining,
        Reader.readPayload, Reading.withPacket, Progress.bind, hne, hremaining, hopen', ne_eq,
        not_false_eq_true, if_true, Bool.false_and, Bool.false_eq_true, if_false]
      rfl

/-- What follows the command byte, cut in two. -/
theorem readRest_append
    (hcommand : ∀ s', (R.readRemaining s a).bind (R.readPayload ws) = .more s' →
      s.inPacket.command ≠ 0) :
    (R.readRemaining s (a ++ b)).bind (R.readPayload ws) =
      ((R.readRemaining s a).bind (R.readPayload ws)).append (R.readPacket ws) b := by
  unfold readRemaining at hcommand ⊢
  split
  · rename_i hremaining
    rw [if_pos hremaining] at hcommand
    exact readPayload_append hremaining hcommand
  · rename_i hremaining
    rw [if_neg hremaining] at hcommand
    rw [InPacket.readLength_append]
    obtain ⟨hmore, hnext, -⟩ := @InPacket.readLength_keeps s.inPacket a
    cases hlength : s.inPacket.readLength a with
    | next p rest =>
      rw [hlength] at hcommand
      have hkeeps := hnext p rest hlength
      refine readPayload_append ?_ fun s' h => ?_
      · rw [checkLimits_inPacket]
        rfl
      · rw [checkLimits_inPacket]
        exact hkeeps.1 ▸ hcommand s' h
    | more p =>
      rw [hlength] at hcommand
      obtain ⟨hsame, hnone, -⟩ := hmore p hlength
      have hne : p.command ≠ 0 := hsame ▸ hcommand _ rfl
      rw [Bool.not_eq_true, ← hnone] at hremaining
      simp only [Progress.append, Progress.map, Progress.bind, readPacket, Reader.readCommand,
        readRemaining, Reading.withPacket, hne, hremaining, ne_eq, not_false_eq_true, if_true,
        Bool.false_eq_true, if_false]
    | fail rc p rest => rfl

theorem readPacket_of_command (hne : s.inPacket.command ≠ 0) (buf : Bytes) :
    R.readPacket ws s buf = (R.readRemaining s buf).bind (R.readPayload ws) := by
  unfold readPacket Reader.readCommand
  rw [if_pos hne]
  rfl

theorem readPacket_nil (hzero : s.inPacket.command = 0) : R.readPacket ws s [] = .more s := by
  unfold readPacket Reader.readCommand
  rw [if_neg (not_not.mpr hzero)]
  rfl

theorem readPacket_cons (hzero : s.inPacket.command = 0) (byte : UInt8) (buf : Bytes) :
    R.readPacket ws s (byte :: buf) =
      if R.refuses s.conn byte then .fail errProtocol (s.begun byte) buf
      else (R.readRemaining (s.begun byte) buf).bind (R.readPayload ws) := by
  unfold readPacket Reader.readCommand
  rw [if_neg (not_not.mpr hzero)]
  simp only
  split <;> rfl

/-- A packet, cut in two.  A command byte of zero would be forgotten. -/
theorem readPacket_append
    (hcommand : ∀ s', R.readPacket ws s a = .more s' → a = [] ∨ s'.inPacket.command ≠ 0) :
    R.readPacket ws s (a ++ b) = (R.readPacket ws s a).append (R.readPacket ws) b := by
  by_cases hne : s.inPacket.command ≠ 0
  · rw [readPacket_of_command hne, readPacket_of_command hne]
    exact readRest_append fun _ _ => hne
  · have hzero : s.inPacket.command = 0 := not_not.mp hne
    cases a with
    | nil =>
      rw [readPacket_nil hzero]
      rfl
    | cons byte a =>
      rw [readPacket_cons hzero] at hcommand
      rw [List.cons_append, readPacket_cons hzero, readPacket_cons hzero]
      split
      · rfl
      · rename_i hallowed
        rw [if_neg hallowed] at hcommand
        refine readRest_append fun s' h => ?_
        rw [← readRest_command h]
        exact (hcommand s' h).resolve_left (List.cons_ne_nil _ _)

end Reader

end DxlBroker
