import DxlBroker.Connection.PacketRead

/-!
# The packet writer

A packet is allocated with its command and the length of what follows, in base 128, and then filled.
The packets of a connection wait in a list.  A plain connection is written at once, and goes on when
its socket takes more; a socket may take a packet in parts.  A WebSocket is written from its callback,
and takes a packet as a whole.
-/

namespace DxlBroker

open Bytes

/-- `MOSQ_ERR_NO_CONN` -/
def errNoConn : ℕ := 4

/-- `MOSQ_ERR_CONN_LOST` -/
def errConnLost : ℕ := 7

/-- `MOSQ_ERR_PAYLOAD_SIZE` -/
def errPayloadSize : ℕ := 9

/-! ### Building a packet -/

/-- The loop of `_mosquitto_packet_alloc`, with the number of bytes there is room for: the remaining
length in base 128, with the top bit of a digit set if there are more to encode. -/
def remainingBytes : ℕ → ℕ → Bytes
  | 0, _ => []
  | room + 1, n =>
      if 0 < n / 128 then (UInt8.ofNat (n % 128) ||| 0x80) :: remainingBytes room (n / 128)
      else [UInt8.ofNat (n % 128)]

/-- So many bytes are enough for a length exactly if it has so many digits. -/
theorem length_remainingBytes_le {room k n : ℕ} (hk : k < room) :
    (remainingBytes room n).length ≤ k + 1 ↔ n < 128 ^ (k + 1) ∨ room ≤ k + 1 := by
  induction room generalizing k n with
  | zero => exact absurd hk (Nat.not_lt_zero k)
  | succ room ih =>
    unfold remainingBytes
    have hdiv : n / 128 = 0 ↔ n < 128 := Nat.div_eq_zero_iff_lt (by norm_num)
    split
    · rename_i hpos
      rw [List.length_cons, Nat.add_le_add_iff_right]
      cases k with
      | zero =>
        cases room with
        | zero => simp [remainingBytes]
        | succ room =>
          have hne : (remainingBytes (room + 1) (n / 128)).length ≠ 0 := by
            unfold remainingBytes
            split <;> simp
          omega
      | succ k =>
        rw [ih (by omega), pow_succ 128 (k + 1), Nat.div_lt_iff_lt_mul (by norm_num)]
        omega
    · rename_i hpos
      have hn : n < 128 ^ (k + 1) :=
        (hdiv.mp (by omega)).trans_le (Nat.le_self_pow (Nat.succ_ne_zero k) 128)
      simp [hn]

/-- Four bytes are enough for the lengths below `2 ^ 28`. -/
theorem length_remainingBytes_five {n : ℕ} : (remainingBytes 5 n).length ≠ 5 ↔ n < 2 ^ 28 := by
  have hfour := @length_remainingBytes_le 5 3 n (by norm_num)
  have hfive : (remainingBytes 5 n).length ≤ 5 :=
    (@length_remainingBytes_le 5 4 n (by norm_num)).mpr (.inr le_rfl)
  have hpow : (128 : ℕ) ^ (3 + 1) = 2 ^ 28 := by norm_num
  rw [hpow] at hfour
  omega

/-- `_mosquitto_packet`, while it is written: what was written after the header, up to `pos`, and what
the memory holds behind it. -/
structure OutPacket where
  command : UInt8
  remainingLength : ℕ
  body : Bytes := []
  unset : Bytes
  length_body : body.length + unset.length = remainingLength
  remainingLength_lt : remainingLength < 2 ^ 28

/-- What can go wrong when a packet is built: a code is returned, or an assertion fails. -/
inductive SendFault
  | code (rc : ℕ)
  | assertion
  deriving DecidableEq

namespace OutPacket

/-- `_mosquitto_packet_alloc`; `memory` is what the new memory holds. -/
def alloc (memory : ℕ → UInt8) (command : UInt8) (remainingLength : ℕ) :
    Except SendFault OutPacket :=
  if h : (remainingBytes 5 remainingLength).length = 5 then .error (.code errPayloadSize)
  else .ok {
    command := command
    remainingLength := remainingLength
    unset := (List.range remainingLength).map memory
    length_body := by rw [List.length_map, List.length_range, List.length_nil, Nat.zero_add]
    remainingLength_lt := length_remainingBytes_five.mp h }

/-- The command and the remaining length. -/
def header (p : OutPacket) : Bytes := p.command :: remainingBytes 5 p.remainingLength

/-- The packet as it is sent. -/
def payload (p : OutPacket) : Bytes := p.header ++ (p.body ++ p.unset)

/-- `_mosquitto_write_bytes` -/
def writeBytes (p : OutPacket) (bytes : Bytes) : Except SendFault OutPacket :=
  if h : bytes.length ≤ p.unset.length then .ok {
    p with
    body := p.body ++ bytes
    unset := p.unset.drop bytes.length
    length_body := by
      have hp := p.length_body
      rw [List.length_append, List.length_drop]
      omega }
  else .error .assertion

/-- `_mosquitto_write_byte` -/
def writeByte (p : OutPacket) (byte : UInt8) : Except SendFault OutPacket := p.writeBytes [byte]

/-- `_mosquitto_write_uint16` -/
def writeUint16 (p : OutPacket) (word : UInt16) : Except SendFault OutPacket := do
  let p ← p.writeByte (word >>> 8).toUInt8
  p.writeByte word.toUInt8

/-- `_mosquitto_write_string` -/
def writeString (p : OutPacket) (str : Bytes) (length : UInt16) : Except SendFault OutPacket := do
  let p ← p.writeUint16 length
  p.writeBytes (str.take length.toNat)

end OutPacket

/-! ### Reading what was built -/

/-- A digit that is followed by others. -/
theorem digit_of_more : ∀ d < 128, (UInt8.ofNat d ||| 0x80) &&& 128 ≠ 0 ∧
    ((UInt8.ofNat d ||| 0x80) &&& 127).toNat = d := by decide +kernel

/-- The last digit. -/
theorem digit_of_last : ∀ d < 128, UInt8.ofNat d &&& 128 = 0 ∧ (UInt8.ofNat d &&& 127).toNat = d := by
  decide +kernel

/-- The reader gets back the length. -/
theorem InPacket.readLength_remainingBytes {room n : ℕ} {p : InPacket} {rest : Bytes}
    (hn : n < 128 ^ (room + 1))
    (hcount : p.remainingCount + (remainingBytes (room + 1) n).length ≤ 4) :
    p.readLength (remainingBytes (room + 1) n ++ rest) = .next { p with
      remainingCount := p.remainingCount + (remainingBytes (room + 1) n).length
      remainingMult := p.remainingMult * 128 ^ (remainingBytes (room + 1) n).length
      remainingLength := p.remainingLength + n * p.remainingMult } rest := by
  induction room generalizing n p with
  | zero =>
    have hdigit : n / 128 = 0 := Nat.div_eq_of_lt (by simpa using hn)
    have hmod : n % 128 = n := Nat.mod_eq_of_lt (by simpa using hn)
    obtain ⟨hlast, hvalue⟩ := digit_of_last n (by simpa using hn)
    simp only [remainingBytes, hdigit, lt_irrefl, if_false, List.length_singleton] at hcount ⊢
    rw [List.cons_append, List.nil_append, readLength]
    simp only [hmod, hlast, hvalue, ne_eq, not_true_eq_false, if_false, pow_one]
    rw [if_neg (by omega)]
  | succ room ih =>
    unfold remainingBytes at hcount ⊢
    split at hcount <;> rename_i hpos
    · obtain ⟨hmore, hvalue⟩ := digit_of_more (n % 128) (Nat.mod_lt n (by norm_num))
      have hdiv : n / 128 < 128 ^ (room + 1) := by
        rw [Nat.div_lt_iff_lt_mul (by norm_num), ← pow_succ]
        exact hn
      rw [List.length_cons] at hcount
      rw [if_pos hpos, List.cons_append, readLength]
      simp only [hvalue, List.length_cons]
      rw [if_neg (by omega), if_pos hmore, ih hdiv (by show p.remainingCount + 1 + _ ≤ 4; omega)]
      congr 2
      · simp only
        omega
      · rw [pow_succ]
        ring
      · have := Nat.div_add_mod n 128
        calc p.remainingLength + n % 128 * p.remainingMult + n / 128 * (p.remainingMult * 128)
            = p.remainingLength + (128 * (n / 128) + n % 128) * p.remainingMult := by ring
          _ = p.remainingLength + n * p.remainingMult := by rw [this]
    · have hdigit : n / 128 = 0 := Nat.eq_zero_of_not_pos hpos
      have hlt : n < 128 := (Nat.div_eq_zero_iff_lt (by norm_num)).mp hdigit
      obtain ⟨hlast, hvalue⟩ := digit_of_last n hlt
      rw [List.length_singleton] at hcount
      rw [if_neg hpos, List.cons_append, List.nil_append, readLength]
      simp only [Nat.mod_eq_of_lt hlt, hlast, hvalue, ne_eq, not_true_eq_false, if_false, pow_one,
        List.length_singleton]
      rw [if_neg (by omega)]

/-- The reader gets back the packet, and leaves what follows it. -/
theorem OutPacket.scan_payload (p : OutPacket) (rest : Bytes) :
    ∃ q, InPacket.scan {} (p.payload ++ rest) = .next q rest ∧ q.command = p.command ∧
      q.payload = p.body ++ p.unset ∧ q.remainingLength = p.remainingLength := by
  have hfour : (remainingBytes 5 p.remainingLength).length ≤ 4 := by
    have hne := length_remainingBytes_five.mpr p.remainingLength_lt
    have hfive := (@length_remainingBytes_le 5 4 p.remainingLength (by norm_num)).mpr (.inr le_rfl)
    omega
  have hlt : p.remainingLength < 128 ^ (4 + 1) := p.remainingLength_lt.trans (by norm_num)
  have hbody : (p.body ++ p.unset).length = p.remainingLength := by
    rw [List.length_append, p.length_body]
  have hread : ∀ q : InPacket, q.toProcess = p.remainingLength → q.payload = [] →
      q.readPayload (p.body ++ p.unset ++ rest) =
        .next { q with payload := p.body ++ p.unset, toProcess := 0 } rest := by
    intro q hq hnil
    have hle : p.remainingLength ≤ (p.body ++ p.unset ++ rest).length := by
      rw [List.length_append, hbody]
      exact Nat.le_add_right _ _
    unfold InPacket.readPayload
    rw [hq, if_pos hle, hnil, ← hbody, List.take_left, List.drop_left, List.nil_append]
  unfold OutPacket.payload OutPacket.header InPacket.scan InPacket.readCommand
  rw [if_neg (by simp), List.cons_append, List.cons_append]
  simp only [Progress.bind, InPacket.scanRest, Bool.false_eq_true, if_false, List.append_assoc]
  rw [InPacket.readLength_remainingBytes hlt (by simpa using hfour), ← List.append_assoc]
  simp only
  rw [hread _ (by simp [InPacket.withRemaining]) rfl]
  exact ⟨_, rfl, rfl, rfl, by simp [InPacket.withRemaining]⟩

/-! ### The packets of a connection -/

/-- A packet in the list, of which a part may be written. -/
structure QueuedPacket where
  payload : Bytes
  pos : ℕ
  toProcess : ℕ
  pos_add_toProcess : pos + toProcess = payload.length

namespace QueuedPacket

/-- A packet of which nothing is written. -/
def ofPayload (payload : Bytes) : QueuedPacket := ⟨payload, 0, payload.length, Nat.zero_add _⟩

/-- What is still to be written. -/
def unwritten (p : QueuedPacket) : Bytes := p.payload.drop p.pos

/-- So many bytes more are written, at most those that there are. -/
def advance (p : QueuedPacket) (count : ℕ) : QueuedPacket where
  payload := p.payload
  pos := p.pos + min count p.toProcess
  toProcess := p.toProcess - min count p.toProcess
  pos_add_toProcess := by
    have := p.pos_add_toProcess
    omega

@[simp] theorem unwritten_ofPayload (payload : Bytes) : (ofPayload payload).unwritten = payload := rfl

theorem length_unwritten (p : QueuedPacket) : p.unwritten.length = p.toProcess := by
  have := p.pos_add_toProcess
  rw [unwritten, List.length_drop]
  omega

theorem unwritten_eq_nil {p : QueuedPacket} : p.unwritten = [] ↔ p.toProcess = 0 := by
  rw [← List.length_eq_zero_iff, length_unwritten]

/-- What is written and what is left make up the packet. -/
theorem take_append_advance (p : QueuedPacket) (count : ℕ) :
    p.unwritten.take count ++ (p.advance count).unwritten = p.unwritten := by
  unfold unwritten advance
  rcases le_total count p.toProcess with h | h
  · simp only [min_eq_left h, ← List.drop_drop, List.take_append_drop]
  · have hlength := p.length_unwritten
    unfold unwritten at hlength
    simp only [min_eq_right h, ← List.drop_drop]
    rw [List.take_of_length_le (hlength.le.trans h), List.drop_of_length_le hlength.le,
      List.append_nil]

end QueuedPacket

/-- The errors that the writer tells apart; `EWOULDBLOCK` is `EAGAIN`. -/
inductive Errno
  | again
  | connReset
  | other
  deriving DecidableEq

/-- What a call of `_mosquitto_net_write` or `mosquitto_ws_write` returns. -/
structure NetWrite where
  length : ℤ
  errno : Errno := .other

/-- The writing side of a context. -/
structure Outgoing where
  /-- The socket is open. -/
  sock : Bool
  /-- There is a WebSocket. -/
  wsi : Bool := false
  currentOutPacket : Option QueuedPacket := none
  outPacket : List QueuedPacket := []
  packetCount : ℕ := 0
  /-- The loop waits until the socket can be written. -/
  epollOut : Bool := false
  /-- The bytes that the socket took. -/
  sent : Bytes := []

/-- What the writing of one packet comes to: the packet, the bytes that were taken, what the socket
answers later, and the code to return with if the packet is not written to its end. -/
structure Written where
  packet : QueuedPacket
  sent : Bytes
  answers : List NetWrite
  rc : Option ℕ

/-- The bytes that are taken with an answer; those of a WebSocket are kept by its library. -/
def taken (ws : Bool) (w : NetWrite) (p : QueuedPacket) : ℕ :=
  if 0 < w.length then if ws then p.toProcess else w.length.toNat
  else if ws && w.length = 0 then p.toProcess else 0

/-- The code to return with when nothing was written. -/
def refusal (ws : Bool) (w : NetWrite) : ℕ :=
  if ws then if w.length = 0 then 0 else errErrno
  else
    match w.errno with
    | .again => 0
    | .connReset => errConnLost
    | .other => errErrno

/-- The inner loop of `_mosquitto_packet_write`.  A socket that has no more answers takes nothing
for now. -/
def writePacket (ws : Bool) : List NetWrite → QueuedPacket → Written
  | [], p => ⟨p, [], [], if p.toProcess = 0 then none else some 0⟩
  | w :: answers, p =>
      if p.toProcess = 0 then ⟨p, [], w :: answers, none⟩
      else
        let sent := p.unwritten.take (taken ws w p)
        if 0 < w.length then
          let rest := writePacket ws answers (p.advance (taken ws w p))
          { rest with sent := sent ++ rest.sent }
        else ⟨p.advance (taken ws w p), sent, answers, some (refusal ws w)⟩

namespace Outgoing

/-- `IS_CONTEXT_INVALID` -/
def invalid (s : Outgoing) : Bool := !s.sock && !s.wsi

/-- `mosquitto_update_context`: the loop waits for the socket if there is a current packet. -/
def updateContext (s : Outgoing) : Outgoing := { s with epollOut := s.currentOutPacket.isSome }

/-- The current packet is not written to its end.  A plain connection that has to wait tells the
loop. -/
def stopped (s : Outgoing) (res : Written) (out : List QueuedPacket) (rc : ℕ) : Outgoing :=
  let s := { s with
    currentOutPacket := some res.packet, outPacket := out, sent := s.sent ++ res.sent }
  if !s.wsi && rc = 0 then s.updateContext else s

/-- The current packet is written and freed. -/
def finished (s : Outgoing) (res : Written) : Outgoing :=
  { s with
    currentOutPacket := none, outPacket := [], packetCount := s.packetCount - 1
    sent := s.sent ++ res.sent }

/-- The outer loop of `_mosquitto_packet_write`, with the current packet and the list. -/
def writePackets (s : Outgoing) : QueuedPacket → List QueuedPacket → List NetWrite → ℕ × Outgoing
  | p, out, answers =>
      let res := writePacket s.wsi answers p
      match res.rc with
      | some rc => (rc, s.stopped res out rc)
      | none =>
          match out with
          | [] => (0, s.finished res)
          | p :: out => (s.finished res).writePackets p out res.answers

/-- `_mosquitto_packet_write` -/
def packetWrite (s : Outgoing) (answers : List NetWrite) : ℕ × Outgoing :=
  if s.invalid then (errNoConn, s)
  else
    match s.currentOutPacket, s.outPacket with
    | some p, out => s.writePackets p out answers
    | none, p :: out => s.writePackets p out answers
    | none, [] => (0, s)

/-- `_mosquitto_packet_queue`: a WebSocket is written from its callback. -/
def packetQueue (s : Outgoing) (payload : Bytes) (answers : List NetWrite) : ℕ × Outgoing :=
  let s := { s with
    outPacket := s.outPacket ++ [.ofPayload payload], packetCount := s.packetCount + 1 }
  if s.wsi then (0, s) else s.packetWrite answers

/-- `handle_write`, of a socket that is open: a connection that cannot be written is disconnected. -/
def handleWrite (s : Outgoing) (answers : List NetWrite) : Outgoing :=
  if s.sock then
    let res := s.packetWrite answers
    let s := if res.1 = 0 then res.2 else { res.2 with sock := false }
    s.updateContext
  else s

/-- `mqtt3_bridge_packet_cleanup`, of the packets that wait. -/
def packetCleanup (s : Outgoing) : Outgoing :=
  { s with currentOutPacket := none, outPacket := [], packetCount := 0 }

/-- `mqtt3_bridge_connect`, of the writing side: what waits is forgotten, and nothing was sent over
the new socket. -/
def reconnect (s : Outgoing) (sock : Bool) : Outgoing :=
  { s.packetCleanup with sock := sock, epollOut := false, sent := [] }

/-- What is done to the writing side. -/
inductive Step
  | queue (payload : Bytes) (answers : List NetWrite)
  /-- The loop finds that the socket can be written, or the callback of a WebSocket comes. -/
  | write (answers : List NetWrite)
  | close
  | reconnect (sock : Bool)

def step (s : Outgoing) : Step → Outgoing
  | .queue payload answers => (s.packetQueue payload answers).2
  | .write answers => if s.wsi then (s.packetWrite answers).2 else s.handleWrite answers
  | .close => { s with sock := false }
  | .reconnect sock => s.reconnect sock

def run (s : Outgoing) (steps : List Step) : Outgoing := steps.foldl step s

/-- The packets that were queued for the present connection. -/
def queue (packets : List Bytes) : Step → List Bytes
  | .queue payload _ => packets ++ [payload]
  | .reconnect _ => []
  | _ => packets

def queued (steps : List Step) : List Bytes := steps.foldl queue []

/-! ### What is sent -/

/-- The packets that wait, with the current one. -/
def pending (s : Outgoing) : List QueuedPacket := s.currentOutPacket.toList ++ s.outPacket

/-- The bytes that wait. -/
def unwritten (s : Outgoing) : Bytes := s.pending.flatMap QueuedPacket.unwritten

end Outgoing

/-- What is taken of a packet and what is left make up what there was; a packet that is done has
nothing left. -/
theorem writePacket_spec {ws : Bool} {answers : List NetWrite} {p : QueuedPacket} :
    (writePacket ws answers p).sent ++ (writePacket ws answers p).packet.unwritten = p.unwritten ∧
      ((writePacket ws answers p).rc = none →
        (writePacket ws answers p).packet.unwritten = []) := by
  induction answers generalizing p with
  | nil =>
    refine ⟨List.nil_append _, fun h => ?_⟩
    simp only [writePacket, ite_eq_left_iff, reduceCtorEq, imp_false, not_not] at h
    exact QueuedPacket.unwritten_eq_nil.mpr h
  | cons w answers ih =>
    unfold writePacket
    split
    · rename_i hzero
      exact ⟨List.nil_append _, fun _ => QueuedPacket.unwritten_eq_nil.mpr hzero⟩
    · simp only
      split
      · obtain ⟨hsent, hdone⟩ := @ih (p.advance (taken ws w p))
        refine ⟨?_, hdone⟩
        simp only [List.append_assoc]
        rw [hsent, QueuedPacket.take_append_advance]
      · exact ⟨QueuedPacket.take_append_advance _ _, fun h => nomatch h⟩

namespace Outgoing

variable {s : Outgoing} {answers : List NetWrite}

/-- What a write comes to, when so many packets waited: nothing is lost, doubled or sent out of turn,
the packets that wait are counted, and after a success the loop waits for the socket if something is
left. -/
structure Wrote (s : Outgoing) (packets : List QueuedPacket) (rc : ℕ) (s' : Outgoing) : Prop where
  grows : s.sent <+: s'.sent
  sent : s'.sent ++ s'.unwritten = s.sent ++ packets.flatMap QueuedPacket.unwritten
  count : packets.length ≤ s.packetCount →
    s'.packetCount + packets.length = s.packetCount + s'.pending.length
  sock : s'.sock = s.sock
  wsi : s'.wsi = s.wsi
  waits : s.wsi = false → rc = 0 → s'.pending ≠ [] →
    s'.currentOutPacket.isSome = true ∧ s'.epollOut = true

/-- The writing ends with a packet that is not done. -/
theorem wrote_stopped {p : QueuedPacket} {out : List QueuedPacket} {rc : ℕ}
    (hsent : (writePacket s.wsi answers p).sent ++
      (writePacket s.wsi answers p).packet.unwritten = p.unwritten) :
    Wrote s (p :: out) rc (s.stopped (writePacket s.wsi answers p) out rc) := by
  unfold stopped
  generalize writePacket s.wsi answers p = res at hsent ⊢
  simp only
  split
  · refine ⟨List.prefix_append _ _, ?_, fun _ => ?_, rfl, rfl, fun _ _ _ => ⟨rfl, rfl⟩⟩
    · simp [unwritten, pending, updateContext, ← hsent]
    · simp [pending, updateContext]
  · rename_i hno
    refine ⟨List.prefix_append _ _, ?_, fun _ => ?_, rfl, rfl, fun hws hrc _ => absurd ?_ hno⟩
    · simp [unwritten, pending, ← hsent]
    · simp [pending]
    · simp [hws, hrc]

theorem writePackets_wrote {p : QueuedPacket} {out : List QueuedPacket} :
    Wrote s (p :: out) (s.writePackets p out answers).1 (s.writePackets p out answers).2 := by
  induction out generalizing s p answers with
  | nil =>
    obtain ⟨hsent, hdone⟩ := @writePacket_spec s.wsi answers p
    unfold writePackets
    cases hrc : (writePacket s.wsi answers p).rc with
    | some rc =>
      simp only [hrc]
      exact wrote_stopped hsent
    | none =>
      simp only [hrc]
      rw [hdone hrc, List.append_nil] at hsent
      refine ⟨List.prefix_append _ _, ?_, fun h => ?_, rfl, rfl, fun _ _ h => absurd rfl h⟩
      · simp [unwritten, pending, finished, hsent]
      · simp only [List.length_singleton] at h
        simp only [finished, pending, Option.toList_none, List.nil_append, List.length_nil,
          List.length_singleton]
        omega
  | cons next out ih =>
    obtain ⟨hsent, hdone⟩ := @writePacket_spec s.wsi answers p
    unfold writePackets
    cases hrc : (writePacket s.wsi answers p).rc with
    | some rc =>
      simp only [hrc]
      exact wrote_stopped hsent
    | none =>
      simp only [hrc]
      rw [hdone hrc, List.append_nil] at hsent
      have hrest := @ih (s.finished (writePacket s.wsi answers p))
        (writePacket s.wsi answers p).answers next
      refine ⟨(List.prefix_append _ _).trans hrest.grows, ?_, fun h => ?_, hrest.sock, hrest.wsi,
        hrest.waits⟩
      · rw [hrest.sent, List.flatMap_cons, List.flatMap_cons, ← hsent]
        simp only [finished, List.flatMap_cons, List.append_assoc]
      · have hcount := hrest.count
        simp only [finished, List.length_cons] at h hcount ⊢
        omega

/-- A write of all packets that wait. -/
theorem packetWrite_wrote (hvalid : s.invalid = false) :
    Wrote s s.pending (s.packetWrite answers).1 (s.packetWrite answers).2 := by
  unfold packetWrite pending
  rw [if_neg (by rw [hvalid]; exact Bool.false_ne_true)]
  split
  · rename_i p hp
    rw [hp]
    exact writePackets_wrote
  · rename_i p out hp hout
    rw [hp, hout]
    exact writePackets_wrote
  · rename_i hp hout
    rw [hp, hout]
    refine ⟨List.prefix_rfl, ?_, fun _ => ?_, rfl, rfl, fun _ _ h => absurd ?_ h⟩
    · simp [unwritten, pending, hp, hout]
    · simp [pending, hp, hout]
    · simp [pending, hp, hout]

/-- The invariant of the writing side, with the packets that were queued. -/
structure Accounts (s : Outgoing) (packets : List Bytes) : Prop where
  sent : s.sent ++ s.unwritten = packets.flatten
  count : s.packetCount = s.pending.length

theorem accounts_packetWrite {packets : List Bytes} (h : s.Accounts packets) :
    (s.packetWrite answers).2.Accounts packets := by
  cases hvalid : s.invalid with
  | true =>
    unfold packetWrite
    rw [if_pos hvalid]
    exact h
  | false =>
    have hwrote := @packetWrite_wrote s answers hvalid
    have hcount := hwrote.count h.count.ge
    rw [h.count] at hcount
    exact ⟨hwrote.sent.trans h.sent, by omega⟩

/-- A packet is put behind those that wait. -/
theorem accounts_push {packets : List Bytes} {payload : Bytes} (h : s.Accounts packets) :
    Accounts { s with
      outPacket := s.outPacket ++ [.ofPayload payload], packetCount := s.packetCount + 1 }
      (packets ++ [payload]) := by
  constructor
  · have hsent := h.sent
    simp only [unwritten, pending, List.flatMap_append, List.flatMap_singleton, ← List.append_assoc,
      List.flatten_append, List.flatten_singleton, QueuedPacket.unwritten_ofPayload] at hsent ⊢
    rw [hsent]
  · simp [pending, h.count, Nat.add_assoc]

theorem accounts_step {packets : List Bytes} (st : Step) (h : s.Accounts packets) :
    (s.step st).Accounts (queue packets st) := by
  cases st with
  | queue payload answers =>
    unfold step packetQueue
    simp only
    split
    · exact accounts_push h
    · exact accounts_packetWrite (accounts_push h)
  | write answers =>
    have hwrite := @accounts_packetWrite s answers packets h
    unfold step handleWrite
    simp only
    split_ifs
    · exact hwrite
    · exact ⟨hwrite.sent, hwrite.count⟩
    · exact ⟨hwrite.sent, hwrite.count⟩
    · exact h
  | close => exact ⟨h.sent, h.count⟩
  | reconnect sock => exact ⟨rfl, rfl⟩

theorem accounts_run {packets : List Bytes} (steps : List Step) (h : s.Accounts packets) :
    (s.run steps).Accounts (steps.foldl queue packets) := by
  induction steps generalizing s packets with
  | nil => exact h
  | cons st steps ih => exact ih (accounts_step st h)

/-- A write keeps the socket and the WebSocket, and what was sent. -/
theorem packetWrite_keeps : (s.packetWrite answers).2.sock = s.sock ∧
    (s.packetWrite answers).2.wsi = s.wsi ∧ s.sent <+: (s.packetWrite answers).2.sent := by
  cases hvalid : s.invalid with
  | true =>
    unfold packetWrite
    rw [if_pos hvalid]
    exact ⟨rfl, rfl, List.prefix_rfl⟩
  | false =>
    have hwrote := @packetWrite_wrote s answers hvalid
    exact ⟨hwrote.sock, hwrote.wsi, hwrote.grows⟩

theorem wsi_step (st : Step) : (s.step st).wsi = s.wsi := by
  cases st with
  | queue payload answers =>
    unfold step packetQueue
    simp only
    split
    · rfl
    · exact packetWrite_keeps.2.1
  | write answers =>
    unfold step handleWrite
    simp only
    split_ifs
    · exact packetWrite_keeps.2.1
    · exact packetWrite_keeps.2.1
    · exact packetWrite_keeps.2.1
    · rfl
  | close => rfl
  | reconnect sock => rfl

/-- What was sent stays, until there is a new connection. -/
theorem sent_step {st : Step} (hst : ∀ sock, st ≠ .reconnect sock) :
    s.sent <+: (s.step st).sent := by
  cases st with
  | queue payload answers =>
    unfold step packetQueue
    simp only
    split
    · exact List.prefix_rfl
    · exact (@packetWrite_keeps { s with
        outPacket := s.outPacket ++ [.ofPayload payload], packetCount := s.packetCount + 1 }
        answers).2.2
  | write answers =>
    unfold step handleWrite
    simp only
    split_ifs
    · exact packetWrite_keeps.2.2
    · exact packetWrite_keeps.2.2
    · exact packetWrite_keeps.2.2
    · exact List.prefix_rfl
  | close => exact List.prefix_rfl
  | reconnect sock => exact absurd rfl (hst sock)

/-- Only a new connection opens the socket. -/
theorem sock_step {st : Step} (hst : ∀ sock, st ≠ .reconnect sock) (h : (s.step st).sock = true) :
    s.sock = true := by
  cases st with
  | queue payload answers =>
    unfold step packetQueue at h
    simp only at h
    split at h
    · exact h
    · rw [packetWrite_keeps.1] at h
      exact h
  | write answers =>
    unfold step handleWrite at h
    simp only at h
    split_ifs at h with hwsi hsock
    · exact packetWrite_keeps.1.symm.trans h
    · exact hsock
    · exact hsock
    · exact h
  | close => cases h
  | reconnect sock => exact absurd rfl (hst sock)

theorem wsi_run (steps : List Step) : (s.run steps).wsi = s.wsi := by
  induction steps generalizing s with
  | nil => rfl
  | cons st steps ih => exact ih.trans (wsi_step st)

/-- **What a connection sends.**  However its socket takes the bytes, what was sent and what waits are
the packets that were queued for the connection, in their order, and the count is that of the packets
that wait. -/
theorem sent_run (sock wsi : Bool) (steps : List Step) :
    let s := run { sock := sock, wsi := wsi } steps
    s.sent ++ s.unwritten = (queued steps).flatten ∧ s.packetCount = s.pending.length := by
  have h := @accounts_run { sock := sock, wsi := wsi } [] steps ⟨rfl, rfl⟩
  exact ⟨h.sent, h.count⟩

/-! ### A socket that takes something -/

/-- A packet is written to its end if every call takes something, and there are enough of them. -/
theorem writePacket_of_pos {ws : Bool} {p : QueuedPacket} (hpos : ∀ w ∈ answers, 0 < w.length)
    (hlength : p.toProcess ≤ answers.length) :
    (writePacket ws answers p).rc = none ∧
      answers.length ≤ (writePacket ws answers p).answers.length + p.toProcess ∧
      ∀ w ∈ (writePacket ws answers p).answers, 0 < w.length := by
  induction answers generalizing p with
  | nil =>
    have hzero : p.toProcess = 0 := Nat.le_zero.mp hlength
    simp [writePacket, hzero]
  | cons w answers ih =>
    unfold writePacket
    split
    · exact ⟨rfl, Nat.le_add_right _ _, hpos⟩
    · rename_i hne
      have hw := hpos w List.mem_cons_self
      rw [if_pos hw]
      have htaken : 0 < taken ws w p := by
        unfold taken
        rw [if_pos hw]
        split <;> omega
      have hless : (p.advance (taken ws w p)).toProcess < p.toProcess := by
        show p.toProcess - min (taken ws w p) p.toProcess < p.toProcess
        omega
      rw [List.length_cons] at hlength ⊢
      obtain ⟨hrc, hle, hrest⟩ := @ih (p.advance (taken ws w p))
        (fun w' hw' => hpos w' (List.mem_cons_of_mem w hw')) (by omega)
      exact ⟨hrc, by simp only; omega, hrest⟩

theorem writePackets_of_pos {p : QueuedPacket} {out : List QueuedPacket}
    (hpos : ∀ w ∈ answers, 0 < w.length)
    (hlength : ((p :: out).map QueuedPacket.toProcess).sum ≤ answers.length) :
    (s.writePackets p out answers).1 = 0 ∧ (s.writePackets p out answers).2.pending = [] := by
  induction out generalizing s p answers with
  | nil =>
    obtain ⟨hrc, -, -⟩ := @writePacket_of_pos answers s.wsi p hpos (by simpa using hlength)
    unfold writePackets
    simp only [hrc]
    exact ⟨trivial, rfl⟩
  | cons next out ih =>
    rw [List.map_cons, List.sum_cons] at hlength
    obtain ⟨hrc, hle, hrest⟩ := @writePacket_of_pos answers s.wsi p hpos (by omega)
    unfold writePackets
    simp only [hrc]
    exact ih hrest (by omega)

theorem length_unwritten : s.unwritten.length = (s.pending.map QueuedPacket.toProcess).sum := by
  unfold unwritten
  rw [List.length_flatMap]
  congr 1
  exact List.map_congr_left fun p _ => p.length_unwritten

theorem packetWrite_of_pos (hvalid : s.invalid = false) (hpos : ∀ w ∈ answers, 0 < w.length)
    (hlength : s.unwritten.length ≤ answers.length) :
    (s.packetWrite answers).1 = 0 ∧ (s.packetWrite answers).2.pending = [] := by
  rw [length_unwritten] at hlength
  unfold packetWrite pending at *
  rw [if_neg (by rw [hvalid]; exact Bool.false_ne_true)]
  split
  · rename_i p hp
    rw [hp] at hlength
    exact writePackets_of_pos hpos hlength
  · rename_i p out hp hout
    rw [hp, hout] at hlength
    exact writePackets_of_pos hpos hlength
  · rename_i hp hout
    simp [hp, hout]

/-- **All of it is sent.**  At any time, if the socket takes something with every call and there are
as many calls as bytes that wait, the loop sends what was queued for the connection, keeps it open and
no longer waits for its socket. -/
theorem sent_all {sock : Bool} {steps : List Step} {answers : List NetWrite}
    (hsock : (run { sock := sock } steps).sock = true)
    (hpos : ∀ w ∈ answers, 0 < w.length)
    (hlength : (run { sock := sock } steps).unwritten.length ≤ answers.length) :
    let s := (run { sock := sock } steps).step (.write answers)
    s.sent = (queued steps).flatten ∧ s.sock = true ∧ s.packetCount = 0 ∧ s.epollOut = false := by
  have haccounts := @accounts_run { sock := sock } [] steps ⟨rfl, rfl⟩
  have hwsi := @wsi_run { sock := sock } steps
  generalize run { sock := sock } steps = s at *
  have hvalid : s.invalid = false := by
    unfold invalid
    rw [hsock]
    rfl
  obtain ⟨hrc, hpending⟩ := packetWrite_of_pos hvalid hpos hlength
  have hafter := @accounts_packetWrite s answers _ haccounts
  have hnone : (s.packetWrite answers).2.currentOutPacket = none := by
    cases hcurrent : (s.packetWrite answers).2.currentOutPacket with
    | none => rfl
    | some p => simp [pending, hcurrent] at hpending
  have hsent := hafter.sent
  have hcount := hafter.count
  rw [hpending] at hcount
  unfold unwritten at hsent
  rw [hpending, List.flatMap_nil, List.append_nil] at hsent
  unfold step handleWrite
  simp only [hwsi, hsock, hrc, Bool.false_eq_true, if_false, if_true]
  refine ⟨hsent, packetWrite_keeps.1.trans hsock, hcount, ?_⟩
  unfold updateContext
  simp only [hnone, Option.isSome_none]

/-- Three bytes that a socket takes one by one. -/
theorem sent_all_three :
    ((run { sock := true } [.queue [1, 2, 3] [⟨1, .other⟩]]).step
      (.write [⟨1, .other⟩, ⟨1, .other⟩])).sent = [1, 2, 3] :=
  (@sent_all true [.queue [1, 2, 3] [⟨1, .other⟩]] [⟨1, .other⟩, ⟨1, .other⟩] (by decide +kernel)
    (by simp) (by decide +kernel)).1

end Outgoing

end DxlBroker
