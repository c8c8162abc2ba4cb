import DxlBroker.Connection.PacketLink
import DxlBroker.Mqtt.QueueRuns

/-!
# The messages of a connection between brokers

A broker keeps the messages for another one in the queue of its context.  When the loop writes them,
a packet is made of each, and these packets travel among the others of the connection, while the
socket takes what it can.  Both ends are still there: what the queue was given against what was
read.
-/

namespace DxlBroker

open Bytes ClientMessage MsgQueue

/-- The contents of a stored message; a client may be given another payload. -/
structure StoredContent where
  topic : Bytes
  payload : Bytes
  clientPayload : Bytes := []

/-- What the sending of a packet is given: what new memory holds, and what the socket answers. -/
structure Sending where
  memory : ℕ → UInt8 := fun _ => 0
  answers : List NetWrite := []

def pubrelCommandByte : UInt8 := 0x60

/-- `_mosquitto_send_command_with_mid`, the packet that is queued. -/
def sendCommandWithMid (memory : ℕ → UInt8) (command : UInt8) (mid : UInt16) (dup : Bool) :
    Except SendFault OutPacket := do
  let p ← OutPacket.alloc memory (command ||| flagBit dup 3) 2
  p.writeUint16 mid

/-- `_mosquitto_send_pubrel` -/
def sendPubrel (memory : ℕ → UInt8) (mid : ℕ) (dup : Bool) : Except SendFault OutPacket :=
  sendCommandWithMid memory (pubrelCommandByte ||| 2) (UInt16.ofNat mid) dup

section

variable (contents : ℕ → StoredContent)

namespace ClientMessage

/-- The topic and the payload that are sent for a message. -/
def text (m : ClientMessage) : Bytes × Bytes :=
  let stored := contents m.store
  (stored.topic, if m.clientMessage then stored.clientPayload else stored.payload)

/-- `_mosquitto_send_publish`, the packet that is queued. -/
def packet (memory : ℕ → UInt8) (m : ClientMessage) : Except SendFault OutPacket :=
  sendRealPublish memory (UInt16.ofNat m.mid) (m.text contents).1 (m.text contents).2
    (UInt8.ofNat m.qos) m.retain m.dup

end ClientMessage

namespace Outgoing

/-- A packet is queued, if it could be built.  An assertion that fails ends the broker, so nothing
is sent after it. -/
def queueBuilt (s : Outgoing) (answers : List NetWrite) : Except SendFault OutPacket → ℕ × Outgoing
  | .ok p => s.packetQueue p.payload answers
  | .error (.code rc) => (rc, s)
  | .error .assertion => (errErrno, s)

/-- `_mosquitto_send_publish`, of a connection whose topics are not mapped. -/
def sendPublish (s : Outgoing) (sending : Sending) (m : ClientMessage) : ℕ × Outgoing :=
  if s.invalid then (errNoConn, s)
  else s.queueBuilt sending.answers (m.packet contents sending.memory)

/-- A connection over which something could not be sent is closed. -/
def orClose (rc : ℕ) (s : Outgoing) : Outgoing := if rc = 0 then s else { s with sock := false }

end Outgoing

namespace MsgQueue

/-- What the sending of a message comes to: the loop goes on with the others, or ends with the
code. -/
def afterSend (m : ClientMessage) (msgs : List ClientMessage) (res : ℕ × Outgoing)
    (change : WriteResult → WriteResult) (rest : Outgoing → WriteResult × Outgoing) :
    WriteResult × Outgoing :=
  if res.1 = 0 then (change (rest res.2).1, (rest res.2).2)
  else ({ rc := res.1, kept := m :: msgs }, res.2)

/-- The loop of `mqtt3_db_message_write` with the packets that it queues. -/
def sendLoop (now : ℤ) : List ClientMessage → List Sending → Outgoing → WriteResult × Outgoing
  | [], _, out => ({ kept := [] }, out)
  | m :: msgs, sendings, out =>
      let sending := sendings.headD {}
      let rest := sendLoop now msgs sendings.tail
      match m.state with
      | .publishQos0 =>
          afterSend m msgs (out.sendPublish contents sending m) (WriteResult.remove m) rest
      | .publishQos1 =>
          afterSend m msgs (out.sendPublish contents sending m)
            (WriteResult.keep { m with timestamp := now, dup := true, state := .waitForPuback }
              [.publish m]) rest
      | .publishQos2 =>
          afterSend m msgs (out.sendPublish contents sending m)
            (WriteResult.keep { m with timestamp := now, dup := true, state := .waitForPubrec }
              [.publish m]) rest
      | .resendPubrel =>
          afterSend m msgs (out.queueBuilt sending.answers (sendPubrel sending.memory m.mid true))
            (WriteResult.keep { m with state := .waitForPubcomp } [.pubrel m.mid]) rest
      | _ =>
          let res := sendLoop now msgs sendings out
          (res.1.keep m [], res.2)

end MsgQueue

end

/-- The way of messages to another broker: the queue, the messages that were inserted into it, and
the connection with its reading end. -/
structure Channel (σ : Type) where
  queue : MsgQueue := {}
  inserted : List ClientMessage := []
  link : PacketLink σ

namespace Channel

/-- What happens to a channel. -/
inductive Step
  /-- A message comes; the connection is looked up, not given. -/
  | deliver (conn : InsertConn) (qos store : ℕ)
  | pubackcomp (mid : ℕ)
  | pubrec (mid : ℕ) (sending : Sending)
  | pubrel
  | timeout (threshold : ℤ)
  /-- The loop writes the messages of the context. -/
  | write (sendings : List Sending)
  /-- Another packet is sent. -/
  | packet (p : OutPacket) (answers : List NetWrite)
  /-- The socket can be written. -/
  | socket (answers : List NetWrite)
  | close
  | arrive (count : ℕ)

/-- What the channels of a broker have in common. -/
structure Config where
  limits : QueueLimits := {}
  maxPacketBufferSize : ℕ
  contents : ℕ → StoredContent

variable {σ : Type} (R : Reader σ) (config : Config)

/-- The destination as `mqtt3_db_message_insert` finds it; whether a message may exceed the queue of
packets is for the handlers to say. -/
def seen (c : Channel σ) (conn : InsertConn) : InsertConn :=
  { conn with
    invalid := c.link.out.invalid
    packetQueueExceeded := conn.packetQueueExceeded &&
      decide (config.maxPacketBufferSize ≤ c.link.out.packetCount) }

/-- A step of the queue. -/
def queueStep (c : Channel σ) (now : ℤ) (op : MsgQueue.Op) : Channel σ :=
  let res := c.queue.step config.limits now op
  { c with queue := res.queue, inserted := c.inserted ++ res.inserted }

/-- The writing end changes. -/
def withOut (c : Channel σ) (out : Outgoing) : Channel σ :=
  { c with link := { c.link with out := out } }

/-- `_mosquitto_handle_pubrec` -/
def pubrec (c : Channel σ) (now : ℤ) (mid : ℕ) (sending : Sending) : Channel σ :=
  let rc := (c.queue.messageUpdate now mid .waitForPubcomp).1
  let c := c.queueStep config now (.pubrec mid)
  if rc = 0 then
    let res := c.link.out.queueBuilt sending.answers (sendPubrel sending.memory mid false)
    c.withOut (res.2.orClose res.1)
  else c.withOut (c.link.out.orClose rc)

/-- `write_context_messages`, of a connection that has not timed out. -/
def write (c : Channel σ) (now : ℤ) (sendings : List Sending) : Channel σ :=
  if c.link.out.invalid then c
  else
    let res := MsgQueue.sendLoop config.contents now c.queue.msgs sendings c.link.out
    { c.withOut (res.2.orClose res.1.rc) with queue := c.queue.without res.1.kept res.1.removed }

def step (c : Channel σ) (event : ℤ × Step) : Channel σ :=
  match event.2 with
  | .deliver conn qos store =>
      c.queueStep config event.1 (.deliver (c.seen config conn) qos false store)
  | .pubackcomp mid => c.queueStep config event.1 (.pubackcomp mid)
  | .pubrec mid sending => c.pubrec config event.1 mid sending
  | .pubrel => c.queueStep config event.1 .pubrel
  | .timeout threshold => c.queueStep config event.1 (.timeout threshold)
  | .write sendings => c.write config event.1 sendings
  | .packet p answers => { c with link := c.link.step R (.queue p answers) }
  | .socket answers => { c with link := c.link.step R (.write answers) }
  | .close => { c with link := c.link.step R .close }
  | .arrive count => { c with link := c.link.step R (.arrive count) }

def run (c : Channel σ) (events : List (ℤ × Step)) : Channel σ := events.foldl (step R config) c

/-- The message of a packet that was read. -/
def messageOf (limit : ℕ) (packet : UInt8 × Bytes) : Option (Bytes × Bytes) :=
  if packet.1 &&& 0xf0 = publishCommandByte then
    match handlePublishRead limit packet.1 packet.2 with
    | .message topic payload => some (topic, payload)
    | .done _ => none
  else none

/-! ### The packets of messages -/

/-- A message that the other end can read. -/
structure Fit (limit : ℕ) (contents : ℕ → StoredContent) (m : ClientMessage) : Prop where
  retain : m.retain = false
  dup : m.dup = false
  sendable : Sendable limit (m.text contents).1 (m.text contents).2

section

variable {limit : ℕ} {contents : ℕ → StoredContent} {m : ClientMessage} {memory : ℕ → UInt8}
  {p : OutPacket}

/-- The packet of a message without an acknowledgement is read as this message. -/
theorem messageOf_unacked (h : Fit limit contents m) (hacked : m.acked = false)
    (hp : m.packet contents memory = .ok p) :
    p.command ≠ 0 ∧ messageOf limit p.contents = some (m.text contents) := by
  unfold ClientMessage.packet at hp
  rw [acked_eq_false.mp hacked, h.retain, h.dup] at hp
  obtain ⟨hcommand, hread⟩ := h.sendable.read hp
  refine ⟨by rw [hcommand]; decide, ?_⟩
  unfold messageOf OutPacket.contents
  rw [hread, hcommand]
  exact if_pos (show publishCommandByte &&& 0xf0 = publishCommandByte by decide)

/-- The command of a message that is to be acknowledged: a reader does not take it. -/
theorem command_of_acked : ∀ qos ∈ [1, 2], ∀ dup retain : Bool,
    let command :=
      publishCommandByte ||| flagBit dup 3 ||| UInt8.ofNat qos <<< 1 ||| flagBit retain 0
    command ≠ 0 ∧ (command &&& 0x06) >>> 1 ≠ 3 ∧ (0 : UInt8) < (command &&& 0x06) >>> 1 := by
  decide

theorem messageOf_acked (hqos : m.qos ≤ 2) (hacked : m.acked = true)
    (hp : m.packet contents memory = .ok p) :
    p.command ≠ 0 ∧ messageOf limit p.contents = none := by
  have hpos : 0 < m.qos := of_decide_eq_true hacked
  obtain ⟨hne, hthree, hlt⟩ := command_of_acked m.qos
    (by simp only [List.mem_cons, List.not_mem_nil, or_false]; omega) m.dup m.retain
  unfold ClientMessage.packet at hp
  rw [sendRealPublish_eq_writeBytes] at hp
  rw [← (OutPacket.filled_of_ok hp).command] at hne hthree hlt
  refine ⟨hne, ?_⟩
  unfold messageOf OutPacket.contents handlePublishRead
  simp only [hthree, hlt, if_false, if_true, ite_self]

theorem messageOf_pubrel {mid : ℕ} {dup : Bool} (hp : sendPubrel memory mid dup = .ok p) :
    p.command ≠ 0 ∧ messageOf limit p.contents = none := by
  unfold sendPubrel sendCommandWithMid at hp
  simp only [OutPacket.writeUint16_eq] at hp
  have hcommand : ∀ dup : Bool, pubrelCommandByte ||| 2 ||| flagBit dup 3 ≠ 0 ∧
      (pubrelCommandByte ||| 2 ||| flagBit dup 3) &&& 0xf0 ≠ publishCommandByte := by decide
  obtain ⟨hne, hother⟩ := hcommand dup
  rw [← (OutPacket.filled_of_ok hp).command] at hne hother
  exact ⟨hne, if_neg hother⟩

end

/-- Packets are queued one after the other. -/
inductive Queues : Outgoing → List OutPacket → Outgoing → Prop
  | nil (s : Outgoing) : Queues s [] s
  | cons {s s' : Outgoing} {p : OutPacket} {packets : List OutPacket} (answers : List NetWrite)
      (h : Queues (s.packetQueue p.payload answers).2 packets s') : Queues s (p :: packets) s'

theorem Queues.append {s s' s'' : Outgoing} {packets packets' : List OutPacket}
    (h : Queues s packets s') (h' : Queues s' packets' s'') :
    Queues s (packets ++ packets') s'' := by
  induction h with
  | nil s => exact h'
  | cons answers _ ih => exact .cons answers (ih h')

theorem Queues.wsi {s s' : Outgoing} {packets : List OutPacket} (h : Queues s packets s') :
    s'.wsi = s.wsi := by
  induction h with
  | nil s => rfl
  | @cons s s' p packets answers _ ih =>
    exact ih.trans (Outgoing.wsi_step (.queue p.payload answers))

/-! ### The loop that sends -/

section

variable {limit : ℕ} {contents : ℕ → StoredContent} {now : ℤ} {m : ClientMessage}
  {msgs : List ClientMessage} {sendings : List Sending} {out : Outgoing} {res : ℕ × Outgoing}
  {change : WriteResult → WriteResult} {rest : Outgoing → WriteResult × Outgoing}

theorem afterSend_eq (hrest : ∀ out, ∃ rcs, (rest out).1 = writeLoop now msgs rcs) :
    ∃ rcs : List ℕ, (afterSend m msgs res change rest).1 =
      if rcs.headD 0 = 0 then change (writeLoop now msgs rcs.tail)
      else { rc := rcs.headD 0, kept := m :: msgs } := by
  unfold afterSend
  split_ifs with hrc
  · obtain ⟨rcs, hrcs⟩ := hrest res.2
    exact ⟨0 :: rcs, (congrArg change hrcs).trans (if_pos rfl).symm⟩
  · exact ⟨[res.1], (if_neg hrc).symm⟩

/-- What becomes of the messages is what becomes of them for the codes with which the packets are
queued. -/
theorem sendLoop_eq :
    ∃ rcs, (sendLoop contents now msgs sendings out).1 = writeLoop now msgs rcs := by
  induction msgs generalizing sendings out with
  | nil => exact ⟨[], rfl⟩
  | cons m msgs ih =>
    unfold sendLoop writeLoop
    cases m.state with
    | publishQos0 => exact afterSend_eq fun out => ih
    | publishQos1 => exact afterSend_eq fun out => ih
    | publishQos2 => exact afterSend_eq fun out => ih
    | resendPubrel => exact afterSend_eq fun out => ih
    | waitForPuback =>
      obtain ⟨rcs, hrcs⟩ := @ih sendings out
      exact ⟨rcs, congrArg (WriteResult.keep m []) hrcs⟩
    | waitForPubrec =>
      obtain ⟨rcs, hrcs⟩ := @ih sendings out
      exact ⟨rcs, congrArg (WriteResult.keep m []) hrcs⟩
    | waitForPubcomp =>
      obtain ⟨rcs, hrcs⟩ := @ih sendings out
      exact ⟨rcs, congrArg (WriteResult.keep m []) hrcs⟩
    | queued =>
      obtain ⟨rcs, hrcs⟩ := @ih sendings out
      exact ⟨rcs, congrArg (WriteResult.keep m []) hrcs⟩

/-- The messages that are read from packets. -/
def textsOf (limit : ℕ) (packets : List OutPacket) : List (Bytes × Bytes) :=
  (packets.map OutPacket.contents).filterMap (messageOf limit)

@[simp] theorem textsOf_append (limit : ℕ) (packets packets' : List OutPacket) :
    textsOf limit (packets ++ packets') = textsOf limit packets ++ textsOf limit packets' := by
  simp [textsOf]

theorem textsOf_singleton (limit : ℕ) (p : OutPacket) :
    textsOf limit [p] = (messageOf limit p.contents).toList := by
  unfold textsOf
  cases h : messageOf limit p.contents with
  | none => simp [h]
  | some text => simp [h]

/-- What an attempt to send a message queues: its packet, or nothing that is read. -/
def Attempt (limit : ℕ) (contents : ℕ → StoredContent) (m : ClientMessage) (out : Outgoing)
    (res : ℕ × Outgoing) : Prop :=
  ∃ packets, Queues out packets res.2 ∧ (∀ p ∈ packets, p.command ≠ 0) ∧
    (textsOf limit packets = [] ∧ (res.1 = 0 → m.acked = true) ∨
      textsOf limit packets = [m.text contents] ∧ m.acked = false)

theorem attempt_publish {sending : Sending} (hqos : m.qos ≤ 2)
    (hfit : m.acked = false → Fit limit contents m) :
    Attempt limit contents m out (out.sendPublish contents sending m) := by
  have hnone : ∀ rc : ℕ, (rc = 0 → m.acked = true) → Attempt limit contents m out (rc, out) :=
    fun rc hrc => ⟨[], .nil out, List.forall_mem_nil _, .inl ⟨rfl, hrc⟩⟩
  unfold Outgoing.sendPublish
  split_ifs with hinvalid
  · exact hnone errNoConn nofun
  cases hp : m.packet contents sending.memory with
  | ok p =>
    refine ⟨[p], .cons sending.answers (.nil _), ?_, ?_⟩
    · rw [List.forall_mem_singleton]
      cases hacked : m.acked with
      | false => exact (messageOf_unacked (hfit hacked) hacked hp).1
      | true => exact (@messageOf_acked limit _ _ _ _ hqos hacked hp).1
    · rw [textsOf_singleton]
      cases hacked : m.acked with
      | false => exact .inr ⟨by rw [(messageOf_unacked (hfit hacked) hacked hp).2]; rfl, rfl⟩
      | true => exact .inl ⟨by rw [(messageOf_acked hqos hacked hp).2]; rfl, fun _ => rfl⟩
  | error fault =>
    have hacked : m.acked = true := by
      rw [← Bool.not_eq_false]
      intro hacked
      obtain ⟨hretain, hdup, hsendable⟩ := hfit hacked
      obtain ⟨p, hok⟩ := @Sendable.exists_packet sending.memory (UInt16.ofNat m.mid) _ _ _ hsendable
      unfold ClientMessage.packet at hp
      rw [acked_eq_false.mp hacked, hretain, hdup] at hp
      cases hok.symm.trans hp
    cases fault with
    | code rc => exact hnone rc fun _ => hacked
    | assertion => exact hnone errErrno fun _ => hacked

theorem queueBuilt_error (answers : List NetWrite) (fault : SendFault) :
    (out.queueBuilt answers (.error fault)).2 = out := by
  cases fault with
  | code rc => rfl
  | assertion => rfl

/-- A PUBREL is no message for the other end. -/
theorem queues_pubrel (limit : ℕ) {sending : Sending} {mid : ℕ} {dup : Bool} :
    ∃ packets,
      Queues out packets (out.queueBuilt sending.answers (sendPubrel sending.memory mid dup)).2 ∧
        (∀ p ∈ packets, p.command ≠ 0) ∧ textsOf limit packets = [] := by
  cases hp : sendPubrel sending.memory mid dup with
  | ok p =>
    obtain ⟨hcommand, hnone⟩ := @messageOf_pubrel limit _ _ _ _ hp
    refine ⟨[p], .cons sending.answers (.nil _), ?_, ?_⟩
    · rw [List.forall_mem_singleton]
      exact hcommand
    · rw [textsOf_singleton, hnone]
      rfl
  | error fault =>
    refine ⟨[], ?_, List.forall_mem_nil _, rfl⟩
    rw [queueBuilt_error]
    exact .nil out

theorem attempt_pubrel {sending : Sending} {mid : ℕ} {dup : Bool} (hacked : m.acked = true) :
    Attempt limit contents m out
      (out.queueBuilt sending.answers (sendPubrel sending.memory mid dup)) :=
  let ⟨packets, hqueues, hcommands, hnone⟩ := queues_pubrel limit
  ⟨packets, hqueues, hcommands, .inl ⟨hnone, fun _ => hacked⟩⟩

/-- What the loop queues: the packets of the messages that it sends, and perhaps one of the message
at which it ends. -/
structure Posted (limit : ℕ) (contents : ℕ → StoredContent) (out : Outgoing)
    (res : WriteResult × Outgoing) (packets : List OutPacket) (extra : List ClientMessage) :
    Prop where
  queues : Queues out packets res.2
  commands : ∀ p ∈ packets, p.command ≠ 0
  texts : textsOf limit packets = (sentUnacked res.1.sent ++ extra).map (text contents)
  start : extra <+: unacked res.1.kept
  done : res.1.rc = 0 → extra = []

theorem posted_afterSend (hattempt : Attempt limit contents m out res)
    (hsent : ∀ r, sentUnacked (change r).sent = unacked [m] ++ sentUnacked r.sent)
    (hkept : ∀ r, unacked (change r).kept = unacked r.kept) (hrc : ∀ r, (change r).rc = r.rc)
    (hrest : ∀ out, ∃ packets extra, Posted limit contents out (rest out) packets extra) :
    ∃ packets extra,
      Posted limit contents out (afterSend m msgs res change rest) packets extra := by
  obtain ⟨packets, hqueues, hcommands, htexts⟩ := hattempt
  unfold afterSend
  split_ifs with hzero
  -- The message is sent.
  · have hone : textsOf limit packets = (unacked [m]).map (text contents) := by
      rw [unacked_cons]
      rcases htexts with ⟨htexts, hacked⟩ | ⟨htexts, hacked⟩
      · rw [htexts, hacked hzero]
        rfl
      · rw [htexts, hacked]
        rfl
    obtain ⟨packets', extra, hposted⟩ := hrest res.2
    refine ⟨packets ++ packets', extra, hqueues.append hposted.queues, ?_, ?_, ?_, ?_⟩
    · exact List.forall_mem_append.mpr ⟨hcommands, hposted.commands⟩
    · rw [textsOf_append, hone, hposted.texts, hsent, ← List.map_append, List.append_assoc]
    · rw [hkept]
      exact hposted.start
    · rw [hrc]
      exact hposted.done
  -- The loop ends; a packet may have been queued before.
  · rcases htexts with ⟨htexts, -⟩ | ⟨htexts, hacked⟩
    · exact ⟨packets, [], hqueues, hcommands, htexts, List.nil_prefix, fun _ => rfl⟩
    · refine ⟨packets, [m], hqueues, hcommands, htexts, ?_, fun h => absurd h hzero⟩
      rw [unacked_cons, hacked]
      exact List.prefix_append [m] _

/-- A message that stays in the list when it is sent. -/
theorem posted_sent {m' : ClientMessage} {sent : List QueueSend} (hacked : m.acked = true)
    (hacked' : m'.acked = true) (hsent : sentUnacked sent = [])
    (hattempt : Attempt limit contents m out res)
    (hrest : ∀ out, ∃ packets extra, Posted limit contents out (rest out) packets extra) :
    ∃ packets extra, Posted limit contents out
      (afterSend m msgs res (WriteResult.keep m' sent) rest) packets extra := by
  refine posted_afterSend hattempt (fun r => ?_) (fun r => ?_) (fun _ => rfl) hrest
  · show sentUnacked (sent ++ r.sent) = _
    rw [sentUnacked_append, hsent, unacked_cons, if_pos hacked]
    rfl
  · show unacked (m' :: r.kept) = _
    rw [unacked_cons, if_pos hacked']

theorem posted_keep {m' : ClientMessage} {r : WriteResult × Outgoing} {packets : List OutPacket}
    {extra : List ClientMessage} (hacked : m'.acked = true)
    (h : Posted limit contents out r packets extra) :
    Posted limit contents out (r.1.keep m' [], r.2) packets extra := by
  obtain ⟨hqueues, hcommands, htexts, hstart, hdone⟩ := h
  refine ⟨hqueues, hcommands, htexts, ?_, hdone⟩
  show extra <+: unacked (m' :: r.1.kept)
  rw [unacked_cons, if_pos hacked]
  exact hstart

theorem sendLoop_posted (hqos : ∀ m ∈ msgs, m.qos ≤ 2) (hsends : ∀ m ∈ msgs, m.Sends)
    (hready : Ready msgs) (hfit : ∀ m ∈ unacked msgs, Fit limit contents m) :
    ∃ packets extra,
      Posted limit contents out (sendLoop contents now msgs sendings out) packets extra := by
  induction msgs generalizing sendings out with
  | nil => exact ⟨[], [], .nil out, List.forall_mem_nil _, rfl, List.nil_prefix, fun _ => rfl⟩
  | cons m msgs ih =>
    obtain ⟨hqos, hqosTail⟩ := List.forall_mem_cons.mp hqos
    obtain ⟨hsend, hsendsTail⟩ := List.forall_mem_cons.mp hsends
    obtain ⟨hm, hreadyTail⟩ := List.forall_mem_cons.mp hready
    have hfitTail : ∀ m ∈ unacked msgs, Fit limit contents m := fun m' hm' =>
      let ⟨hmem, hacked⟩ := mem_unacked.mp hm'
      hfit m' (mem_unacked.mpr ⟨List.mem_cons_of_mem m hmem, hacked⟩)
    have hfitHead : m.acked = false → Fit limit contents m := fun hacked =>
      hfit m (mem_unacked.mpr ⟨List.mem_cons_self, hacked⟩)
    have hrest : ∀ sendings out, ∃ packets extra,
        Posted limit contents out (sendLoop contents now msgs sendings out) packets extra :=
      fun sendings out => @ih sendings out hqosTail hsendsTail hreadyTail hfitTail
    have hacked : m.state ≠ .publishQos0 → m.acked = true := fun hne =>
      Bool.not_eq_false _ ▸ fun hacked => hne (hm hacked)
    have hstays : m.acked = true → ∃ packets extra, Posted limit contents out
        ((sendLoop contents now msgs sendings out).1.keep m [],
          (sendLoop contents now msgs sendings out).2) packets extra := fun hacked =>
      let ⟨packets, extra, hposted⟩ := hrest sendings out
      ⟨packets, extra, posted_keep hacked hposted⟩
    unfold sendLoop
    cases hstate : m.state with
    | publishQos0 =>
      have hfalse : m.acked = false := acked_eq_false.mpr (hsend hstate)
      refine posted_afterSend (attempt_publish hqos hfitHead) (fun r => ?_) (fun _ => rfl)
        (fun _ => rfl) (hrest sendings.tail)
      show sentUnacked ([.publish m] ++ r.sent) = _
      rw [sentUnacked_append, unacked_cons, hfalse]
      simp [sentUnacked, hfalse, unacked]
    | publishQos1 =>
      have htrue := hacked (by simp [hstate])
      exact posted_sent htrue htrue (by simp [sentUnacked, htrue])
        (attempt_publish hqos hfitHead) (hrest sendings.tail)
    | publishQos2 =>
      have htrue := hacked (by simp [hstate])
      exact posted_sent htrue htrue (by simp [sentUnacked, htrue])
        (attempt_publish hqos hfitHead) (hrest sendings.tail)
    | resendPubrel =>
      have htrue := hacked (by simp [hstate])
      exact posted_sent htrue htrue rfl (attempt_pubrel htrue) (hrest sendings.tail)
    | waitForPuback => exact hstays (hacked (by simp [hstate]))
    | waitForPubrec => exact hstays (hacked (by simp [hstate]))
    | waitForPubcomp => exact hstays (hacked (by simp [hstate]))
    | queued => exact hstays (hacked (by simp [hstate]))

end

/-! ### The invariant -/

section

variable {σ : Type} {R : Reader σ} {config : Config} {limit : ℕ} {conn : σ} {c : Channel σ}
  {now : ℤ} {packets : List OutPacket} {extra done : List ClientMessage}

/-- What holds of the messages in the queue. -/
structure Orderly (config : Config) (limit : ℕ) (c : Channel σ) : Prop where
  mid : ∀ m ∈ c.queue.msgs, m.mid = 0 ↔ m.qos = 0
  sends : ∀ m ∈ c.queue.msgs, m.Sends
  ready : Ready c.queue.msgs
  qos : ∀ m ∈ c.queue.msgs, m.qos ≤ 2
  fit : ∀ m ∈ unacked c.inserted, Fit limit config.contents m

/-- Where the messages are: behind the packets that were queued, of which the last may be one of a
message that still waits, because the connection was closed over it. -/
structure Transit (R : Reader σ) (config : Config) (limit : ℕ) (conn : σ) (c : Channel σ)
    (packets : List OutPacket) (done extra : List ClientMessage) : Prop where
  wsi : c.link.out.wsi = false
  link : PacketLink.Invariant R conn packets c.link
  commands : ∀ p ∈ packets, p.command ≠ 0
  texts : textsOf limit packets = (done ++ extra).map (text config.contents)
  order : done ++ unacked c.queue.msgs = unacked c.inserted
  start : extra <+: unacked c.queue.msgs
  closed : c.link.out.sock = true → extra = []

theorem Orderly.queueStep (h : Orderly config limit c)
    (hlimits : config.limits.queueQos0Messages = false) {op : MsgQueue.Op} (hop : MsgQueue.Plain op)
    (hqos : ∀ m ∈ (c.queue.step config.limits now op).inserted, m.qos ≤ 2)
    (hfit : ∀ m ∈ unacked (c.queue.step config.limits now op).inserted,
      Fit limit config.contents m) :
    Orderly config limit (c.queueStep config now op) := by
  constructor
  · exact fun m hm => mid_step h.mid m (List.mem_append_left _ hm)
  · exact sends_step h.sends
  · exact ready_step hlimits hop h.mid h.sends h.ready
  · intro m hm
    obtain ⟨m', hm', hcontent⟩ := mem_content_of_perm perm_step (List.mem_append_left _ hm)
    rw [← qos_eq_of_content hcontent]
    exact (List.mem_append.mp hm').elim (h.qos m') (hqos m')
  · intro m hm
    rw [Channel.queueStep, unacked_append] at hm
    exact (List.mem_append.mp hm).elim (h.fit m) (hfit m)

theorem Orderly.congr {c' : Channel σ} (h : Orderly config limit c) (hqueue : c'.queue = c.queue)
    (hinserted : c'.inserted = c.inserted) : Orderly config limit c' := by
  obtain ⟨hmid, hsends, hready, hqos, hfit⟩ := h
  rw [← hqueue] at hmid hsends hready hqos
  rw [← hinserted] at hfit
  exact ⟨hmid, hsends, hready, hqos, hfit⟩

/-- A step of the queue that sends no message. -/
theorem Transit.queueStep {op : MsgQueue.Op} (h : Transit R config limit conn c packets done extra)
    (horderly : Orderly config limit c) (hop : MsgQueue.Plain op)
    (hsent : sentUnacked (c.queue.step config.limits now op).sent = []) :
    Transit R config limit conn (c.queueStep config now op) packets done extra := by
  have hstep := @unacked_step config.limits now c.queue op hop horderly.mid horderly.sends
    horderly.ready
  rw [hsent, List.nil_append] at hstep
  refine ⟨h.wsi, h.link, h.commands, h.texts, ?_, ?_, h.closed⟩
  · show done ++ unacked (c.queue.step config.limits now op).queue.msgs =
      unacked (c.inserted ++ (c.queue.step config.limits now op).inserted)
    rw [hstep, ← List.append_assoc, h.order, unacked_append]
  · show extra <+: unacked (c.queue.step config.limits now op).queue.msgs
    rw [hstep]
    exact h.start.trans (List.prefix_append _ _)

/-- The link goes on, and no message is queued. -/
theorem Transit.linkStep {st : PacketLink.Step}
    (h : Transit R config limit conn c packets done extra)
    (hqueued : ∀ p ∈ PacketLink.queued [st], p.command ≠ 0)
    (hnone : textsOf limit (PacketLink.queued [st]) = []) :
    Transit R config limit conn { c with link := c.link.step R st }
      (packets ++ PacketLink.queued [st]) done extra := by
  have hout : ∃ st',
      (c.link.step R st).out = c.link.out.step st' ∧ (∀ sock, st' ≠ .reconnect sock) ∨
        (c.link.step R st).out = c.link.out := by
    cases st with
    | queue p answers => exact ⟨.queue p.payload answers, .inl ⟨rfl, nofun⟩⟩
    | write answers => exact ⟨.write answers, .inl ⟨rfl, nofun⟩⟩
    | close => exact ⟨.close, .inl ⟨rfl, nofun⟩⟩
    | arrive count => exact ⟨.close, .inr rfl⟩
  refine ⟨?_, h.link.step h.commands st, ?_, ?_, h.order, h.start, ?_⟩
  · rcases hout with ⟨st', ⟨hout, -⟩ | hout⟩
    · exact hout ▸ (Outgoing.wsi_step st').trans h.wsi
    · exact hout ▸ h.wsi
  · exact List.forall_mem_append.mpr ⟨h.commands, hqueued⟩
  · rw [textsOf_append, hnone, List.append_nil, h.texts]
  · intro hsock
    rcases hout with ⟨st', ⟨hout, hst⟩ | hout⟩
    · exact h.closed (Outgoing.sock_step hst (hout ▸ hsock))
    · exact h.closed (hout ▸ hsock)

/-- Packets are queued on a link. -/
theorem Queues.invariant {s s' : Outgoing} {packets' : List OutPacket}
    (hqueues : Queues s packets' s') {l : PacketLink σ} {packets : List OutPacket}
    (hout : l.out = s)
    (h : PacketLink.Invariant R conn packets l) :
    PacketLink.Invariant R conn (packets ++ packets') { l with out := s' } := by
  induction hqueues generalizing l packets with
  | nil s =>
    subst hout
    rw [List.append_nil]
    exact h
  | @cons s s' p packets' answers _ ih =>
    subst hout
    have hp := @PacketLink.Invariant.out σ R conn packets l (.queue p.payload answers)
      (packets ++ [p]) h nofun (by simp [Outgoing.queue])
    have hrest := ih rfl hp
    rw [List.append_assoc] at hrest
    exact hrest

/-- The connection may be closed. -/
theorem invariant_orClose {l : PacketLink σ} (h : PacketLink.Invariant R conn packets l) (rc : ℕ) :
    PacketLink.Invariant R conn packets { l with out := l.out.orClose rc } := by
  unfold Outgoing.orClose
  split_ifs
  · exact h
  · exact @PacketLink.Invariant.out σ R conn packets l .close packets h nofun rfl

theorem wsi_orClose (s : Outgoing) (rc : ℕ) : (s.orClose rc).wsi = s.wsi := by
  unfold Outgoing.orClose
  split_ifs <;> rfl

theorem sock_orClose {s : Outgoing} {rc : ℕ} (h : (s.orClose rc).sock = true) :
    rc = 0 ∧ s.sock = true := by
  unfold Outgoing.orClose at h
  split_ifs at h with hrc
  exact ⟨hrc, h⟩

theorem Queues.sock {s s' : Outgoing} {packets : List OutPacket} (h : Queues s packets s')
    (hsock : s'.sock = true) : s.sock = true := by
  induction h with
  | nil s => exact hsock
  | @cons s s' p packets answers _ ih =>
    exact @Outgoing.sock_step s (.queue p.payload answers) nofun (ih hsock)

/-- Packets without messages are queued, and the connection may be closed. -/
theorem Transit.post {packets' : List OutPacket} {out : Outgoing}
    (h : Transit R config limit conn c packets done extra)
    (hqueues : Queues c.link.out packets' out) (hcommands : ∀ p ∈ packets', p.command ≠ 0)
    (hnone : textsOf limit packets' = []) (rc : ℕ) :
    Transit R config limit conn (c.withOut (out.orClose rc)) (packets ++ packets') done extra := by
  refine ⟨?_, invariant_orClose (hqueues.invariant rfl h.link) rc, ?_, ?_, h.order, h.start, ?_⟩
  · exact (wsi_orClose out rc).trans (hqueues.wsi.trans h.wsi)
  · exact List.forall_mem_append.mpr ⟨h.commands, hcommands⟩
  · rw [textsOf_append, hnone, List.append_nil, h.texts]
  · exact fun hsock => h.closed (hqueues.sock (sock_orClose hsock).2)

/-- The messages are written. -/
theorem Transit.write {sendings : List Sending}
    (h : Transit R config limit conn c packets done extra) (horderly : Orderly config limit c) :
    ∃ packets done extra,
      Transit R config limit conn (c.write config now sendings) packets done extra := by
  unfold Channel.write
  split_ifs with hinvalid
  · exact ⟨packets, done, extra, h⟩
  have hextra : extra = [] := by
    refine h.closed ?_
    unfold Outgoing.invalid at hinvalid
    simpa [h.wsi] using hinvalid
  have hfit : ∀ m ∈ unacked c.queue.msgs, Fit limit config.contents m := fun m hm =>
    horderly.fit m (h.order ▸ List.mem_append_right done hm)
  obtain ⟨rcs, hrcs⟩ := @sendLoop_eq config.contents now c.queue.msgs sendings c.link.out
  obtain ⟨packets', extra', hposted⟩ := @sendLoop_posted limit config.contents now c.queue.msgs
    sendings c.link.out horderly.qos horderly.sends horderly.ready hfit
  have hunacked := @unacked_writeLoop now c.queue.msgs rcs horderly.ready horderly.sends
  rw [← hrcs] at hunacked
  generalize sendLoop config.contents now c.queue.msgs sendings c.link.out = res at hposted hunacked
  refine ⟨packets ++ packets', done ++ sentUnacked res.1.sent, extra', ?_,
    invariant_orClose (hposted.queues.invariant rfl h.link) res.1.rc, ?_, ?_, ?_, hposted.start, ?_⟩
  · exact (wsi_orClose res.2 res.1.rc).trans (hposted.queues.wsi.trans h.wsi)
  · exact List.forall_mem_append.mpr ⟨h.commands, hposted.commands⟩
  · rw [textsOf_append, h.texts, hposted.texts, hextra, List.append_nil, ← List.map_append,
      List.append_assoc]
  · show done ++ sentUnacked res.1.sent ++ unacked res.1.kept = unacked c.inserted
    rw [List.append_assoc, hunacked, h.order]
  · exact fun hsock => hposted.done (sock_orClose hsock).1

/-- What is written of the queue is a step of it. -/
theorem Orderly.write {sendings : List Sending} (h : Orderly config limit c)
    (hlimits : config.limits.queueQos0Messages = false) :
    Orderly config limit (c.write config now sendings) := by
  unfold Channel.write
  split_ifs with hinvalid
  · exact h
  obtain ⟨rcs, hrcs⟩ := @sendLoop_eq config.contents now c.queue.msgs sendings c.link.out
  have hstep := @Orderly.queueStep σ config limit c now h hlimits (.write rcs) trivial
    (List.forall_mem_nil _) (List.forall_mem_nil _)
  refine hstep.congr ?_ (List.append_nil _).symm
  show c.queue.without _ _ = c.queue.without _ _
  rw [hrcs]

/-- A message as it comes into the queue. -/
theorem inserted_deliver {limits : QueueLimits} {q : MsgQueue} {conn : InsertConn} {qos store : ℕ}
    {retain : Bool} {m : ClientMessage}
    (hm : m ∈ (q.step limits now (.deliver conn qos retain store)).inserted) :
    m.qos = qos ∧ m.store = store ∧ m.retain = retain ∧ m.dup = false ∧
      conn.onInsert = some m.clientMessage := by
  have hinsert : ∀ (q : MsgQueue) (mid : ℕ),
      m ∈ (q.messageInsert limits now conn mid qos retain store).2.2.toList → m.qos = qos ∧
        m.store = store ∧ m.retain = retain ∧ m.dup = false ∧
          conn.onInsert = some m.clientMessage := by
    intro q mid hm
    unfold messageInsert at hm
    split_ifs at hm
    · cases hm
    · cases hm
    cases hstate : q.insertState limits conn.invalid qos with
    | none =>
      rw [hstate] at hm
      cases hm
    | some res =>
      rw [hstate] at hm
      cases honInsert : conn.onInsert with
      | none =>
        rw [honInsert] at hm
        cases hm
      | some clientMessage =>
        rw [honInsert] at hm
        rw [List.mem_singleton.mp hm]
        exact ⟨rfl, rfl, rfl, rfl, rfl⟩
  simp only [MsgQueue.step, subsInsert] at hm
  split_ifs at hm
  · exact hinsert q 0 hm
  · exact hinsert _ _ hm

/-- A step of a session between brokers: the messages that need no acknowledgement are such that the
other end can read them, there is an identifier in each PUBREC, and other packets are no
messages. -/
def Plain (limit : ℕ) (config : Config) : Step → Prop
  | .deliver conn qos store => conn.lazyBridge = false ∧ qos ≤ 2 ∧
      (qos = 0 → ∀ clientMessage, conn.onInsert = some clientMessage →
        Sendable limit (config.contents store).topic
          (if clientMessage then (config.contents store).clientPayload
            else (config.contents store).payload))
  | .pubrec mid _ => mid ≠ 0
  | .packet p _ => p.command ≠ 0 ∧ p.command &&& 0xf0 ≠ publishCommandByte
  | _ => True

/-- The invariant of a channel. -/
def Inv (R : Reader σ) (config : Config) (limit : ℕ) (conn : σ) (c : Channel σ) : Prop :=
  Orderly config limit c ∧ ∃ packets done extra, Transit R config limit conn c packets done extra

/-- A step of the queue that brings and sends no message. -/
theorem Inv.queueStep (h : Inv R config limit conn c)
    (hlimits : config.limits.queueQos0Messages = false) (now : ℤ) (op : MsgQueue.Op)
    (hop : MsgQueue.Plain op)
    (hsent : sentUnacked (c.queue.step config.limits now op).sent = [])
    (hinserted : (c.queue.step config.limits now op).inserted = []) :
    Inv R config limit conn (c.queueStep config now op) := by
  obtain ⟨horderly, packets, done, extra, htransit⟩ := h
  refine ⟨horderly.queueStep hlimits hop ?_ ?_, packets, done, extra,
    htransit.queueStep horderly hop hsent⟩
  · rw [hinserted]
    exact List.forall_mem_nil _
  · rw [hinserted]
    exact List.forall_mem_nil _

/-- The link goes on. -/
theorem Inv.linkStep (h : Inv R config limit conn c) (st : PacketLink.Step)
    (hqueued : ∀ p ∈ PacketLink.queued [st], p.command ≠ 0 ∧
      p.command &&& 0xf0 ≠ publishCommandByte) :
    Inv R config limit conn { c with link := c.link.step R st } := by
  obtain ⟨horderly, packets, done, extra, htransit⟩ := h
  refine ⟨horderly.congr rfl rfl, _, done, extra,
    htransit.linkStep (fun p hp => (hqueued p hp).1) ?_⟩
  unfold textsOf
  rw [List.filterMap_eq_nil_iff, List.forall_mem_map]
  exact fun p hp => if_neg (hqueued p hp).2

/-- Packets without messages are queued. -/
theorem Inv.post {packets' : List OutPacket} {out : Outgoing} (h : Inv R config limit conn c)
    (hqueues : Queues c.link.out packets' out) (hcommands : ∀ p ∈ packets', p.command ≠ 0)
    (hnone : textsOf limit packets' = []) (rc : ℕ) :
    Inv R config limit conn (c.withOut (out.orClose rc)) :=
  let ⟨horderly, _, done, extra, htransit⟩ := h
  ⟨horderly.congr rfl rfl, _, done, extra, htransit.post hqueues hcommands hnone rc⟩

theorem Inv.pubrec {mid : ℕ} {sending : Sending} (h : Inv R config limit conn c)
    (hlimits : config.limits.queueQos0Messages = false) (hmid : mid ≠ 0) :
    Inv R config limit conn (c.pubrec config now mid sending) := by
  have hsent : sentUnacked (c.queue.step config.limits now (.pubrec mid)).sent = [] := by
    simp only [MsgQueue.step]
    split <;> rfl
  have hqueue := h.queueStep hlimits now (.pubrec mid) hmid hsent rfl
  unfold Channel.pubrec
  simp only
  split_ifs with hrc
  · obtain ⟨packets, hqueues, hcommands, hnone⟩ := queues_pubrel limit
    exact hqueue.post hqueues hcommands hnone _
  · exact hqueue.post (.nil _) (List.forall_mem_nil _) rfl _

theorem Inv.step {event : ℤ × Step} (h : Inv R config limit conn c)
    (hlimits : config.limits.queueQos0Messages = false) (hplain : Plain limit config event.2) :
    Inv R config limit conn (c.step R config event) := by
  obtain ⟨now, st⟩ := event
  cases st with
  | deliver insert qos store =>
    obtain ⟨hlazy, hqos, hsendable⟩ := hplain
    obtain ⟨horderly, packets, done, extra, htransit⟩ := h
    have hop : MsgQueue.Plain (.deliver (c.seen config insert) qos false store) := hlazy
    refine ⟨horderly.queueStep hlimits hop (fun m hm => ?_) (fun m hm => ?_),
      packets, done, extra, htransit.queueStep horderly hop rfl⟩
    · rw [(inserted_deliver hm).1]
      exact hqos
    · obtain ⟨hm, hacked⟩ := mem_unacked.mp hm
      obtain ⟨hq, hstore, hretain, hdup, hinsert⟩ := inserted_deliver hm
      refine ⟨hretain, hdup, ?_⟩
      unfold ClientMessage.text
      rw [hstore]
      exact hsendable (hq.symm.trans (acked_eq_false.mp hacked)) m.clientMessage hinsert
  | pubackcomp mid =>
    refine h.queueStep hlimits now (.pubackcomp mid) trivial ?_ ?_
    · simp only [MsgQueue.step]
      split <;> rfl
    · simp only [MsgQueue.step]
      split <;> rfl
  | pubrec mid sending => exact h.pubrec hlimits hplain
  | pubrel => exact h.queueStep hlimits now .pubrel trivial rfl rfl
  | timeout threshold => exact h.queueStep hlimits now (.timeout threshold) trivial rfl rfl
  | write sendings =>
    obtain ⟨horderly, packets, done, extra, htransit⟩ := h
    exact ⟨horderly.write hlimits, htransit.write horderly⟩
  | packet p answers =>
    exact h.linkStep (.queue p answers) (List.forall_mem_singleton.mpr hplain)
  | socket answers => exact h.linkStep (.write answers) (List.forall_mem_nil _)
  | close => exact h.linkStep .close (List.forall_mem_nil _)
  | arrive count => exact h.linkStep (.arrive count) (List.forall_mem_nil _)

theorem run_append (events : List (ℤ × Step)) (event : ℤ × Step) :
    c.run R config (events ++ [event]) = (c.run R config events).step R config event :=
  List.foldl_concat _ _ _ _

theorem inv_run (sock : Bool) {events : List (ℤ × Step)}
    (hlimits : config.limits.queueQos0Messages = false)
    (hplain : ∀ event ∈ events, Plain limit config event.2) :
    Inv R config limit conn
      (run R config { link := { out := { sock := sock }, reading := { conn := conn } } }
        events) := by
  induction events using List.reverseRecOn with
  | nil =>
    have horderly : Orderly config limit
        { link := { out := { sock := sock }, reading := { conn := conn } } : Channel σ } :=
      ⟨List.forall_mem_nil _, List.forall_mem_nil _, List.forall_mem_nil _, List.forall_mem_nil _,
        List.forall_mem_nil _⟩
    exact ⟨horderly, [], [], [], rfl,
      @PacketLink.invariant_run σ R conn sock [] (List.forall_mem_nil _), List.forall_mem_nil _,
      rfl, rfl, List.prefix_rfl, fun _ => rfl⟩
  | append_singleton events event ih =>
    rw [run_append]
    exact (ih fun e he => hplain e (List.mem_append_left _ he)).step hlimits
      (hplain event (List.mem_append_right events (List.mem_singleton_self event)))

/-- **From the queue to the reader.**  Whatever else is sent over a connection between brokers,
however its socket takes the bytes and however they arrive, the messages that the other end reads
are the first of those without an acknowledgement that were inserted into the queue, in their order
and each once; and all of them, once the queue and the packets are written and have arrived, unless
the other end closes the connection. -/
theorem messages_delivered (R : Reader σ) (config : Config) (conn : σ) (sock : Bool) (limit : ℕ)
    (events : List (ℤ × Step)) (hlimits : config.limits.queueQos0Messages = false)
    (hopen : R.isClosed conn = false) (hplain : ∀ event ∈ events, Plain limit config event.2) :
    let c := run R config { link := { out := { sock := sock }, reading := { conn := conn } } } events
    c.link.reading.handled.filterMap (messageOf limit) <+:
        (unacked c.inserted).map (text config.contents) ∧
      (unacked c.queue.msgs = [] → c.link.out.pending = [] →
        c.link.arrived = c.link.out.sent.length → R.isClosed c.link.reading.conn = false →
          c.link.reading.handled.filterMap (messageOf limit) =
            (unacked c.inserted).map (text config.contents)) := by
  obtain ⟨-, packets, done, extra, htransit⟩ :=
    @inv_run σ R config limit conn sock events hlimits hplain
  generalize
    run R config { link := { out := { sock := sock }, reading := { conn := conn } } } events = c
    at htransit ⊢
  obtain ⟨hstart, hall⟩ := htransit.link.handled hopen htransit.commands
  have htexts : (packets.map OutPacket.contents).filterMap (messageOf limit) =
      (done ++ extra).map (text config.contents) := htransit.texts
  refine ⟨?_, fun hmsgs hpending harrived hclosed => ?_⟩
  · have hinserted : done ++ extra <+: unacked c.inserted := by
      rw [← htransit.order]
      exact (List.prefix_append_right_inj done).mpr htransit.start
    exact (htexts ▸ hstart.filterMap (messageOf limit)).trans (hinserted.map _)
  · have hextra : extra = [] := List.prefix_nil.mp (hmsgs ▸ htransit.start)
    rw [hall hpending harrived hclosed, htexts, ← htransit.order, hmsgs, hextra]

/-- Two messages with a PINGREQ behind them, of which the first is written in two parts. -/
def twoMessages : List (ℤ × Step) :=
  [(1, .deliver {} 0 7), (1, .deliver {} 0 8),
    (2, .write [{ answers := [⟨3, .other⟩, ⟨-1, .again⟩] }, { answers := [⟨-1, .again⟩] }]),
    (2, .packet ⟨0xc0, 0, [], [], rfl, by norm_num⟩ []), (3, .arrive 2),
    (3, .socket [⟨9, .other⟩, ⟨9, .other⟩, ⟨9, .other⟩]), (4, .arrive 20)]

/-- The messages `7` and `8`. -/
def twoContents : Config where
  maxPacketBufferSize := 100
  contents store := if store = 7 then ⟨lit "t", lit "p", []⟩ else ⟨lit "u", lit "q", []⟩

theorem messages_delivered_two :
    (run PacketLink.takesAll twoContents
      { link := { out := { sock := true }, reading := { conn := false } } }
      twoMessages).link.reading.handled.filterMap (messageOf 0) =
        [(lit "t", lit "p"), (lit "u", lit "q")] := by
  have hplain : ∀ event ∈ twoMessages, Plain 0 twoContents event.2 := by
    have hsendable : ∀ store ∈ [7, 8], ∀ clientMessage, some false = some clientMessage →
        Sendable 0 (twoContents.contents store).topic
          (if clientMessage then (twoContents.contents store).clientPayload
            else (twoContents.contents store).payload) := by
      rintro store hstore _ ⟨⟩
      fin_cases hstore <;> exact ⟨by decide, by decide, by decide, by decide, .inl rfl⟩
    simp only [twoMessages, List.forall_mem_cons, Plain, true_and]
    exact ⟨⟨by omega, fun _ => hsendable 7 (by decide)⟩,
      ⟨by omega, fun _ => hsendable 8 (by decide)⟩, ⟨by decide, by decide⟩, List.forall_mem_nil _⟩
  exact ((messages_delivered PacketLink.takesAll twoContents false true 0 twoMessages rfl rfl
    hplain).2 (by decide +kernel) (List.length_eq_zero_iff.mp (by decide +kernel))
      (by decide +kernel) (by decide +kernel)).trans (by decide +kernel)

end

end Channel

end DxlBroker
