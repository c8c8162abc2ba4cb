import DxlBroker.Connection.ReaderAgreement
import DxlBroker.Connection.SentPackets

/-!
# A connection from end to end

The packets that one end queues are written in parts, travel as a stream of bytes, and are read by the
other end in whatever pieces the stream comes in.  The other end may close the connection at any
packet.
-/

namespace DxlBroker

open Bytes

/-- What is read of a packet: its command and what follows its header. -/
def OutPacket.contents (p : OutPacket) : UInt8 × Bytes := (p.command, p.body ++ p.unset)

/-- The bytes of packets in a row. -/
def streamOf (packets : List OutPacket) : Bytes := packets.flatMap OutPacket.payload

/-! ### Reading a stream of packets -/

theorem OutPacket.payload_ne_nil (p : OutPacket) : p.payload ≠ [] := List.cons_ne_nil _ _

theorem OutPacket.head?_payload (p : OutPacket) : p.payload.head? = some p.command := rfl

/-- A part of a packet is read as such. -/
theorem OutPacket.scan_part {p : OutPacket} (hcommand : p.command ≠ 0) {a b : Bytes}
    (hp : p.payload = a ++ b) (hb : b ≠ []) : ∃ q, InPacket.scan {} a = .more q := by
  obtain ⟨q, hq, -, -⟩ := p.scan_payload []
  rw [List.append_nil, hp] at hq
  have happend := @InPacket.scan_append {} a b fun p' h => by
    rcases (InPacket.scan_command h).2 rfl with ⟨hnil, -⟩ | hhead
    · exact .inl hnil
    · right
      have hfirst : a.head? = some p.command := by
        have hpayload := p.head?_payload
        rw [hp, List.head?_append, hhead] at hpayload
        rw [hhead]
        exact hpayload
      rw [hhead] at hfirst
      exact (Option.some.inj hfirst) ▸ hcommand
  rw [happend] at hq
  cases hscan : InPacket.scan {} a with
  | more p' => exact ⟨p', rfl⟩
  | next p' rest =>
    rw [hscan] at hq
    injection hq with _ hnil
    exact absurd (List.append_eq_nil_iff.mp hnil).2 hb
  | fail rc p' rest =>
    rw [hscan] at hq
    cases hq

/-- The beginning of a stream ends inside its first packet or behind it. -/
theorem prefix_cons_cases {p : OutPacket} {packets : List OutPacket} {buf : Bytes}
    (hbuf : buf <+: streamOf (p :: packets)) :
    (∃ b, b ≠ [] ∧ p.payload = buf ++ b) ∨
      ∃ rest, buf = p.payload ++ rest ∧ rest <+: streamOf packets := by
  have hstream : streamOf (p :: packets) = p.payload ++ streamOf packets := List.flatMap_cons
  rw [hstream] at hbuf
  rcases List.prefix_or_prefix_of_prefix hbuf (List.prefix_append _ _) with ⟨b, hb⟩ | ⟨rest, hrest⟩
  · by_cases hnil : b = []
    · refine .inr ⟨[], ?_, List.nil_prefix⟩
      rw [hnil, List.append_nil] at hb
      rw [hb, List.append_nil]
    · exact .inl ⟨b, hnil, hb.symm⟩
  · refine .inr ⟨rest, hrest.symm, ?_⟩
    rw [← hrest] at hbuf
    exact (List.prefix_append_right_inj _).mp hbuf

/-- A stream of packets has no command of zero. -/
theorem commands_streamOf {packets : List OutPacket} (hcommands : ∀ p ∈ packets, p.command ≠ 0)
    {buf : Bytes} (hbuf : buf <+: streamOf packets) : Commands {} buf := by
  induction packets generalizing buf with
  | nil =>
    rw [List.prefix_nil.mp hbuf]
    exact ⟨fun _ => nofun, fun p' rest h => nomatch h⟩
  | cons p packets ih =>
    have hp := hcommands p List.mem_cons_self
    have hhead : buf.head? ≠ some 0 := by
      intro hzero
      obtain ⟨t, ht⟩ := hbuf
      have hfirst : (streamOf (p :: packets)).head? = some p.command := rfl
      rw [← ht, List.head?_append, hzero] at hfirst
      exact hp (Option.some.inj hfirst).symm
    refine ⟨fun _ => hhead, fun p' rest h => ?_⟩
    rcases prefix_cons_cases hbuf with ⟨b, hb, hpayload⟩ | ⟨rest', rfl, hrest⟩
    · obtain ⟨q, hq⟩ := OutPacket.scan_part hp hpayload hb
      cases hq.symm.trans h
    · obtain ⟨q, hq, -⟩ := p.scan_payload rest'
      cases hq.symm.trans h
      exact ih (fun p hp => hcommands p (List.mem_cons_of_mem _ hp)) hrest

namespace Reader

variable {σ : Type} {R : Reader σ} {s : Reading σ}

theorem settle_inPacket {rc : ℕ} : (R.settle rc s).inPacket = s.inPacket := by
  unfold settle
  split
  · rfl
  · exact close_inPacket

/-- Of the beginning of a stream of packets, the packets that end in it
are handed over as they were sent, unless the connection is closed before. -/
theorem handled_socket {packets : List OutPacket} (hcommands : ∀ p ∈ packets, p.command ≠ 0)
    {buf : Bytes} (hbuf : buf <+: streamOf packets) (hopen : R.IsOpen s)
    (hpacket : s.inPacket = {}) :
    (R.socket s buf).handled <+: s.handled ++ packets.map OutPacket.contents ∧
      (buf = streamOf packets → R.isClosed (R.socket s buf).conn = false →
        (R.socket s buf).handled = s.handled ++ packets.map OutPacket.contents) := by
  induction packets generalizing s buf with
  | nil =>
    rw [List.prefix_nil.mp hbuf, socket_nil, List.map_nil, List.append_nil]
    exact ⟨List.prefix_rfl, fun _ _ => rfl⟩
  | cons p packets ih =>
    have hp := hcommands p List.mem_cons_self
    have hunfinished : Unfinished s.inPacket := hpacket ▸ unfinished_nil
    by_cases hnil : buf = []
    · rw [hnil, socket_nil]
      refine ⟨List.prefix_append _ _, fun hall => absurd hall.symm ?_⟩
      exact List.append_ne_nil_of_left_ne_nil p.payload_ne_nil _
    · have houtcome := @IsOpen.readPacket σ R s buf hopen hunfinished
      have hscan := @readPacket_scan σ R false s buf
      have hhandled := @readPacket_handled σ R false s buf
      rw [socket_eq hopen hunfinished hnil]
      rw [hpacket] at hscan
      generalize R.readPacket true s buf = other at houtcome
      generalize R.readPacket false s buf = plain at houtcome hscan hhandled ⊢
      have hkeeps : ∀ s', plain.state = s' → s'.handled <+: s.handled ++
          (p :: packets).map OutPacket.contents := fun s' hs' => by
        rw [← hs', hhandled]
        exact List.prefix_append _ _
      have hclosed : ∀ s', plain.state = s' →
          (R.close s').handled <+: s.handled ++ (p :: packets).map OutPacket.contents ∧
            (buf = streamOf (p :: packets) → R.isClosed (R.close s').conn = false →
              (R.close s').handled = s.handled ++ (p :: packets).map OutPacket.contents) :=
        fun s' hs' => ⟨(show (R.close s').handled = s'.handled from observe_handled) ▸ hkeeps s' hs',
          fun _ hno => by cases isClosed_close.symm.trans hno⟩
      rcases prefix_cons_cases hbuf with ⟨b, hb, hpayload⟩ | ⟨rest, hrest, hstart⟩
      -- The bytes end inside the packet.
      · obtain ⟨q, hq⟩ := OutPacket.scan_part hp hpayload hb
        have hshort : buf ≠ streamOf (p :: packets) := by
          intro hall
          have hlength := congrArg List.length hpayload
          have hstream : streamOf (p :: packets) = p.payload ++ streamOf packets :=
            List.flatMap_cons
          have hpos := List.length_pos_iff.mpr hb
          rw [hall, hstream] at hlength
          simp only [List.length_append] at hlength
          omega
        cases houtcome with
        | more _ _ => exact ⟨hkeeps _ rfl, fun hall => absurd hall hshort⟩
        | @next s' rest _ _ =>
          rcases hscan with hnext | ⟨⟨_, _, _, hno⟩, -⟩
          · rw [hq] at hnext
            cases hnext
          · cases hno
        | malformed _ => exact hclosed _ rfl
        | exceeds _ _ => exact hclosed _ rfl
      -- The packet is whole.
      · obtain ⟨q, hq, hqcommand, hqpayload, -⟩ := p.scan_payload rest
        rw [← hrest] at hq
        cases houtcome with
        | more _ _ =>
          rcases hscan with hmore | ⟨⟨_, _, _, hno⟩, -⟩
          · rw [hq] at hmore
            cases hmore
          · cases hno
        | malformed _ => exact hclosed _ rfl
        | exceeds _ _ => exact hclosed _ rfl
        | @next s' rest' hstate _ =>
          rcases hscan with hnext | ⟨⟨_, _, _, hno⟩, -⟩
          · rw [hq] at hnext
            injection hnext with hsame hrest'
            subst hrest'
            have hafter : (R.settle (R.handlePacket s').1 (R.handlePacket s').2).handled =
                s.handled ++ [p.contents] := by
              rw [settle_handled, handlePacket_handled, hsame, hqcommand, hqpayload]
              exact congrArg (· ++ [p.contents]) hhandled
            have hpackets : s.handled ++ (p :: packets).map OutPacket.contents =
                s.handled ++ [p.contents] ++ packets.map OutPacket.contents := by simp
            rw [hpackets]
            simp only
            rcases (readable_handlePacket hstate).settle with hshut | ⟨hopen', -⟩
            · rw [socket_of_closed hshut, hafter]
              exact ⟨List.prefix_append _ _, fun _ hno => by cases hshut.symm.trans hno⟩
            · have htail := ih (fun p hp => hcommands p (List.mem_cons_of_mem _ hp)) hstart hopen'
                (settle_inPacket.trans handlePacket_inPacket)
              rw [hafter] at htail
              have hstream : streamOf (p :: packets) = p.payload ++ streamOf packets :=
                List.flatMap_cons
              exact ⟨htail.1, fun hall => htail.2
                (List.append_cancel_left (hrest.symm.trans (hall.trans hstream)))⟩
          · cases hno

end Reader

/-! ### Both ends -/

/-- A plain connection: its writing end, how many bytes of it have arrived, and its reading end. -/
structure PacketLink (σ : Type) where
  out : Outgoing
  arrived : ℕ := 0
  reading : Reading σ

namespace PacketLink

/-- What happens to a connection. -/
inductive Step
  | queue (p : OutPacket) (answers : List NetWrite)
  | write (answers : List NetWrite)
  | close
  /-- So many bytes more come to the reading end. -/
  | arrive (count : ℕ)

variable {σ : Type} (R : Reader σ)

def step (l : PacketLink σ) : Step → PacketLink σ
  | .queue p answers => { l with out := l.out.step (.queue p.payload answers) }
  | .write answers => { l with out := l.out.step (.write answers) }
  | .close => { l with out := l.out.step .close }
  | .arrive count =>
      let bytes := (l.out.sent.drop l.arrived).take count
      { l with arrived := l.arrived + bytes.length, reading := R.socket l.reading bytes }

def run (l : PacketLink σ) (steps : List Step) : PacketLink σ := steps.foldl (step R) l

/-- The packets that are queued. -/
def queued : List Step → List OutPacket
  | [] => []
  | .queue p _ :: steps => p :: queued steps
  | _ :: steps => queued steps

/-- The invariant of a connection: what was read is what has arrived of the bytes that were sent. -/
structure Invariant (R : Reader σ) (conn : σ) (packets : List OutPacket) (l : PacketLink σ) :
    Prop where
  accounts : l.out.Accounts (packets.map OutPacket.payload)
  arrived : l.arrived ≤ l.out.sent.length
  reading : l.reading = R.socket { conn := conn } (l.out.sent.take l.arrived)

variable {R} {conn : σ} {packets : List OutPacket} {l : PacketLink σ}

/-- The bytes that were sent are the beginning of the stream. -/
theorem Invariant.sent (h : Invariant R conn packets l) : l.out.sent <+: streamOf packets := by
  have hsent := h.accounts.sent
  rw [← List.flatMap_def] at hsent
  exact ⟨_, hsent⟩

/-- The writing end goes on. -/
theorem Invariant.out {st : Outgoing.Step} {packets' : List OutPacket}
    (h : Invariant R conn packets l) (hst : ∀ sock, st ≠ .reconnect sock)
    (hqueue : Outgoing.queue (packets.map OutPacket.payload) st =
      packets'.map OutPacket.payload) :
    Invariant R conn packets' { l with out := l.out.step st } := by
  obtain ⟨more, hmore⟩ := @Outgoing.sent_step l.out st hst
  refine ⟨hqueue ▸ Outgoing.accounts_step st h.accounts, ?_, ?_⟩
  · show l.arrived ≤ (l.out.step st).sent.length
    rw [← hmore, List.length_append]
    exact h.arrived.trans (Nat.le_add_right _ _)
  · show l.reading = R.socket { conn := conn } ((l.out.step st).sent.take l.arrived)
    rw [← hmore, List.take_append_of_le_length h.arrived]
    exact h.reading

/-- More bytes arrive. -/
theorem Invariant.arrive (h : Invariant R conn packets l)
    (hcommands : ∀ p ∈ packets, p.command ≠ 0) (count : ℕ) :
    Invariant R conn packets (l.step R (.arrive count)) := by
  set bytes := (l.out.sent.drop l.arrived).take count with hbytes
  have hlength : bytes.length ≤ l.out.sent.length - l.arrived := by
    rw [hbytes, List.length_take, List.length_drop]
    exact min_le_right _ _
  have htake : l.out.sent.take (l.arrived + bytes.length) = l.out.sent.take l.arrived ++ bytes := by
    rw [List.take_add]
    exact congrArg _ (List.prefix_iff_eq_take.mp (List.take_prefix count _)).symm
  have harrived := h.arrived
  refine ⟨h.accounts, ?_, ?_⟩
  · show l.arrived + bytes.length ≤ l.out.sent.length
    omega
  · show R.socket l.reading bytes = R.socket { conn := conn } (l.out.sent.take (l.arrived + bytes.length))
    have hstream : l.out.sent.take l.arrived ++ bytes <+: streamOf packets := by
      rw [← htake]
      exact (List.take_prefix _ _).trans h.sent
    have hreads : R.ReadsOn { conn := conn } (l.out.sent.take l.arrived ++ bytes) := by
      cases hclosed : R.isClosed conn with
      | true => exact .inl hclosed
      | false => exact .inr ⟨⟨hclosed, rfl⟩, Reader.unfinished_nil, commands_streamOf hcommands hstream⟩
    rw [htake, (Reader.socket_append hreads).1, h.reading]

/-- What was handed over are the first of the packets, and all of them once they are written and have
arrived, unless the connection is closed. -/
theorem Invariant.handled (h : Invariant R conn packets l) (hopen : R.isClosed conn = false)
    (hcommands : ∀ p ∈ packets, p.command ≠ 0) :
    l.reading.handled <+: packets.map OutPacket.contents ∧
      (l.out.pending = [] → l.arrived = l.out.sent.length → R.isClosed l.reading.conn = false →
        l.reading.handled = packets.map OutPacket.contents) := by
  obtain ⟨hstart, hall⟩ := @Reader.handled_socket σ R { conn := conn } packets hcommands
    (l.out.sent.take l.arrived) ((List.take_prefix _ _).trans h.sent) ⟨hopen, rfl⟩ rfl
  rw [← h.reading] at hstart hall
  refine ⟨hstart, fun hpending harrived => hall ?_⟩
  have hsent := h.accounts.sent
  unfold Outgoing.unwritten at hsent
  rw [hpending, List.flatMap_nil, List.append_nil, ← List.flatMap_def] at hsent
  rw [harrived, List.take_length, hsent]
  rfl

theorem queued_append (steps : List Step) (st : Step) :
    queued (steps ++ [st]) = queued steps ++ queued [st] := by
  induction steps with
  | nil => rfl
  | cons first steps ih =>
    cases first with
    | queue p answers => exact congrArg (p :: ·) ih
    | write answers => exact ih
    | close => exact ih
    | arrive count => exact ih

theorem run_append (steps : List Step) (st : Step) :
    l.run R (steps ++ [st]) = (l.run R steps).step R st := List.foldl_concat _ _ _ _

/-- Every step keeps the invariant. -/
theorem Invariant.step (h : Invariant R conn packets l)
    (hcommands : ∀ p ∈ packets, p.command ≠ 0) (st : Step) :
    Invariant R conn (packets ++ queued [st]) (l.step R st) := by
  cases st with
  | queue p answers =>
    exact @Invariant.out σ R conn packets l (.queue p.payload answers) _ h nofun
      (by simp [Outgoing.queue, queued])
  | write answers =>
    exact @Invariant.out σ R conn packets l (.write answers) _ h nofun
      (by simp [Outgoing.queue, queued])
  | close =>
    exact @Invariant.out σ R conn packets l .close _ h nofun (by simp [Outgoing.queue, queued])
  | arrive count =>
    rw [show queued [.arrive count] = [] from rfl, List.append_nil]
    exact h.arrive hcommands count

theorem invariant_run (sock : Bool) {steps : List Step}
    (hcommands : ∀ p ∈ queued steps, p.command ≠ 0) :
    Invariant R conn (queued steps)
      (run R { out := { sock := sock }, reading := { conn := conn } } steps) := by
  induction steps using List.reverseRecOn with
  | nil => exact ⟨⟨rfl, rfl⟩, le_rfl, Reader.socket_nil.symm⟩
  | append_singleton steps st ih =>
    rw [queued_append] at hcommands ⊢
    rw [run_append]
    have hbefore : ∀ p ∈ queued steps, p.command ≠ 0 := fun p hp =>
      hcommands p (List.mem_append_left _ hp)
    exact (ih hbefore).step hbefore st

/-- The packets of a connection are handed over in order, and all of them in the end. -/
theorem handled_run (sock : Bool) {steps : List Step} (hopen : R.isClosed conn = false)
    (hcommands : ∀ p ∈ queued steps, p.command ≠ 0) :
    let l := run R { out := { sock := sock }, reading := { conn := conn } } steps
    l.reading.handled <+: (queued steps).map OutPacket.contents ∧
      (l.out.pending = [] → l.arrived = l.out.sent.length → R.isClosed l.reading.conn = false →
        l.reading.handled = (queued steps).map OutPacket.contents) :=
  (invariant_run sock hcommands).handled hopen hcommands

/-- The packets are those of the messages, one for each. -/
def AreMessages (packets : List OutPacket) (messages : List (Bytes × Bytes)) : Prop :=
  List.Forall₂ (fun p m => ∃ memory mid,
    sendRealPublish memory mid m.1 m.2 0 false false = .ok p) packets messages

/-- The messages that are read from packets. -/
def readMessages (limit : ℕ) (handled : List (UInt8 × Bytes)) : List PublishResult :=
  handled.map fun packet => handlePublishRead limit packet.1 packet.2

/-- The packets of messages are read as these messages. -/
theorem AreMessages.read {limit : ℕ} {messages : List (Bytes × Bytes)}
    (h : AreMessages packets messages) (hsend : ∀ m ∈ messages, Sendable limit m.1 m.2) :
    (∀ p ∈ packets, p.command ≠ 0) ∧ readMessages limit (packets.map OutPacket.contents) =
      messages.map fun m => .message m.1 m.2 := by
  induction h with
  | nil => exact ⟨nofun, rfl⟩
  | @cons p m packets messages hp _ ih =>
    obtain ⟨hcommands, hread⟩ := ih fun m hm => hsend m (List.mem_cons_of_mem _ hm)
    obtain ⟨memory, mid, hpacket⟩ := hp
    obtain ⟨hcommand, hmessage⟩ := (hsend m List.mem_cons_self).read hpacket
    refine ⟨List.forall_mem_cons.mpr ⟨?_, hcommands⟩, ?_⟩
    · rw [hcommand]
      decide
    · rw [List.map_cons, List.map_cons, ← hread]
      exact congrArg (· :: _) hmessage

/-- **Messages from broker to broker.**  However the packets of messages are written and arrive, the
other end reads the messages that were sent, in their order and each once; and all of them, once they
are written and have arrived, unless it closes the connection. -/
theorem messages_arrive (R : Reader σ) (conn : σ) (hopen : R.isClosed conn = false) (sock : Bool)
    (steps : List Step) (limit : ℕ) (messages : List (Bytes × Bytes))
    (hmessages : AreMessages (queued steps) messages)
    (hsend : ∀ m ∈ messages, Sendable limit m.1 m.2) :
    let l := run R { out := { sock := sock }, reading := { conn := conn } } steps
    readMessages limit l.reading.handled <+: messages.map (fun m => .message m.1 m.2) ∧
      (l.out.pending = [] → l.arrived = l.out.sent.length → R.isClosed l.reading.conn = false →
        readMessages limit l.reading.handled = messages.map fun m => .message m.1 m.2) := by
  obtain ⟨hcommands, hread⟩ := hmessages.read hsend
  obtain ⟨hstart, hall⟩ := @handled_run σ R conn sock steps hopen hcommands
  rw [← hread]
  exact ⟨hstart.map _, fun hpending harrived hclosed =>
    congrArg (readMessages limit) (hall hpending harrived hclosed)⟩

/-- The packet of a message `p` on a topic `t`. -/
def shortMessage : OutPacket where
  command := publishCommandByte
  remainingLength := 4
  body := [0, 1, 0x74, 0x70]
  unset := []
  length_body := rfl
  remainingLength_lt := by norm_num

/-- A connection that takes every packet; the state says whether it is closed. -/
def takesAll : Reader Bool where
  isClosed := id
  mustConnect _ := false
  exceeds _ _ s := (false, s)
  disconnect _ := true
  handle _ _ s := (0, s)
  isClosed_exceeds _ _ _ := rfl
  isClosed_disconnect _ := rfl
  isClosed_handle _ _ h := h

/-- The packet of a message `qq` on a topic `u`. -/
def nextMessage : OutPacket where
  command := publishCommandByte
  remainingLength := 5
  body := [0, 1, 0x75, 0x71, 0x71]
  unset := []
  length_body := rfl
  remainingLength_lt := by norm_num

/-- Two messages: the first is written in two parts, and the second comes into the queue in between.
The bytes arrive in three other parts, one of them with the end of the first and the beginning of the
second. -/
def twoMessages : List Step :=
  [.queue shortMessage [⟨1, .other⟩], .arrive 1, .queue nextMessage [⟨2, .other⟩],
    .write [⟨9, .other⟩, ⟨4, .other⟩], .arrive 6, .write [⟨9, .other⟩], .arrive 9]

theorem messages_arrive_shortMessage :
    AreMessages (queued twoMessages) [(lit "t", lit "p"), (lit "u", lit "qq")] ∧
      let l := run takesAll { out := { sock := true }, reading := { conn := false } } twoMessages
      readMessages 0 l.reading.handled =
        [.message (lit "t") (lit "p"), .message (lit "u") (lit "qq")] := by
  have hpackets : AreMessages [shortMessage, nextMessage]
      [(lit "t", lit "p"), (lit "u", lit "qq")] :=
    .cons ⟨fun _ => 0, 0, rfl⟩ (.cons ⟨fun _ => 0, 0, rfl⟩ .nil)
  have hsend : ∀ m ∈ [(lit "t", lit "p"), (lit "u", lit "qq")], Sendable 0 m.1 m.2 := by
    intro m hm
    rcases List.mem_pair.mp hm with rfl | rfl
    · exact ⟨by decide, by decide, by decide, by decide, .inl rfl⟩
    · exact ⟨by decide, by decide, by decide, by decide, .inl rfl⟩
  exact ⟨hpackets, (messages_arrive takesAll false rfl true twoMessages 0
    [(lit "t", lit "p"), (lit "u", lit "qq")] hpackets hsend).2 (List.length_eq_zero_iff.mp
      (by decide +kernel)) (by decide +kernel) (by decide +kernel)⟩

end PacketLink

end DxlBroker
