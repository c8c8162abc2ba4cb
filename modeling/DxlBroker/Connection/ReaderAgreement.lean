import DxlBroker.Connection.PacketRead

/-!
# The readers agree

The reader of a WebSocket and that of a plain connection are compared on one stream of bytes, cut into
the buffers of the WebSocket in any way.  They hand over the same packets, and close the connection at
the same packet, exactly when no buffer goes on after a packet that should have been the last one.
-/

namespace DxlBroker

open Bytes

/-- No command byte of the stream is zero: there is no such packet.  The first packet of the stream
may have been begun. -/
inductive Commands : InPacket → Bytes → Prop
  | intro {p : InPacket} {stream : Bytes} (hhead : p.command = 0 → stream.head? ≠ some 0)
      (hnext : ∀ p' rest, p.scan stream = .next p' rest → Commands {} rest) : Commands p stream

namespace Reader

section

variable {σ : Type} (R : Reader σ)

/-- The bytes begin with a whole packet, which is not refused at its first byte. -/
def offers (conn : σ) (buf : Bytes) : Bool :=
  buf.head?.any (fun byte => !R.refuses conn byte) && holdsPacket buf

/-- The condition on a buffer: nothing follows a packet whose handler fails, no whole packet follows
one after which the connection is closed, and of a packet that exceeds a limit and has a payload the
buffer does not hold the end.  The packets of the buffer are counted down. -/
def BufferOk : ℕ → Reading σ → Bytes → Prop
  | 0, _, _ => True
  | packets + 1, s, buf =>
      match R.readPacket false s buf with
      | .more _ => True
      | .fail rc s rest => rc = errErrno → rest.length < s.inPacket.toProcess
      | .next s rest =>
          let res := R.handlePacket s
          if R.isClosed res.2.conn then R.offers res.2.conn rest = false
          else rest = [] ∨ res.1 = 0 ∧ BufferOk packets res.2 rest

/-- The connection after a buffer that came over a socket. -/
def socket (s : Reading σ) (buf : Bytes) : Reading σ := R.readSocket (buf.length + 1) s buf

/-- The condition on the buffers, as long as the connection is open. -/
def CutsOk : Reading σ → List Bytes → Prop
  | _, [] => True
  | s, buf :: buffers =>
      R.isClosed s.conn = true ∨ R.BufferOk (buf.length + 1) s buf ∧ CutsOk (R.socket s buf) buffers

/-- Both readers hand over the same packets and close the connection at the same one. -/
def Agrees (s s' : Reading σ) : Prop := s'.handled = s.handled ∧ s'.closedAt = s.closedAt

end

/-! ### What is seen of a connection -/

/-- The connection is open, and has been so. -/
structure IsOpen {σ : Type} (R : Reader σ) (s : Reading σ) : Prop where
  isOpen : R.isClosed s.conn = false
  closedAt : s.closedAt = none

/-- The connection was closed at the packet that is being read. -/
structure IsShut {σ : Type} (R : Reader σ) (s : Reading σ) : Prop where
  closed : R.isClosed s.conn = true
  closedAt : s.closedAt = some s.packets

/-- Later, more packets were handed over, and the connection was closed if it was not. -/
structure Grows {σ : Type} (s s' : Reading σ) : Prop where
  handled : s.handled <+: s'.handled
  packets : s.packets ≤ s'.packets
  closedAt : s'.closedAt = s.closedAt ∨
    s.closedAt = none ∧ ∃ k, s.packets ≤ k ∧ s'.closedAt = some k

section

variable {σ : Type} {R : Reader σ} {ws : Bool} {s s' s'' : Reading σ} {buf a b rest : Bytes}

theorem Grows.refl : Grows s s := ⟨List.prefix_rfl, le_rfl, .inl rfl⟩

theorem Grows.trans (h : Grows s s') (h' : Grows s' s'') : Grows s s'' := by
  refine ⟨h.handled.trans h'.handled, h.packets.trans h'.packets, ?_⟩
  rcases h'.closedAt with hsame | ⟨hnone, k, hk, hsome⟩
  · rw [hsame]
    exact h.closedAt
  · rcases h.closedAt with hsame' | ⟨-, k', -, hsome'⟩
    · exact .inr ⟨hsame' ▸ hnone, k, h.packets.trans hk, hsome⟩
    · cases hnone.symm.trans hsome'

theorem Grows.withPacket {p : InPacket} (h : Grows s s') : Grows s (s'.withPacket p) :=
  ⟨h.handled, h.packets, h.closedAt⟩

theorem grows_observe : Grows s (R.observe s) := by
  unfold observe
  split_ifs with h
  · exact ⟨List.prefix_rfl, le_rfl, .inr ⟨h.1, s.packets, le_rfl, rfl⟩⟩
  · exact .refl

theorem grows_close : Grows s (R.close s) := by
  have hconn : Grows s (s.withConn (R.disconnect s.conn)) := ⟨List.prefix_rfl, le_rfl, .inl rfl⟩
  exact hconn.trans grows_observe

theorem grows_checkLimits : Grows s (R.checkLimits s) := by
  have hread : Grows s ((s.withConn (R.exceedsLimits s).2).withPacket s.inPacket.withRemaining) :=
    ⟨List.prefix_rfl, le_rfl, .inl rfl⟩
  unfold checkLimits
  simp only
  split_ifs
  · exact hread.trans grows_close
  · exact hread

/-- Closing a connection that is open. -/
theorem IsOpen.close (h : R.IsOpen s) : R.IsShut (R.close s) := by
  have hclosed : R.isClosed (s.withConn (R.disconnect s.conn)).conn = true :=
    R.isClosed_disconnect s.conn
  unfold Reader.close observe
  rw [if_pos ⟨h.closedAt, hclosed⟩]
  exact ⟨hclosed, rfl⟩

theorem isClosed_close : R.isClosed (R.close s).conn = true := by
  unfold Reader.close
  rw [observe_conn]
  exact R.isClosed_disconnect s.conn

theorem isClosed_exceedsLimits : R.isClosed (R.exceedsLimits s).2 = R.isClosed s.conn := by
  unfold exceedsLimits
  split_ifs
  · rfl
  · exact R.isClosed_exceeds _ _ _

/-- The limits leave the connection open, or close it. -/
theorem IsOpen.checkLimits (h : R.IsOpen s) :
    R.IsOpen (R.checkLimits s) ∨ R.IsShut (R.checkLimits s) := by
  have hread : R.IsOpen
      ((s.withConn (R.exceedsLimits s).2).withPacket s.inPacket.withRemaining) :=
    ⟨isClosed_exceedsLimits.trans h.isOpen, h.closedAt⟩
  unfold Reader.checkLimits
  simp only
  split_ifs
  · exact .inr hread.close
  · exact .inl hread

/-! ### One packet -/

/-- A property that every part of the reader keeps. -/
theorem readRest_state {P : Reading σ → Prop} (hpacket : ∀ s p, P s → P (s.withPacket p))
    (hlimits : ∀ s, P s → P (R.checkLimits s)) (h : P s) :
    P ((R.readRemaining s buf).bind (R.readPayload ws)).state := by
  have hpayload : ∀ s buf, P s → P (R.readPayload ws s buf).state := by
    intro s buf hs
    unfold Reader.readPayload
    split
    · exact hs
    · cases s.inPacket.readPayload buf <;> exact hpacket _ _ hs
  unfold readRemaining
  split
  · exact hpayload s buf h
  · cases s.inPacket.readLength buf with
    | next p rest => exact hpayload _ _ (hlimits _ (hpacket s p h))
    | more p => exact hpacket s p h
    | fail rc p rest => exact hpacket s p h

theorem readPacket_state {P : Reading σ → Prop} (hbegun : ∀ s byte, P s → P (s.begun byte))
    (hpacket : ∀ s p, P s → P (s.withPacket p)) (hlimits : ∀ s, P s → P (R.checkLimits s))
    (h : P s) : P (R.readPacket ws s buf).state := by
  by_cases hne : s.inPacket.command ≠ 0
  · rw [readPacket_of_command hne]
    exact readRest_state hpacket hlimits h
  · have hzero : s.inPacket.command = 0 := not_not.mp hne
    cases buf with
    | nil =>
      rw [readPacket_nil hzero]
      exact h
    | cons byte buf =>
      rw [readPacket_cons hzero]
      split
      · exact hbegun s byte h
      · exact readRest_state hpacket hlimits (hbegun s byte h)

theorem checkLimits_handled : (R.checkLimits s).handled = s.handled := by
  unfold checkLimits close
  simp only
  split_ifs
  · rw [observe_handled]
    rfl
  · rfl

theorem readPacket_handled : (R.readPacket ws s buf).state.handled = s.handled :=
  readPacket_state (P := fun s' => s'.handled = s.handled) (fun _ _ h => h) (fun _ _ h => h)
    (fun _ h => checkLimits_handled.trans h) rfl

theorem grows_readPacket : Grows s (R.readPacket ws s buf).state :=
  readPacket_state (P := Grows s)
    (fun _ _ h => ⟨h.handled, h.packets.trans (Nat.le_succ _), h.closedAt⟩)
    (fun _ _ h => h.withPacket) (fun _ h => h.trans grows_checkLimits) .refl

/-- A packet is begun with the first byte. -/
theorem begun_readPacket (hzero : s.inPacket.command = 0) (hbuf : buf ≠ []) :
    ∃ byte, Grows (s.begun byte) (R.readPacket ws s buf).state := by
  obtain ⟨byte, buf, rfl⟩ := List.exists_cons_of_ne_nil hbuf
  refine ⟨byte, ?_⟩
  rw [readPacket_cons hzero]
  split
  · exact .refl
  · exact readRest_state (P := Grows (s.begun byte)) (fun _ _ h => h.withPacket)
      (fun _ h => h.trans grows_checkLimits) .refl

theorem handlePacket_handled : (R.handlePacket s).2.handled =
    s.handled ++ [(s.inPacket.command, s.inPacket.payload)] := observe_handled

theorem grows_handlePacket : Grows s (R.handlePacket s).2 := by
  have hhandled : Grows s { s with
      conn := (R.handle s.inPacket.command s.inPacket.payload s.conn).2, inPacket := {}
      handled := s.handled ++ [(s.inPacket.command, s.inPacket.payload)] } :=
    ⟨List.prefix_append _ _, le_rfl, .inl rfl⟩
  exact hhandled.trans grows_observe

theorem handlePacket_inPacket : (R.handlePacket s).2.inPacket = {} := observe_inPacket

theorem grows_packetRead {rounds : ℕ} : Grows s (R.packetRead ws rounds s buf).2.1 := by
  induction rounds generalizing s buf with
  | zero => exact .refl
  | succ rounds ih =>
    have hread := @grows_readPacket σ R ws s buf
    unfold packetRead
    cases hpacket : R.readPacket ws s buf with
    | next s' rest =>
      rw [hpacket] at hread
      have hhandled : Grows s (R.handlePacket s').2 := hread.trans grows_handlePacket
      simp only
      split_ifs
      · exact hhandled.trans ih
      · exact hhandled
    | more s' =>
      rw [hpacket] at hread
      exact hread
    | fail rc s' rest =>
      rw [hpacket] at hread
      exact hread

theorem grows_settle {rc : ℕ} : Grows s (R.settle rc s) := by
  unfold settle
  split_ifs
  · exact .refl
  · exact grows_close

theorem grows_receive : Grows s (R.receive s buf) := by
  unfold receive
  split_ifs
  · exact .refl
  · exact grows_packetRead.trans grows_settle

/-- A packet that is kept for more bytes is not read to its end. -/
structure Unfinished (p : InPacket) : Prop where
  payload : p.haveRemaining = false → p.payload = []
  toProcess : p.haveRemaining = true → p.toProcess ≠ 0

theorem unfinished_nil : Unfinished {} := ⟨fun _ => rfl, nofun⟩

/-- What comes of a packet over a socket and over a WebSocket, when the connection is open. -/
inductive Outcome (R : Reader σ) (bytes : ℕ) : Progress (Reading σ) → Progress (Reading σ) → Prop
  | more {s : Reading σ} (hopen : R.IsOpen s) (hunfinished : Unfinished s.inPacket) :
      Outcome R bytes (.more s) (.more s)
  | next {s : Reading σ} {rest : Bytes}
      (hopen : R.IsOpen s ∨ R.IsShut s ∧ s.inPacket.payload = []) (hless : rest.length < bytes) :
      Outcome R bytes (.next s rest) (.next s rest)
  | malformed {s : Reading σ} {rest : Bytes} (hopen : R.IsOpen s) :
      Outcome R bytes (.fail errProtocol s rest) (.fail errProtocol s rest)
  | exceeds {s : Reading σ} {rest : Bytes} (hshut : R.IsShut s)
      (hprocess : s.inPacket.toProcess ≠ 0) :
      Outcome R bytes (.fail errErrno s rest) ((s.inPacket.readPayload rest).map s.withPacket)

theorem IsOpen.readPayload (h : R.IsOpen s) (hremaining : s.inPacket.haveRemaining = true)
    {bytes : ℕ}
    (hless : s.inPacket.toProcess ≤ buf.length → buf.length - s.inPacket.toProcess < bytes) :
    Outcome R bytes (R.readPayload false s buf) (R.readPayload true s buf) := by
  have hopen : ∀ ws, R.readPayload ws s buf = (s.inPacket.readPayload buf).map s.withPacket := by
    intro ws
    unfold Reader.readPayload
    rw [if_neg (by simp [h.isOpen])]
  rw [hopen, hopen]
  unfold InPacket.readPayload
  split
  · rename_i hwhole
    refine .next (.inl ⟨h.isOpen, h.closedAt⟩) ?_
    rw [List.length_drop]
    exact hless hwhole
  · rename_i hmore
    refine .more ⟨h.isOpen, h.closedAt⟩ ⟨fun hnone => ?_, fun _ hzero => hmore ?_⟩
    · cases hremaining.symm.trans hnone
    · exact Nat.le_of_sub_eq_zero hzero

theorem IsShut.readPayload (h : R.IsShut s) (hpayload : s.inPacket.payload = []) {bytes : ℕ}
    (hless : buf.length < bytes) :
    Outcome R bytes (R.readPayload false s buf) (R.readPayload true s buf) := by
  unfold Reader.readPayload
  by_cases hprocess : s.inPacket.toProcess = 0
  · rw [if_neg (by simp [hprocess]), if_neg (by simp)]
    unfold InPacket.readPayload
    rw [hprocess, if_pos (Nat.zero_le _)]
    exact .next (.inr ⟨⟨h.closed, h.closedAt⟩, by simp [Reading.withPacket, hpayload]⟩) hless
  · rw [if_pos (by simp [h.closed, hprocess]), if_neg (by simp)]
    exact .exceeds h hprocess

theorem IsOpen.readRest (h : R.IsOpen s) (hunfinished : Unfinished s.inPacket) {bytes : ℕ}
    (hless : buf.length ≤ bytes) :
    Outcome R bytes ((R.readRemaining s buf).bind (R.readPayload false))
      ((R.readRemaining s buf).bind (R.readPayload true)) := by
  unfold readRemaining
  split
  · rename_i hremaining
    have hprocess := hunfinished.toProcess hremaining
    exact h.readPayload hremaining fun hwhole => by omega
  · rename_i hremaining
    rw [Bool.not_eq_true] at hremaining
    obtain ⟨hmore, hnext, hfail⟩ := @InPacket.readLength_keeps s.inPacket buf
    cases hlength : s.inPacket.readLength buf with
    | next p rest =>
      obtain ⟨-, -, hpayload, hrest⟩ := hnext p rest hlength
      have hread : R.IsOpen (s.withPacket p) := ⟨h.isOpen, h.closedAt⟩
      have hlimits := @checkLimits_inPacket σ R (s.withPacket p)
      rcases hread.checkLimits with hopen | hshut
      · refine hopen.readPayload ?_ fun _ => by omega
        rw [hlimits]
        rfl
      · refine hshut.readPayload ?_ (by omega)
        rw [hlimits]
        exact hpayload.trans (hunfinished.payload hremaining)
    | more p =>
      obtain ⟨-, hnone, hpayload⟩ := hmore p hlength
      refine .more ⟨h.isOpen, h.closedAt⟩ ⟨fun _ => ?_, fun hsome => ?_⟩
      · exact hpayload.trans (hunfinished.payload hremaining)
      · cases hremaining.symm.trans (hnone.symm.trans hsome)
    | fail rc p rest =>
      cases hfail rc p rest hlength
      exact .malformed ⟨h.isOpen, h.closedAt⟩

theorem IsOpen.readPacket (h : R.IsOpen s) (hunfinished : Unfinished s.inPacket) :
    Outcome R buf.length (R.readPacket false s buf) (R.readPacket true s buf) := by
  by_cases hne : s.inPacket.command ≠ 0
  · rw [readPacket_of_command hne, readPacket_of_command hne]
    exact h.readRest hunfinished le_rfl
  · have hzero : s.inPacket.command = 0 := not_not.mp hne
    cases buf with
    | nil =>
      rw [readPacket_nil hzero, readPacket_nil hzero]
      exact .more h hunfinished
    | cons byte buf =>
      have hbegun : R.IsOpen (s.begun byte) := ⟨h.isOpen, h.closedAt⟩
      rw [readPacket_cons hzero, readPacket_cons hzero]
      split
      · exact .malformed hbegun
      · exact hbegun.readRest ⟨hunfinished.payload, hunfinished.toProcess⟩ (Nat.le_succ _)

/-- After its handler, a packet leaves the connection open or closed at this packet. -/
theorem handlePacket_open (h : R.IsOpen s ∨ R.IsShut s ∧ s.inPacket.payload = []) :
    R.IsOpen (R.handlePacket s).2 ∨ R.IsShut (R.handlePacket s).2 := by
  unfold handlePacket observe
  simp only
  rcases h with h | ⟨h, hpayload⟩
  · split_ifs with hclosed
    · exact .inr ⟨hclosed.2, rfl⟩
    · refine .inl ⟨?_, h.closedAt⟩
      rw [← Bool.not_eq_true]
      exact fun hnot => hclosed ⟨h.closedAt, hnot⟩
  · have hclosed := R.isClosed_handle s.inPacket.command s.conn h.closed
    rw [← hpayload] at hclosed
    rw [if_neg fun hnone => by cases hnone.1.symm.trans h.closedAt]
    exact .inr ⟨hclosed, h.closedAt⟩

/-! ### The socket -/

theorem readSocket_nil {calls : ℕ} : R.readSocket calls s [] = s := by
  cases calls with
  | zero => rfl
  | succ calls => exact if_pos (.inl rfl)

theorem readSocket_of_closed {calls : ℕ} (h : R.isClosed s.conn = true) :
    R.readSocket calls s buf = s := by
  cases calls with
  | zero => rfl
  | succ calls => exact if_pos (.inr h)

/-- What one call of `handle_read` leads to. -/
theorem handleRead_eq : R.handleRead s buf =
    match R.readPacket false s buf with
    | .more s' => (s', [])
    | .fail rc s' rest => (R.settle rc s', rest)
    | .next s' rest => (R.settle (R.handlePacket s').1 (R.handlePacket s').2, rest) := by
  unfold handleRead packetRead
  cases R.readPacket false s buf <;> rfl

/-- The state is one that the loop reads on from, or closed. -/
def Readable (R : Reader σ) (s : Reading σ) : Prop :=
  R.isClosed s.conn = true ∨ R.IsOpen s ∧ Unfinished s.inPacket

theorem readable_handlePacket (h : R.IsOpen s ∨ R.IsShut s ∧ s.inPacket.payload = []) :
    R.Readable (R.handlePacket s).2 := by
  rcases handlePacket_open h with hopen | hshut
  · exact .inr ⟨hopen, by rw [handlePacket_inPacket]; exact unfinished_nil⟩
  · exact .inl hshut.closed

theorem Readable.settle {rc : ℕ} (h : R.Readable s) : R.Readable (R.settle rc s) := by
  unfold Reader.settle
  split_ifs
  · exact h
  · exact .inl isClosed_close

theorem readSocket_calls {m n : ℕ} (h : R.Readable s) (hm : buf.length < m) (hn : buf.length < n) :
    R.readSocket m s buf = R.readSocket n s buf := by
  induction m generalizing n s buf with
  | zero => exact absurd hm (Nat.not_lt_zero _)
  | succ m ih =>
    obtain ⟨n, rfl⟩ : ∃ n', n = n' + 1 := ⟨n - 1, by omega⟩
    unfold readSocket
    split
    · rfl
    · rename_i hread
      obtain ⟨hopen, hunfinished⟩ := h.resolve_left fun hclosed => hread (.inr hclosed)
      have houtcome := @IsOpen.readPacket σ R s buf hopen hunfinished
      simp only [handleRead_eq]
      generalize R.readPacket false s buf = plain at houtcome ⊢
      generalize R.readPacket true s buf = other at houtcome
      cases houtcome with
      | more _ _ => exact readSocket_nil.trans readSocket_nil.symm
      | next hstate hless =>
        simp only
        exact ih (readable_handlePacket hstate).settle (by omega) (by omega)
      | malformed _ =>
        exact (readSocket_of_closed isClosed_close).trans (readSocket_of_closed isClosed_close).symm
      | exceeds _ _ =>
        exact (readSocket_of_closed isClosed_close).trans (readSocket_of_closed isClosed_close).symm

/-- The bytes of a socket, packet by packet. -/
theorem socket_eq (hopen : R.IsOpen s) (hunfinished : Unfinished s.inPacket) (hbuf : buf ≠ []) :
    R.socket s buf =
      match R.readPacket false s buf with
      | .more s' => s'
      | .fail _ s' _ => R.close s'
      | .next s' rest => R.socket (R.settle (R.handlePacket s').1 (R.handlePacket s').2) rest := by
  have houtcome := @IsOpen.readPacket σ R s buf hopen hunfinished
  unfold socket
  rw [readSocket, if_neg fun h => h.elim hbuf fun h => by cases h.symm.trans hopen.isOpen]
  simp only [handleRead_eq]
  generalize R.readPacket false s buf = plain at houtcome ⊢
  generalize R.readPacket true s buf = other at houtcome
  cases houtcome with
  | more _ _ => exact readSocket_nil
  | next hstate hless =>
    exact readSocket_calls (readable_handlePacket hstate).settle (by omega) (Nat.lt_succ_self _)
  | malformed _ => exact readSocket_of_closed isClosed_close
  | exceeds _ _ => exact readSocket_of_closed isClosed_close

theorem socket_nil : R.socket s [] = s := readSocket_nil

theorem socket_of_closed (h : R.isClosed s.conn = true) : R.socket s buf = s :=
  readSocket_of_closed h

/-! ### The bytes alone -/

theorem readPayload_scan :
    (R.readPayload ws s buf).map Reading.inPacket = s.inPacket.readPayload buf ∨
      ws = false ∧ ∃ s', R.readPayload ws s buf = .fail errErrno s' buf := by
  unfold Reader.readPayload
  split
  · rename_i hclosed
    simp only [Bool.and_eq_true, Bool.not_eq_true'] at hclosed
    exact .inr ⟨hclosed.1.1, s, rfl⟩
  · left
    cases s.inPacket.readPayload buf <;> rfl

theorem readRest_scan :
    ((R.readRemaining s buf).bind (R.readPayload ws)).map Reading.inPacket =
        s.inPacket.scanRest buf ∨
      ws = false ∧ ∃ s' rest,
        (R.readRemaining s buf).bind (R.readPayload ws) = .fail errErrno s' rest := by
  unfold readRemaining InPacket.scanRest
  split
  · rcases @readPayload_scan σ R ws s buf with hscan | ⟨hws, s', hfail⟩
    · exact .inl hscan
    · exact .inr ⟨hws, s', buf, hfail⟩
  · cases s.inPacket.readLength buf with
    | next p rest =>
      rcases @readPayload_scan σ R ws (R.checkLimits (s.withPacket p)) rest with
        hscan | ⟨hws, s', hfail⟩
      · left
        rw [checkLimits_inPacket] at hscan
        exact hscan
      · exact .inr ⟨hws, s', rest, hfail⟩
    | more p => exact .inl rfl
    | fail rc p rest => exact .inl rfl

/-- The reader takes the bytes of a packet as they are, if it goes on. -/
theorem readPacket_scan :
    (R.readPacket ws s buf).map Reading.inPacket = s.inPacket.scan buf ∨
      (∃ rc s' rest, R.readPacket ws s buf = .fail rc s' rest) ∧ (ws = true →
        s.inPacket.command = 0 ∧ buf.head?.any (fun byte => R.refuses s.conn byte) = true) := by
  by_cases hne : s.inPacket.command ≠ 0
  · have hcommand : s.inPacket.readCommand buf = .next s.inPacket buf := if_pos hne
    rw [readPacket_of_command hne, InPacket.scan, hcommand]
    rcases @readRest_scan σ R ws s buf with hscan | ⟨hws, s', rest, hfail⟩
    · exact .inl hscan
    · exact .inr ⟨⟨_, s', rest, hfail⟩, fun h => by cases h.symm.trans hws⟩
  · have hzero : s.inPacket.command = 0 := not_not.mp hne
    cases buf with
    | nil =>
      rw [readPacket_nil hzero]
      left
      unfold InPacket.scan InPacket.readCommand
      rw [if_neg hne]
      rfl
    | cons byte buf =>
      rw [readPacket_cons hzero]
      split
      · rename_i hrefused
        exact .inr ⟨⟨_, _, _, rfl⟩, fun _ => ⟨hzero, by simpa using hrefused⟩⟩
      · have hscan' : s.inPacket.scan (byte :: buf) = (s.begun byte).inPacket.scanRest buf := by
          unfold InPacket.scan InPacket.readCommand
          rw [if_neg hne]
          rfl
        rw [hscan']
        rcases @readRest_scan σ R ws (s.begun byte) buf with hscan | ⟨hws, s', rest, hfail⟩
        · exact .inl hscan
        · exact .inr ⟨⟨_, s', rest, hfail⟩, fun h => by cases h.symm.trans hws⟩

/-- A connection on which nothing happens. -/
def bytesOnly : Reader Unit where
  isClosed _ := true
  mustConnect _ := false
  exceeds _ _ _ := (false, ())
  disconnect _ := ()
  handle _ _ _ := (0, ())
  isClosed_exceeds _ _ _ := rfl
  isClosed_disconnect _ := rfl
  isClosed_handle _ _ _ := rfl

theorem readPacket_bytesOnly (s : Reading Unit) (buf : Bytes) :
    (bytesOnly.readPacket true s buf).map Reading.inPacket = s.inPacket.scan buf := by
  refine (@readPacket_scan Unit bytesOnly true s buf).resolve_right ?_
  rintro ⟨-, hrefused⟩
  obtain ⟨-, hany⟩ := hrefused rfl
  cases buf <;> simp [refuses, bytesOnly] at hany

end

end Reader

variable {p p' : InPacket} {a b rest : Bytes}

theorem InPacket.scan_append
    (hcommand : ∀ p', p.scan a = .more p' → a = [] ∨ p'.command ≠ 0) :
    p.scan (a ++ b) = (p.scan a).append InPacket.scan b := by
  have hscan := Reader.readPacket_bytesOnly { conn := (), inPacket := p }
  have happend := @Reader.readPacket_append Unit Reader.bytesOnly true
    { conn := (), inPacket := p } a b
  rw [← hscan a] at hcommand
  rw [← hscan (a ++ b), ← hscan a]
  generalize Reader.bytesOnly.readPacket true { conn := (), inPacket := p } a = first
    at hcommand happend ⊢
  rw [happend fun s' h => hcommand s'.inPacket (by rw [h]; rfl)]
  cases first with
  | next s' rest => rfl
  | more s' => exact Reader.readPacket_bytesOnly s' b
  | fail rc s' rest => rfl

theorem InPacket.scanRest_command (h : p.scanRest a = .more p') : p'.command = p.command := by
  have hscan := (@Reader.readRest_scan Unit Reader.bytesOnly true { conn := (), inPacket := p }
    a).resolve_right fun hno => by cases hno.1
  have hcommand := @Reader.readRest_command Unit Reader.bytesOnly true
    { conn := (), inPacket := p } a
  rw [h] at hscan
  generalize (Reader.bytesOnly.readRemaining { conn := (), inPacket := p } a).bind
    (Reader.bytesOnly.readPayload true) = first at hscan hcommand
  cases first with
  | more s' =>
    cases hscan
    exact hcommand rfl
  | next s' rest => cases hscan
  | fail rc s' rest => cases hscan

theorem InPacket.scan_command (h : p.scan a = .more p') :
    (p.command ≠ 0 → p'.command = p.command) ∧
      (p.command = 0 → a = [] ∧ p' = p ∨ a.head? = some p'.command) := by
  unfold InPacket.scan InPacket.readCommand at h
  refine ⟨fun hne => ?_, fun hzero => ?_⟩
  · rw [if_pos hne] at h
    exact scanRest_command h
  · rw [if_neg (not_not.mpr hzero)] at h
    cases a with
    | nil =>
      cases h
      exact .inl ⟨rfl, rfl⟩
    | cons byte a =>
      right
      rw [scanRest_command h]
      rfl

/-- The bytes end inside a packet, and go on with it. -/
theorem Commands.more (h : Commands p (a ++ b)) (hscan : p.scan a = .more p') :
    (a = [] ∨ p'.command ≠ 0) ∧ Commands p' b := by
  obtain ⟨hhead, hnext⟩ := h
  obtain ⟨hbegun, hfirst⟩ := InPacket.scan_command hscan
  by_cases hempty : p.command = 0 ∧ a = []
  · obtain ⟨hzero, rfl⟩ := hempty
    rcases hfirst hzero with ⟨-, rfl⟩ | hfirst
    · exact ⟨.inl rfl, hhead, hnext⟩
    · cases hfirst
  · have hne : p'.command ≠ 0 := by
      by_cases hzero : p.command = 0
      · rcases hfirst hzero with ⟨hnil, -⟩ | hfirst
        · exact absurd ⟨hzero, hnil⟩ hempty
        · intro hzero'
          refine hhead hzero ?_
          rw [List.head?_append, hfirst, hzero']
          rfl
      · rwa [hbegun hzero]
    refine ⟨.inr hne, fun hzero => absurd hzero hne, fun p'' rest hrest => hnext p'' rest ?_⟩
    rw [InPacket.scan_append fun p'' h => .inr ?_, hscan]
    · exact hrest
    · cases hscan.symm.trans h
      exact hne

/-- A packet ends with the bytes, or before. -/
theorem Commands.next (h : Commands p (a ++ b)) (hscan : p.scan a = .next p' rest) :
    Commands {} (rest ++ b) := by
  obtain ⟨-, hnext⟩ := h
  refine hnext p' (rest ++ b) ?_
  rw [InPacket.scan_append (fun p'' h => by cases hscan.symm.trans h), hscan]
  rfl

namespace Reader

section

variable {σ : Type} {R : Reader σ} {s s' w : Reading σ} {buf a b rest : Bytes}

/-! ### A stream over a socket, cut in two -/

/-- The state is one that the loop reads on from, with a stream of packets. -/
def ReadsOn (R : Reader σ) (s : Reading σ) (stream : Bytes) : Prop :=
  R.isClosed s.conn = true ∨
    R.IsOpen s ∧ Unfinished s.inPacket ∧ Commands s.inPacket stream

theorem socket_append (h : R.ReadsOn s (a ++ b)) :
    R.socket s (a ++ b) = R.socket (R.socket s a) b ∧ R.ReadsOn (R.socket s a) b := by
  induction hlength : a.length using Nat.strong_induction_on generalizing s a with
  | _ n ih =>
    rcases h with hclosed | ⟨hopen, hunfinished, hcommands⟩
    · rw [socket_of_closed hclosed, socket_of_closed hclosed, socket_of_closed hclosed]
      exact ⟨rfl, .inl hclosed⟩
    · by_cases ha : a = []
      · subst ha
        rw [socket_nil]
        exact ⟨rfl, .inr ⟨hopen, hunfinished, hcommands⟩⟩
      · have houtcome := @IsOpen.readPacket σ R s a hopen hunfinished
        have hscan := @readPacket_scan σ R false s a
        have happend := @readPacket_append σ R false s a b
        have hempty := @readPacket_append σ R false s a []
        rw [List.append_nil] at hempty
        have hab : a ++ b ≠ [] := fun hnil => ha (List.append_eq_nil_iff.mp hnil).1
        rw [socket_eq hopen hunfinished ha, socket_eq hopen hunfinished hab]
        generalize R.readPacket true s a = other at houtcome
        generalize R.readPacket false s a = plain at houtcome hscan happend hempty ⊢
        cases houtcome with
        | @more s' hopen' hunfinished' =>
          have hmore := hscan.resolve_right (by rintro ⟨⟨_, _, _, hno⟩, -⟩; cases hno)
          obtain ⟨hcommand, hcommands'⟩ := hcommands.more hmore.symm
          refine ⟨?_, .inr ⟨hopen', hunfinished', hcommands'⟩⟩
          rw [happend fun s'' hs'' => by cases hs''; exact hcommand]
          simp only [Progress.append]
          by_cases hb : b = []
          · subst hb
            have hsame := hempty fun s'' hs'' => by cases hs''; exact hcommand
            simp only [Progress.append] at hsame
            rw [← hsame, socket_nil]
          · rw [socket_eq hopen' hunfinished' hb]
        | @next s' rest hstate hless =>
          have hnext := hscan.resolve_right (by rintro ⟨⟨_, _, _, hno⟩, -⟩; cases hno)
          have hcommands' := hcommands.next hnext.symm
          rw [happend (by intro s'' hs''; cases hs'')]
          simp only [Progress.append]
          refine ih rest.length (hlength ▸ hless) ?_ rfl
          unfold settle
          split
          · rcases readable_handlePacket hstate with hclosed | ⟨hopen', hunfinished'⟩
            · exact .inl hclosed
            · refine .inr ⟨hopen', hunfinished', ?_⟩
              rw [handlePacket_inPacket]
              exact hcommands'
          · exact .inl isClosed_close
        | malformed _ =>
          rw [happend (by intro s'' hs''; cases hs'')]
          exact ⟨(socket_of_closed isClosed_close).symm, .inl isClosed_close⟩
        | exceeds _ _ =>
          rw [happend (by intro s'' hs''; cases hs'')]
          exact ⟨(socket_of_closed isClosed_close).symm, .inl isClosed_close⟩

/-! ### A buffer -/

theorem isNext_readPacket (h : s.inPacket = {}) :
    (R.readPacket true s buf).isNext = R.offers s.conn buf := by
  have hzero : s.inPacket.command = 0 := by rw [h]
  cases buf with
  | nil =>
    rw [readPacket_nil hzero]
    rfl
  | cons byte buf =>
    by_cases hrefused : R.refuses s.conn byte = true
    · rw [readPacket_cons hzero, if_pos hrefused]
      simp [offers, hrefused, Progress.isNext]
    · have hscan := (@readPacket_scan σ R true s (byte :: buf)).resolve_right fun hno =>
        hrefused (by simpa using (hno.2 rfl).2)
      rw [h] at hscan
      have hnext : ∀ x : Progress (Reading σ), (x.map Reading.inPacket).isNext = x.isNext := by
        intro x
        cases x <;> rfl
      rw [← hnext, hscan]
      simp [offers, hrefused, holdsPacket]

/-- A connection that is closed stays so while a packet is read. -/
theorem isClosed_readPacket {ws : Bool} (h : R.isClosed s.conn = true) :
    R.isClosed (R.readPacket ws s buf).state.conn = true := by
  refine readPacket_state (P := fun s => R.isClosed s.conn = true) (fun _ _ h => h)
    (fun _ _ h => h) (fun s hs => ?_) h
  unfold checkLimits
  simp only
  split_ifs
  · exact isClosed_close
  · exact isClosed_exceedsLimits.trans hs

theorem readPacket_empty {ws : Bool} (hopen : R.IsOpen s) (hunfinished : Unfinished s.inPacket) :
    R.readPacket ws s [] = .more s := by
  by_cases hne : s.inPacket.command ≠ 0
  · rw [readPacket_of_command hne]
    unfold readRemaining
    split
    · rename_i hremaining
      have hprocess : ¬s.inPacket.toProcess ≤ 0 := by
        have hnonzero := hunfinished.toProcess hremaining
        omega
      simp only [Progress.bind, Reader.readPayload, hopen.isOpen, Bool.and_false, Bool.false_and,
        Bool.false_eq_true, if_false, InPacket.readPayload, List.length_nil, if_neg hprocess,
        Progress.map, List.append_nil, Nat.sub_zero]
      rfl
    · rfl
  · exact readPacket_nil (not_not.mp hne)

/-- The connection after a buffer over a WebSocket differs from `p`, and will do so. -/
def Differs (p w : Reading σ) : Prop :=
  p.handled.length < w.handled.length ∨
    ∃ k, p.closedAt = some k ∧ k < w.packets ∧ ∀ k', w.closedAt = some k' → k < k'

theorem Differs.mono {p w' : Reading σ} (h : Differs p w) (hgrows : Grows w w') : Differs p w' := by
  rcases h with hless | ⟨k, hk, hpackets, hlater⟩
  · exact .inl (hless.trans_le hgrows.handled.length_le)
  · refine .inr ⟨k, hk, hpackets.trans_le hgrows.packets, fun k' hk' => ?_⟩
    rcases hgrows.closedAt with hsame | ⟨-, k'', hle, hk''⟩
    · exact hlater k' (hsame ▸ hk')
    · cases hk'.symm.trans hk''
      omega

theorem Differs.not_agrees {p : Reading σ} (h : Differs p w) : ¬Agrees p w := by
  rintro ⟨hhandled, hclosedAt⟩
  rcases h with hless | ⟨k, hk, -, hlater⟩
  · rw [hhandled] at hless
    exact lt_irrefl _ hless
  · exact lt_irrefl _ (hlater k (hclosedAt.trans hk))

/-- What a buffer over a WebSocket comes to: the same as over a socket, as long as the connection is
open. -/
structure Follows (R : Reader σ) (p w : Reading σ) : Prop where
  agrees : Agrees p w
  closed : R.isClosed p.conn = true → R.isClosed w.conn = true
  same : R.isClosed p.conn = false → w = p

theorem follows_refl {p : Reading σ} : R.Follows p p := ⟨⟨rfl, rfl⟩, id, fun _ => rfl⟩

/-- A connection that was closed and is closed later, with no further packet handed over. -/
theorem IsShut.follows {p : Reading σ} (h : R.IsShut s) (hp : Grows s p) (hw : Grows s w)
    (hclosed : R.isClosed p.conn = true) (hclosed' : R.isClosed w.conn = true)
    (hhandled : p.handled = s.handled) (hhandled' : w.handled = s.handled) : R.Follows p w := by
  have hsame : ∀ {t}, Grows s t → t.closedAt = s.closedAt := by
    intro t ht
    refine ht.closedAt.resolve_right fun hnone => ?_
    cases h.closedAt.symm.trans hnone.1
  refine ⟨⟨hhandled'.trans hhandled.symm, (hsame hw).trans (hsame hp).symm⟩, fun _ => hclosed',
    fun hnot => ?_⟩
  cases hclosed.symm.trans hnot

theorem settle_handled {rc : ℕ} : (R.settle rc s).handled = s.handled := by
  unfold settle close
  split_ifs
  · rfl
  · exact observe_handled

theorem isClosed_settle {rc : ℕ} (h : R.isClosed s.conn = true) :
    R.isClosed (R.settle rc s).conn = true := by
  unfold settle
  split_ifs
  · exact h
  · exact isClosed_close

/-- A packet was handed over after the connection was closed. -/
theorem differs_of_handlePacket {p : Reading σ} {rounds : ℕ} (hhandled : p.handled = s.handled) :
    Differs p (if true && !rest.isEmpty then R.packetRead true rounds (R.handlePacket s).2 rest
      else ((R.handlePacket s).1, (R.handlePacket s).2, rest)).2.1 := by
  have hmore : p.handled.length < (R.handlePacket s).2.handled.length := by
    rw [handlePacket_handled, hhandled]
    simp
  left
  split
  · exact hmore.trans_le grows_packetRead.handled.length_le
  · exact hmore

/-- The loop over a buffer goes on after a packet that closed the connection. -/
theorem IsShut.packetRead {rounds : ℕ} {rc : ℕ} (h : R.IsShut s) (hpacket : s.inPacket = {}) :
    (R.offers s.conn buf = false → R.Follows (R.settle rc s)
      (R.settle (R.packetRead true (rounds + 1) s buf).1
        (R.packetRead true (rounds + 1) s buf).2.1)) ∧
    (R.offers s.conn buf = true → Differs (R.settle rc s)
      (R.packetRead true (rounds + 1) s buf).2.1) := by
  have hoffers := @isNext_readPacket σ R s buf hpacket
  have hgrows := @grows_readPacket σ R true s buf
  have hhandled := @readPacket_handled σ R true s buf
  have hclosed := @isClosed_readPacket σ R s buf true h.closed
  rw [← hoffers]
  unfold Reader.packetRead
  cases hread : R.readPacket true s buf with
  | next t rest =>
    rw [hread] at hhandled
    refine ⟨fun hno => (nomatch hno), fun _ => ?_⟩
    exact differs_of_handlePacket (settle_handled.trans hhandled.symm)
  | more t =>
    rw [hread] at hgrows hhandled hclosed
    refine ⟨fun _ => ?_, fun hno => (nomatch hno)⟩
    exact h.follows grows_settle (hgrows.trans grows_settle) (isClosed_settle h.closed)
      (isClosed_settle hclosed) settle_handled (settle_handled.trans hhandled)
  | fail rc' t rest =>
    rw [hread] at hgrows hhandled hclosed
    refine ⟨fun _ => ?_, fun hno => (nomatch hno)⟩
    exact h.follows grows_settle (hgrows.trans grows_settle) (isClosed_settle h.closed)
      (isClosed_settle hclosed) settle_handled (settle_handled.trans hhandled)

/-- The loop goes on after a packet whose handler failed. -/
theorem IsOpen.packetRead {rounds : ℕ} (h : R.IsOpen s) (hpacket : s.inPacket = {})
    (hbuf : buf ≠ []) :
    Differs (R.close s) (R.packetRead true (rounds + 1) s buf).2.1 := by
  have hzero : s.inPacket.command = 0 := by rw [hpacket]
  obtain ⟨byte, hbegun⟩ := @begun_readPacket σ R true s buf hzero hbuf
  have hlater : Grows (s.begun byte) (R.packetRead true (rounds + 1) s buf).2.1 := by
    unfold Reader.packetRead
    cases hread : R.readPacket true s buf with
    | next t rest =>
      rw [hread] at hbegun
      simp only
      split
      · exact (hbegun.trans grows_handlePacket).trans grows_packetRead
      · exact hbegun.trans grows_handlePacket
    | more t =>
      rw [hread] at hbegun
      exact hbegun
    | fail rc t rest =>
      rw [hread] at hbegun
      exact hbegun
  have hshut := h.close
  have hpackets : (R.close s).packets = s.packets := observe_packets
  refine .inr ⟨s.packets, hpackets ▸ hshut.closedAt, hlater.packets, fun k hk => ?_⟩
  rcases hlater.closedAt with hsame | ⟨-, k', hle, hk'⟩
  · rw [hk] at hsame
    cases hsame.trans h.closedAt
  · cases hk.symm.trans hk'
    exact hle

/-- The two readers on one buffer, from the same connection. -/
def Compared (R : Reader σ) (ok : Prop) (p : Reading σ) (res : ℕ × Reading σ × Bytes) : Prop :=
  (ok → R.Follows p (R.settle res.1 res.2.1)) ∧
    (¬ok → Differs p res.2.1 ∧ R.isClosed p.conn = true)

/-- A packet that exceeds a limit: its end is in the buffer, or not. -/
theorem IsShut.exceeds {rounds : ℕ} (h : R.IsShut s')
    (hread : R.readPacket true s buf = (s'.inPacket.readPayload rest).map s'.withPacket) :
    R.Compared (rest.length < s'.inPacket.toProcess) (R.close s')
      (R.packetRead true (rounds + 1) s buf) := by
  unfold Reader.packetRead
  rw [hread]
  unfold InPacket.readPayload
  by_cases hwhole : s'.inPacket.toProcess ≤ rest.length
  · rw [if_pos hwhole]
    refine ⟨fun hless => absurd hwhole (not_le.mpr hless), fun _ => ⟨?_, isClosed_close⟩⟩
    exact differs_of_handlePacket observe_handled
  · rw [if_neg hwhole]
    refine ⟨fun _ => ?_, fun hno => absurd (not_le.mp hwhole) hno⟩
    exact h.follows grows_close ⟨List.prefix_rfl, le_rfl, .inl rfl⟩ isClosed_close h.closed
      observe_handled rfl

theorem IsOpen.compared {rounds : ℕ} (hopen : R.IsOpen s) (hunfinished : Unfinished s.inPacket)
    (hlength : buf.length < rounds) :
    R.Compared (R.BufferOk rounds s buf) (R.socket s buf) (R.packetRead true rounds s buf) := by
  induction rounds generalizing s buf with
  | zero => exact absurd hlength (Nat.not_lt_zero _)
  | succ rounds ih =>
    by_cases hbuf : buf = []
    · subst hbuf
      rw [socket_nil, BufferOk, Reader.packetRead, readPacket_empty hopen hunfinished,
        readPacket_empty hopen hunfinished]
      exact ⟨fun _ => follows_refl, fun hno => absurd trivial hno⟩
    · have houtcome := @IsOpen.readPacket σ R s buf hopen hunfinished
      rw [socket_eq hopen hunfinished hbuf, BufferOk]
      generalize hread : R.readPacket true s buf = other at houtcome
      generalize R.readPacket false s buf = plain at houtcome ⊢
      cases houtcome with
      | more _ _ =>
        rw [Reader.packetRead, hread]
        exact ⟨fun _ => follows_refl, fun hno => absurd trivial hno⟩
      | malformed _ =>
        rw [Reader.packetRead, hread]
        exact ⟨fun _ => follows_refl, fun hno => absurd (fun hrc => (nomatch hrc)) hno⟩
      | exceeds hshut _ =>
        have hcompared := @IsShut.exceeds σ R s _ buf _ rounds hshut hread
        exact ⟨fun hok => hcompared.1 (hok rfl), fun hno => hcompared.2 fun h => hno fun _ => h⟩
      | @next t rest hstate hless =>
        have hpacket := @handlePacket_inPacket σ R t
        rw [Reader.packetRead, hread]
        simp only
        obtain ⟨rounds, rfl⟩ : ∃ n, rounds = n + 1 := ⟨rounds - 1, by omega⟩
        rcases handlePacket_open hstate with hopen' | hshut'
        · rw [if_neg (by simp [hopen'.isOpen])]
          by_cases hrest : rest = []
          · subst hrest
            rw [socket_nil]
            exact ⟨fun _ => follows_refl, fun hno => absurd (.inl rfl) hno⟩
          · rw [if_pos (by simpa using hrest)]
            by_cases hrc : (R.handlePacket t).1 = 0
            · have hcompared := ih hopen' (hpacket ▸ unfinished_nil) (by omega : rest.length < _)
              rw [settle, if_pos hrc]
              exact ⟨fun hok => hcompared.1 (hok.resolve_left hrest).2,
                fun hno => hcompared.2 fun h => hno (.inr ⟨hrc, h⟩)⟩
            · rw [settle, if_neg hrc, socket_of_closed isClosed_close]
              exact ⟨fun hok => absurd (hok.resolve_left hrest).1 hrc,
                fun _ => ⟨hopen'.packetRead hpacket hrest, isClosed_close⟩⟩
        · have hclosed := @isClosed_settle σ R _ (R.handlePacket t).1 hshut'.closed
          rw [if_pos hshut'.closed, socket_of_closed hclosed]
          by_cases hrest : rest = []
          · subst hrest
            exact ⟨fun _ => follows_refl, fun hno => absurd rfl hno⟩
          · rw [if_pos (by simpa using hrest)]
            obtain ⟨hfollows, hdiffers⟩ :=
              @IsShut.packetRead σ R _ rest rounds (R.handlePacket t).1 hshut' hpacket
            exact ⟨hfollows, fun hno => ⟨hdiffers (by simpa using hno), hclosed⟩⟩

/-! ### The buffers of a stream -/

theorem receive_of_closed (h : R.isClosed s.conn = true) (buffers : List Bytes) :
    buffers.foldl R.receive s = s := by
  induction buffers with
  | nil => rfl
  | cons buf buffers ih =>
    have hbuf : R.receive s buf = s := if_pos h
    rw [List.foldl_cons, hbuf, ih]

theorem cutsOk_of_closed (h : R.isClosed s.conn = true) (buffers : List Bytes) :
    R.CutsOk s buffers := by
  cases buffers with
  | nil => trivial
  | cons buf buffers => exact .inl h

theorem grows_foldl_receive (buffers : List Bytes) : Grows s (buffers.foldl R.receive s) := by
  induction buffers generalizing s with
  | nil => exact .refl
  | cons buf buffers ih => exact grows_receive.trans ih

theorem agrees_buffers {buffers : List Bytes} (h : R.ReadsOn s buffers.flatten) :
    Agrees (R.socket s buffers.flatten) (buffers.foldl R.receive s) ↔ R.CutsOk s buffers := by
  induction buffers generalizing s with
  | nil => exact ⟨fun _ => trivial, fun _ => ⟨rfl, rfl⟩⟩
  | cons buf buffers ih =>
    rw [List.flatten_cons] at h ⊢
    obtain ⟨happend, hreads⟩ := socket_append h
    rw [happend, List.foldl_cons]
    rcases h with hclosed | ⟨hopen, hunfinished, -⟩
    · have hbuf : R.receive s buf = s := if_pos hclosed
      rw [socket_of_closed hclosed, socket_of_closed hclosed, hbuf, receive_of_closed hclosed]
      exact ⟨fun _ => .inl hclosed, fun _ => ⟨rfl, rfl⟩⟩
    · have hbuf : R.receive s buf = R.settle (R.packetRead true (buf.length + 1) s buf).1
          (R.packetRead true (buf.length + 1) s buf).2.1 := if_neg (by simp [hopen.isOpen])
      obtain ⟨hfollows, hdiffers⟩ := hopen.compared hunfinished (Nat.lt_succ_self buf.length)
      rw [hbuf, CutsOk]
      by_cases hok : R.BufferOk (buf.length + 1) s buf
      · have hsame := hfollows hok
        cases hclosed : R.isClosed (R.socket s buf).conn with
        | true =>
          rw [socket_of_closed hclosed, receive_of_closed (hsame.closed hclosed)]
          exact ⟨fun _ => .inr ⟨hok, cutsOk_of_closed hclosed buffers⟩, fun _ => hsame.agrees⟩
        | false =>
          rw [hsame.same hclosed, ih hreads]
          exact ⟨fun hcuts => .inr ⟨hok, hcuts⟩, fun hcuts => (hcuts.resolve_left
            (by simp [hopen.isOpen])).2⟩
      · obtain ⟨hdiff, hclosed⟩ := hdiffers hok
        rw [socket_of_closed hclosed]
        refine ⟨fun hagrees => absurd hagrees (Differs.not_agrees ?_), fun hcuts => absurd
          (hcuts.resolve_left (by simp [hopen.isOpen])).1 hok⟩
        exact (hdiff.mono grows_settle).mono (grows_foldl_receive buffers)

/-- **The readers agree.**  On a stream of packets, cut into buffers in any way, the WebSocket hands
over the same packets as the socket and is closed at the same packet, exactly when in no buffer
something follows a packet whose handler fails, a whole packet follows one after which the connection
is closed, or the end of a packet that exceeds a limit follows its header. -/
theorem agrees_iff_cutsOk (R : Reader σ) (conn : σ) (buffers : List Bytes)
    (hstream : Commands {} buffers.flatten) :
    Agrees (R.socket { conn := conn } buffers.flatten) (buffers.foldl R.receive { conn := conn }) ↔
      R.CutsOk { conn := conn } buffers := by
  refine agrees_buffers ?_
  cases hclosed : R.isClosed conn with
  | true => exact .inl hclosed
  | false => exact .inr ⟨⟨hclosed, rfl⟩, unfinished_nil, hstream⟩

end

end Reader

namespace MqttBroker

variable {settings : BrokerSettings} {env : RegistryEnv} {i : ℕ} {β : MqttBroker}

/-! ### The contexts of the broker -/

/-- What the broker brings to the packets of a context. -/
structure PacketEnv where
  cenv : ConnectEnv
  guid : Bytes
  sendOk : Bool
  /-- The results of the handlers that do not change a context. -/
  others : UInt8 → Bytes → ℕ

/-- The packet for a command and its payload. -/
def packetOf (penv : PacketEnv) (command : UInt8) (payload : Bytes) : Packet :=
  if command &&& 0xf0 = 0x10 then .connect penv.cenv command payload penv.guid penv.sendOk
  else if command &&& 0xf0 = 0x20 then .connack (payload[1]?) penv.sendOk
  else if command &&& 0xf0 = 0xe0 then .disconnect command payload.length
  else .other payload.length (penv.others command payload)

/-- The context has no connection to read from. -/
def isUnread (i : ℕ) (β : MqttBroker) : Bool := !(β.contexts.lookup i).any readable

theorem isUnread_contextDisconnect : isUnread i (β.contextDisconnect settings env i) = true := by
  unfold isUnread
  rw [lookup_contextDisconnect, if_pos rfl]
  cases β.contexts.lookup i with
  | none => rfl
  | some c =>
    unfold Context.socketClose readable Context.withState
    simp only [Option.map_some, Option.any_some]
    split_ifs <;> simp_all

theorem isUnread_packetHandle (penv : PacketEnv) (command : UInt8) (h : isUnread i β = true) :
    isUnread i (β.packetHandle settings env i (packetOf penv command [])).2 = true := by
  unfold packetOf
  split_ifs
  · -- A CONNECT packet without payload is refused.
    unfold packetHandle handleConnect
    cases hc : β.contexts.lookup i with
    | none => exact h
    | some c =>
      simp only
      split_ifs
      · exact isUnread_contextDisconnect
      · exact isUnread_contextDisconnect
  · show isUnread i (β.handleConnack settings env i none penv.sendOk).2 = true
    unfold handleConnack
    split <;> exact h
  · show isUnread i (β.handleDisconnect settings env i command 0).2 = true
    unfold handleDisconnect
    split
    · exact h
    · simp only [ne_eq, not_true_eq_false, if_false]
      split_ifs <;> exact isUnread_contextDisconnect
  · exact h

/-- The reader of a context; `exceeds` says which packets are too large or too much. -/
def contextReader (settings : BrokerSettings) (env : RegistryEnv) (penv : PacketEnv)
    (exceeds : UInt8 → ℕ → MqttBroker → Bool) (i : ℕ) : Reader MqttBroker where
  isClosed := isUnread i
  mustConnect β := (β.contexts.lookup i).any fun c => c.bridge = none ∧ c.state = .new
  exceeds command length β := (exceeds command length β, β)
  disconnect := contextDisconnect settings env i
  handle command payload β := β.packetHandle settings env i (packetOf penv command payload)
  isClosed_exceeds _ _ _ := rfl
  isClosed_disconnect _ := isUnread_contextDisconnect
  isClosed_handle command _ h := isUnread_packetHandle penv command h

/-- A client that is connected over a WebSocket to a broker that starts. -/
def webSocketClient : MqttBroker :=
  started.setContext 0 { state := .connected, wsi := true, id := some (lit "c") }

/-- The reader of its packets, where nothing exceeds a limit and every other handler succeeds. -/
def webSocketReader : Reader MqttBroker :=
  contextReader { guid := lit "L" } BrokerRegistry.steadyEnv
    { cenv := { isBrokerCert := fun _ => false, maxConnectCount := 0 }, guid := lit "g",
      sendOk := true, others := fun _ _ => 0 } (fun _ _ _ => false) 0

/-- PINGREQ, and DISCONNECT cut in two. -/
theorem webSocketReader_cutsOk :
    Commands {} [[0xc0, 0, 0xe0], [0]].flatten ∧
      webSocketReader.CutsOk { conn := webSocketClient } [[0xc0, 0, 0xe0], [0]] := by
  have hstream : Commands {} [[0xc0, 0, 0xe0], [0]].flatten := by
    refine ⟨by decide, fun p rest h => ?_⟩
    cases h
    refine ⟨by decide, fun p rest h => ?_⟩
    cases h
    exact ⟨by decide, fun p rest h => by cases h⟩
  exact ⟨hstream, (webSocketReader.agrees_iff_cutsOk webSocketClient _ hstream).mp
    ⟨by decide, by decide⟩⟩

/-- DISCONNECT and PINGREQ in one buffer: the PINGREQ is handed over after the connection was
closed. -/
theorem webSocketReader_goes_on :
    (webSocketReader.socket { conn := webSocketClient } [0xe0, 0, 0xc0, 0]).handled =
        [(0xe0, [])] ∧
      ([[0xe0, 0, 0xc0, 0]].foldl webSocketReader.receive { conn := webSocketClient }).closedAt =
        some 1 ∧
      ([[0xe0, 0, 0xc0, 0]].foldl webSocketReader.receive { conn := webSocketClient }).handled =
        [(0xe0, []), (0xc0, [])] := by
  decide

end MqttBroker

end DxlBroker
