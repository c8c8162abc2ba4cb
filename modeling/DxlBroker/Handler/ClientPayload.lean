import DxlBroker.Handler.RequestOutcome

/-!
# The payload for listed clients

A client gets an event for listed clients without the list.  The stripped bytes are made for the first
client that the routing handler lets through, and kept beside the full payload, also when a later
handler denies that client; the context of the message remembers that they were made.
-/

namespace DxlBroker

open Bytes Msgpack Unordered

/-- A message in the store (`mosquitto_msg_store`), with the flag of its context and the payload for
listed clients. -/
structure MsgStore where
  sm : StoredMessage
  clientSpecificMessageGenerated : Bool := false
  clientPayload : Option Bytes := none

/-- An entry of a packet queue (`mosquitto_client_msg`). -/
structure ClientMsg where
  target : InsertTarget
  clientMessage : Bool

/-- The client payload becomes the one that was made, if there is one. -/
def MsgStore.setClientPayload (stored : MsgStore) (clientMessage : Option Bytes) : MsgStore :=
  { stored with clientPayload := clientMessage.or stored.clientPayload }

/-- What the insert handlers report of a destination. -/
structure InsertReport where
  success : Bool
  isClientMessageEnabled : Bool := false
  clientMessage : Option Bytes := none

/-- A message while it is inserted: its store, the entries that were made for it, and the broker. -/
structure InsertDb where
  stored : MsgStore
  queued : List ClientMsg := []
  core : BrokerCore

section

variable (settings : BrokerSettings) (env : HandlerEnv)

/-- Only generate the client specific message once. -/
def generateClientMessage (stored : MsgStore) : Except String (Option Bytes) × MsgStore :=
  match stored.sm.message with
  | none => (.ok none, stored)
  | some m =>
      if stored.clientSpecificMessageGenerated then (.ok none, stored)
      else
        let res := m.toBytes env.codec env.fieldOrder true
        let stored := { stored with sm := { stored.sm with message := some res.1 } }
        match res.2 with
        | some bytes => (.ok (some bytes), { stored with clientSpecificMessageGenerated := true })
        | none => (.error "Error converting message to bytes", stored)

/-- `CoreMessageHandlerService::onInsertMessage`, with the client message. -/
def onInsertClientMessage (attempt : InsertAttempt) (stored : MsgStore) (core : BrokerCore) :
    InsertReport × MsgStore × BrokerCore :=
  if !stored.sm.ctx.messageInsertEnabled then ({ success := false }, stored, core)
  else
    let res := messageRoutingHandler settings env.registryEnv stored.sm.ctx stored.sm.message
      attempt.target ⟨stored.sm.nextBrokerGuids, core.registry⟩
    let stored := { stored with sm := { stored.sm with nextBrokerGuids := res.2.nextBrokerGuids } }
    let core := { core with registry := res.2.registry }
    match res.1 with
    | .reject => ({ success := false }, stored, core)
    | .insert isClientMessageEnabled =>
        let gen := if isClientMessageEnabled then generateClientMessage env stored
          else (.ok none, stored)
        match gen.1 with
        | .error _ => (⟨false, isClientMessageEnabled, none⟩, gen.2, core)
        | .ok clientMessage =>
            (⟨attempt.authorized, isClientMessageEnabled, clientMessage⟩,
              if attempt.authorized then
                { gen.2 with sm := { gen.2.sm with
                    ctx := { gen.2.sm.ctx with destCount := gen.2.sm.ctx.destCount + 1 } } }
              else gen.2, core)

/-- `mqtt3_db_message_insert`: a client message that was made is stored whether the handlers let the
destination have the message or not. -/
def dbMessageInsert (db : InsertDb) (attempt : InsertAttempt) : InsertDb :=
  let res := if attempt.packetQueueExceeded then
    onPreInsertPacketQueueExceeded settings env attempt.target.isBridge db.stored.sm db.core
    else (false, db.stored.sm, db.core)
  let db := { db with stored := { db.stored with sm := res.2.1 }, core := res.2.2 }
  if res.1 || attempt.dropped then db
  else
    let ins := onInsertClientMessage settings env attempt db.stored db.core
    { stored := ins.2.1.setClientPayload ins.1.clientMessage
      queued := if ins.1.success then
          db.queued ++ [⟨attempt.target, ins.1.isClientMessageEnabled⟩]
        else db.queued
      core := ins.2.2 }

/-- The destinations of a message in turn. -/
def dbMessagesInsert (attempts : List InsertAttempt) (db : InsertDb) : InsertDb :=
  attempts.foldl (dbMessageInsert settings env) db

/-- The payload that `mqtt3_db_message_write` sends for an entry. -/
def MsgStore.writtenPayload (stored : MsgStore) (msg : ClientMsg) : Option Bytes :=
  if msg.clientMessage then stored.clientPayload else some stored.sm.payload

/-- An event for listed clients. -/
def StoredMessage.hasListedClients (sm : StoredMessage) : Bool :=
  sm.message.any fun m => m.getDestinationClientGuids.isSome && m.isEventMessage

/-- The encoding of a message without its list of clients. -/
def strippedBytes (m : DxlMessage) : Option Bytes :=
  dxlMessageToBytes env.codec ((m.onPreToBytes env.fieldOrder).msg.strip true) false

end

/-! ### The message stays -/

section

variable {settings : BrokerSettings} {env : HandlerEnv}

theorem dxlMessageToBytes_strip (c : Codec) (m : DxlMessageT) :
    dxlMessageToBytes c (m.strip true) false = dxlMessageToBytes c m true := by
  unfold dxlMessageToBytes
  rfl

theorem toBytes_stripped (m : DxlMessage) :
    (m.toBytes env.codec env.fieldOrder true).2 = strippedBytes env m :=
  (dxlMessageToBytes_strip env.codec _).symm

theorem onPreToBytes_not_pending (order : IterOrder (Bytes × Bytes)) (m : DxlMessage) :
    (m.onPreToBytes order).otherFieldsPending = false := by
  unfold DxlMessage.onPreToBytes
  split
  · split
    · split <;> rfl
    · rfl
  · simpa using ‹¬m.otherFieldsPending = true›

theorem onPreToBytes_of_not_pending {order : IterOrder (Bytes × Bytes)} {m : DxlMessage}
    (h : m.otherFieldsPending = false) : m.onPreToBytes order = m := by
  rw [DxlMessage.onPreToBytes, if_neg (by simp [h])]

/-- The stored message: only its other fields may have been written back. -/
structure SamePayload (env : HandlerEnv) (sm sm' : StoredMessage) : Prop where
  payload : sm'.payload = sm.payload
  message : sm'.message = sm.message ∨
    sm'.message = sm.message.map (DxlMessage.onPreToBytes env.fieldOrder)

theorem SamePayload.strippedBytes {sm sm' : StoredMessage} (h : SamePayload env sm sm')
    {m' : DxlMessage} (hm' : sm'.message = some m') :
    ∃ m, sm.message = some m ∧ strippedBytes env m' = strippedBytes env m ∧
      m'.onPreToBytes env.fieldOrder = m.onPreToBytes env.fieldOrder := by
  rcases h.message with hsame | hpre
  · exact ⟨m', hsame ▸ hm', rfl, rfl⟩
  · rw [hm'] at hpre
    obtain ⟨m, hm, rfl⟩ := Option.map_eq_some_iff.mp hpre.symm
    have htwice : (m.onPreToBytes env.fieldOrder).onPreToBytes env.fieldOrder =
        m.onPreToBytes env.fieldOrder :=
      onPreToBytes_of_not_pending (onPreToBytes_not_pending env.fieldOrder m)
    exact ⟨m, hm, by rw [DxlBroker.strippedBytes, htwice]; rfl, htwice⟩

theorem SamePayload.hasListedClients {sm sm' : StoredMessage} (h : SamePayload env sm sm') :
    sm'.hasListedClients = sm.hasListedClients := by
  rcases h.message with hsame | hpre
  · rw [StoredMessage.hasListedClients, hsame, StoredMessage.hasListedClients]
  · rw [StoredMessage.hasListedClients, hpre, StoredMessage.hasListedClients]
    cases sm.message with
    | none => rfl
    | some m =>
      obtain ⟨fields, hfields⟩ := m.onPreToBytes_msg env.fieldOrder
      rw [Option.map_some, Option.any_some, Option.any_some, DxlMessage.getDestinationClientGuids,
        DxlMessage.isEventMessage, hfields]
      rfl

/-! ### One destination -/

/-- What the insert handlers do to the store of a message. -/
structure HandlersRan (env : HandlerEnv) (sm : StoredMessage) (target : InsertTarget)
    (stored : MsgStore) (report : InsertReport) (stored' : MsgStore) : Prop where
  same : SamePayload env sm stored'.sm
  clientPayload : stored'.clientPayload = stored.clientPayload
  generated : stored'.clientSpecificMessageGenerated =
    (stored.clientSpecificMessageGenerated || report.clientMessage.isSome)
  clientMessage : ∀ bytes, report.clientMessage = some bytes →
    ∃ m, sm.message = some m ∧ strippedBytes env m = some bytes
  enabled : report.success = true →
    report.isClientMessageEnabled = (!target.isBridge && sm.hasListedClients)
  marked : report.success = true → report.isClientMessageEnabled = true →
    stored'.clientSpecificMessageGenerated = true

/-- The routing handler makes an entry for a client message exactly for a client and an event for
listed clients. -/
theorem messageRoutingHandler_insert {ctx : CoreMessageContext} {message : Option DxlMessage}
    {t : InsertTarget} {st : InsertState} {clientMessage : Bool}
    (h : (messageRoutingHandler settings env.registryEnv ctx message t st).1 =
      .insert clientMessage) :
    clientMessage = (!t.isBridge && message.any fun m =>
      m.getDestinationClientGuids.isSome && m.isEventMessage) := by
  unfold messageRoutingHandler at h
  cases message with
  | none =>
    simp only at h
    split at h
    · cases h
    · cases h
      simp
  | some m =>
    simp only at h
    split at h
    · rename_i hbridge
      split at h <;> cases h
      simp [hbridge]
    · rename_i hclient
      split at h <;> cases h
      simp [hclient]

/-- The client message is made once, and is the encoding without the list. -/
theorem handlersRan_generate {sm : StoredMessage} {stored : MsgStore} {target : InsertTarget}
    (hsame : SamePayload env sm stored.sm) (hbridge : target.isBridge = false)
    (hlisted : sm.hasListedClients = true) {success : Bool} :
    match generateClientMessage env stored with
    | (.error _, stored') => HandlersRan env sm target stored ⟨false, true, none⟩ stored'
    | (.ok clientMessage, stored') =>
        HandlersRan env sm target stored ⟨success, true, clientMessage⟩ stored' := by
  have henabled : true = (!target.isBridge && sm.hasListedClients) := by
    rw [hbridge, hlisted]
    rfl
  cases hm : stored.sm.message with
  | none =>
    rw [← hsame.hasListedClients, StoredMessage.hasListedClients, hm] at hlisted
    cases hlisted
  | some m' =>
    obtain ⟨m, hmessage, hbytes, hpre⟩ := hsame.strippedBytes hm
    have hsame' : SamePayload env sm { stored.sm with
        message := some (m'.toBytes env.codec env.fieldOrder true).1 } :=
      ⟨hsame.payload, .inr (by rw [hmessage]; exact congrArg some hpre)⟩
    -- The client message was made for an earlier destination, or is made now.
    cases hgenerated : stored.clientSpecificMessageGenerated with
    | true =>
      have hgen : generateClientMessage env stored = (.ok none, stored) := by
        unfold generateClientMessage
        rw [hm]
        exact if_pos hgenerated
      rw [hgen]
      exact ⟨hsame, rfl, by simp, nofun, fun _ => henabled, fun _ _ => hgenerated⟩
    | false =>
      cases hres : (m'.toBytes env.codec env.fieldOrder true).2 with
      | none =>
        have hgen : generateClientMessage env stored =
            (.error "Error converting message to bytes", { stored with sm := { stored.sm with
              message := some (m'.toBytes env.codec env.fieldOrder true).1 } }) := by
          unfold generateClientMessage
          simp only [hm, hgenerated, Bool.false_eq_true, if_false, hres]
        rw [hgen]
        exact ⟨hsame', rfl, by simp, nofun, nofun, nofun⟩
      | some bytes =>
        have hgen : generateClientMessage env stored =
            (.ok (some bytes), { stored with
              sm := { stored.sm with
                message := some (m'.toBytes env.codec env.fieldOrder true).1 }
              clientSpecificMessageGenerated := true }) := by
          unfold generateClientMessage
          simp only [hm, hgenerated, Bool.false_eq_true, if_false, hres]
        rw [hgen]
        refine ⟨hsame', rfl, by simp, ?_, fun _ => henabled, fun _ _ => rfl⟩
        rintro _ ⟨⟩
        exact ⟨m, hmessage, by rw [← hbytes, ← toBytes_stripped, hres]⟩

theorem handlersRan_onInsertClientMessage {sm : StoredMessage} {stored : MsgStore}
    (hsame : SamePayload env sm stored.sm) (attempt : InsertAttempt) (core : BrokerCore) :
    HandlersRan env sm attempt.target stored
      (onInsertClientMessage settings env attempt stored core).1
      (onInsertClientMessage settings env attempt stored core).2.1 := by
  unfold onInsertClientMessage
  split
  · exact ⟨hsame, rfl, by simp, nofun, nofun, nofun⟩
  · simp only
    split
    · exact ⟨⟨hsame.payload, hsame.message⟩, rfl, by simp, nofun, nofun, nofun⟩
    · rename_i isClientMessageEnabled hroute
      have henabled := messageRoutingHandler_insert hroute
      rw [← StoredMessage.hasListedClients, hsame.hasListedClients] at henabled
      cases isClientMessageEnabled with
      | false =>
        simp only [Bool.false_eq_true, if_false]
        refine ⟨?_, ?_, ?_, nofun, fun _ => henabled, nofun⟩
        · split <;> exact ⟨hsame.payload, hsame.message⟩
        · split <;> rfl
        · split <;> simp
      | true =>
        rw [eq_comm, Bool.and_eq_true, Bool.not_eq_true'] at henabled
        have hgen := @handlersRan_generate env sm { stored with sm := { stored.sm with
          nextBrokerGuids := (messageRoutingHandler settings env.registryEnv stored.sm.ctx
            stored.sm.message attempt.target ⟨stored.sm.nextBrokerGuids, core.registry⟩).2.nextBrokerGuids } }
          attempt.target ⟨hsame.payload, hsame.message⟩ henabled.1 henabled.2 attempt.authorized
        simp only [if_true]
        generalize generateClientMessage env _ = gen at hgen ⊢
        obtain ⟨_ | clientMessage, stored'⟩ := gen
        · exact ⟨hgen.same, hgen.clientPayload, hgen.generated, hgen.clientMessage, hgen.enabled,
            hgen.marked⟩
        · simp only
          refine ⟨?_, ?_, ?_, hgen.clientMessage, hgen.enabled, fun hsuccess hmarked => ?_⟩
          · split
            · exact ⟨hgen.same.payload, hgen.same.message⟩
            · exact hgen.same
          · split <;> exact hgen.clientPayload
          · split <;> exact hgen.generated
          · rw [if_pos hsuccess]
            exact hgen.marked hsuccess hmarked

/-- The check of the packet queue leaves payload and message alone. -/
theorem onPreInsertPacketQueueExceeded_same {isBridge : Bool} {sm : StoredMessage}
    {core : BrokerCore} :
    (onPreInsertPacketQueueExceeded settings env isBridge sm core).2.1.payload = sm.payload ∧
      (onPreInsertPacketQueueExceeded settings env isBridge sm core).2.1.message = sm.message := by
  unfold onPreInsertPacketQueueExceeded
  split
  · exact ⟨rfl, rfl⟩
  · split
    · exact ⟨rfl, rfl⟩
    · split <;> exact ⟨rfl, rfl⟩

/-! ### The decisions -/

/-- A message as it is stored: its other fields are written back, and its payload is there. -/
def StoredMessage.IsEncodable (sm : StoredMessage) : Prop :=
  ∀ m, sm.message = some m → m.otherFieldsPending = false ∧ ∃ payload, m.msg.payload = .buf payload

/-- The decision that a report stands for. -/
def InsertReport.decision (report : InsertReport) : InsertDecision :=
  if report.success then .insert report.isClientMessageEnabled else .reject

/-- Making the client message leaves an encodable message as it is. -/
theorem generateClientMessage_of_encodable {stored : MsgStore} (h : stored.sm.IsEncodable) :
    ∃ clientMessage, (generateClientMessage env stored).1 = .ok clientMessage ∧
      (generateClientMessage env stored).2.sm = stored.sm := by
  unfold generateClientMessage
  cases hm : stored.sm.message with
  | none => exact ⟨none, rfl, rfl⟩
  | some m =>
    obtain ⟨hpending, payload, hpayload⟩ := h m hm
    simp only
    split
    · exact ⟨none, rfl, rfl⟩
    · have hpre : (m.toBytes env.codec env.fieldOrder true).1 = m :=
        onPreToBytes_of_not_pending hpending
      have hbytes : (m.toBytes env.codec env.fieldOrder true).2 =
          dxlMessageToBytes env.codec m.msg true := by
        rw [DxlMessage.toBytes, onPreToBytes_of_not_pending hpending]
      rw [hpre, hbytes, dxlMessageToBytes, hpayload]
      exact ⟨_, rfl, by rw [← hm]⟩

theorem onInsertClientMessage_decision {stored : MsgStore} (h : stored.sm.IsEncodable)
    (attempt : InsertAttempt) (core : BrokerCore) :
    ((onInsertClientMessage settings env attempt stored core).1.decision,
      (onInsertClientMessage settings env attempt stored core).2.1.sm,
      (onInsertClientMessage settings env attempt stored core).2.2) =
    onInsertMessage settings env attempt stored.sm core := by
  unfold onInsertClientMessage onInsertMessage
  split
  · rfl
  · simp only
    generalize messageRoutingHandler settings env.registryEnv _ _ _ _ = route
    obtain ⟨_ | isClientMessageEnabled, st⟩ := route
    · rfl
    · obtain ⟨clientMessage, hok, hsm⟩ : ∃ clientMessage,
          (if isClientMessageEnabled then generateClientMessage env
              { stored with sm := { stored.sm with nextBrokerGuids := st.nextBrokerGuids } }
            else (.ok none,
              { stored with sm := { stored.sm with nextBrokerGuids := st.nextBrokerGuids } })).1 =
            .ok clientMessage ∧
          (if isClientMessageEnabled then generateClientMessage env
              { stored with sm := { stored.sm with nextBrokerGuids := st.nextBrokerGuids } }
            else (.ok none,
              { stored with sm := { stored.sm with nextBrokerGuids := st.nextBrokerGuids } })).2.sm =
            { stored.sm with nextBrokerGuids := st.nextBrokerGuids } := by
        split
        · exact @generateClientMessage_of_encodable env
            { stored with sm := { stored.sm with nextBrokerGuids := st.nextBrokerGuids } } h
        · exact ⟨none, rfl, rfl⟩
      simp only [hok]
      cases attempt.authorized with
      | true =>
        simp only [if_true, hsm]
        rfl
      | false =>
        simp only [Bool.false_eq_true, if_false, hsm]
        rfl

/-- The decisions for a stored message, and what becomes of it, are those of `insertMessage`. -/
theorem dbMessageInsert_decision {db : InsertDb} (h : db.stored.sm.IsEncodable)
    (attempt : InsertAttempt) :
    (dbMessageInsert settings env db attempt).stored.sm =
      (insertMessage settings env attempt db.stored.sm db.core).2.1 ∧
    (dbMessageInsert settings env db attempt).core =
      (insertMessage settings env attempt db.stored.sm db.core).2.2 ∧
    (dbMessageInsert settings env db attempt).queued = db.queued ++
      match (insertMessage settings env attempt db.stored.sm db.core).1 with
      | .reject => []
      | .insert clientMessage => [⟨attempt.target, clientMessage⟩] := by
  -- The check of the packet queue may change the context of the message, not what is encoded.
  have hencodable : (if attempt.packetQueueExceeded then
      onPreInsertPacketQueueExceeded settings env attempt.target.isBridge db.stored.sm db.core
      else (false, db.stored.sm, db.core)).2.1.IsEncodable := by
    split
    · intro m hm
      rw [onPreInsertPacketQueueExceeded_same.2] at hm
      exact h m hm
    · exact h
  unfold dbMessageInsert insertMessage
  generalize (if attempt.packetQueueExceeded then
    onPreInsertPacketQueueExceeded settings env attempt.target.isBridge db.stored.sm db.core
    else (false, db.stored.sm, db.core)) = res at hencodable ⊢
  simp only
  split
  · exact ⟨rfl, rfl, (List.append_nil _).symm⟩
  · rw [← @onInsertClientMessage_decision settings env { db.stored with sm := res.2.1 } hencodable]
    refine ⟨rfl, rfl, ?_⟩
    simp only [InsertReport.decision]
    split <;> simp

/-! ### All destinations -/

/-- What holds while a message is inserted: the payload for listed clients is there once it was made,
and before there is an entry for it. -/
structure ClientPayloadInv (env : HandlerEnv) (sm : StoredMessage) (db : InsertDb) : Prop where
  same : SamePayload env sm db.stored.sm
  generated : db.stored.clientSpecificMessageGenerated = true →
    ∃ m bytes, sm.message = some m ∧ strippedBytes env m = some bytes ∧
      db.stored.clientPayload = some bytes
  entries : ∀ msg ∈ db.queued, msg.clientMessage = (!msg.target.isBridge && sm.hasListedClients)
  marked : ∀ msg ∈ db.queued, msg.clientMessage = true →
    db.stored.clientSpecificMessageGenerated = true

/-- After the handlers, the payload is stored and an entry made for a destination that they let
through. -/
theorem ClientPayloadInv.handlersRan {sm sm' : StoredMessage} {db : InsertDb}
    (h : ClientPayloadInv env sm db) {target : InsertTarget} {report : InsertReport}
    {stored' : MsgStore} (hran : HandlersRan env sm target { db.stored with sm := sm' } report stored')
    (core : BrokerCore) :
    ClientPayloadInv env sm
      { stored := stored'.setClientPayload report.clientMessage
        queued := if report.success then
            db.queued ++ [⟨target, report.isClientMessageEnabled⟩] else db.queued
        core := core } := by
  have hmono : db.stored.clientSpecificMessageGenerated = true →
      stored'.clientSpecificMessageGenerated = true := by
    intro hold
    rw [hran.generated]
    exact (congrArg (· || report.clientMessage.isSome) hold).trans (Bool.true_or _)
  have hqueued : ∀ msg, msg ∈ (if report.success then
      db.queued ++ [⟨target, report.isClientMessageEnabled⟩] else db.queued) →
      msg ∈ db.queued ∨ report.success = true ∧ msg = ⟨target, report.isClientMessageEnabled⟩ := by
    intro msg hmsg
    split at hmsg
    · rename_i hsuccess
      exact (List.mem_append.mp hmsg).imp_right fun hnew => ⟨hsuccess, List.mem_singleton.mp hnew⟩
    · exact .inl hmsg
  refine ⟨hran.same, fun hflag => ?_, fun msg hmsg => ?_, fun msg hmsg hmarked => ?_⟩
  · cases hclient : report.clientMessage with
    | some bytes =>
      obtain ⟨m, hm, hbytes⟩ := hran.clientMessage bytes hclient
      exact ⟨m, bytes, hm, hbytes, rfl⟩
    | none =>
      -- No payload was made this time, so the one made earlier is still there.
      have hold := hran.generated.symm.trans hflag
      rw [hclient, Option.isSome_none, Bool.or_false] at hold
      obtain ⟨m, bytes, hm, hbytes, hpayload⟩ := h.generated hold
      exact ⟨m, bytes, hm, hbytes, hran.clientPayload.trans hpayload⟩
  · rcases hqueued msg hmsg with hold | ⟨hsuccess, rfl⟩
    · exact h.entries msg hold
    · exact hran.enabled hsuccess
  · rcases hqueued msg hmsg with hold | ⟨hsuccess, rfl⟩
    · exact hmono (h.marked msg hold hmarked)
    · exact hran.marked hsuccess hmarked

theorem ClientPayloadInv.dbMessageInsert {sm : StoredMessage} {db : InsertDb}
    (h : ClientPayloadInv env sm db) (attempt : InsertAttempt) :
    ClientPayloadInv env sm (dbMessageInsert settings env db attempt) := by
  have hsame : SamePayload env sm (if attempt.packetQueueExceeded then
      onPreInsertPacketQueueExceeded settings env attempt.target.isBridge db.stored.sm db.core
      else (false, db.stored.sm, db.core)).2.1 := by
    split
    · obtain ⟨hpayload, hmessage⟩ := @onPreInsertPacketQueueExceeded_same settings env
        attempt.target.isBridge db.stored.sm db.core
      exact ⟨hpayload.trans h.same.payload, hmessage ▸ h.same.message⟩
    · exact h.same
  unfold DxlBroker.dbMessageInsert
  generalize (if attempt.packetQueueExceeded then
    onPreInsertPacketQueueExceeded settings env attempt.target.isBridge db.stored.sm db.core
    else (false, db.stored.sm, db.core)) = res at hsame ⊢
  simp only
  split
  · exact ⟨hsame, h.generated, h.entries, h.marked⟩
  · exact h.handlersRan (handlersRan_onInsertClientMessage hsame attempt _) _

theorem ClientPayloadInv.dbMessagesInsert {sm : StoredMessage} (attempts : List InsertAttempt)
    {db : InsertDb} (h : ClientPayloadInv env sm db) :
    ClientPayloadInv env sm (dbMessagesInsert settings env attempts db) := by
  induction attempts generalizing db with
  | nil => exact h
  | cons attempt attempts ih => exact ih (h.dbMessageInsert attempt)

/-- The entries for listed clients are those of clients for an event with a list.  They are written
with the encoding of the event without its list, and every other entry, in particular that of a
bridge, with the payload as it was stored. -/
theorem writtenPayload_dbMessagesInsert (attempts : List InsertAttempt) (sm : StoredMessage)
    (core : BrokerCore) :
    (dbMessagesInsert settings env attempts ⟨⟨sm, false, none⟩, [], core⟩).stored.sm.payload =
      sm.payload ∧
    ∀ msg ∈ (dbMessagesInsert settings env attempts ⟨⟨sm, false, none⟩, [], core⟩).queued,
      (msg.clientMessage = true ↔ msg.target.isBridge = false ∧ sm.hasListedClients = true) ∧
      (msg.clientMessage = true → ∃ m bytes, sm.message = some m ∧
        strippedBytes env m = some bytes ∧
        (dbMessagesInsert settings env attempts
          ⟨⟨sm, false, none⟩, [], core⟩).stored.writtenPayload msg = some bytes) ∧
      (msg.clientMessage = false →
        (dbMessagesInsert settings env attempts
          ⟨⟨sm, false, none⟩, [], core⟩).stored.writtenPayload msg = some sm.payload) := by
  have hinv : ClientPayloadInv env sm (dbMessagesInsert settings env attempts
      ⟨⟨sm, false, none⟩, [], core⟩) :=
    .dbMessagesInsert attempts ⟨⟨rfl, .inl rfl⟩, nofun, nofun, nofun⟩
  refine ⟨hinv.same.payload, fun msg hmsg => ⟨?_, fun hmarked => ?_, fun hplain => ?_⟩⟩
  · rw [hinv.entries msg hmsg, Bool.and_eq_true, Bool.not_eq_true']
  · obtain ⟨m, bytes, hm, hbytes, hpayload⟩ := hinv.generated (hinv.marked msg hmsg hmarked)
    exact ⟨m, bytes, hm, hbytes, by rw [MsgStore.writtenPayload, if_pos hmarked, hpayload]⟩
  · rw [MsgStore.writtenPayload, if_neg (by simp [hplain]), hinv.same.payload]

end

end DxlBroker
