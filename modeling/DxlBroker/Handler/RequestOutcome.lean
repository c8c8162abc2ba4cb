import DxlBroker.Handler.StoreEffects

/-!
# The outcome of a request

A request that is stored goes to the subscribers of its topic, one after the other.  When none of
them gets it, its sender gets one error: that there is no service, or that the service is overloaded.
The second one is sent for every subscriber with a full packet queue, before it is known whether the
request is for that subscriber at all.
-/

namespace DxlBroker

open Bytes Unordered

/-- The handlers of requests that the broker answers itself, and for which no service is needed. -/
def TopicHandler.answersItself : TopicHandler → Bool
  | .query .clientRegistry | .query .brokerHealth | .query .brokerSubs => true
  | _ => false

section

variable (settings : BrokerSettings) (env : HandlerEnv)

/-- The topics of these requests. -/
def answersItself (topic : Bytes) : Bool :=
  (topicHandler settings topic).any TopicHandler.answersItself

/-- A fabric error for a request: no service was found, or it is overloaded. -/
def IsFabricError (request : DxlMessage) (own : OwnMessage) : Prop :=
  own ∈ env.sendServiceNotFoundErrorMessage settings request [] ∨
    own ∈ env.sendServiceOverloadedErrorMessage settings request []

/-- The answer of the broker to a query. -/
def IsAnswer (own : OwnMessage) : Prop :=
  ∃ request payload, own ∈ env.sendMessage (DxlMessage.getReplyToTopic request)
    ((env.createResponse settings request).setPayload payload) []

def InsertDecision.inserts : InsertDecision → Bool
  | .insert _ => true
  | .reject => false

/-- The message is offered to the subscribers in turn: how many queues got it. -/
def insertMessages : List InsertAttempt → StoredMessage → BrokerCore →
    ℕ × StoredMessage × BrokerCore
  | [], sm, core => (0, sm, core)
  | attempt :: attempts, sm, core =>
      let res := insertMessage settings env attempt sm core
      let rest := insertMessages attempts res.2.1 res.2.2
      ((if res.1.inserts then 1 else 0) + rest.1, rest.2)

/-- A subscriber whose packet queue is full, and not overridden. -/
def InsertAttempt.isFull (sm : StoredMessage) (attempt : InsertAttempt) : Bool :=
  attempt.packetQueueExceeded && !overridesPacketQueue attempt.target.isBridge sm

/-- The number of these subscribers. -/
def numFull (sm : StoredMessage) (attempts : List InsertAttempt) : ℕ :=
  attempts.countP (InsertAttempt.isFull sm)

end

/-! ### Sending -/

section

variable {settings : BrokerSettings} {env : HandlerEnv} {m : DxlMessage}

theorem sendMessage_eq_append (channel : Bytes) (m : DxlMessage) (outbox : List OwnMessage) :
    env.sendMessage channel m outbox = outbox ++ env.sendMessage channel m [] := by
  unfold MessageEnv.sendMessage
  cases (m.toBytes env.codec env.fieldOrder false).2 with
  | none => exact (List.append_nil outbox).symm
  | some bytes => rfl

/-- An error for a request is one message. -/
theorem length_sendError (request : DxlMessage) (code : UInt32) :
    (env.sendError settings request code []).length = 1 := by
  obtain ⟨hmade, -⟩ := @MessageEnv.createErrorResponse_spec settings env.toMessageEnv request code
    (getMessage code)
  obtain ⟨bytes, fields, hsend, -⟩ := MessageEnv.sendMessage_spec hmade request.getReplyToTopic []
  unfold MessageEnv.sendError
  rw [hsend]
  rfl

/-! ### One subscriber -/

/-- What stays of a message while it is offered. -/
structure SameStored (sm sm' : StoredMessage) : Prop where
  message : sm'.message = sm.message
  topic : sm'.ctx.topic = sm.ctx.topic
  insertEnabled : sm'.ctx.messageInsertEnabled = sm.ctx.messageInsertEnabled
  contextFlags : sm'.ctx.contextFlags = sm.ctx.contextFlags

theorem SameStored.refl (sm : StoredMessage) : SameStored sm sm := ⟨rfl, rfl, rfl, rfl⟩

theorem SameStored.trans {a b c : StoredMessage} (hab : SameStored a b) (hbc : SameStored b c) :
    SameStored a c :=
  ⟨hbc.message.trans hab.message, hbc.topic.trans hab.topic,
    hbc.insertEnabled.trans hab.insertEnabled, hbc.contextFlags.trans hab.contextFlags⟩

theorem SameStored.isFull {sm sm' : StoredMessage} (h : SameStored sm sm') :
    InsertAttempt.isFull sm' = InsertAttempt.isFull sm := by
  funext attempt
  unfold InsertAttempt.isFull overridesPacketQueue
  rw [h.message, h.topic]

/-- A subscriber with a full queue: the request is rejected, and an overloaded error sent. -/
theorem insertMessage_full {sm : StoredMessage} {core : BrokerCore} {attempt : InsertAttempt}
    (hm : sm.message = some m) (hrequest : m.isRequestMessage = true)
    (hfull : attempt.isFull sm = true) :
    insertMessage settings env attempt sm core =
      (.reject, { sm with ctx := { sm.ctx with serviceNotFoundEnabled := false } },
        { core with outbox := env.sendServiceOverloadedErrorMessage settings m core.outbox }) := by
  rw [InsertAttempt.isFull, Bool.and_eq_true, Bool.not_eq_true'] at hfull
  unfold insertMessage onPreInsertPacketQueueExceeded
  simp only [hfull.1, if_true, hfull.2, Bool.false_eq_true, if_false, hm, hrequest, Bool.true_or]

/-- What an insert attempt changes when nothing is sent. -/
structure Offered (sm : StoredMessage) (core : BrokerCore)
    (res : InsertDecision × StoredMessage × BrokerCore) : Prop where
  same : SameStored sm res.2.1
  notFoundEnabled : res.2.1.ctx.serviceNotFoundEnabled = sm.ctx.serviceNotFoundEnabled
  destCount : res.2.1.ctx.destCount = sm.ctx.destCount + if res.1.inserts then 1 else 0
  outbox : res.2.2.outbox = core.outbox

theorem offered_onInsertMessage {sm : StoredMessage} {core : BrokerCore} {attempt : InsertAttempt} :
    Offered sm core (onInsertMessage settings env attempt sm core) := by
  unfold onInsertMessage
  split
  · exact ⟨⟨rfl, rfl, rfl, rfl⟩, rfl, rfl, rfl⟩
  · simp only
    split
    · exact ⟨⟨rfl, rfl, rfl, rfl⟩, rfl, rfl, rfl⟩
    · split <;> exact ⟨⟨rfl, rfl, rfl, rfl⟩, rfl, rfl, rfl⟩

/-- Another subscriber: nothing is sent, and a destination is counted. -/
theorem offered_insertMessage {sm : StoredMessage} {core : BrokerCore} {attempt : InsertAttempt}
    (hfull : attempt.isFull sm = false) :
    Offered sm core (insertMessage settings env attempt sm core) := by
  have hnot : (if attempt.packetQueueExceeded then
      onPreInsertPacketQueueExceeded settings env attempt.target.isBridge sm core
      else (false, sm, core)) = (false, sm, core) := by
    unfold onPreInsertPacketQueueExceeded
    unfold InsertAttempt.isFull at hfull
    split_ifs with hexceeded hoverrides
    · rfl
    · simp [hexceeded, hoverrides] at hfull
    · rfl
  unfold insertMessage
  rw [hnot]
  simp only [Bool.false_or]
  split
  · exact ⟨⟨rfl, rfl, rfl, rfl⟩, rfl, rfl, rfl⟩
  · exact offered_onInsertMessage

/-- A message stays the same, whatever it is. -/
theorem sameStored_insertMessage {sm : StoredMessage} {core : BrokerCore}
    {attempt : InsertAttempt} :
    SameStored sm (insertMessage settings env attempt sm core).2.1 := by
  cases hfull : attempt.isFull sm with
  | false => exact (offered_insertMessage hfull).same
  | true =>
    rw [InsertAttempt.isFull, Bool.and_eq_true, Bool.not_eq_true'] at hfull
    have hpre : SameStored sm (onPreInsertPacketQueueExceeded settings env attempt.target.isBridge
        sm core).2.1 ∧ (onPreInsertPacketQueueExceeded settings env attempt.target.isBridge sm
        core).1 = true := by
      unfold onPreInsertPacketQueueExceeded
      rw [if_neg (by simp [hfull.2])]
      split
      · exact ⟨.refl sm, rfl⟩
      · split <;> exact ⟨⟨rfl, rfl, rfl, rfl⟩, rfl⟩
    unfold insertMessage
    simp only [hfull.1, if_true, hpre.2, Bool.true_or]
    exact hpre.1

theorem sameStored_insertMessages (attempts : List InsertAttempt) (sm : StoredMessage)
    (core : BrokerCore) : SameStored sm (insertMessages settings env attempts sm core).2.1 := by
  induction attempts generalizing sm core with
  | nil => exact .refl sm
  | cons attempt attempts ih => exact sameStored_insertMessage.trans (ih _ _)

/-! ### All subscribers -/

/-- What the subscribers of a request come to: one error was sent for every full one. -/
structure OfferedAll (settings : BrokerSettings) (env : HandlerEnv) (m : DxlMessage) (full : ℕ)
    (sm : StoredMessage) (core : BrokerCore) (res : ℕ × StoredMessage × BrokerCore) : Prop where
  same : SameStored sm res.2.1
  notFoundEnabled : res.2.1.ctx.serviceNotFoundEnabled =
    (sm.ctx.serviceNotFoundEnabled && full == 0)
  destCount : res.2.1.ctx.destCount = sm.ctx.destCount + res.1
  errors : ∃ errors, res.2.2.outbox = core.outbox ++ errors ∧
    (∀ e ∈ errors, IsFabricError settings env m e) ∧ errors.length = full

theorem offeredAll_insertMessages {attempts : List InsertAttempt}
    {sm : StoredMessage} {core : BrokerCore} (hm : sm.message = some m)
    (hrequest : m.isRequestMessage = true) :
    OfferedAll settings env m (numFull sm attempts) sm core
      (insertMessages settings env attempts sm core) := by
  induction attempts generalizing sm core with
  | nil =>
    refine ⟨.refl _, ?_, rfl, [], ?_, nofun, rfl⟩
    · simp [insertMessages, numFull]
    · simp [insertMessages]
  | cons attempt attempts ih =>
    have hcount : numFull sm (attempt :: attempts) = numFull sm attempts +
        if attempt.isFull sm then 1 else 0 := List.countP_cons
    unfold insertMessages
    simp only
    rw [hcount]
    cases hfull : attempt.isFull sm with
    | true =>
      rw [insertMessage_full hm hrequest hfull]
      simp only
      -- The rest goes on with the not found error disabled.
      have hsame : SameStored sm
          { sm with ctx := { sm.ctx with serviceNotFoundEnabled := false } } := ⟨rfl, rfl, rfl, rfl⟩
      obtain ⟨hsame', hnotFound, hdest, errors, houtbox, herrors, hlength⟩ := @ih
        { sm with ctx := { sm.ctx with serviceNotFoundEnabled := false } }
        { core with outbox := env.sendServiceOverloadedErrorMessage settings m core.outbox } hm
      refine ⟨hsame.trans hsame', ?_, ?_,
        env.sendServiceOverloadedErrorMessage settings m [] ++ errors, ?_, fun e he => ?_, ?_⟩
      · rw [hnotFound]
        simp
      · rw [hdest]
        simp [InsertDecision.inserts]
      · rw [houtbox, ← List.append_assoc]
        exact congrArg (· ++ errors) (sendMessage_eq_append _ _ core.outbox)
      · rcases List.mem_append.mp he with he | he
        · exact .inr he
        · exact herrors e he
      · have hone : (env.sendServiceOverloadedErrorMessage settings m []).length = 1 :=
          length_sendError m fabricServiceOverloaded
        have hnum : numFull { sm with ctx := { sm.ctx with serviceNotFoundEnabled := false } }
            attempts = numFull sm attempts := by
          unfold numFull
          rw [hsame.isFull]
        rw [List.length_append, hone, hlength, hnum]
        simp [Nat.add_comm]
    | false =>
      obtain ⟨hsame, hnotFound, hdest, houtbox⟩ :=
        @offered_insertMessage settings env sm core attempt hfull
      generalize insertMessage settings env attempt sm core = res at *
      have hnum : numFull res.2.1 attempts = numFull sm attempts := by
        unfold numFull
        rw [hsame.isFull]
      obtain ⟨hsame', hnotFound', hdest', errors, houtbox', herrors, hlength⟩ :=
        @ih res.2.1 res.2.2 (hsame.message.trans hm)
      refine ⟨hsame.trans hsame', ?_, ?_, errors, ?_, herrors, ?_⟩
      · rw [hnotFound', hnotFound, hnum]
        simp
      · rw [hdest', hdest]
        omega
      · rw [houtbox', houtbox]
      · rw [hlength, hnum]
        simp

/-! ### The end of a request -/

/-- The errors for a request that was stored, over all subscribers and up to its end. -/
theorem request_errors {attempts : List InsertAttempt}
    {sm : StoredMessage} {core : BrokerCore} (hm : sm.message = some m)
    (hrequest : m.isRequestMessage = true) (hinsert : sm.ctx.messageInsertEnabled = true)
    (hdest : sm.ctx.destCount = 0) (subscriberNotFoundPayload : Bytes → Bytes) :
    ∃ errors, (onFinalizeMessage settings env subscriberNotFoundPayload
        (insertMessages settings env attempts sm core).2.1
        (insertMessages settings env attempts sm core).2.2).outbox = core.outbox ++ errors ∧
      (∀ e ∈ errors, IsFabricError settings env m e) ∧
      errors.length = numFull sm attempts +
        if sm.ctx.serviceNotFoundEnabled = true ∧ numFull sm attempts = 0 ∧
          (insertMessages settings env attempts sm core).1 = 0 then 1 else 0 := by
  obtain ⟨hsame, hnotFound, hcount, errors, houtbox, herrors, hlength⟩ :=
    @offeredAll_insertMessages settings env m attempts sm core hm hrequest
  generalize insertMessages settings env attempts sm core = res at *
  have hm' : res.2.1.message = some m := hsame.message.trans hm
  have hevent := (DxlMessage.not_other_of_isRequestMessage hrequest).1
  have hfinal : onFinalizeMessage settings env subscriberNotFoundPayload res.2.1 res.2.2 =
      noRequestDestinationHandler settings env res.2.1 res.2.2 := by
    unfold onFinalizeMessage noEventDestinationHandler
    rw [hm']
    simp [hevent]
  rw [hfinal]
  unfold noRequestDestinationHandler
  rw [hm']
  simp only [hnotFound, hcount, hdest, hsame.insertEnabled, hinsert, hrequest, Bool.and_true,
    Nat.zero_add]
  split_ifs with hsend hcond hcond
  · refine ⟨errors ++ env.sendServiceNotFoundErrorMessage settings m [], ?_, fun e he => ?_, ?_⟩
    · simp only [MessageEnv.sendServiceNotFoundErrorMessage, MessageEnv.sendError]
      rw [sendMessage_eq_append, houtbox, List.append_assoc]
    · rcases List.mem_append.mp he with he | he
      · exact herrors e he
      · exact .inl he
    · have hone : (env.sendServiceNotFoundErrorMessage settings m []).length = 1 :=
        length_sendError m fabricServiceUnavailable
      rw [List.length_append, hone, hlength]
  · simp only [Bool.and_eq_true, beq_iff_eq] at hsend
    exact absurd ⟨hsend.1.1, hsend.1.2, hsend.2⟩ hcond
  · simp [hcond] at hsend
  · exact ⟨errors, houtbox, herrors, hlength⟩

/-! ### Storing a request -/

/-- What a handler does with a request that goes on. -/
structure RequestHandled (settings : BrokerSettings) (env : HandlerEnv) (answersItself : Bool)
    (st : StoreState) (res : Except String Bool × StoreState) : Prop where
  message : res.2.message = st.message
  ctx : res.2.ctx = if answersItself then st.disableServiceNotFound.ctx else st.ctx
  answers : res.1 = .ok true → ∃ answers, res.2.core.outbox = st.core.outbox ++ answers ∧
    ∀ e ∈ answers, IsAnswer settings env e

theorem getDxlRequest_eq {st : StoreState} (hm : st.message = some m)
    (hrequest : m.isRequestMessage = true) : st.getDxlRequest = .ok m := by
  unfold StoreState.getDxlRequest StoreState.getDxlMessage
  simp [hm, hrequest, bind, Except.bind, pure, Except.pure]

theorem getDxlEvent_error {st : StoreState} (hm : st.message = some m)
    (hrequest : m.isRequestMessage = true) :
    st.getDxlEvent = .error "Message payload is not a DXL event" := by
  have hevent := (DxlMessage.not_other_of_isRequestMessage hrequest).1
  unfold StoreState.getDxlEvent StoreState.getDxlMessage
  simp [hm, hevent, bind, Except.bind, throw, throwThe, MonadExceptOf.throw]

/-- A handler that leaves everything as it is. -/
theorem requestHandled_same {st : StoreState} {res : Except String Bool} :
    RequestHandled settings env false st (res, st) :=
  ⟨rfl, rfl, fun _ => ⟨[], (List.append_nil _).symm, nofun⟩⟩

/-- A handler after which the request does not go on. -/
theorem requestHandled_stop {st : StoreState} {res : Except String Bool × StoreState}
    (hmessage : res.2.message = st.message) (hctx : res.2.ctx = st.ctx)
    (hstop : res.1 = .ok false) :
    RequestHandled settings env false st res :=
  ⟨hmessage, hctx, fun hgoes => by cases hgoes.symm.trans hstop⟩

theorem requestHandled_answerQuery {st : StoreState} (kind : Query) (request : DxlMessage)
    (f : Bool → Bool) :
    RequestHandled settings env false st
      ((answerQuery settings env kind request st).1.map f,
        (answerQuery settings env kind request st).2) := by
  unfold answerQuery
  split
  · exact requestHandled_same
  · exact requestHandled_same
  · rename_i payload _
    refine ⟨rfl, rfl, fun _ => ⟨_, sendMessage_eq_append _ _ _, fun e he => ?_⟩⟩
    exact ⟨request, payload, he⟩

theorem requestHandled_directed {st : StoreState} (hm : st.message = some m)
    (hrequest : m.isRequestMessage = true) (kind : Query) (propagate : DxlMessage → Bool → Bool) :
    RequestHandled settings env false st
      (directedQueryHandler settings env kind propagate st) := by
  unfold directedQueryHandler
  rw [getDxlRequest_eq hm hrequest]
  simp only
  split_ifs
  · exact requestHandled_same
  · exact requestHandled_answerQuery kind m _

theorem requestHandled_broadcast {st : StoreState} (hm : st.message = some m)
    (hrequest : m.isRequestMessage = true) (kind : Query) (propagate : Bool) :
    RequestHandled settings env false st
      (broadcastQueryHandler settings env kind propagate st) := by
  unfold broadcastQueryHandler
  rw [getDxlRequest_eq hm hrequest]
  exact requestHandled_answerQuery kind m fun _ => propagate

/-- The not found error is disabled first. -/
theorem RequestHandled.disabled {st : StoreState} {res : Except String Bool × StoreState}
    (h : RequestHandled settings env false st.disableServiceNotFound res) :
    RequestHandled settings env true st res :=
  ⟨h.message, h.ctx, h.answers⟩

theorem requestHandled_query {st : StoreState} (hm : st.message = some m)
    (hrequest : m.isRequestMessage = true) (kind : Query) :
    RequestHandled settings env (TopicHandler.answersItself (.query kind)) st
      (queryHandler settings env kind st) := by
  have hm' : st.disableServiceNotFound.message = some m := hm
  cases kind with
  | clientRegistry =>
    exact (requestHandled_directed hm' hrequest .clientRegistry _).disabled
  | brokerHealth => exact (requestHandled_broadcast hm' hrequest .brokerHealth true).disabled
  | brokerSubs =>
    simp only [queryHandler, getDxlRequest_eq hm hrequest]
    exact (requestHandled_broadcast hm' hrequest .brokerSubs true).disabled
  | brokerRegistry => exact requestHandled_directed hm hrequest .brokerRegistry _
  | brokerTopics => exact requestHandled_directed hm hrequest .brokerTopics _
  | serviceRegistry => exact requestHandled_directed hm hrequest .serviceRegistry _
  | testMode => exact requestHandled_broadcast hm hrequest .testMode false

/-- A registration changes neither the message nor its context. -/
theorem registerAndRespond_keeps_message {st : StoreState} (request : DxlMessage)
    (reg : ServiceRegistration) :
    (registerAndRespond settings env request reg st).message = st.message ∧
      (registerAndRespond settings env request reg st).ctx = st.ctx := by
  unfold registerAndRespond
  split
  · split <;> exact ⟨rfl, rfl⟩
  · exact ⟨rfl, rfl⟩

theorem requestHandled_topic {st : StoreState} (hm : st.message = some m)
    (hrequest : m.isRequestMessage = true) (handler : TopicHandler) :
    RequestHandled settings env handler.answersItself st
      (handler.onStoreMessage settings env st) := by
  have hevent := getDxlEvent_error hm hrequest
  cases handler with
  | query kind => exact requestHandled_query hm hrequest kind
  | brokerEvent event =>
    simp only [TopicHandler.onStoreMessage, brokerEventHandler, hevent]
    split
    · exact requestHandled_same
    · exact ⟨rfl, rfl, fun _ => ⟨[], (List.append_nil _).symm, nofun⟩⟩
  | clientConnectEvent =>
    simp only [TopicHandler.onStoreMessage, clientConnectEventHandler]
    split <;> exact requestHandled_same
  | fabricChangeEvent =>
    simp only [TopicHandler.onStoreMessage, fabricChangeEventHandler, hevent]
    exact requestHandled_same
  | serviceRegisterEvent =>
    simp only [TopicHandler.onStoreMessage, serviceRegisterEventHandler, hevent]
    split <;> exact requestHandled_same
  | serviceUnregisterEvent =>
    simp only [TopicHandler.onStoreMessage, serviceUnregisterEventHandler, hevent]
    split <;> exact requestHandled_same
  | tenantExceedsLimitEvent =>
    simp only [TopicHandler.onStoreMessage, tenantExceedsLimitEventHandler, hevent]
    split <;> exact requestHandled_same
  | tenantLimitResetEvent =>
    simp only [TopicHandler.onStoreMessage, tenantLimitResetEventHandler, hevent]
    split <;> exact requestHandled_same
  | revocationListEvent =>
    simp only [TopicHandler.onStoreMessage, revocationListEventHandler, hevent]
    split <;> exact requestHandled_same
  | serviceRegisterRequest =>
    simp only [TopicHandler.onStoreMessage, serviceRegisterRequestHandler]
    split
    · exact requestHandled_same
    · exact requestHandled_stop (registerAndRespond_keeps_message _ _).1
        (registerAndRespond_keeps_message _ _).2 rfl
  | serviceUnregisterRequest =>
    simp only [TopicHandler.onStoreMessage, serviceUnregisterRequestHandler]
    split
    · exact requestHandled_same
    · exact requestHandled_stop rfl rfl rfl

theorem findServiceForTopics_outbox (tenantGuid : Bytes) (topics : List Bytes)
    {core : BrokerCore} :
    (core.findServiceForTopics settings env.toServiceEnv tenantGuid topics).2.outbox =
      core.outbox := by
  induction topics generalizing core with
  | nil => rfl
  | cons topic topics ih =>
    unfold BrokerCore.findServiceForTopics
    simp only
    split_ifs
    · rfl
    · exact ih

theorem isRequestMessage_routeTo (reg : ServiceRegistration) (m : DxlMessage) :
    (m.routeTo reg).isRequestMessage = m.isRequestMessage := by
  unfold DxlMessage.isRequestMessage DxlMessageT.messageType DxlMessage.routeTo
  show (SpecificData.messageType (DxlMessage.setDestinationServiceId _ _).msg.specificData == _) = _
  simp only [DxlMessage.setDestinationServiceId, DxlMessage.setDestinationClientGuid,
    DxlMessage.setDestinationBrokerGuid]
  cases m.msg.specificData <;> rfl

/-- The lookup of a request that goes on sends nothing. -/
theorem serviceLookupHandler_request {st : StoreState} (hm : st.message = some m)
    (hrequest : m.isRequestMessage = true)
    (hfound : (serviceLookupHandler settings env.toServiceEnv st).1 = true) :
    (serviceLookupHandler settings env.toServiceEnv st).2.ctx = st.ctx ∧
      (serviceLookupHandler settings env.toServiceEnv st).2.core.outbox = st.core.outbox ∧
      ∃ m', (serviceLookupHandler settings env.toServiceEnv st).2.message = some m' ∧
        m'.isRequestMessage = true := by
  have hother := DxlMessage.not_other_of_isRequestMessage hrequest
  unfold serviceLookupHandler at hfound ⊢
  rw [hm] at hfound ⊢
  simp only [hrequest, hother.1, hother.2, Bool.and_false, Bool.false_and, Bool.true_and,
    Bool.false_eq_true, if_false] at hfound ⊢
  split at hfound
  · rename_i hclient
    rw [if_pos hclient]
    have houtbox : (lookupService settings env.toServiceEnv st.ctx m st.core).2.outbox =
        st.core.outbox := by
      unfold lookupService
      split_ifs
      · exact findServiceForTopics_outbox _ _
      · rfl
    unfold handleRequest at hfound ⊢
    split at hfound
    · rename_i hrouted
      rw [if_pos hrouted]
      exact ⟨rfl, rfl, m, hm, hrequest⟩
    · rename_i hrouted
      rw [if_neg hrouted]
      simp only at hfound ⊢
      cases hservice : (lookupService settings env.toServiceEnv st.ctx m st.core).1 with
      | none =>
        rw [hservice] at hfound
        cases hfound
      | some reg =>
        exact ⟨rfl, houtbox, m.routeTo reg, rfl, (isRequestMessage_routeTo reg m).trans hrequest⟩
  · rename_i hclient
    rw [if_neg hclient]
    exact ⟨rfl, rfl, m, hm, hrequest⟩

/-- A message that is not a request does not become one. -/
theorem serviceLookupHandler_message {st : StoreState}
    (hrequest : ∀ m, st.message = some m → m.isRequestMessage = false) :
    (serviceLookupHandler settings env.toServiceEnv st).2.message = st.message := by
  unfold serviceLookupHandler
  cases hm : st.message with
  | none => exact hm
  | some m =>
    simp only [hrequest m hm, Bool.false_and, Bool.false_eq_true, if_false]
    split
    · unfold handleEvent
      simp only
      split <;> exact hm
    · split
      · unfold handleErrorResponse
        split
        · split
          · exact hm
          · split <;> exact hm
        · exact hm
      · exact hm

/-- What no handler of a topic changes. -/
structure HandlerKeeps (st st' : StoreState) : Prop where
  message : st'.message = st.message
  insertEnabled : st'.ctx.messageInsertEnabled = st.ctx.messageInsertEnabled
  contextFlags : st'.ctx.contextFlags = st.ctx.contextFlags

theorem handlerKeeps_query {st : StoreState} (kind : Query) :
    HandlerKeeps st (queryHandler settings env kind st).2 := by
  obtain ⟨st₀, hst₀, hanswer⟩ := @answered_query settings env kind st
  have hfirst : HandlerKeeps st st₀ := by rcases hst₀ with rfl | rfl <;> exact ⟨rfl, rfl, rfl⟩
  rcases hanswer with hsame | ⟨request, payload, hsame⟩
  · rw [hsame]
    exact hfirst
  · rw [hsame]
    exact ⟨hfirst.message, hfirst.insertEnabled, hfirst.contextFlags⟩

theorem handlerKeeps_topic {st : StoreState} (handler : TopicHandler) :
    HandlerKeeps st (handler.onStoreMessage settings env st).2 := by
  cases handler with
  | query kind => exact handlerKeeps_query kind
  | serviceRegisterRequest =>
    simp only [TopicHandler.onStoreMessage, serviceRegisterRequestHandler]
    split
    · exact ⟨rfl, rfl, rfl⟩
    · obtain ⟨hmessage, hctx⟩ := @registerAndRespond_keeps_message settings env st _ _
      exact ⟨hmessage, congrArg CoreMessageContext.messageInsertEnabled hctx,
        congrArg CoreMessageContext.contextFlags hctx⟩
  | serviceUnregisterRequest =>
    simp only [TopicHandler.onStoreMessage, serviceUnregisterRequestHandler]
    split <;> exact ⟨rfl, rfl, rfl⟩
  | brokerEvent event =>
    simp only [TopicHandler.onStoreMessage, brokerEventHandler]
    split <;> exact ⟨rfl, rfl, rfl⟩
  | clientConnectEvent =>
    simp only [TopicHandler.onStoreMessage, clientConnectEventHandler]
    split <;> exact ⟨rfl, rfl, rfl⟩
  | fabricChangeEvent =>
    simp only [TopicHandler.onStoreMessage, fabricChangeEventHandler]
    split <;> exact ⟨rfl, rfl, rfl⟩
  | serviceRegisterEvent =>
    simp only [TopicHandler.onStoreMessage, serviceRegisterEventHandler]
    split
    · exact ⟨rfl, rfl, rfl⟩
    · split
      · exact ⟨rfl, rfl, rfl⟩
      · split <;> exact ⟨rfl, rfl, rfl⟩
  | serviceUnregisterEvent =>
    simp only [TopicHandler.onStoreMessage, serviceUnregisterEventHandler]
    split
    · exact ⟨rfl, rfl, rfl⟩
    · split <;> exact ⟨rfl, rfl, rfl⟩
  | tenantExceedsLimitEvent =>
    simp only [TopicHandler.onStoreMessage, tenantExceedsLimitEventHandler]
    split
    · exact ⟨rfl, rfl, rfl⟩
    · split
      · exact ⟨rfl, rfl, rfl⟩
      · dsimp only
        split <;> exact ⟨rfl, rfl, rfl⟩
  | tenantLimitResetEvent =>
    simp only [TopicHandler.onStoreMessage, tenantLimitResetEventHandler]
    split
    · exact ⟨rfl, rfl, rfl⟩
    · split <;> exact ⟨rfl, rfl, rfl⟩
  | revocationListEvent =>
    simp only [TopicHandler.onStoreMessage, revocationListEventHandler]
    split
    · exact ⟨rfl, rfl, rfl⟩
    · split <;> exact ⟨rfl, rfl, rfl⟩

/-- What is stored of a request that goes on, and what was sent until then. -/
structure StoredRequest (settings : BrokerSettings) (env : HandlerEnv)
    (ctx ctx' : CoreMessageContext) (core core' : BrokerCore) : Prop where
  topic : ctx'.topic = ctx.topic
  destCount : ctx'.destCount = ctx.destCount
  notFoundEnabled : ctx'.serviceNotFoundEnabled =
    (ctx.serviceNotFoundEnabled && !answersItself settings ctx.topic)
  answers : ∃ answers, core'.outbox = core.outbox ++ answers ∧
    ∀ e ∈ answers, IsAnswer settings env e

theorem fireOnStoreMessage_request {st : StoreState} (hm : st.message = some m)
    (hrequest : m.isRequestMessage = true) {handler : TopicHandler}
    (hhandler : topicHandler settings st.ctx.topic = some handler)
    (hok : (fireOnStoreMessage settings env handler st).1 = .ok ())
    (hinsert : (fireOnStoreMessage settings env handler st).2.ctx.messageInsertEnabled = true) :
    StoredRequest settings env st.ctx (fireOnStoreMessage settings env handler st).2.ctx st.core
      (fireOnStoreMessage settings env handler st).2.core := by
  obtain ⟨-, hctx, hanswers⟩ := @requestHandled_topic settings env m st hm hrequest handler
  have hitself : answersItself settings st.ctx.topic = handler.answersItself := by
    unfold answersItself
    rw [hhandler]
    rfl
  unfold fireOnStoreMessage at hok hinsert ⊢
  split at hinsert
  · cases hinsert
  · rename_i hbridge
    rw [if_neg hbridge] at hok ⊢
    simp only at hok hinsert ⊢
    generalize handler.onStoreMessage settings env st = res at *
    obtain ⟨result, st'⟩ := res
    cases result with
    | error e => cases hok
    | ok go =>
      cases go with
      | false => cases hinsert
      | true =>
        simp only at hctx ⊢
        rw [hctx]
        split
        · rename_i hanswers'
          exact ⟨rfl, rfl, by simp [hitself, hanswers', StoreState.disableServiceNotFound],
            hanswers rfl⟩
        · rename_i hanswers'
          exact ⟨rfl, rfl, by simp [hitself, hanswers'], hanswers rfl⟩

/-- A message that is not inserted stays so. -/
theorem fireOnStoreMessage_disabled {st : StoreState} (handler : TopicHandler)
    (hinsert : st.ctx.messageInsertEnabled = false) :
    (fireOnStoreMessage settings env handler st).2.ctx.messageInsertEnabled = false := by
  have hkeeps := @handlerKeeps_topic settings env st handler
  unfold fireOnStoreMessage
  split
  · rfl
  · simp only
    split
    · exact hkeeps.insertEnabled.trans hinsert
    · exact hkeeps.insertEnabled.trans hinsert
    · rfl

theorem runStoreHandlers_request {st : StoreState} (hm : st.message = some m)
    (hrequest : m.isRequestMessage = true) (hok : (runStoreHandlers settings env st).1 = .ok ())
    (hinsert : (runStoreHandlers settings env st).2.ctx.messageInsertEnabled = true) :
    StoredRequest settings env st.ctx (runStoreHandlers settings env st).2.ctx st.core
      (runStoreHandlers settings env st).2.core := by
  have hlookup := @serviceLookupHandler_request settings env m st hm hrequest
  unfold runStoreHandlers at hok hinsert ⊢
  simp only at hok hinsert ⊢
  generalize serviceLookupHandler settings env.toServiceEnv st = res at *
  cases hfound : res.1 with
  | true =>
    obtain ⟨hctx, houtbox, m', hm', hrequest'⟩ := hlookup hfound
    simp only [hfound, if_true] at hok hinsert ⊢
    cases hhandler : topicHandler settings res.2.ctx.topic with
    | some handler =>
      simp only [hhandler] at hok hinsert ⊢
      obtain ⟨htopic, hdest, hnotFound, answers, hsent, hanswers⟩ :=
        fireOnStoreMessage_request hm' hrequest' hhandler hok hinsert
      rw [hctx] at htopic hdest hnotFound
      exact ⟨htopic, hdest, hnotFound, answers, houtbox ▸ hsent, hanswers⟩
    | none =>
      simp only [hhandler] at hinsert ⊢
      have hitself : answersItself settings st.ctx.topic = false := by
        unfold answersItself
        rw [← hctx, hhandler]
        rfl
      split at hinsert
      · cases hinsert
      · rename_i hallowed
        rw [if_neg hallowed, hctx]
        exact ⟨rfl, rfl, by simp [hitself], [], by rw [houtbox, List.append_nil], nofun⟩
  | false =>
    -- Without a service the request is not inserted.
    have hdisabled : res.2.disableInsert.ctx.messageInsertEnabled = false := rfl
    simp only [hfound, Bool.false_eq_true, if_false] at hinsert
    cases hhandler : topicHandler settings res.2.disableInsert.ctx.topic with
    | some handler =>
      simp only [hhandler] at hinsert
      cases hinsert.symm.trans (fireOnStoreMessage_disabled handler hdisabled)
    | none =>
      simp only [hhandler] at hinsert
      split at hinsert <;> cases hinsert

/-- The handler of a topic changes neither the message nor the flags of the sender. -/
theorem fireOnStoreMessage_keeps_message {st : StoreState} (handler : TopicHandler) :
    (fireOnStoreMessage settings env handler st).2.message = st.message ∧
      (fireOnStoreMessage settings env handler st).2.ctx.contextFlags = st.ctx.contextFlags := by
  obtain ⟨hmessage, -, hflags⟩ := @handlerKeeps_topic settings env st handler
  unfold fireOnStoreMessage
  split
  · exact ⟨rfl, rfl⟩
  · simp only
    split <;> exact ⟨hmessage, hflags⟩

/-- After the lookup, the handlers leave the message and the sender's flags. -/
theorem runStoreHandlers_keeps_message (st : StoreState) :
    (runStoreHandlers settings env st).2.message = (lookedUp settings env st).message ∧
      (runStoreHandlers settings env st).2.ctx.contextFlags =
        (lookedUp settings env st).ctx.contextFlags := by
  rw [runStoreHandlers_eq]
  split
  · exact fireOnStoreMessage_keeps_message _
  · dsimp only
    split <;> exact ⟨rfl, rfl⟩

/-- The handlers make no request of another message. -/
theorem runStoreHandlers_message {st : StoreState}
    (hrequest : ∀ m, st.message = some m → m.isRequestMessage = false) :
    (runStoreHandlers settings env st).2.message = st.message := by
  rw [(runStoreHandlers_keeps_message st).1, lookedUp_message]
  exact serviceLookupHandler_message hrequest

/-- A message that is rewritten keeps the data of its kind, and its context if it goes on. -/
theorem rewriteMessage_spec {payload : Bytes} {st : StoreState}
    (hm : (rewriteMessage env payload st).message = some m)
    (hinsert : (rewriteMessage env payload st).ctx.messageInsertEnabled = true) :
    (rewriteMessage env payload st).ctx = st.ctx ∧
      ∃ m', st.message = some m' ∧ m.msg.specificData = m'.msg.specificData := by
  unfold rewriteMessage at hm hinsert ⊢
  cases hmessage : st.message with
  | none =>
    rw [hmessage] at hm
    cases hm
  | some m' =>
    rw [hmessage] at hm hinsert
    obtain ⟨fields, hfields⟩ := m'.onPreToBytes_msg env.fieldOrder
    simp only at hm hinsert ⊢
    split at hinsert
    · rename_i hdirty
      rw [if_pos hdirty] at hm ⊢
      split at hinsert
      · rename_i bytes hbytes
        rw [hbytes] at hm
        refine ⟨rfl, m', rfl, ?_⟩
        cases hm
        show (m'.onPreToBytes env.fieldOrder).msg.specificData = _
        rw [hfields]
      · cases hinsert
    · rename_i hclean
      rw [if_neg hclean] at hm ⊢
      exact ⟨rfl, m', rfl, congrArg (fun m => m.msg.specificData) (Option.some.inj hm).symm⟩

theorem handleStored_request {payload : Bytes} {st : StoreState}
    (hm : (handleStored settings env payload st).1.message = some m)
    (hrequest : m.isRequestMessage = true)
    (hinsert : (handleStored settings env payload st).1.ctx.messageInsertEnabled = true) :
    StoredRequest settings env st.ctx (handleStored settings env payload st).1.ctx st.core
      (handleStored settings env payload st).2 := by
  have hstored := fun m => @runStoreHandlers_request settings env m st
  have hmessage := @runStoreHandlers_message settings env st
  unfold handleStored at hm hinsert ⊢
  simp only at hm hinsert ⊢
  generalize runStoreHandlers settings env st = res at *
  obtain ⟨result, st'⟩ := res
  cases result with
  | error e => cases hinsert
  | ok _ =>
    obtain ⟨hctx, m', hm', hdata⟩ := rewriteMessage_spec hm hinsert
    have hrequest' : m'.isRequestMessage = true := by
      unfold DxlMessage.isRequestMessage DxlMessageT.messageType at hrequest ⊢
      rwa [← hdata]
    simp only at hctx hm' ⊢
    have hinsert' : st'.ctx.messageInsertEnabled = true := hctx ▸ hinsert
    -- The message was a request before.
    obtain ⟨m'', hm'', hrequest''⟩ : ∃ m'', st.message = some m'' ∧
        m''.isRequestMessage = true := by
      by_contra hnone
      have hsame := hmessage fun m'' hm'' => by
        rw [← Bool.not_eq_true]
        exact fun h => hnone ⟨m'', hm'', h⟩
      exact hnone ⟨m', hsame.symm.trans hm', hrequest'⟩
    rw [hctx]
    exact hstored m'' hm'' hrequest'' rfl hinsert'

theorem storeMessage_request {ctx : CoreMessageContext} {sourceTenantGuid payload : Bytes}
    {certChain : Option Bytes} {core : BrokerCore}
    (hm : (storeMessage settings env ctx sourceTenantGuid certChain payload core).1.message =
      some m)
    (hrequest : m.isRequestMessage = true)
    (hinsert : (storeMessage settings env ctx sourceTenantGuid certChain payload
      core).1.ctx.messageInsertEnabled = true) :
    StoredRequest settings env ctx
      (storeMessage settings env ctx sourceTenantGuid certChain payload core).1.ctx core
      (storeMessage settings env ctx sourceTenantGuid certChain payload core).2 := by
  unfold storeMessage at hm hinsert ⊢
  simp only at hm hinsert ⊢
  split at hinsert
  · rename_i herror
    rw [herror] at hm
    exact handleStored_request hm hrequest hinsert
  · rename_i m' hread
    rw [hread] at hm
    simp only at hm hinsert ⊢
    split at hinsert
    · cases hinsert
    · rename_i hreply
      rw [if_neg hreply] at hm ⊢
      have hfields : ∀ res, setDxlMessageFields settings ctx sourceTenantGuid m' certChain = res →
          res.2.1.topic = ctx.topic ∧ res.2.1.destCount = ctx.destCount ∧
            res.2.1.serviceNotFoundEnabled = ctx.serviceNotFoundEnabled := by
        rintro res rfl
        unfold setDxlMessageFields
        split
        · dsimp only
          split <;> exact ⟨rfl, rfl, rfl⟩
        · split
          · split
            · exact ⟨rfl, rfl, rfl⟩
            · split <;> exact ⟨rfl, rfl, rfl⟩
          · exact ⟨rfl, rfl, rfl⟩
      generalize setDxlMessageFields settings ctx sourceTenantGuid m' certChain = res at *
      obtain ⟨htopic, hdest, hnotFound⟩ := hfields res rfl
      split at hinsert
      · rename_i hallowed
        rw [hallowed] at hm
        obtain ⟨htopic', hdest', hnotFound', hanswers⟩ := handleStored_request hm hrequest hinsert
        refine ⟨htopic'.trans htopic, hdest'.trans hdest, ?_, hanswers⟩
        rw [hnotFound', htopic, hnotFound]
      · cases hinsert

/-- A request that is stored and goes on. -/
theorem onStoreMessage_request {source : MessageSource} {topic payload : Bytes}
    {core core' : BrokerCore} {sm : StoredMessage}
    (hstore : onStoreMessage settings env source topic payload core = (some sm, core'))
    (hm : sm.message = some m) (hrequest : m.isRequestMessage = true)
    (hinsert : sm.ctx.messageInsertEnabled = true) :
    sm.ctx.destCount = 0 ∧
      sm.ctx.serviceNotFoundEnabled = !answersItself settings sm.ctx.topic ∧
      ∃ answers, core'.outbox = core.outbox ++ answers ∧
        ∀ e ∈ answers, IsAnswer settings env e := by
  have hfresh : ∀ res, sourceContext settings source topic = .ok res →
      res.1.destCount = 0 ∧ res.1.serviceNotFoundEnabled = true := by
    intro res hres
    unfold sourceContext at hres
    split at hres
    · cases hres
      exact ⟨rfl, rfl⟩
    · split at hres
      · generalize getBridgeBrokerIdFromContext _ _ _ = id at hres
        cases id with
        | error e => cases hres
        | ok id =>
          cases hres
          exact ⟨rfl, rfl⟩
      · cases hres
        exact ⟨rfl, rfl⟩
  unfold onStoreMessage at hstore
  split at hstore
  · cases hstore
  · rename_i ctx sourceTenantGuid certChain hctx
    obtain ⟨hdest, hnotFound⟩ := hfresh _ hctx
    cases hstore
    obtain ⟨htopic', hdest', hnotFound', hanswers⟩ := storeMessage_request hm hrequest hinsert
    refine ⟨hdest'.trans hdest, ?_, hanswers⟩
    rw [hnotFound', hnotFound, htopic', Bool.true_and]

/-! ### The outcome -/

/-- These requests have topics of the broker. -/
theorem startsWith_of_answersItself {topic : Bytes}
    (hitself : answersItself settings topic = true) :
    startsWith dxlBrokerRequestPrefix topic = true := by
  have hall : (topicHandlers settings).all fun entry =>
      !entry.2.answersItself || startsWith dxlBrokerRequestPrefix entry.1 := by
    unfold topicHandlers
    cases settings.testModeEnabled <;> rfl
  unfold answersItself topicHandler at hitself
  cases hfind : (topicHandlers settings).find? fun entry => entry.1 == topic with
  | none =>
    rw [hfind] at hitself
    cases hitself
  | some entry =>
    have htopic : entry.1 = topic := by simpa using List.find?_some hfind
    have hentry := List.all_eq_true.mp hall entry (List.mem_of_find?_eq_some hfind)
    rw [hfind] at hitself
    have hitself' : entry.2.answersItself = true := hitself
    rwa [hitself', htopic] at hentry

/-- For these topics packet queues are overridden. -/
theorem numFull_of_answersItself {sm : StoredMessage}
    (hitself : answersItself settings sm.ctx.topic = true) (attempts : List InsertAttempt) :
    numFull sm attempts = 0 := by
  refine List.countP_eq_zero.mpr fun attempt _ => ?_
  unfold InsertAttempt.isFull overridesPacketQueue
  simp [startsWith_of_answersItself hitself]

/-- **A request that goes on has one outcome.**  If it was inserted into the queue of a destination,
no fabric error is sent for it; if it was inserted into none, one fabric error is sent, unless it is
a query that the broker answers itself.  That is so when no packet queue was full, or when only one
was and no other subscriber got the request. -/
theorem request_outcome {source : MessageSource} {topic payload : Bytes}
    {core core' : BrokerCore} {sm : StoredMessage}
    (hstore : onStoreMessage settings env source topic payload core = (some sm, core'))
    (hm : sm.message = some m) (hrequest : m.isRequestMessage = true)
    (hinsert : sm.ctx.messageInsertEnabled = true) (attempts : List InsertAttempt)
    (hfull : numFull sm attempts = 0 ∨
      numFull sm attempts = 1 ∧ (insertMessages settings env attempts sm core').1 = 0)
    (subscriberNotFoundPayload : Bytes → Bytes) :
    ∃ answers errors, core'.outbox = core.outbox ++ answers ∧
      (onFinalizeMessage settings env subscriberNotFoundPayload
        (insertMessages settings env attempts sm core').2.1
        (insertMessages settings env attempts sm core').2.2).outbox = core'.outbox ++ errors ∧
      (∀ e ∈ answers, IsAnswer settings env e) ∧ (∀ e ∈ errors, IsFabricError settings env m e) ∧
      errors.length ≤ 1 ∧
      (0 < (insertMessages settings env attempts sm core').1 → errors = []) ∧
      ((insertMessages settings env attempts sm core').1 = 0 →
        errors.length = if answersItself settings sm.ctx.topic then 0 else 1) := by
  obtain ⟨hdest, hnotFound, answers, hsent, hanswers⟩ :=
    onStoreMessage_request hstore hm hrequest hinsert
  obtain ⟨errors, houtbox, herrors, hlength⟩ := @request_errors settings env m attempts sm core'
    hm hrequest hinsert hdest subscriberNotFoundPayload
  refine ⟨answers, errors, hsent, houtbox, hanswers, herrors, ?_⟩
  generalize (insertMessages settings env attempts sm core').1 = inserted at *
  rw [hnotFound] at hlength
  cases hitself : answersItself settings sm.ctx.topic with
  | true =>
    have hnone := numFull_of_answersItself hitself attempts
    simp only [hitself, hnone, Bool.not_true, Bool.false_eq_true, false_and, if_false] at hlength
    exact ⟨by omega, fun _ => List.eq_nil_of_length_eq_zero hlength, fun _ => hlength⟩
  | false =>
    simp only [hitself, Bool.not_false, true_and] at hlength
    rcases hfull with hnone | ⟨hone, hzero⟩
    · simp only [hnone, true_and, Nat.zero_add] at hlength
      split_ifs at hlength with hzero
      · exact ⟨by omega, by omega, fun _ => hlength⟩
      · exact ⟨by omega, fun _ => List.eq_nil_of_length_eq_zero hlength, by omega⟩
    · simp only [hone, Nat.one_ne_zero, false_and, if_false] at hlength
      exact ⟨by omega, by omega, fun _ => hlength⟩

end

/-- A request of the client `D`. -/
def strangerRequest : Bytes :=
  (dxlMessageToBytes Msgpack.msgpackC
    { createDxlMessage .request (lit "D") (lit "D") (lit "m") with
      payload := .buf []
      specificData := .requestData (lit "/reply") [] } false).getD []

/-- The request as it is stored for a service on the topic `/s/a`. -/
def strangerStored : StoredMessage × BrokerCore :=
  storeMessage plainSettings (plainHandlerEnv 0 1)
    ⟨lit "D", lit "D", false, 0, lit "/s/a", true, true, 0⟩ [] none strangerRequest
    BrokerCore.plainCore

/-- The client `C` with a full packet queue. -/
def busySubscriber : InsertAttempt where
  target := ⟨lit "C", lit "C", false, 0, []⟩
  packetQueueExceeded := true

/-- The service is overloaded, and that is the only error. -/
theorem request_outcome_busy :
    ∃ m errors, strangerStored.1.message = some m ∧
      (onFinalizeMessage plainSettings (plainHandlerEnv 0 1) id
        (insertMessages plainSettings (plainHandlerEnv 0 1) [busySubscriber] strangerStored.1
          strangerStored.2).2.1
        (insertMessages plainSettings (plainHandlerEnv 0 1) [busySubscriber] strangerStored.1
          strangerStored.2).2.2).outbox = strangerStored.2.outbox ++ errors ∧
      errors.length = 1 ∧ ∀ e ∈ errors, IsFabricError plainSettings (plainHandlerEnv 0 1) m e := by
  have hstore : onStoreMessage plainSettings (plainHandlerEnv 0 1) (.connection stranger none none)
      (lit "/s/a") strangerRequest BrokerCore.plainCore =
        (some strangerStored.1, strangerStored.2) := rfl
  obtain ⟨m, hm, hrequest⟩ : ∃ m, strangerStored.1.message = some m ∧
      m.isRequestMessage = true := by
    refine ⟨strangerStored.1.message.getD ⟨serviceRequest, false, none, false⟩, ?_, ?_⟩
    · rfl
    · decide +kernel
  have hfull : numFull strangerStored.1 [busySubscriber] = 1 := by decide +kernel
  have hnone : (insertMessages plainSettings (plainHandlerEnv 0 1) [busySubscriber]
      strangerStored.1 strangerStored.2).1 = 0 := by decide +kernel
  obtain ⟨answers, errors, -, houtbox, -, herrors, -, -, hone⟩ := request_outcome
    hstore hm hrequest (by decide +kernel) [busySubscriber]
    (.inr ⟨hfull, hnone⟩) id
  have hitself : answersItself plainSettings strangerStored.1.ctx.topic = false := by
    decide +kernel
  refine ⟨m, errors, hm, houtbox, ?_, herrors⟩
  rw [hone hnone, hitself]
  rfl

/-- A broker that answers queries. -/
def answeringEnv : HandlerEnv :=
  { plainHandlerEnv 0 1 with answer := fun _ _ _ => .ok (some []) }

/-- The client asks for the health of the broker. -/
def healthStored : StoredMessage × BrokerCore :=
  storeMessage plainSettings answeringEnv ⟨lit "D", lit "D", false, 0,
    dxlBrokerRequestPrefix ++ lit "broker/health", true, true, 0⟩ [] none strangerRequest {}

/-- The request goes on and no client subscribes to its topic: nobody gets it, and still there is no
error. -/
theorem healthRequest_without_error :
    onStoreMessage plainSettings answeringEnv (.connection stranger none none)
        (dxlBrokerRequestPrefix ++ lit "broker/health") strangerRequest {} =
      (some healthStored.1, healthStored.2) ∧
    healthStored.1.ctx.messageInsertEnabled = true ∧
    (insertMessages plainSettings answeringEnv [] healthStored.1 healthStored.2).1 = 0 ∧
    ∃ m, healthStored.1.message = some m ∧ m.isRequestMessage = true ∧
      ∀ e ∈ (onFinalizeMessage plainSettings answeringEnv id
        (insertMessages plainSettings answeringEnv [] healthStored.1 healthStored.2).2.1
        (insertMessages plainSettings answeringEnv [] healthStored.1 healthStored.2).2.2).outbox,
        ¬ IsFabricError plainSettings answeringEnv m e := by
  refine ⟨rfl, by decide +kernel, rfl,
    healthStored.1.message.getD ⟨serviceRequest, false, none, false⟩, rfl, by decide +kernel, ?_⟩
  unfold IsFabricError
  decide +kernel

end DxlBroker
