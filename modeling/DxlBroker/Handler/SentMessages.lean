import DxlBroker.Handler.RequestOutcome

/-!
# What the handlers send

The messages that a broker puts into its own queue while it stores a message: events of the broker,
replies to a request, and the requests that events are turned into.  A reply that is an error names
the service of its request, as the request is after the service lookup.
-/

namespace DxlBroker

open Bytes Msgpack Unordered

namespace BrokerCore

/-- Only messages of some kind were sent. -/
def Sends (P : OwnMessage → Prop) (core core' : BrokerCore) : Prop :=
  ∃ sent, core'.outbox = core.outbox ++ sent ∧ ∀ p ∈ sent, P p

variable {P Q : OwnMessage → Prop} {a b d : BrokerCore}

theorem Sends.of_eq (houtbox : b.outbox = a.outbox) : Sends P a b :=
  ⟨[], by rw [houtbox, List.append_nil], nofun⟩

theorem Sends.trans (hab : Sends P a b) (hbd : Sends P b d) : Sends P a d := by
  obtain ⟨sent, houtbox, hsent⟩ := hab
  obtain ⟨sent', houtbox', hsent'⟩ := hbd
  refine ⟨sent ++ sent', by rw [houtbox', houtbox, List.append_assoc], fun p hp => ?_⟩
  rcases List.mem_append.mp hp with hp | hp
  · exact hsent p hp
  · exact hsent' p hp

theorem Sends.mono (h : Sends P a b) (himp : ∀ p, P p → Q p) : Sends Q a b := by
  obtain ⟨sent, houtbox, hsent⟩ := h
  exact ⟨sent, houtbox, fun p hp => himp p (hsent p hp)⟩

theorem Announces.sends {c : Codec} (h : Announces c a b) : Sends (OwnEvent c) a b := h

theorem Sends.mem (h : Sends P a b) {p : OwnMessage} (hp : p ∈ b.outbox) : p ∈ a.outbox ∨ P p := by
  obtain ⟨sent, houtbox, hsent⟩ := h
  rw [houtbox] at hp
  exact (List.mem_append.mp hp).imp_right (hsent p)

end BrokerCore

def IsResponse (c : Codec) (p : OwnMessage) : Prop :=
  ReadAs c (fun m => m.messageType = .response) p.2

/-- An error for a request, which names its service. -/
def IsError (c : Codec) (request : DxlMessage) (code : UInt32) (p : OwnMessage) : Prop :=
  ReadAs c (fun m => ∃ id text, m.specificData =
    .responseErrorData id request.getDestinationServiceId text code.toInt32) p.2

/-- The request that an event is turned into, for some service. -/
def IsDerived (settings : BrokerSettings) (c : Codec) (event : DxlMessage)
    (reg : ServiceRegistration) (p : OwnMessage) : Prop :=
  ∃ fields, ReadsBack c p.2 → createDxlMessageFromBytes c p.2 =
    .ok ({ (requestForEvent settings event reg).msg with otherFields := fields } : DxlMessageT).norm

section

variable {settings : BrokerSettings} {env : HandlerEnv}

/-! ### Replies -/

theorem send_response {core : BrokerCore} {response : DxlMessage}
    (hmade : response.Made) (htype : response.msg.messageType = .response) (channel : Bytes) :
    BrokerCore.Sends (IsResponse env.codec) core (core.send env.toServiceEnv channel response) := by
  obtain ⟨bytes, fields, hsend, hdecode⟩ := MessageEnv.sendMessage_spec hmade channel core.outbox
  refine ⟨[(cstr channel, bytes)], hsend, fun p hp hback m hm => ?_⟩
  rw [List.mem_singleton.mp hp] at hback hm
  rw [hdecode hback] at hm
  cases hm
  rw [DxlMessageT.messageType_norm]
  exact htype

theorem send_error {core : BrokerCore} (request : DxlMessage)
    (code : UInt32) (text : Bytes) :
    BrokerCore.Sends (IsError env.codec request code) core
      (core.send env.toServiceEnv request.getReplyToTopic
        (env.createErrorResponse settings request code text)) := by
  obtain ⟨hmade, hdata⟩ := @MessageEnv.createErrorResponse_spec settings env.toMessageEnv request
    code text
  obtain ⟨bytes, fields, hsend, hdecode⟩ := MessageEnv.sendMessage_spec hmade
    request.getReplyToTopic core.outbox
  refine ⟨[_], hsend, fun p hp hback m hm => ?_⟩
  rw [List.mem_singleton.mp hp] at hback hm
  rw [hdecode hback] at hm
  cases hm
  refine ⟨cstr (cstr request.msg.messageId), cstr (cstr text), ?_⟩
  show SpecificData.norm (env.createErrorResponse settings request code text).msg.specificData = _
  rw [hdata, SpecificData.norm, request.cstr_getDestinationServiceId]

/-! ### The handlers of topics -/

/-- The registration that a request asks for is rejected. -/
def RegistrationRejected (settings : BrokerSettings) (env : HandlerEnv) (st : StoreState)
    (request : DxlMessage) : Prop :=
  ∃ payload e core, env.readRegister request.getPayloadStr = .ok payload ∧
    st.core.registerService settings env.toServiceEnv env.newService
      (registrationOf settings env st.ctx request payload) = (.error e, core)

/-- What the handler of a topic may send: events, responses, and errors.  Only a registration that is
rejected makes an error that tells of an unavailable service. -/
def HandlerSent (settings : BrokerSettings) (env : HandlerEnv) (handler : TopicHandler)
    (st : StoreState) (p : OwnMessage) : Prop :=
  OwnEvent env.codec p ∨ IsResponse env.codec p ∨ ∃ request code, st.message = some request ∧
    request.isRequestMessage = true ∧ IsError env.codec request code p ∧
    (code = fabricServiceUnavailable →
      handler = .serviceRegisterRequest ∧ RegistrationRejected settings env st request)

theorem getDxlRequest_ok {st : StoreState} {m : DxlMessage} (h : st.getDxlRequest = .ok m) :
    st.message = some m ∧ m.isRequestMessage = true := by
  unfold StoreState.getDxlRequest StoreState.getDxlMessage at h
  cases hm : st.message with
  | none =>
    rw [hm] at h
    cases h
  | some m' =>
    rw [hm] at h
    cases hrequest : m'.isRequestMessage with
    | true =>
      simp [hrequest, bind, Except.bind, pure, Except.pure] at h
      exact ⟨congrArg some h, h ▸ hrequest⟩
    | false =>
      simp [hrequest, bind, Except.bind, throw, throwThe, MonadExceptOf.throw] at h

theorem queryHandler_sends (kind : Query) (st : StoreState) :
    BrokerCore.Sends (IsResponse env.codec) st.core
      (queryHandler settings env kind st).2.core := by
  obtain ⟨st₀, hst₀, hanswer⟩ := @answered_query settings env kind st
  have hcore : st₀.core = st.core := by rcases hst₀ with rfl | rfl <;> rfl
  rw [← hcore]
  rcases hanswer with hsame | ⟨request, payload, hsame⟩
  · rw [hsame]
    exact .of_eq rfl
  · obtain ⟨hmade, hpayload, htype⟩ := @MessageEnv.createResponse_spec settings env.toMessageEnv
      request
    rw [hsame]
    exact send_response (hmade.setPayload hpayload payload) htype _

theorem except_bind_eq_ok {α β : Type} {x : Except String α} {f : α → Except String β} {b : β}
    (h : x >>= f = .ok b) : ∃ a, x = .ok a ∧ f a = .ok b := by
  cases x with
  | error e => cases h
  | ok a => exact ⟨a, rfl, h⟩

theorem serviceRegisterRequestHandler_sends (st : StoreState) :
    BrokerCore.Sends (HandlerSent settings env .serviceRegisterRequest st) st.core
      (serviceRegisterRequestHandler settings env st).2.core := by
  unfold serviceRegisterRequestHandler
  simp only
  split
  · exact .of_eq rfl
  · rename_i request payload hparsed
    obtain ⟨request', hget, hparsed⟩ := except_bind_eq_ok hparsed
    obtain ⟨-, -, hparsed⟩ := except_bind_eq_ok hparsed
    obtain ⟨payload', hread, hparsed⟩ := except_bind_eq_ok hparsed
    cases hparsed
    obtain ⟨hm, hrequest⟩ := getDxlRequest_ok hget
    simp only
    unfold registerAndRespond
    split
    · split
      · rename_i core hregister
        obtain ⟨hmade, -, htype⟩ := @MessageEnv.createResponse_spec settings env.toMessageEnv
          request
        have hannounce := (BrokerCore.registerService_announces hregister).sends
        exact (hannounce.mono fun p hp => .inl hp).trans
          ((send_response hmade htype _).mono fun p hp => .inr (.inl hp))
      · rename_i e core hregister
        have hrejected : RegistrationRejected settings env st request :=
          ⟨payload, e, core, hread, hregister⟩
        have herror := @send_error settings env st.core request fabricServiceUnavailable (lit e)
        rw [BrokerCore.registerService_error hregister]
        exact herror.mono fun p hp => .inr (.inr ⟨request, _, hm, hrequest, hp,
          fun _ => ⟨rfl, hrejected⟩⟩)
    · have herror := @send_error settings env st.core request fabricServiceLimitExceeded
        (getMessage fabricServiceLimitExceeded)
      have hcode : fabricServiceLimitExceeded ≠ fabricServiceUnavailable := by decide
      exact herror.mono fun p hp => .inr (.inr ⟨request, _, hm, hrequest, hp,
        fun heq => absurd heq hcode⟩)

theorem setOtherField_msg (m : DxlMessage) (name value : Bytes) :
    (m.setOtherField name value).msg = m.msg := by
  unfold DxlMessage.setOtherField DxlMessage.getOtherFields
  split
  · rfl
  · dsimp only
    split <;> rfl

theorem startsWith_brokerStateChannels :
    startsWith dxlBrokerEventPrefix (cstr channelDxlBrokerStateEvent) = true ∧
      startsWith dxlBrokerEventPrefix (cstr channelDxlBrokerStateTopicsEvent) = true := by
  decide

/-- The events with the topics of the local broker. -/
theorem sendTopicsEvents_announces (batches : List (Bytes × Bytes × Bytes))
    (core : BrokerCore) :
    BrokerCore.Announces env.codec core (batches.foldl (fun core batch =>
      core.send env.toServiceEnv channelDxlBrokerStateTopicsEvent
        ((((env.createEvent settings).setOtherField propStartTime batch.2.1).setOtherField
          propChangeCount batch.2.2).setPayload batch.1)) core) := by
  obtain ⟨hmade, hpayload, hevent⟩ := MessageEnv.createEvent_spec settings env.toMessageEnv
  induction batches generalizing core with
  | nil => exact .refl _ core
  | cons batch batches ih =>
    have hmsg : (((env.createEvent settings).setOtherField propStartTime batch.2.1).setOtherField
        propChangeCount batch.2.2).msg = (env.createEvent settings).msg := by
      rw [setOtherField_msg, setOtherField_msg]
    have hmade' : (((env.createEvent settings).setOtherField propStartTime
        batch.2.1).setOtherField propChangeCount batch.2.2).Made := by
      constructor
      · rw [hmsg]
        exact hmade.version
      · rw [hmsg]
        exact hmade.payload
    refine BrokerCore.Announces.trans ?_ (ih _)
    exact BrokerCore.send_announces (hmade'.setPayload (hmsg ▸ hpayload) batch.1)
      ((congrArg DxlMessageT.specificData hmsg).trans hevent) startsWith_brokerStateChannels.2

theorem sendLocalBrokerStateEvent_announces (core : BrokerCore) :
    BrokerCore.Announces env.codec core (core.sendLocalBrokerStateEvent settings env) := by
  obtain ⟨hmade, hpayload, hevent⟩ := MessageEnv.createEvent_spec settings env.toMessageEnv
  have hstate : BrokerCore.Announces env.codec core
      (core.send env.toServiceEnv channelDxlBrokerStateEvent
        ((env.createEvent settings).setPayload (env.brokerStatePayload core.registry))) :=
    BrokerCore.send_announces (hmade.setPayload hpayload _) hevent
      startsWith_brokerStateChannels.1
  unfold BrokerCore.sendLocalBrokerStateEvent
  simp only
  split
  · exact hstate.trans (sendTopicsEvents_announces _ _)
  · exact hstate

theorem onStoreMessage_sends (handler : TopicHandler) (st : StoreState) :
    BrokerCore.Sends (HandlerSent settings env handler st) st.core
      (handler.onStoreMessage settings env st).2.core := by
  have hevents : ∀ {core : BrokerCore}, BrokerCore.Announces env.codec st.core core →
      BrokerCore.Sends (HandlerSent settings env handler st) st.core core := fun h =>
    h.sends.mono fun p hp => .inl hp
  cases handler with
  | query kind => exact (queryHandler_sends kind st).mono fun p hp => .inr (.inl hp)
  | serviceRegisterRequest => exact serviceRegisterRequestHandler_sends st
  | serviceUnregisterRequest =>
    simp only [TopicHandler.onStoreMessage, serviceUnregisterRequestHandler]
    split
    · exact .of_eq rfl
    · rename_i request _ _
      obtain ⟨hmade, -, htype⟩ := @MessageEnv.createResponse_spec settings env.toMessageEnv request
      exact (hevents (BrokerCore.unregisterServiceOf_announces _ _ _ _)).trans
        ((send_response hmade htype _).mono fun p hp => .inr (.inl hp))
  | brokerEvent event =>
    simp only [TopicHandler.onStoreMessage, brokerEventHandler]
    split <;> exact .of_eq rfl
  | clientConnectEvent =>
    simp only [TopicHandler.onStoreMessage, clientConnectEventHandler]
    split <;> exact .of_eq rfl
  | fabricChangeEvent =>
    simp only [TopicHandler.onStoreMessage, fabricChangeEventHandler]
    split
    · exact .of_eq rfl
    · exact hevents ((sendLocalBrokerStateEvent_announces _).trans
        (BrokerCore.sendServiceRegistrationEvents_announces))
  | serviceRegisterEvent =>
    simp only [TopicHandler.onStoreMessage, serviceRegisterEventHandler]
    split
    · exact .of_eq rfl
    · split
      · exact .of_eq rfl
      · split
        · rename_i hregister
          exact hevents (BrokerCore.registerService_announces hregister)
        · rename_i hregister
          exact .of_eq (congrArg BrokerCore.outbox (BrokerCore.registerService_error hregister))
  | serviceUnregisterEvent =>
    simp only [TopicHandler.onStoreMessage, serviceUnregisterEventHandler]
    split
    · exact .of_eq rfl
    · split
      · exact .of_eq rfl
      · exact hevents (BrokerCore.unregisterService_announces _ _)
  | tenantExceedsLimitEvent =>
    simp only [TopicHandler.onStoreMessage, tenantExceedsLimitEventHandler]
    split
    · exact .of_eq rfl
    · split
      · exact .of_eq rfl
      · dsimp only
        split
        · unfold BrokerCore.markTenantExceedsByteCount
          refine .of_eq ?_
          dsimp only
          split <;> rfl
        · exact .of_eq rfl
  | tenantLimitResetEvent =>
    simp only [TopicHandler.onStoreMessage, tenantLimitResetEventHandler]
    split
    · exact .of_eq rfl
    · split <;> exact .of_eq rfl
  | revocationListEvent =>
    simp only [TopicHandler.onStoreMessage, revocationListEventHandler]
    split
    · exact .of_eq rfl
    · split <;> exact .of_eq rfl

/-! ### The service lookup -/

/-- What the service lookup may send: an error for a request that has no service, which names none in
multi-tenant mode, a request for an event, or events. -/
def LookupSent (settings : BrokerSettings) (c : Codec) (st : StoreState)
    (message : Option DxlMessage) (p : OwnMessage) : Prop :=
  OwnEvent c p ∨
  (∃ request, message = some request ∧
    (settings.multiTenantModeEnabled = true → request.getDestinationServiceId = []) ∧
    IsError c request fabricServiceUnavailable p) ∨
  ∃ m reg, st.message = some m ∧ m.isEventMessage = true ∧
    requestPrefix st.core.services st.ctx.topic ≠ [] ∧ (∃ g, st.core.services.findService g = some reg) ∧
      reg.isServiceAvailable settings m.msg.sourceTenantGuid = true ∧ IsDerived settings c m reg p

theorem getDestinationServiceId_cleared (m : DxlMessage) :
    (m.setDestinationServiceId []).getDestinationServiceId = [] := by
  unfold DxlMessage.setDestinationServiceId DxlMessage.getDestinationServiceId
  cases m.msg.specificData <;> rfl

theorem handleRequest_sends {st : StoreState}
    (hindexed : st.core.services.Indexed) (m : DxlMessage) :
    BrokerCore.Sends (LookupSent settings env.codec st
      (handleRequest settings env.toServiceEnv m st).2.message) st.core
      (handleRequest settings env.toServiceEnv m st).2.core := by
  obtain ⟨-, -, houtbox, -⟩ := @lookupService_spec settings env.toServiceEnv st.ctx st.core
    (fun _ => True) hindexed m
  unfold handleRequest
  split
  · exact .of_eq rfl
  · simp only
    split
    · exact .of_eq houtbox
    · simp only
      generalize hm' : (if m.getDestinationServiceId ≠ [] ∧ settings.multiTenantModeEnabled = true
        then m.setDestinationServiceId [] else m) = m'
      have hnone : settings.multiTenantModeEnabled = true → m'.getDestinationServiceId = [] := by
        intro hmode
        rw [← hm']
        split
        · exact getDestinationServiceId_cleared m
        · rename_i hnot
          exact not_not.mp fun hne => hnot ⟨hne, hmode⟩
      obtain ⟨sent, hsent, herrors⟩ := @send_error settings env
        (lookupService settings env.toServiceEnv st.ctx m st.core).2 m' fabricServiceUnavailable
        (getMessage fabricServiceUnavailable)
      refine ⟨sent, hsent.trans (by rw [houtbox]), fun p hp => ?_⟩
      exact .inr (.inl ⟨m', rfl, hnone, herrors p hp⟩)

theorem handleEvent_sends {st : StoreState} {m : DxlMessage}
    (hindexed : st.core.services.Indexed) :
    BrokerCore.Sends (fun p => ∃ reg, requestPrefix st.core.services st.ctx.topic ≠ [] ∧
      (∃ g, st.core.services.findService g = some reg) ∧
      reg.isServiceAvailable settings m.msg.sourceTenantGuid = true ∧
        IsDerived settings env.codec m reg p) st.core
      (handleEvent settings env.toServiceEnv m st).core := by
  unfold handleEvent
  simp only
  split
  · exact .of_eq rfl
  · rename_i hprefix
    unfold BrokerCore.findServiceForTopic
    obtain ⟨-, -, houtbox, hfound⟩ := @BrokerCore.findServiceForTopics_spec (fun _ => True) settings
      env.toServiceEnv st.core hindexed m.msg.sourceTenantGuid
      (cstr (requestPrefix st.core.services st.ctx.topic ++ cstr st.ctx.topic) ::
        wildcardAncestors (requestPrefix st.core.services st.ctx.topic ++ cstr st.ctx.topic))
    simp only
    split
    · exact .of_eq houtbox
    · rename_i reg hreg
      obtain ⟨hfind, havailable⟩ := hfound reg hreg
      have hmade : (requestForEvent settings m reg).Made :=
        DxlMessage.Made.setPayload ⟨rfl, ⟨[], rfl⟩⟩ rfl _
      obtain ⟨bytes, fields, hsend, hdecode⟩ := @MessageEnv.sendMessage_spec env.toMessageEnv _
        hmade (requestPrefix st.core.services st.ctx.topic ++ cstr st.ctx.topic)
        (st.core.findServiceForTopics settings env.toServiceEnv m.msg.sourceTenantGuid
          (cstr (requestPrefix st.core.services st.ctx.topic ++ cstr st.ctx.topic) ::
            wildcardAncestors (requestPrefix st.core.services st.ctx.topic ++
              cstr st.ctx.topic))).2.outbox
      refine ⟨[_], hsend.trans (by rw [houtbox]), fun p hp => ?_⟩
      rw [List.mem_singleton.mp hp]
      exact ⟨reg, hprefix, ⟨_, hfind⟩, havailable, fields, hdecode⟩

theorem serviceLookupHandler_sends {st : StoreState}
    (hindexed : st.core.services.Indexed) :
    BrokerCore.Sends (LookupSent settings env.codec st
      (serviceLookupHandler settings env.toServiceEnv st).2.message) st.core
      (serviceLookupHandler settings env.toServiceEnv st).2.core := by
  unfold serviceLookupHandler
  split
  · exact .of_eq rfl
  · rename_i m hm
    split
    · exact handleRequest_sends hindexed m
    · split
      · rename_i hcond
        simp only [Bool.and_eq_true] at hcond
        exact (handleEvent_sends hindexed).mono fun p ⟨reg, hderived⟩ =>
          .inr (.inr ⟨m, reg, hm, hcond.1.2, hderived⟩)
      · split
        · have hannounce : BrokerCore.Announces env.codec st.core
              (handleErrorResponse settings env.toServiceEnv m st).core := by
            unfold handleErrorResponse
            split
            · split
              · exact .refl _ _
              · split
                · exact BrokerCore.unregisterService_announces _ _
                · exact .refl _ _
            · exact .refl _ _
          exact hannounce.sends.mono fun p hp => .inl hp
        · exact .of_eq rfl

/-! ### Storing -/

/-- The messages that are sent by the service lookup, then by the handler of the topic. -/
theorem runStoreHandlers_sends {st : StoreState}
    (hindexed : st.core.services.Indexed) :
    BrokerCore.Sends (fun p =>
      LookupSent settings env.codec st (lookedUp settings env st).message p ∨
        ∃ handler, topicHandler settings (lookedUp settings env st).ctx.topic = some handler ∧
          HandlerSent settings env handler (lookedUp settings env st) p) st.core
      (runStoreHandlers settings env st).2.core := by
  have hlookup := @serviceLookupHandler_sends settings env st hindexed
  rw [← lookedUp_message, ← lookedUp_core] at hlookup
  refine (hlookup.mono fun p hp => .inl hp).trans ?_
  rw [runStoreHandlers_eq]
  split
  · rename_i handler htopic
    have hhandler := @onStoreMessage_sends settings env handler (lookedUp settings env st)
    have hsent := hhandler.mono fun p hp => (⟨handler, htopic, hp⟩ : ∃ handler,
      topicHandler settings (lookedUp settings env st).ctx.topic = some handler ∧
        HandlerSent settings env handler (lookedUp settings env st) p)
    unfold fireOnStoreMessage
    split
    · exact .of_eq rfl
    · simp only
      split <;> exact hsent.mono fun p hp => .inr hp
  · refine .of_eq ?_
    dsimp only
    split <;> rfl

/-- A message that was read is one that can be sent. -/
theorem fromBytes_ok {c : Codec} {payload : Bytes} {m : DxlMessage}
    (hread : DxlMessage.fromBytes c payload = .ok m) :
    ∃ msg, createDxlMessageFromBytes c payload = .ok msg ∧ m = { msg := msg } ∧ m.Made := by
  unfold DxlMessage.fromBytes at hread
  cases hmsg : createDxlMessageFromBytes c payload with
  | error e =>
    rw [hmsg] at hread
    cases hread
  | ok msg =>
    rw [hmsg] at hread
    cases hread
    obtain ⟨_, -, hdecoded⟩ := fromBytes_spec hmsg
    exact ⟨msg, rfl, rfl, hdecoded.version, hdecoded.payload⟩

/-- How a message comes to the handlers, if it does: without a DXL message, or with a reply-to topic
that is allowed and after the fields were set. -/
def HandlerInput (settings : BrokerSettings) (env : HandlerEnv) (ctx : CoreMessageContext)
    (sourceTenantGuid : Bytes) (certChain : Option Bytes) (payload : Bytes) (core : BrokerCore)
    (st : StoreState) : Prop :=
  (∀ m, DxlMessage.fromBytes env.codec payload ≠ .ok m) ∧ st = ⟨ctx, none, core⟩ ∨
  ∃ m ctx' m', DxlMessage.fromBytes env.codec payload = .ok m ∧
    (!ctx.isSourceBridge && m.isRequestMessage && isInvalidReplyTo m.getReplyToTopic) = false ∧
    setDxlMessageFields settings ctx sourceTenantGuid m certChain = (.ok true, ctx', m') ∧
    st = ⟨ctx', some m', core⟩

/-- A message is given to the handlers, or it is rejected. -/
theorem storeMessage_cases (ctx : CoreMessageContext) (sourceTenantGuid : Bytes)
    (certChain : Option Bytes) (payload : Bytes) (core : BrokerCore) :
    (∃ st, HandlerInput settings env ctx sourceTenantGuid certChain payload core st ∧
      storeMessage settings env ctx sourceTenantGuid certChain payload core =
        handleStored settings env payload st) ∨
    (storeMessage settings env ctx sourceTenantGuid certChain payload
        core).1.ctx.messageInsertEnabled = false ∧
      (storeMessage settings env ctx sourceTenantGuid certChain payload core).2 = core := by
  unfold storeMessage
  simp only
  split
  · rename_i e herror
    refine .inl ⟨_, .inl ⟨fun m hm => ?_, rfl⟩, rfl⟩
    cases herror.symm.trans hm
  · rename_i m hread
    split
    · exact .inr ⟨rfl, rfl⟩
    · rename_i hreply
      generalize hfields : setDxlMessageFields settings ctx sourceTenantGuid m certChain = res
      obtain ⟨allowed, ctx', m'⟩ := res
      split
      · rename_i hallowed
        cases hallowed
        exact .inl ⟨_, .inr ⟨m, ctx', m', hread, Bool.eq_false_iff.mpr hreply, hfields, rfl⟩, rfl⟩
      · exact .inr ⟨rfl, rfl⟩

end

end DxlBroker
