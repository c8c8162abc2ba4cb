import DxlBroker.Registry.EventHandlers

/-!
# The local broker's own record

The handlers of broker events ignore an event that the broker itself has stored, but not one from a
peer that names the local broker.  Such an event is handled like any other, and changes the record
that every routing decision starts from, except when it happens to say what the record says.
-/

namespace DxlBroker

open Bytes Unordered

/-- The part of a record that routing depends on. -/
structure EntryView where
  connections : Bytes → Option UInt32
  topics : Finset Bytes
  wildcardCount : UInt32
  changeCount : UInt32
  startTime : UInt32

def BrokerState.view (s : BrokerState) : EntryView where
  connections := s.countedConnections.lookup
  topics := s.subscriptions
  wildcardCount := s.subscriptionsWildcardCount
  changeCount := s.subscriptionsChangeCount
  startTime := s.broker.startTime

/-- The local broker's own record. -/
def BrokerRegistry.localEntry (settings : BrokerSettings) (r : BrokerRegistry) :
    Option EntryView :=
  (r.brokers.lookup (cstr settings.guid)).map BrokerState.view

/-! ### When an event about the local broker leaves its record alone -/

/-- A broker state that says what the record says: `addBroker` does not start a new record, and the
connections are those recorded, with nothing to rebuild or every count at one. -/
def BrokerStateEventPayload.Agrees (p : BrokerStateEventPayload) : Option BrokerState → Prop
  | none => p.broker.id = [] ∨ p.broker.hostname = []
  | some s =>
      ((p.broker.id = [] ∨ p.broker.hostname = []) ∨ s.broker.startTime = p.broker.startTime) ∧
      p.connections.toFinset = s.getConnections ∧
      (p.childConnections.toFinset = s.childConnections ∨
        ∀ c n, s.countedConnections.lookup c = some n → n = 1)

/-- The topics that are pending after a batch. -/
def BrokerStateTopicsEventPayload.pendingAfter (p : BrokerStateTopicsEventPayload)
    (s : BrokerState) : Finset Bytes × UInt32 :=
  (((if p.state &&& stateStart ≠ 0 then ∅ else s.pendingSubscriptions) ∪ p.topics.toFinset),
    (if p.state &&& stateStart ≠ 0 then 0 else s.pendingSubscriptionsWildcardCount) +
      readWildcardCount p.topics)

/-- A batch that is ignored, is not the last one, or ends a transfer of what is recorded. -/
def BrokerStateTopicsEventPayload.Agrees (p : BrokerStateTopicsEventPayload)
    (startTime changeCount : UInt32) : Option BrokerState → Prop
  | none => True
  | some s =>
      (s.broker.startTime = startTime ∧ s.subscriptionsChangeCount = changeCount) ∨
      p.state &&& stateEnd = 0 ∨
      (p.pendingAfter s = (s.subscriptions, s.subscriptionsWildcardCount) ∧
        s.subscriptionsChangeCount = changeCount)

/-- A topic that is there already, or not there to be removed, with a count that is not the next. -/
def topicAgrees (isAdd : Bool) (startTime changeCount : UInt32) (topic : Bytes) :
    Option BrokerState → Prop
  | none => True
  | some s =>
      (topic ∈ s.subscriptions ↔ isAdd = true) ∧
      ¬ (s.broker.startTime = startTime ∧ s.subscriptionsChangeCount = changeCount - 1)

/-- The event does not name the local broker, or agrees with its record. -/
def LocalKept (settings : BrokerSettings) (reader : PayloadReader) (evt : DxlMessage)
    (r : BrokerRegistry) : BrokerEvent → Prop
  | .brokerState => ∀ p, reader.brokerState evt.getPayloadStr = .ok p →
      p.broker.id = cstr settings.guid → p.Agrees (r.brokers.lookup (cstr settings.guid))
  | .brokerStateTopics => settings.topicRoutingEnabled = true →
      evt.getSourceBrokerGuid = cstr settings.guid →
        ∀ p, reader.brokerStateTopics evt.getPayloadStr = .ok p →
          p.Agrees (getMessageHeaderValues evt).1 (getMessageHeaderValues evt).2
            (r.brokers.lookup (cstr settings.guid))
  | .topicAdded => settings.topicRoutingEnabled = true →
      evt.getSourceBrokerGuid = cstr settings.guid →
        ∀ topic, reader.brokerTopic evt.getPayloadStr = .ok topic →
          topicAgrees true (getMessageHeaderValues evt).1 (getMessageHeaderValues evt).2 topic
            (r.brokers.lookup (cstr settings.guid))
  | .topicRemoved => settings.topicRoutingEnabled = true →
      evt.getSourceBrokerGuid = cstr settings.guid →
        ∀ topic, reader.brokerTopic evt.getPayloadStr = .ok topic →
          topicAgrees false (getMessageHeaderValues evt).1 (getMessageHeaderValues evt).2 topic
            (r.brokers.lookup (cstr settings.guid))

/-! ### Broker states -/

/-- The counts after the connections were added to a record without connections. -/
theorem lookup_addConnections {children : Finset Bytes} {c : Bytes} :
    ∀ {connections : List Bytes} {s : BrokerState}, connections.Nodup →
      (∀ d ∈ connections, s.countedConnections.lookup d = none) →
      (BrokerState.addConnections children s connections).countedConnections.lookup c =
        if c ∈ connections then some 1 else s.countedConnections.lookup c := by
  intro connections
  induction connections with
  | nil => simp [BrokerState.addConnections]
  | cons d connections ih =>
    intro s hnodup hnone
    rw [List.nodup_cons] at hnodup
    have hcounted : (s.addConnection d (decide (d ∈ children))).countedConnections =
        s.countedConnections.insert d 1 := by
      simp [BrokerState.addConnection, hnone d List.mem_cons_self]
    have hstep : BrokerState.addConnections children s (d :: connections) =
        BrokerState.addConnections children (s.addConnection d (decide (d ∈ children)))
          connections := rfl
    rw [hstep, ih hnodup.2, hcounted]
    · by_cases hcd : c = d
      · rw [hcd, AList.lookup_insert, if_pos List.mem_cons_self, ite_self]
      · simp [hcd, AList.lookup_insert_ne hcd]
    · intro e he
      have hed : e ≠ d := fun h => hnodup.1 (h ▸ he)
      rw [hcounted, AList.lookup_insert_ne hed]
      exact hnone e (List.mem_cons_of_mem _ he)

theorem addConnections_frame {children : Finset Bytes} :
    ∀ {connections : List Bytes} {s : BrokerState},
      (BrokerState.addConnections children s connections).broker = s.broker ∧
      (BrokerState.addConnections children s connections).subscriptions = s.subscriptions ∧
      (BrokerState.addConnections children s connections).subscriptionsWildcardCount =
        s.subscriptionsWildcardCount ∧
      (BrokerState.addConnections children s connections).subscriptionsChangeCount =
        s.subscriptionsChangeCount := by
  intro connections
  induction connections with
  | nil => exact ⟨rfl, rfl, rfl, rfl⟩
  | cons d connections ih =>
    intro s
    exact ih (s := s.addConnection d (decide (d ∈ children)))

theorem mem_getConnections {s : BrokerState} {c : Bytes} :
    c ∈ s.getConnections ↔ (s.countedConnections.lookup c).isSome = true := by
  rw [BrokerState.getConnections, List.mem_toFinset, ← AList.mem_keys, AList.lookup_isSome]

/-- `setConnections` leaves the view of a record alone when it has nothing to rebuild, or rebuilds
the same connections with their counts at one. -/
theorem view_setConnections_iff {order : IterOrder Bytes} {s : BrokerState}
    {connections : List Bytes} {children : Finset Bytes} :
    (s.setConnections order connections children).1.view = s.view ↔
      connections.toFinset = s.getConnections ∧ (children = s.childConnections ∨
        ∀ c n, s.countedConnections.lookup c = some n → n = 1) := by
  unfold BrokerState.setConnections
  by_cases hdiff : connections.toFinset ≠ s.getConnections ∨ children ≠ s.childConnections
  · rw [if_pos hdiff]
    set s' := BrokerState.addConnections children
      { s with countedConnections := ∅, childConnections := ∅ } (order.arrange connections.dedup)
      with hs'
    obtain ⟨hbroker, hsubs, hwild, hchange⟩ : s'.broker = s.broker ∧
        s'.subscriptions = s.subscriptions ∧
        s'.subscriptionsWildcardCount = s.subscriptionsWildcardCount ∧
        s'.subscriptionsChangeCount = s.subscriptionsChangeCount := addConnections_frame
    have hcounted : ∀ c, s'.countedConnections.lookup c =
        if c ∈ connections then some 1 else none := by
      intro c
      rw [hs', lookup_addConnections]
      · simp [AList.lookup_empty]
      · exact (order.perm _).nodup_iff.mpr (List.nodup_dedup connections)
      · exact fun d _ => AList.lookup_empty d
    have hview : s'.view = s.view ↔ ∀ c, s'.countedConnections.lookup c =
        s.countedConnections.lookup c := by
      constructor
      · exact fun h c => congrFun (congrArg EntryView.connections h) c
      · intro h
        have hfun : s'.countedConnections.lookup = s.countedConnections.lookup := funext h
        simp only [BrokerState.view, hfun, hbroker, hsubs, hwild, hchange]
    rw [hview]
    constructor
    · intro h
      have hset : connections.toFinset = s.getConnections := by
        ext c
        rw [List.mem_toFinset, mem_getConnections, ← h c, hcounted]
        split_ifs with hc <;> simp [hc]
      refine ⟨hset, .inr fun c n hn => ?_⟩
      rw [← h c, hcounted] at hn
      split_ifs at hn
      exact (Option.some.inj hn).symm
    · rintro ⟨hset, hchildren | hone⟩ c
      · exact absurd hdiff (not_or.mpr ⟨not_not.mpr hset, not_not.mpr hchildren⟩)
      · have hc : c ∈ connections ↔ (s.countedConnections.lookup c).isSome = true := by
          rw [← mem_getConnections, ← hset, List.mem_toFinset]
        rw [hcounted]
        cases hn : s.countedConnections.lookup c with
        | none =>
          rw [hn] at hc
          rw [if_neg (by simp [hc])]
        | some n =>
          rw [hn] at hc
          rw [if_pos (hc.mpr rfl), hone c n hn]
  · rw [if_neg hdiff]
    obtain ⟨hset, hchildren⟩ := not_or.mp hdiff
    exact iff_of_true rfl ⟨not_not.mp hset, .inl (not_not.mp hchildren)⟩

theorem setConnections_broker (order : IterOrder Bytes) (s : BrokerState)
    (connections : List Bytes) (children : Finset Bytes) :
    (s.setConnections order connections children).1.broker = s.broker := by
  unfold BrokerState.setConnections
  split_ifs
  · exact addConnections_frame.1
  · rfl

section

variable {settings : BrokerSettings} {env : RegistryEnv} {r : BrokerRegistry}

theorem lookup_onBrokerState (p : BrokerStateEventPayload) (k : Bytes) :
    ((r.onBrokerState settings env p).brokers.lookup k).map BrokerState.view =
      ((r.addBroker settings env p.broker).brokers.lookup k).map fun s =>
        if k = p.broker.id then
          (s.setConnections env.iter p.connections p.childConnections.toFinset).1.view
        else s.view := by
  rw [BrokerRegistry.onBrokerState, BrokerRegistry.updateRegistrationTime,
    BrokerRegistry.lookup_modifyState, BrokerRegistry.lookup_setConnections,
    BrokerRegistry.lookup_setConnections]
  by_cases hk : k = p.broker.id
  · subst hk
    simp only [if_true, Option.map_map]
    rfl
  · simp only [hk, if_false]

theorem localEntry_onBrokerState_iff (p : BrokerStateEventPayload)
    (hid : p.broker.id = cstr settings.guid) :
    (r.onBrokerState settings env p).localEntry settings = r.localEntry settings ↔
      p.Agrees (r.brokers.lookup (cstr settings.guid)) := by
  unfold BrokerRegistry.localEntry
  rw [lookup_onBrokerState, BrokerRegistry.lookup_addBroker, ← hid]
  simp only [true_and, if_true]
  by_cases hignored : p.broker.id = [] ∨ p.broker.hostname = []
  · rw [if_neg (by tauto)]
    cases hs : r.brokers.lookup p.broker.id with
    | none => exact iff_of_true rfl hignored
    | some s =>
      simp only [Option.map_some, Option.some.injEq, view_setConnections_iff,
        BrokerStateEventPayload.Agrees, hignored, true_or, true_and]
  · rw [if_pos (not_or.mp hignored)]
    cases hs : r.brokers.lookup p.broker.id with
    | none => simp [BrokerStateEventPayload.Agrees, hignored]
    | some s =>
      simp only [BrokerRegistry.registered, Option.map_some, Option.some.injEq,
        BrokerStateEventPayload.Agrees, hignored, false_or]
      by_cases hstart : s.broker.startTime = p.broker.startTime
      · -- The record is kept, with the properties of the event.
        rw [if_pos hstart]
        have hview : s.view =
            BrokerState.view { s with broker := { p.broker with id := s.broker.id } } := by
          simp [BrokerState.view, hstart]
        rw [hview, view_setConnections_iff]
        exact (and_iff_right hstart).symm
      · rw [if_neg hstart]
        refine iff_of_false (fun h => hstart ?_) fun h => hstart h.1
        have := congrArg EntryView.startTime h
        simp only [BrokerState.view, setConnections_broker] at this
        exact this.symm

theorem localEntry_onBrokerState_of_ne (p : BrokerStateEventPayload)
    (hid : p.broker.id ≠ cstr settings.guid) :
    (r.onBrokerState settings env p).localEntry settings = r.localEntry settings := by
  unfold BrokerRegistry.localEntry
  rw [lookup_onBrokerState, BrokerRegistry.lookup_addBroker, if_neg fun h => hid h.1.symm]
  simp only [Ne.symm hid, if_false]

/-! ### Batches of topics -/

theorem view_receiveBatch (startTime changeCount : UInt32) (p : BrokerStateTopicsEventPayload)
    (s : BrokerState) :
    (s.receiveBatch startTime changeCount p).view =
      if (s.broker.startTime ≠ startTime ∨ s.subscriptionsChangeCount ≠ changeCount) ∧
          p.state &&& stateEnd ≠ 0 then
        { s.view with
          topics := (p.pendingAfter s).1
          wildcardCount := (p.pendingAfter s).2
          changeCount := changeCount }
      else s.view := by
  unfold BrokerState.receiveBatch BrokerStateTopicsEventPayload.pendingAfter
  by_cases hdiff : s.broker.startTime ≠ startTime ∨ s.subscriptionsChangeCount ≠ changeCount
  · by_cases hstart : p.state &&& stateStart ≠ 0 <;> by_cases hend : p.state &&& stateEnd ≠ 0 <;>
      simp [hdiff, hstart, hend, BrokerState.view, BrokerState.setTopicsChangeCount,
        BrokerState.swapPendingTopics, BrokerState.addPendingTopics,
        BrokerState.clearPendingTopics]
  · rw [if_neg hdiff, if_neg fun h => hdiff h.1]

theorem localEntry_onBrokerStateTopics_iff (startTime changeCount : UInt32)
    (p : BrokerStateTopicsEventPayload) :
    (r.onBrokerStateTopics env (cstr settings.guid) startTime changeCount p).localEntry settings =
        r.localEntry settings ↔
      p.Agrees startTime changeCount (r.brokers.lookup (cstr settings.guid)) := by
  unfold BrokerRegistry.localEntry
  rw [BrokerRegistry.lookup_onBrokerStateTopics, if_pos rfl]
  cases hs : r.brokers.lookup (cstr settings.guid) with
  | none => exact iff_of_true rfl trivial
  | some s =>
    simp only [Option.map_some, Option.some.injEq, view_receiveBatch,
      BrokerStateTopicsEventPayload.Agrees]
    by_cases hsame : s.broker.startTime = startTime ∧ s.subscriptionsChangeCount = changeCount
    · rw [if_neg (by tauto)]
      exact iff_of_true rfl (.inl hsame)
    · by_cases hend : p.state &&& stateEnd = 0
      · rw [if_neg fun h => h.2 hend]
        exact iff_of_true rfl (.inr (.inl hend))
      · rw [if_pos ⟨by tauto, hend⟩]
        simp only [hsame, hend, false_or, BrokerState.view, EntryView.mk.injEq, true_and, and_true,
          Prod.ext_iff, and_assoc]
        exact and_congr_right fun _ => and_congr_right fun _ => eq_comm

theorem localEntry_onBrokerStateTopics_of_ne {guid : Bytes} (hid : guid ≠ cstr settings.guid)
    (startTime changeCount : UInt32) (p : BrokerStateTopicsEventPayload) :
    (r.onBrokerStateTopics env guid startTime changeCount p).localEntry settings =
      r.localEntry settings := by
  unfold BrokerRegistry.localEntry
  rw [BrokerRegistry.lookup_onBrokerStateTopics, if_neg (Ne.symm hid)]

/-! ### Single topics -/

theorem localEntry_onBrokerTopic_iff (isAdd : Bool) (startTime changeCount : UInt32)
    (topic : Bytes) :
    (r.onBrokerTopic settings env (cstr settings.guid) isAdd startTime changeCount
        topic).localEntry settings = r.localEntry settings ↔
      topicAgrees isAdd startTime changeCount topic
        (r.brokers.lookup (cstr settings.guid)) := by
  unfold BrokerRegistry.localEntry
  rw [BrokerRegistry.lookup_onBrokerTopic, if_pos rfl]
  cases hs : r.brokers.lookup (cstr settings.guid) with
  | none => exact iff_of_true rfl trivial
  | some s =>
    simp only [Option.map_some, Option.some.injEq, topicAgrees]
    by_cases hsame : topic ∈ s.subscriptions ↔ isAdd = true
    · -- The topics stay, so only the change count can differ.
      have hkeep : s.changeTopic settings isAdd topic = s := by
        unfold BrokerState.changeTopic
        cases isAdd with
        | true => rw [if_pos rfl, BrokerState.addTopic_of_mem settings s (hsame.mpr rfl)]
        | false =>
          rw [if_neg Bool.false_ne_true, BrokerState.removeTopic_of_notMem settings s
            fun h => Bool.false_ne_true (hsame.mp h)]
      rw [hkeep]
      by_cases hv : s.broker.startTime = startTime ∧ s.subscriptionsChangeCount = changeCount - 1
      · rw [if_pos hv]
        refine iff_of_false (fun h => ?_) fun h => h.2 hv
        have hcount := congrArg EntryView.changeCount h
        simp only [BrokerState.view, BrokerState.setTopicsChangeCount, hv.2] at hcount
        have hnat := congrArg UInt32.toNat hcount
        have hlt := changeCount.toNat_lt
        rw [UInt32.toNat_sub, UInt32.toNat_one] at hnat
        omega
      · rw [if_neg hv]
        exact iff_of_true rfl ⟨hsame, hv⟩
    · refine iff_of_false (fun h => hsame ?_) fun h => hsame h.1
      have htopics : (s.changeTopic settings isAdd topic).subscriptions = s.subscriptions := by
        have := congrArg EntryView.topics h
        split_ifs at this <;> exact this
      unfold BrokerState.changeTopic at htopics
      cases isAdd with
      | true =>
        rw [if_pos rfl, BrokerState.addTopic_subscriptions] at htopics
        exact iff_of_true (htopics ▸ Finset.mem_insert_self _ _) rfl
      | false =>
        rw [if_neg Bool.false_ne_true, BrokerState.removeTopic_subscriptions] at htopics
        exact iff_of_false (htopics ▸ Finset.notMem_erase _ _) Bool.false_ne_true

theorem localEntry_onBrokerTopic_of_ne {guid : Bytes} (hid : guid ≠ cstr settings.guid)
    (isAdd : Bool) (startTime changeCount : UInt32) (topic : Bytes) :
    (r.onBrokerTopic settings env guid isAdd startTime changeCount topic).localEntry settings =
      r.localEntry settings := by
  unfold BrokerRegistry.localEntry
  rw [BrokerRegistry.lookup_onBrokerTopic, if_neg (Ne.symm hid)]

/-- **Local entry protection.**  An event from a peer leaves the local broker's own record as it is
exactly when it does not name the local broker or says what the record says. -/
theorem localEntry_kept_iff (settings : BrokerSettings) (env : RegistryEnv)
    (reader : PayloadReader) (ctx : CoreMessageContext) (evt : DxlMessage) (r : BrokerRegistry)
    (event : BrokerEvent) (hpeer : ctx.isLocalBrokerSource settings = false) :
    (∀ r', onStoreBrokerEvent settings env reader ctx evt r event = .ok r' →
      r'.localEntry settings = r.localEntry settings) ↔
    LocalKept settings reader evt r event := by
  have htopic : ∀ isAdd : Bool,
      (∀ r', brokerTopicEventHandler settings env reader ctx evt r isAdd = .ok r' →
        r'.localEntry settings = r.localEntry settings) ↔
      (settings.topicRoutingEnabled = true → evt.getSourceBrokerGuid = cstr settings.guid →
        ∀ topic, reader.brokerTopic evt.getPayloadStr = .ok topic →
          topicAgrees isAdd (getMessageHeaderValues evt).1 (getMessageHeaderValues evt).2 topic
            (r.brokers.lookup (cstr settings.guid))) := by
    intro isAdd
    unfold brokerTopicEventHandler
    rw [hpeer]
    cases hrouting : settings.topicRoutingEnabled with
    | false => simp
    | true =>
      simp only [Bool.not_false, Bool.and_true, if_true, forall_true_left]
      cases hread : reader.brokerTopic evt.getPayloadStr with
      | error e => simp [Except.map]
      | ok topic =>
        simp only [Except.map, Except.ok.injEq, forall_eq']
        by_cases hid : evt.getSourceBrokerGuid = cstr settings.guid
        · rw [hid, localEntry_onBrokerTopic_iff]
          simp
        · simp [hid, localEntry_onBrokerTopic_of_ne hid]
  cases event with
  | brokerState =>
    simp only [onStoreBrokerEvent, brokerStateEventHandler, hpeer, LocalKept]
    rw [if_neg Bool.false_ne_true]
    cases hread : reader.brokerState evt.getPayloadStr with
    | error e => simp [Except.map]
    | ok p =>
      simp only [Except.map, Except.ok.injEq, forall_eq']
      by_cases hid : p.broker.id = cstr settings.guid
      · rw [localEntry_onBrokerState_iff p hid]
        simp [hid]
      · simp [hid, localEntry_onBrokerState_of_ne p hid]
  | brokerStateTopics =>
    simp only [onStoreBrokerEvent, brokerStateTopicsEventHandler, hpeer, LocalKept]
    cases hrouting : settings.topicRoutingEnabled with
    | false => simp
    | true =>
      simp only [Bool.not_false, Bool.and_true, if_true, forall_true_left]
      by_cases hid : evt.getSourceBrokerGuid = cstr settings.guid
      · rw [hid]
        simp only [forall_true_left]
        cases hs : r.brokers.lookup (cstr settings.guid) with
        | none => simp [BrokerStateTopicsEventPayload.Agrees]
        | some s =>
          simp only
          by_cases hdiff : s.broker.startTime ≠ (getMessageHeaderValues evt).1 ∨
              s.subscriptionsChangeCount ≠ (getMessageHeaderValues evt).2
          · rw [if_pos hdiff]
            cases hread : reader.brokerStateTopics evt.getPayloadStr with
            | error e => simp [Except.map]
            | ok p =>
              simp only [Except.map, Except.ok.injEq, forall_eq']
              rw [localEntry_onBrokerStateTopics_iff, hs]
          · rw [if_neg hdiff]
            rw [not_or, not_not, not_not] at hdiff
            refine iff_of_true (fun r' h => ?_) fun p _ => .inl hdiff
            rw [Except.ok.inj h]
      · refine iff_of_true (fun r' h => ?_) fun h => absurd h hid
        split at h
        · rw [Except.ok.inj h]
        · split_ifs at h
          · cases hread : reader.brokerStateTopics evt.getPayloadStr with
            | error e =>
              rw [hread] at h
              cases h
            | ok p =>
              rw [hread] at h
              rw [← Except.ok.inj h]
              exact localEntry_onBrokerStateTopics_of_ne hid _ _ p
          · rw [Except.ok.inj h]
  | topicAdded => exact htopic true
  | topicRemoved => exact htopic false

end

/-! ### Events that name a broker -/

/-- The JSON text of a broker state of the given broker, started at second 6. -/
def stateJson (guid : Bytes) : Bytes :=
  lit "\x7b\"guid\":\"" ++ guid ++ lit "\",\"hostname\":\"h\",\"startTime\":6\x7d"

/-- What that text says. -/
def statePayload (guid : Bytes) : BrokerStateEventPayload :=
  ⟨{ id := guid, hostname := lit "h", startTime := 6, topicRoutingEnabled := false }, [], []⟩

/-- The parser on broker states of two brokers. -/
def stateReader : PayloadReader where
  brokerState text :=
    if text = stateJson (lit "L") then .ok (statePayload (lit "L"))
    else if text = stateJson (lit "P") then .ok (statePayload (lit "P"))
    else .error "Error parsing JSON"
  brokerStateTopics _ := .error "Error parsing JSON"
  brokerTopic _ := .error "Error parsing JSON"

/-- A broker state event with the given payload, sent by the broker `P`. -/
def stateEvent (payload : Bytes) : DxlMessage where
  msg := { createDxlMessage .event (lit "P") [] (lit "m") with
    sourceBrokerGuid := lit "P"
    payload := .buf payload }

/-- The bridge to `P`. -/
def bridgeP : CoreMessageContext where
  sourceId := lit "P"
  canonicalSourceId := lit "P"
  isSourceBridge := true
  contextFlags := 0
  topic := lit "/mcafee/event/dxl/brokerregistry/brokerstate"

/-- The registry of the broker `L`, started at second 5, with a bridge to `P`. -/
def registryL : BrokerRegistry :=
  BrokerRegistry.runSteady
    [.addBroker { id := lit "L", hostname := lit "h", startTime := 5 },
      .addConnection (lit "L") (lit "P") true]

/-- A broker state of `P` leaves the record of `L` as it is. -/
theorem localEntry_kept_foreign :
    LocalKept { guid := lit "L" } stateReader (stateEvent (stateJson (lit "P"))) registryL
        .brokerState ∧
      (registryL.onBrokerState { guid := lit "L" } BrokerRegistry.steadyEnv
        (statePayload (lit "P"))).localEntry { guid := lit "L" } =
          registryL.localEntry { guid := lit "L" } := by
  have hkept : LocalKept { guid := lit "L" } stateReader (stateEvent (stateJson (lit "P")))
      registryL .brokerState := by
    intro p hp hid
    have hread : stateReader.brokerState (stateEvent (stateJson (lit "P"))).getPayloadStr =
        .ok (statePayload (lit "P")) := rfl
    rw [hread] at hp
    rw [← Except.ok.inj hp] at hid
    exact absurd hid (by decide)
  exact ⟨hkept, (localEntry_kept_iff { guid := lit "L" } BrokerRegistry.steadyEnv stateReader
    bridgeP (stateEvent (stateJson (lit "P"))) registryL .brokerState (by decide)).mpr hkept _ rfl⟩

/-- A broker state from `P` that names `L` starts a new record for it, without the bridge. -/
theorem localEntry_overwritten :
    bridgeP.isLocalBrokerSource { guid := lit "L" } = false ∧
      ∃ r', onStoreBrokerEvent { guid := lit "L" } BrokerRegistry.steadyEnv stateReader bridgeP
          (stateEvent (stateJson (lit "L"))) registryL .brokerState = .ok r' ∧
        r'.localEntry { guid := lit "L" } ≠ registryL.localEntry { guid := lit "L" } := by
  refine ⟨by decide, _, rfl, fun h => ?_⟩
  have hstart := congrArg (Option.map EntryView.startTime) h
  exact absurd hstart (by decide)

end DxlBroker
