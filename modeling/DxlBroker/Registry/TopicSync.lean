import DxlBroker.Registry.LocalEntry
import DxlBroker.Registry.TopicEvents

/-!
# Agreement on a broker's topics

A broker sends the events about its topics through a channel that keeps their order and may lose some
of them; another broker keeps a record of the topics.  The two agree when the record has the sender's
start time and change count, provided that no transfer ends at a receiver that has missed a part of it,
and that no event of a change that was none is taken for the next change.
-/

namespace DxlBroker

open Bytes Unordered

/-! ### The system -/

/-- The two registries and the events in flight.  The last two fields are bookkeeping: the number of
transfers so far, and the transfer whose first batches have been delivered, with their number. -/
structure SyncSystem where
  sender : BrokerRegistry
  receiver : BrokerRegistry
  channel : List SyncMessage := []
  snapshots : ℕ := 0
  progress : Option (ℕ × ℕ) := none

inductive SyncOp
  | topicAdded (topic : Bytes)
  | topicRemoved (topic : Bytes)
  /-- The sender's state with its properties, its topics in some order, and the size of a batch. -/
  | sendState (properties : Broker) (topics : List Bytes) (charCount : Int32)
  | lose (i : ℕ)
  | deliver
  /-- The receiver removes brokers that have expired. -/
  | maintain

section

variable (sending receiving : BrokerSettings)

/-- The handlers of the receiver, for an event of the sending broker. -/
def SyncMessage.receive (env : RegistryEnv) (r : BrokerRegistry) : SyncMessage → BrokerRegistry
  | .state p => r.onBrokerState receiving env p
  | .topics startTime changeCount p _ _ =>
      if receiving.topicRoutingEnabled then
        r.onBrokerStateTopics env (cstr sending.guid) startTime changeCount p
      else r
  | .topic isAdd startTime changeCount name _ =>
      if receiving.topicRoutingEnabled then
        r.onBrokerTopic receiving env (cstr sending.guid) isAdd startTime changeCount name
      else r

/-- The batches delivered of a transfer, as long as none is missing. -/
def SyncMessage.progress (before : Option (ℕ × ℕ)) : SyncMessage → Option (ℕ × ℕ)
  | .topics _ _ _ snapshot index =>
      if index = 0 ∨ before = some (snapshot, index) then some (snapshot, index + 1) else none
  | _ => none

namespace SyncSystem

/-- The sender's registry changes and it sends events. -/
def send (σ : SyncSystem) (res : BrokerRegistry × List SyncMessage) : SyncSystem :=
  { σ with sender := res.1, channel := σ.channel ++ res.2 }

def step (env : RegistryEnv) (σ : SyncSystem) : SyncOp → SyncSystem
  | .topicAdded topic => σ.send (onTopicAddedToBroker sending env topic σ.sender)
  | .topicRemoved topic => σ.send (onTopicRemovedFromBroker sending env topic σ.sender)
  | .sendState properties topics charCount =>
      { σ with
        channel := σ.channel ++
          sendLocalBrokerStateEvent sending properties topics charCount σ.snapshots σ.sender
        snapshots := σ.snapshots + 1 }
  | .lose i => { σ with channel := σ.channel.eraseIdx i }
  | .deliver =>
      match σ.channel with
      | [] => σ
      | m :: rest =>
          { σ with
            receiver := m.receive sending receiving env σ.receiver
            channel := rest
            progress := m.progress σ.progress }
  | .maintain => { σ with receiver := σ.receiver.onCoreMaintenance receiving env }

/-- The sender has started and the receiver knows nothing of this start. -/
structure Starts (σ : SyncSystem) : Prop where
  guids : cstr receiving.guid ≠ cstr sending.guid
  sender : ∃ s, σ.sender.brokers.lookup (cstr sending.guid) = some s ∧
    s.broker.id = cstr sending.guid ∧ s.subscriptions = ∅ ∧ s.subscriptionsChangeCount = 0 ∧
    ∀ s', σ.receiver.brokers.lookup (cstr sending.guid) = some s' →
      s'.broker.startTime ≠ s.broker.startTime
  channel : σ.channel = []
  progress : σ.progress = none

/-- The change count does not wrap around, and all topics are sent. -/
def Possible (σ : SyncSystem) : SyncOp → Prop
  | .topicAdded _ | .topicRemoved _ =>
      ∀ s, σ.sender.brokers.lookup (cstr sending.guid) = some s →
        s.subscriptionsChangeCount.toNat + 1 < 2 ^ 32
  | .sendState _ topics _ =>
      ∀ s, σ.sender.brokers.lookup (cstr sending.guid) = some s →
        topics.Nodup ∧ topics.toFinset = s.subscriptions
  | _ => True

/-- An event that the receiver may take: the last batch of a transfer comes after all batches before
it, and an event of a change that was none does not look like the next change. -/
def TakenWell (σ : SyncSystem) (s : BrokerState) : SyncMessage → Prop
  | .state _ => True
  | .topics startTime changeCount p snapshot index =>
      s.broker.startTime = startTime → s.subscriptionsChangeCount ≠ changeCount →
        p.state &&& stateEnd ≠ 0 → index = 0 ∨ σ.progress = some (snapshot, index)
  | .topic _ startTime changeCount _ changed =>
      changed = false → s.broker.startTime = startTime →
        s.subscriptionsChangeCount ≠ changeCount - 1

/-- The condition on a step: an event that is delivered is taken well. -/
def DeliveredWell (σ : SyncSystem) : SyncOp → Prop
  | .deliver => receiving.topicRoutingEnabled = true →
      ∀ m ∈ σ.channel.head?, ∀ s, σ.receiver.brokers.lookup (cstr sending.guid) = some s →
        σ.TakenWell s m
  | _ => True

/-- The states reached by steps that meet a condition. -/
inductive Reached (ok : SyncSystem → SyncOp → Prop) : SyncSystem → Prop
  | init {σ : SyncSystem} (h : σ.Starts sending receiving) : Reached ok σ
  | step {σ : SyncSystem} (h : Reached ok σ) (env : RegistryEnv) (op : SyncOp) (hop : ok σ op) :
      Reached ok (σ.step sending receiving env op)

/-- A record with the start time and change count of the sender has its topics. -/
def Agreement (σ : SyncSystem) : Prop :=
  ∀ s s', σ.sender.brokers.lookup (cstr sending.guid) = some s →
    σ.receiver.brokers.lookup (cstr sending.guid) = some s' →
    s'.broker.startTime = s.broker.startTime →
    s'.subscriptionsChangeCount = s.subscriptionsChangeCount → s'.subscriptions = s.subscriptions

end SyncSystem

end

/-! ### What the events in flight say -/

/-- The sender's topics at each change count, and the batches and the change count of each
transfer. -/
structure SyncHistory where
  topicsAt : ℕ → Finset Bytes
  batches : ℕ → List (List Bytes)
  countAt : ℕ → ℕ

/-- The change count of an event. -/
def SyncMessage.count : SyncMessage → Option ℕ
  | .state _ => none
  | .topics _ changeCount _ _ _ => some changeCount.toNat
  | .topic _ _ changeCount _ _ => some changeCount.toNat

/-- The event may follow the change count `k`: it has no lower count, and a greater one if it is of a
change. -/
def SyncMessage.Follows (k : ℕ) : SyncMessage → Prop
  | .state _ => True
  | .topics _ changeCount _ _ _ => k ≤ changeCount.toNat
  | .topic _ _ changeCount _ changed =>
      k ≤ changeCount.toNat ∧ (changed = true → k < changeCount.toNat)

/-- The event tells the sender's history up to the count `n` and the transfer `snapshots`. -/
def SyncMessage.Tells (guid : Bytes) (startTime : UInt32) (h : SyncHistory) (n snapshots : ℕ) :
    SyncMessage → Prop
  | .state p => p.broker.id = guid ∧ p.broker.startTime = startTime
  | .topics start changeCount p snapshot index =>
      start = startTime ∧ changeCount.toNat ≤ n ∧ snapshot < snapshots ∧
      changeCount.toNat = h.countAt snapshot ∧ (h.batches snapshot)[index]? = some p.topics ∧
      (p.state &&& stateStart ≠ 0 ↔ index = 0) ∧
      (p.state &&& stateEnd ≠ 0 ↔ index + 1 = (h.batches snapshot).length) ∧
      (h.batches snapshot).flatten.toFinset = h.topicsAt changeCount.toNat
  | .topic isAdd start changeCount name changed =>
      start = startTime ∧ changeCount.toNat ≤ n ∧
      (changed = true → 1 ≤ changeCount.toNat ∧ h.topicsAt changeCount.toNat =
        if isAdd then insert name (h.topicsAt (changeCount.toNat - 1))
        else (h.topicsAt (changeCount.toNat - 1)).erase name) ∧
      (changed = false → (name ∈ h.topicsAt changeCount.toNat ↔ isAdd = true))

section

variable {guid : Bytes} {startTime : UInt32} {h h' : SyncHistory} {n n' k k' : ℕ}
  {snapshots snapshots' : ℕ} {m : SyncMessage}

theorem SyncMessage.Follows.mono (hm : m.Follows k) (hk : k' ≤ k) : m.Follows k' := by
  cases m with
  | state p => trivial
  | topics _ _ _ _ _ => exact hk.trans hm
  | topic _ _ _ _ _ => exact ⟨hk.trans hm.1, fun hc => lt_of_le_of_lt hk (hm.2 hc)⟩

/-- A later history tells the same up to the count and the transfer before. -/
theorem SyncMessage.Tells.mono (hm : m.Tells guid startTime h n snapshots) (hn : n ≤ n')
    (hs : snapshots ≤ snapshots') (htopics : ∀ k ≤ n, h'.topicsAt k = h.topicsAt k)
    (hbatches : ∀ k < snapshots, h'.batches k = h.batches k ∧ h'.countAt k = h.countAt k) :
    m.Tells guid startTime h' n' snapshots' := by
  cases m with
  | state p => exact hm
  | topics start changeCount p snapshot index =>
    obtain ⟨hstart, hcount, hsnap, hat, hbatch, hfirst, hlast, hall⟩ := hm
    obtain ⟨hb, hc⟩ := hbatches snapshot hsnap
    rw [SyncMessage.Tells, hb, hc, htopics _ hcount]
    exact ⟨hstart, hcount.trans hn, lt_of_lt_of_le hsnap hs, hat, hbatch, hfirst, hlast, hall⟩
  | topic isAdd start changeCount name changed =>
    obtain ⟨hstart, hcount, hreal, hnone⟩ := hm
    rw [SyncMessage.Tells, htopics _ hcount, htopics _ ((Nat.sub_le _ 1).trans hcount)]
    exact ⟨hstart, hcount.trans hn, hreal, hnone⟩

theorem SyncMessage.Tells.count_le (hm : m.Tells guid startTime h n snapshots) :
    ∀ k, m.count = some k → k ≤ n := by
  intro k hk
  cases m with
  | state p => exact absurd hk (by simp [SyncMessage.count])
  | topics start changeCount p snapshot index =>
    rw [← Option.some.inj hk]
    exact hm.2.1
  | topic isAdd start changeCount name changed =>
    rw [← Option.some.inj hk]
    exact hm.2.1

end

/-! ### What a step does to a record -/

/-- The same broker with the same topics. -/
structure BrokerState.SameTopics (s s' : BrokerState) : Prop where
  id : s'.broker.id = s.broker.id
  startTime : s'.broker.startTime = s.broker.startTime
  subscriptions : s'.subscriptions = s.subscriptions
  changeCount : s'.subscriptionsChangeCount = s.subscriptionsChangeCount

section

variable {settings : BrokerSettings} {env : RegistryEnv} {r : BrokerRegistry} {s s' : BrokerState}

theorem onTopicChanged_spec {isAdd : Bool} {topic : Bytes}
    (hs : r.brokers.lookup (cstr settings.guid) = some s)
    (hid : s.broker.id = cstr settings.guid) :
    onTopicChanged settings env isAdd topic r = (r, []) ∨
    ∃ s', (onTopicChanged settings env isAdd topic r).1.brokers.lookup (cstr settings.guid) =
        some s' ∧ s'.broker = s.broker ∧
      (((topic ∈ s.subscriptions ↔ isAdd = true) ∧ s' = s ∧
        (onTopicChanged settings env isAdd topic r).2 =
          [.topic isAdd s.broker.startTime s.subscriptionsChangeCount topic false]) ∨
      (s'.subscriptions =
          (if isAdd then insert topic s.subscriptions else s.subscriptions.erase topic) ∧
        s'.subscriptionsChangeCount = s.subscriptionsChangeCount + 1 ∧
        (onTopicChanged settings env isAdd topic r).2 =
          [.topic isAdd s.broker.startTime (s.subscriptionsChangeCount + 1) topic true])) := by
  have hlocal : s.broker.isLocalBroker settings = true := by simp [Broker.isLocalBroker, hid]
  have hhas : r.brokers.hasTopic (cstr settings.guid) topic = decide (topic ∈ s.subscriptions) := by
    simp [BrokerTable.hasTopic, hs, BrokerState.hasTopic]
  unfold onTopicChanged
  by_cases hsend : (settings.topicRoutingEnabled && !startsWith dxlClientPrefixBracket topic) = true
  · right
    rw [if_pos hsend]
    simp only [hhas]
    cases isAdd with
    | true =>
      simp only [if_true, BrokerRegistry.lookup_addTopic, hs, Option.map_some, Option.elim_some]
      refine ⟨_, rfl, BrokerState.addTopic_broker settings s topic, ?_⟩
      by_cases hmem : topic ∈ s.subscriptions
      · simp [BrokerState.addTopic_of_mem settings s hmem, hmem]
      · simp [BrokerState.addTopic, hmem, hlocal]
    | false =>
      simp only [Bool.false_eq_true, if_false, BrokerRegistry.lookup_removeTopic, if_true, hs,
        Option.map_some, Option.elim_some]
      refine ⟨_, rfl, BrokerState.removeTopic_broker settings s topic, ?_⟩
      by_cases hmem : topic ∈ s.subscriptions
      · simp [BrokerState.removeTopic, hmem, hlocal]
      · simp [BrokerState.removeTopic_of_notMem settings s hmem, hmem]
  · rw [if_neg hsend]
    exact .inl rfl

theorem BrokerState.sameTopics_setConnections (order : IterOrder Bytes) (s : BrokerState)
    (connections : List Bytes) (children : Finset Bytes) :
    s.SameTopics (s.setConnections order connections children).1 := by
  unfold BrokerState.setConnections
  split_ifs
  · obtain ⟨hbroker, hsubs, -, hchange⟩ := @addConnections_frame children
      (order.arrange connections.dedup) { s with countedConnections := ∅, childConnections := ∅ }
    exact ⟨congrArg _ hbroker, congrArg _ hbroker, hsubs, hchange⟩
  · exact ⟨rfl, rfl, rfl, rfl⟩

/-- The state of a broker keeps the topics of its record, or starts a new one. -/
theorem onBrokerState_record {p : BrokerStateEventPayload}
    (hs' : (r.onBrokerState settings env p).brokers.lookup p.broker.id = some s') :
    (∃ s, r.brokers.lookup p.broker.id = some s ∧ s.SameTopics s') ∨
    (s'.broker.id = p.broker.id ∧ s'.subscriptions = ∅ ∧ s'.subscriptionsChangeCount = 0) := by
  rw [BrokerRegistry.onBrokerState, BrokerRegistry.updateRegistrationTime,
    BrokerRegistry.lookup_modifyState, if_pos rfl, BrokerRegistry.lookup_setConnections,
    if_pos rfl, BrokerRegistry.lookup_addBroker] at hs'
  simp only [true_and, Option.map_map, Option.map_eq_some_iff] at hs'
  obtain ⟨s₀, hs₀, rfl⟩ := hs'
  have hsame := BrokerState.sameTopics_setConnections env.iter s₀ p.connections
    p.childConnections.toFinset
  split_ifs at hs₀ with hvalid
  · rw [Option.some.injEq] at hs₀
    cases hs : r.brokers.lookup p.broker.id with
    | none =>
      rw [hs, BrokerRegistry.registered] at hs₀
      subst hs₀
      exact .inr ⟨hsame.id, hsame.subscriptions, hsame.changeCount⟩
    | some s =>
      rw [hs, BrokerRegistry.registered] at hs₀
      split_ifs at hs₀ with hstart
      · subst hs₀
        exact .inl ⟨s, rfl, hsame.id, hsame.startTime.trans hstart.symm, hsame.subscriptions,
          hsame.changeCount⟩
      · subst hs₀
        exact .inr ⟨hsame.id, hsame.subscriptions, hsame.changeCount⟩
  · exact .inl ⟨s₀, hs₀, hsame.id, hsame.startTime, hsame.subscriptions, hsame.changeCount⟩

/-- A connection that goes leaves the topics of its record. -/
theorem BrokerState.removeConnection_topics (s : BrokerState) (id : Bytes) :
    s.SameTopics (s.removeConnection id) ∧
      (s.removeConnection id).pendingSubscriptions = s.pendingSubscriptions := by
  unfold BrokerState.removeConnection
  split
  · exact ⟨⟨rfl, rfl, rfl, rfl⟩, rfl⟩
  · split_ifs <;> exact ⟨⟨rfl, rfl, rfl, rfl⟩, rfl⟩

/-- A removal leaves the topics of the records it keeps. -/
theorem removeBroker_record {id k : Bytes}
    (hs' : (r.removeBroker settings env id).brokers.lookup k = some s') :
    ∃ s, r.brokers.lookup k = some s ∧ s.SameTopics s' ∧
      s'.pendingSubscriptions = s.pendingSubscriptions := by
  unfold BrokerRegistry.removeBroker at hs'
  split_ifs at hs'
  · simp only [BrokerRegistry.clearAllCaches_brokers] at hs'
    obtain ⟨-, hs'⟩ := Map.lookup_erase_eq_some.mp hs'
    rw [Map.lookup_mapVals, Option.map_eq_some_iff] at hs'
    obtain ⟨s, hs, rfl⟩ := hs'
    refine ⟨s, hs, ?_⟩
    split_ifs
    · exact ⟨⟨rfl, rfl, rfl, rfl⟩, rfl⟩
    · exact s.removeConnection_topics id
  · exact ⟨s', hs', ⟨rfl, rfl, rfl, rfl⟩, rfl⟩

/-- Maintenance removes records and connections only. -/
theorem onCoreMaintenance_record {k : Bytes}
    (hs' : (r.onCoreMaintenance settings env).brokers.lookup k = some s') :
    ∃ s, r.brokers.lookup k = some s ∧ s.SameTopics s' ∧
      s'.pendingSubscriptions = s.pendingSubscriptions := by
  -- Kept by every removal: a record has the topics of the record the registry started with.
  have hkept : ∀ s', (r.onCoreMaintenance settings env).brokers.lookup k = some s' →
      ∃ s, r.brokers.lookup k = some s ∧ s.SameTopics s' ∧
        s'.pendingSubscriptions = s.pendingSubscriptions := by
    refine BrokerRegistry.onCoreMaintenance_keeps (I := fun r' => ∀ s',
      r'.brokers.lookup k = some s' → ∃ s, r.brokers.lookup k = some s ∧ s.SameTopics s' ∧
        s'.pendingSubscriptions = s.pendingSubscriptions) ?_ (fun _ _ h => h) ?_
    · intro r' id ih s₂ h₂
      obtain ⟨s₁, h₁, hsame₁, hpending₁⟩ := removeBroker_record h₂
      obtain ⟨s, hs, hsame, hpending⟩ := ih s₁ h₁
      exact ⟨s, hs, ⟨hsame₁.id.trans hsame.id, hsame₁.startTime.trans hsame.startTime,
        hsame₁.subscriptions.trans hsame.subscriptions,
        hsame₁.changeCount.trans hsame.changeCount⟩, hpending₁.trans hpending⟩
    · exact fun s hs => ⟨s, hs, ⟨rfl, rfl, rfl, rfl⟩, rfl⟩
  exact hkept s' hs'

end


/-! ### The invariant -/

/-- What a record of the sender's start holds: the topics at its change count, or it has missed a
change and no event in flight is the one it waits for. -/
structure BrokerState.Follows (s : BrokerState) (guid : Bytes) (h : SyncHistory) (n : ℕ)
    (channel : List SyncMessage) : Prop where
  id : s.broker.id = guid
  topics : (s.subscriptions = h.topicsAt s.subscriptionsChangeCount.toNat ∧
      s.subscriptionsChangeCount.toNat ≤ n ∧
      ∀ m ∈ channel, m.Follows s.subscriptionsChangeCount.toNat) ∨
    (s.subscriptionsChangeCount.toNat + 1 ≤ n ∧
      ∀ m ∈ channel, m.Follows (s.subscriptionsChangeCount.toNat + 1))

/-- The batches of a transfer that have been delivered are pending, unless the record has the count
of the transfer already. -/
def BrokerState.Pends (s : BrokerState) (h : SyncHistory) (progress : Option (ℕ × ℕ)) : Prop :=
  ∀ snapshot i, progress = some (snapshot, i) →
    s.pendingSubscriptions = ((h.batches snapshot).take i).flatten.toFinset ∨
      s.subscriptionsChangeCount.toNat = h.countAt snapshot

structure SyncInv (sending receiving : BrokerSettings) (startTime : UInt32) (h : SyncHistory)
    (n : ℕ) (σ : SyncSystem) : Prop where
  guids : cstr receiving.guid ≠ cstr sending.guid
  zero : h.topicsAt 0 = ∅
  -- A change adds one topic at most.
  card_le : (h.topicsAt n).card ≤ n
  sender : ∃ s, σ.sender.brokers.lookup (cstr sending.guid) = some s ∧
    s.broker.id = cstr sending.guid ∧ s.broker.startTime = startTime ∧
    s.subscriptionsChangeCount.toNat = n ∧ s.subscriptions = h.topicsAt n
  tells : ∀ m ∈ σ.channel, m.Tells (cstr sending.guid) startTime h n σ.snapshots
  ordered : σ.channel.Pairwise fun m m' => ∀ k, m.count = some k → m'.Follows k
  progress : ∀ snapshot i, σ.progress = some (snapshot, i) → snapshot < σ.snapshots
  record : ∀ s, σ.receiver.brokers.lookup (cstr sending.guid) = some s →
    s.broker.startTime = startTime → s.Follows (cstr sending.guid) h n σ.channel ∧
      (receiving.topicRoutingEnabled = true → s.Pends h σ.progress)

section

variable {guid : Bytes} {h h' : SyncHistory} {n n' : ℕ} {channel channel' : List SyncMessage}
  {s s' : BrokerState} {startTime : UInt32} {m : SyncMessage}

/-- The record does not change, the channel grows by later events or loses some. -/
theorem BrokerState.Follows.of_channel (hs : s.Follows guid h n channel) (hn : n ≤ n')
    (htopics : ∀ k ≤ n, h'.topicsAt k = h.topicsAt k)
    (hchannel : ∀ m ∈ channel', m ∈ channel ∨ m.Follows n) : s.Follows guid h' n' channel' := by
  refine ⟨hs.id, ?_⟩
  rcases hs.topics with ⟨hsubs, hle, hfollows⟩ | ⟨hle, hfollows⟩
  · refine .inl ⟨hsubs.trans (htopics _ hle).symm, hle.trans hn, fun m hm => ?_⟩
    rcases hchannel m hm with hm | hm
    · exact hfollows m hm
    · exact hm.mono hle
  · refine .inr ⟨hle.trans hn, fun m hm => ?_⟩
    rcases hchannel m hm with hm | hm
    · exact hfollows m hm
    · exact hm.mono hle

theorem BrokerState.Follows.of_sameTopics (hs : s.Follows guid h n channel)
    (hsame : s.SameTopics s') : s'.Follows guid h n channel := by
  refine ⟨hsame.id.trans hs.id, ?_⟩
  rw [hsame.changeCount, hsame.subscriptions]
  exact hs.topics

/-- A new record, with no topics at the count zero. -/
theorem BrokerState.Follows.of_new (hid : s.broker.id = guid) (hsubs : s.subscriptions = ∅)
    (hcount : s.subscriptionsChangeCount = 0) (hzero : h.topicsAt 0 = ∅)
    {snapshots : ℕ} (htells : ∀ m ∈ channel, m.Tells guid startTime h n snapshots) :
    s.Follows guid h n channel := by
  refine ⟨hid, .inl ?_⟩
  rw [hcount, hsubs]
  refine ⟨hzero.symm, Nat.zero_le n, fun m hm => ?_⟩
  have hm := htells m hm
  cases m with
  | state p => trivial
  | topics _ _ _ _ _ => exact Nat.zero_le _
  | topic _ _ _ _ _ => exact ⟨Nat.zero_le _, fun hc => (hm.2.2.1 hc).1⟩

end

/-! ### Events at the receiver -/

section

variable {guid : Bytes} {startTime : UInt32} {h : SyncHistory} {n snapshots : ℕ}
  {channel : List SyncMessage} {s : BrokerState}

theorem BrokerState.receiveBatch_broker (start changeCount : UInt32)
    (p : BrokerStateTopicsEventPayload) :
    (s.receiveBatch start changeCount p).broker = s.broker := by
  unfold BrokerState.receiveBatch
  split_ifs <;> rfl

/-- A batch of the sender's topics keeps the record right. -/
theorem BrokerState.Follows.receiveBatch {σ : SyncSystem} {start changeCount : UInt32}
    {p : BrokerStateTopicsEventPayload} {snapshot index : ℕ}
    (hs : s.Follows guid h n (.topics start changeCount p snapshot index :: channel))
    (hpends : s.Pends h σ.progress) (hstart : s.broker.startTime = startTime)
    (htells : (SyncMessage.topics start changeCount p snapshot index).Tells guid startTime h n
      snapshots)
    (hlater : ∀ m ∈ channel, m.Follows changeCount.toNat)
    (hwell : σ.TakenWell s (.topics start changeCount p snapshot index)) :
    (s.receiveBatch start changeCount p).Follows guid h n channel ∧
      (s.receiveBatch start changeCount p).Pends h
        ((SyncMessage.topics start changeCount p snapshot index).progress σ.progress) := by
  obtain ⟨rfl, hcount, -, hat, hbatch, hfirst, hlast, hall⟩ := htells
  have htail : s.Follows guid h n channel :=
    hs.of_channel le_rfl (fun _ _ => rfl) fun m hm => .inl (List.mem_cons_of_mem _ hm)
  -- In both cases the new progress, if any, is in this transfer and after this batch.
  have hprogress : ∀ snapshot' i, (SyncMessage.topics s.broker.startTime changeCount p snapshot
      index).progress σ.progress = some (snapshot', i) → snapshot' = snapshot ∧ i = index + 1 ∧
        (index = 0 ∨ σ.progress = some (snapshot, index)) := by
    intro snapshot' i hi
    rw [SyncMessage.progress] at hi
    split_ifs at hi with hnext
    · simp only [Option.some.injEq, Prod.mk.injEq] at hi
      exact ⟨hi.1.symm, hi.2.symm, hnext⟩
  subst hstart
  by_cases hsame : s.subscriptionsChangeCount = changeCount
  · rw [BrokerState.receiveBatch, if_neg (by simp [hsame])]
    refine ⟨htail, fun snapshot' i hi => .inr ?_⟩
    rw [(hprogress snapshot' i hi).1, hsame, hat]
  · have hpending : index = 0 ∨ σ.progress = some (snapshot, index) →
        (if p.state &&& stateStart ≠ 0 then ∅ else s.pendingSubscriptions) ∪ p.topics.toFinset =
          ((h.batches snapshot).take (index + 1)).flatten.toFinset := by
      intro hnext
      rw [List.take_add_one, hbatch, Option.toList_some, List.flatten_append,
        List.flatten_singleton, List.toFinset_append]
      by_cases hzero : index = 0
      · rw [if_pos (hfirst.mpr hzero), hzero, List.take_zero, List.flatten_nil,
          List.toFinset_nil]
      · rw [if_neg (mt hfirst.mp hzero)]
        rcases hpends snapshot index (hnext.resolve_left hzero) with hp | hc
        · rw [hp]
        · exact absurd (UInt32.toNat_inj.mp (hc.trans hat.symm)) hsame
    rw [BrokerState.receiveBatch, if_pos (.inr hsame)]
    by_cases hend : p.state &&& stateEnd ≠ 0
    · have hnext := hwell rfl hsame hend
      simp only [if_pos hend]
      refine ⟨⟨?_, .inl ⟨?_, hcount, hlater⟩⟩, fun snapshot' i hi => .inr ?_⟩
      · split_ifs <;> exact hs.id
      · show _ = h.topicsAt changeCount.toNat
        rw [← hall, ← List.take_length (l := h.batches snapshot), ← hlast.mp hend,
          ← hpending hnext]
        split_ifs <;> rfl
      · rw [(hprogress snapshot' i hi).1]
        exact hat
    · simp only [if_neg hend]
      refine ⟨htail.of_sameTopics ?_, fun snapshot' i hi => .inl ?_⟩
      · split_ifs <;> exact ⟨rfl, rfl, rfl, rfl⟩
      · obtain ⟨rfl, rfl, hnext⟩ := hprogress snapshot' i hi
        rw [← hpending hnext]
        split_ifs <;> rfl

theorem UInt32.eq_sub_one_iff {c k : UInt32} (hk : 1 ≤ k.toNat) :
    c = k - 1 ↔ c.toNat + 1 = k.toNat := by
  have hsub : (k - 1).toNat = k.toNat - 1 := by
    rw [UInt32.toNat_sub_of_le]
    · rfl
    · exact UInt32.le_iff_toNat_le.mpr hk
  rw [← UInt32.toNat_inj, hsub]
  omega

theorem BrokerState.changeTopic_spec (settings : BrokerSettings) (isAdd : Bool) (topic : Bytes)
    (hid : s.broker.id ≠ cstr settings.guid) :
    (s.changeTopic settings isAdd topic).broker = s.broker ∧
    (s.changeTopic settings isAdd topic).subscriptions =
      (if isAdd then insert topic s.subscriptions else s.subscriptions.erase topic) ∧
    (s.changeTopic settings isAdd topic).subscriptionsChangeCount = s.subscriptionsChangeCount := by
  have hlocal : s.broker.isLocalBroker settings = false := by simp [Broker.isLocalBroker, hid]
  unfold BrokerState.changeTopic
  cases isAdd with
  | true =>
    refine ⟨by simp, by simp, ?_⟩
    simp only [if_true, BrokerState.addTopic]
    split_ifs <;> simp_all
  | false =>
    refine ⟨by simp, by simp, ?_⟩
    simp only [Bool.false_eq_true, if_false, BrokerState.removeTopic]
    split_ifs <;> simp_all

/-- The record after an event of a topic. -/
def BrokerState.receiveTopic (settings : BrokerSettings) (isAdd : Bool)
    (start changeCount : UInt32) (topic : Bytes) (s : BrokerState) : BrokerState :=
  if s.broker.startTime = start ∧ s.subscriptionsChangeCount = changeCount - 1 then
    (s.changeTopic settings isAdd topic).setTopicsChangeCount changeCount
  else s.changeTopic settings isAdd topic

theorem BrokerState.receiveTopic_broker (settings : BrokerSettings) (isAdd : Bool)
    (start changeCount : UInt32) (topic : Bytes) :
    (s.receiveTopic settings isAdd start changeCount topic).broker = s.broker := by
  have hbroker : (s.changeTopic settings isAdd topic).broker = s.broker := by
    unfold BrokerState.changeTopic
    split_ifs <;> simp
  unfold BrokerState.receiveTopic
  split_ifs <;> exact hbroker

/-- An event of a topic keeps the record right: it is the next change, or the record falls behind. -/
theorem BrokerState.Follows.receiveTopic {settings : BrokerSettings} {σ : SyncSystem}
    {isAdd changed : Bool} {start changeCount : UInt32} {topic : Bytes}
    (hs : s.Follows guid h n (.topic isAdd start changeCount topic changed :: channel))
    (hguid : guid ≠ cstr settings.guid) (hstart : s.broker.startTime = startTime)
    (htells : (SyncMessage.topic isAdd start changeCount topic changed).Tells guid startTime h n
      snapshots)
    (hlater : ∀ m ∈ channel, m.Follows changeCount.toNat)
    (hwell : σ.TakenWell s (.topic isAdd start changeCount topic changed)) :
    (s.receiveTopic settings isAdd start changeCount topic).Follows guid h n channel := by
  obtain ⟨rfl, hcount, hreal, hnone⟩ := htells
  subst hstart
  obtain ⟨hbroker, hsubs, hchange⟩ :=
    s.changeTopic_spec settings isAdd topic (hs.id ▸ hguid)
  have hid : (s.changeTopic settings isAdd topic).broker.id = guid := by rw [hbroker, hs.id]
  have hhead : (SyncMessage.topic isAdd s.broker.startTime changeCount topic changed) ∈
      SyncMessage.topic isAdd s.broker.startTime changeCount topic changed :: channel :=
    List.mem_cons_self
  unfold BrokerState.receiveTopic
  by_cases hvalid : s.subscriptionsChangeCount = changeCount - 1
  · -- The event is taken for the next change, so it is one, and the record has the topics before.
    rw [if_pos ⟨rfl, hvalid⟩]
    have hchanged : changed = true := by
      by_contra hc
      exact hwell (Bool.eq_false_iff.mpr hc) rfl hvalid
    obtain ⟨hpos, htopics⟩ := hreal hchanged
    rw [UInt32.eq_sub_one_iff hpos] at hvalid
    refine ⟨hid, .inl ⟨?_, hcount, hlater⟩⟩
    rcases hs.topics with ⟨hknown, -, -⟩ | ⟨-, hfollows⟩
    · show (s.changeTopic settings isAdd topic).subscriptions = h.topicsAt changeCount.toNat
      rw [hsubs, htopics, hknown]
      have hpred : changeCount.toNat - 1 = s.subscriptionsChangeCount.toNat := by omega
      rw [hpred]
    · have := (hfollows _ hhead).2 hchanged
      omega
  · rw [if_neg fun hv => hvalid hv.2]
    refine ⟨hid, ?_⟩
    rw [hchange, hsubs]
    rcases hs.topics with ⟨hknown, hle, hfollows⟩ | ⟨hle, hfollows⟩
    · obtain ⟨hge, hgt⟩ := hfollows _ hhead
      rcases hge.eq_or_lt with heq | hlt
      · -- The event of no change at the count of the record changes nothing here either.
        have hchanged : changed = false := by
          by_contra hc
          have := hgt (by simpa using hc)
          omega
        have hmem := hnone hchanged
        rw [← heq, ← hknown] at hmem
        refine .inl ⟨?_, hle, fun m hm => hfollows m (List.mem_cons_of_mem _ hm)⟩
        rw [← hknown]
        cases isAdd with
        | true => simpa using hmem
        | false => simpa using hmem
      · exact .inr ⟨by omega, fun m hm => (hlater m hm).mono hlt⟩
    · exact .inr ⟨hle, fun m hm => hfollows m (List.mem_cons_of_mem _ hm)⟩

end

/-! ### Every step keeps the invariant -/

section

variable {sending receiving : BrokerSettings} {env : RegistryEnv} {startTime : UInt32}
  {h h' : SyncHistory} {n n' : ℕ} {σ : SyncSystem}

/-- The history that goes on with the topics at the next change count. -/
def SyncHistory.change (h : SyncHistory) (n : ℕ) (topics : Finset Bytes) : SyncHistory :=
  { h with topicsAt := Function.update h.topicsAt (n + 1) topics }

theorem SyncHistory.change_of_le (h : SyncHistory) (n : ℕ) (topics : Finset Bytes) {k : ℕ}
    (hk : k ≤ n) : (h.change n topics).topicsAt k = h.topicsAt k :=
  Function.update_of_ne (by omega) _ _

@[simp] theorem SyncHistory.change_succ (h : SyncHistory) (n : ℕ) (topics : Finset Bytes) :
    (h.change n topics).topicsAt (n + 1) = topics := Function.update_self _ _ _

/-- The history with one more transfer. -/
def SyncHistory.transfer (h : SyncHistory) (snapshot n : ℕ) (batches : List (List Bytes)) :
    SyncHistory :=
  { h with
    batches := Function.update h.batches snapshot batches
    countAt := Function.update h.countAt snapshot n }

/-- The sender goes on: later events at the end of the channel. -/
theorem SyncInv.append (hσ : SyncInv sending receiving startTime h n σ) (hn : n ≤ n')
    {sender : BrokerRegistry} {s : BrokerState} {sent : List SyncMessage} {snapshots : ℕ}
    (hsnap : σ.snapshots ≤ snapshots) (htopics : ∀ k ≤ n, h'.topicsAt k = h.topicsAt k)
    (hbatches : ∀ k < σ.snapshots, h'.batches k = h.batches k ∧ h'.countAt k = h.countAt k)
    (hs : sender.brokers.lookup (cstr sending.guid) = some s)
    (hid : s.broker.id = cstr sending.guid) (hstart : s.broker.startTime = startTime)
    (hcount : s.subscriptionsChangeCount.toNat = n') (hsubs : s.subscriptions = h'.topicsAt n')
    (hcard : (h'.topicsAt n').card ≤ n')
    (htells : ∀ m ∈ sent, m.Tells (cstr sending.guid) startTime h' n' snapshots)
    (hfollows : ∀ m ∈ sent, m.Follows n)
    (hordered : sent.Pairwise fun m m' => ∀ k, m.count = some k → m'.Follows k) :
    SyncInv sending receiving startTime h' n'
      { σ with sender := sender, channel := σ.channel ++ sent, snapshots := snapshots } where
  guids := hσ.guids
  zero := (htopics 0 (Nat.zero_le n)).trans hσ.zero
  card_le := hcard
  sender := ⟨s, hs, hid, hstart, hcount, hsubs⟩
  tells m hm := by
    rcases List.mem_append.mp hm with hm | hm
    · exact (hσ.tells m hm).mono hn hsnap htopics hbatches
    · exact htells m hm
  ordered := by
    refine List.pairwise_append.mpr ⟨hσ.ordered, hordered, fun m hm m' hm' k hk => ?_⟩
    exact (hfollows m' hm').mono ((hσ.tells m hm).count_le k hk)
  progress snapshot i hi := lt_of_lt_of_le (hσ.progress snapshot i hi) hsnap
  record s hs hstart := by
    obtain ⟨hrecord, hpends⟩ := hσ.record s hs hstart
    refine ⟨hrecord.of_channel hn htopics fun m hm => ?_, fun hrouting snapshot i hi => ?_⟩
    · exact (List.mem_append.mp hm).imp_right (hfollows m)
    · obtain ⟨hb, hc⟩ := hbatches snapshot (hσ.progress snapshot i hi)
      rw [hb, hc]
      exact hpends hrouting snapshot i hi

/-- A topic is added or removed at the sender. -/
theorem SyncInv.topicChanged (hσ : SyncInv sending receiving startTime h n σ) {isAdd : Bool}
    {topic : Bytes} (hpossible : n + 1 < 2 ^ 32) :
    ∃ h' n', SyncInv sending receiving startTime h' n'
      (σ.send (onTopicChanged sending env isAdd topic σ.sender)) := by
  obtain ⟨s, hs, hid, hstart, hcount, hsubs⟩ := hσ.sender
  have hkeep : ∀ k ≤ n, h.topicsAt k = h.topicsAt k := fun _ _ => rfl
  rcases @onTopicChanged_spec sending env σ.sender s isAdd topic hs hid with
    hnone | ⟨s', hs', hbroker, ⟨hmem, rfl, hsent⟩ | ⟨hsubs', hcount', hsent⟩⟩
  · rw [hnone, SyncSystem.send, List.append_nil]
    exact ⟨h, n, hσ⟩
  · refine ⟨h, n, hσ.append le_rfl le_rfl hkeep (fun _ _ => ⟨rfl, rfl⟩) hs' hid hstart hcount hsubs
      hσ.card_le ?_ ?_ ?_⟩
    · rw [hsent]
      simp only [List.mem_singleton, forall_eq]
      rw [hsubs, ← hcount] at hmem
      exact ⟨hstart, hcount.le, fun hc => absurd hc Bool.false_ne_true, fun _ => hmem⟩
    · rw [hsent]
      simp only [List.mem_singleton, forall_eq]
      exact ⟨hcount.ge, fun hc => absurd hc Bool.false_ne_true⟩
    · rw [hsent]
      exact List.pairwise_singleton _ _
  · have hnext : (s.subscriptionsChangeCount + 1).toNat = n + 1 := by
      rw [UInt32.toNat_add, hcount]
      exact Nat.mod_eq_of_lt hpossible
    have hold : ∀ k ≤ n, (h.change n s'.subscriptions).topicsAt k = h.topicsAt k :=
      fun k => h.change_of_le n _
    refine ⟨h.change n s'.subscriptions, n + 1, hσ.append (Nat.le_succ n) le_rfl hold
      (fun _ _ => ⟨rfl, rfl⟩) hs' (hbroker ▸ hid) (hbroker ▸ hstart) (hcount' ▸ hnext)
      (h.change_succ n _).symm ?_ ?_ ?_ ?_⟩
    · have hcard := hσ.card_le
      rw [h.change_succ, hsubs', hsubs]
      split_ifs
      · exact (Finset.card_insert_le topic _).trans (Nat.succ_le_succ hcard)
      · exact (Finset.card_erase_le.trans hcard).trans (Nat.le_succ n)
    · rw [hsent]
      simp only [List.mem_singleton, forall_eq]
      refine ⟨hstart, hnext.le, fun _ => ?_, fun hc => absurd hc.symm Bool.false_ne_true⟩
      rw [hnext, h.change_succ, Nat.add_sub_cancel, hold n le_rfl, ← hsubs]
      exact ⟨Nat.le_add_left 1 n, hsubs'⟩
    · rw [hsent]
      simp only [List.mem_singleton, forall_eq]
      exact ⟨by omega, fun _ => by omega⟩
    · rw [hsent]
      exact List.pairwise_singleton _ _

/-- The sender sends its state and all topics. -/
theorem SyncInv.sendState (hσ : SyncInv sending receiving startTime h n σ) {properties : Broker}
    {topics : List Bytes} {charCount : Int32} (hnodup : topics.Nodup)
    (hall : topics.toFinset = h.topicsAt n) :
    ∃ h', SyncInv sending receiving startTime h' n
      (σ.step sending receiving env (.sendState properties topics charCount)) := by
  obtain ⟨s, hs, hid, hstart, hcount, hsubs⟩ := hσ.sender
  have hsize : topics.length < 2 ^ 32 := by
    rw [← List.toFinset_card_of_nodup hnodup, hall]
    exact hσ.card_le.trans_lt (hcount ▸ s.subscriptionsChangeCount.toNat_lt)
  obtain ⟨-, hflat, -, hmarks⟩ := batchTopics_spec charCount hsize
  refine ⟨h.transfer σ.snapshots n ((batchTopics charCount topics).map fun c => c.topics),
    hσ.append le_rfl (Nat.le_succ _) (fun _ _ => rfl) (fun k hk => ?_) hs hid hstart hcount hsubs
      hσ.card_le ?_ ?_ ?_⟩
  · exact ⟨Function.update_of_ne hk.ne _ _, Function.update_of_ne hk.ne _ _⟩
  · intro m hm
    rw [sendLocalBrokerStateEvent, hs, Option.elim_some, List.mem_cons] at hm
    rcases hm with rfl | hm
    · exact ⟨hid, hstart⟩
    · split_ifs at hm
      · obtain ⟨⟨b, i⟩, hb, rfl⟩ := List.mem_map.mp hm
        rw [List.mem_zipIdx_iff_getElem?] at hb
        obtain ⟨-, hfirst, hlast⟩ := hmarks i b hb
        refine ⟨hstart, hcount.le, Nat.lt_succ_self _, ?_, ?_, ?_, ?_, ?_⟩
        · simp [SyncHistory.transfer, hcount]
        · simp [SyncHistory.transfer, hb, TopicBatch.payload]
        · rw [TopicBatch.payload_start, hfirst]
        · rw [TopicBatch.payload_end, hlast]
          simp [SyncHistory.transfer]
        · simp [SyncHistory.transfer, hflat, hall, hcount]
      · cases hm
  · intro m hm
    rw [sendLocalBrokerStateEvent, hs, Option.elim_some, List.mem_cons] at hm
    rcases hm with rfl | hm
    · trivial
    · split_ifs at hm
      · obtain ⟨⟨b, i⟩, -, rfl⟩ := List.mem_map.mp hm
        exact hcount.ge
      · cases hm
  · rw [sendLocalBrokerStateEvent, hs, Option.elim_some, List.pairwise_cons]
    refine ⟨fun m _ k hk => absurd hk (by simp [SyncMessage.count]), ?_⟩
    split_ifs
    · refine List.pairwise_map.mpr (List.pairwise_of_forall fun b b' k hk => ?_)
      exact (Option.some.inj hk).ge
    · exact List.Pairwise.nil

end

section

variable {sending receiving : BrokerSettings} {env : RegistryEnv} {startTime : UInt32}
  {h : SyncHistory} {n : ℕ} {σ : SyncSystem}

/-- The channel loses events, or the receiver's records go or stay as they are. -/
theorem SyncInv.of_sublist (hσ : SyncInv sending receiving startTime h n σ)
    {channel : List SyncMessage} (hsub : channel.Sublist σ.channel) {receiver : BrokerRegistry}
    (hrecord : ∀ s', receiver.brokers.lookup (cstr sending.guid) = some s' →
      ∃ s, σ.receiver.brokers.lookup (cstr sending.guid) = some s ∧ s.SameTopics s' ∧
        s'.pendingSubscriptions = s.pendingSubscriptions) :
    SyncInv sending receiving startTime h n
      { σ with channel := channel, receiver := receiver } where
  guids := hσ.guids
  zero := hσ.zero
  card_le := hσ.card_le
  sender := hσ.sender
  tells m hm := hσ.tells m (hsub.subset hm)
  ordered := hσ.ordered.sublist hsub
  progress := hσ.progress
  record s' hs' hstart := by
    obtain ⟨s, hs, hsame, hpending⟩ := hrecord s' hs'
    obtain ⟨hfollows, hpends⟩ := hσ.record s hs (hsame.startTime ▸ hstart)
    refine ⟨(hfollows.of_sameTopics hsame).of_channel le_rfl (fun _ _ => rfl)
      fun m hm => .inl (hsub.subset hm), fun hrouting => ?_⟩
    unfold BrokerState.Pends
    rw [hpending, hsame.changeCount]
    exact hpends hrouting

/-- The record after an event is received. -/
theorem SyncInv.receive_record {m : SyncMessage} {rest : List SyncMessage} {s' : BrokerState}
    (hσ : SyncInv sending receiving startTime h n σ) (hchannel : σ.channel = m :: rest)
    (hwell : σ.DeliveredWell sending receiving .deliver)
    (hs' : (m.receive sending receiving env σ.receiver).brokers.lookup (cstr sending.guid) =
      some s') (hstart : s'.broker.startTime = startTime) :
    s'.Follows (cstr sending.guid) h n rest ∧
      (receiving.topicRoutingEnabled = true → s'.Pends h (m.progress σ.progress)) := by
  have htells : ∀ m' ∈ m :: rest, m'.Tells (cstr sending.guid) startTime h n σ.snapshots :=
    hchannel ▸ hσ.tells
  have hordered := hσ.ordered
  rw [hchannel, List.pairwise_cons] at hordered
  have hrecord : ∀ s, σ.receiver.brokers.lookup (cstr sending.guid) = some s →
      s.broker.startTime = startTime → s.Follows (cstr sending.guid) h n (m :: rest) ∧
        (receiving.topicRoutingEnabled = true → s.Pends h σ.progress) := hchannel ▸ hσ.record
  have hrest : ∀ s : BrokerState, s.Follows (cstr sending.guid) h n (m :: rest) →
      s.Follows (cstr sending.guid) h n rest := fun s hs =>
    hs.of_channel le_rfl (fun _ _ => rfl) fun m hm => .inl (List.mem_cons_of_mem _ hm)
  have htaken : receiving.topicRoutingEnabled = true → ∀ s,
      σ.receiver.brokers.lookup (cstr sending.guid) = some s → σ.TakenWell s m :=
    fun hrouting s hs => hwell hrouting m (by simp [hchannel]) s hs
  cases m with
  | state p =>
    obtain ⟨hid, -⟩ := htells _ List.mem_cons_self
    refine ⟨?_, fun _ snapshot i hi => absurd hi (by simp [SyncMessage.progress])⟩
    rw [SyncMessage.receive, ← hid] at hs'
    rcases onBrokerState_record hs' with ⟨s, hs, hsame⟩ | ⟨hid', hsubs, hcount⟩
    · rw [hid] at hs
      exact (hrest s (hrecord s hs (hsame.startTime ▸ hstart)).1).of_sameTopics hsame
    · exact .of_new (hid'.trans hid) hsubs hcount hσ.zero
        fun m hm => htells m (List.mem_cons_of_mem _ hm)
  | topics start changeCount p snapshot index =>
    rw [SyncMessage.receive] at hs'
    by_cases hrouting : receiving.topicRoutingEnabled = true
    · rw [if_pos hrouting, BrokerRegistry.lookup_onBrokerStateTopics, if_pos rfl,
        Option.map_eq_some_iff] at hs'
      obtain ⟨s, hs, rfl⟩ := hs'
      rw [BrokerState.receiveBatch_broker] at hstart
      obtain ⟨hfollows, hpends⟩ := hrecord s hs hstart
      obtain ⟨hfollows', hpends'⟩ := hfollows.receiveBatch (hpends hrouting) hstart
        (htells _ List.mem_cons_self) (fun m hm => hordered.1 m hm _ rfl) (htaken hrouting s hs)
      exact ⟨hfollows', fun _ => hpends'⟩
    · rw [if_neg hrouting] at hs'
      exact ⟨hrest s' (hrecord s' hs' hstart).1, fun hr => absurd hr hrouting⟩
  | topic isAdd start changeCount topic changed =>
    refine ⟨?_, fun _ snapshot i hi => absurd hi (by simp [SyncMessage.progress])⟩
    rw [SyncMessage.receive] at hs'
    by_cases hrouting : receiving.topicRoutingEnabled = true
    · rw [if_pos hrouting, BrokerRegistry.lookup_onBrokerTopic, if_pos rfl,
        Option.map_eq_some_iff] at hs'
      obtain ⟨s, hs, hreceived⟩ := hs'
      have hsame : s' = s.receiveTopic receiving isAdd start changeCount topic := hreceived.symm
      rw [hsame] at hstart ⊢
      rw [BrokerState.receiveTopic_broker] at hstart
      exact (hrecord s hs hstart).1.receiveTopic hσ.guids.symm hstart
        (htells _ List.mem_cons_self) (fun m hm => hordered.1 m hm _ rfl) (htaken hrouting s hs)
    · rw [if_neg hrouting] at hs'
      exact hrest s' (hrecord s' hs' hstart).1

theorem SyncInv.deliver (hσ : SyncInv sending receiving startTime h n σ)
    (hwell : σ.DeliveredWell sending receiving .deliver) :
    SyncInv sending receiving startTime h n (σ.step sending receiving env .deliver) := by
  unfold SyncSystem.step
  cases hchannel : σ.channel with
  | nil => exact hσ
  | cons m rest =>
    have hsub : rest.Sublist σ.channel := hchannel ▸ List.sublist_cons_self m rest
    refine ⟨hσ.guids, hσ.zero, hσ.card_le, hσ.sender, fun m hm => hσ.tells m (hsub.subset hm),
      hσ.ordered.sublist hsub, fun snapshot i hi => ?_, fun s' hs' hstart =>
      hσ.receive_record hchannel hwell hs' hstart⟩
    have htells := hσ.tells m (hchannel ▸ List.mem_cons_self)
    cases m with
    | state p => exact absurd hi (by simp [SyncMessage.progress])
    | topics start changeCount p snapshot' index =>
      simp only [SyncMessage.progress] at hi
      split_ifs at hi
      · simp only [Option.some.injEq, Prod.mk.injEq] at hi
        exact hi.1 ▸ htells.2.2.1
    | topic isAdd start changeCount topic changed =>
      exact absurd hi (by simp [SyncMessage.progress])

/-- Every step that is possible and delivers well keeps the invariant. -/
theorem SyncInv.step (hσ : SyncInv sending receiving startTime h n σ) {op : SyncOp}
    (hop : σ.Possible sending op ∧ σ.DeliveredWell sending receiving op) :
    ∃ h' n', SyncInv sending receiving startTime h' n' (σ.step sending receiving env op) := by
  obtain ⟨hpossible, hwell⟩ := hop
  obtain ⟨s, hs, hid, hstart, hcount, hsubs⟩ := hσ.sender
  cases op with
  | topicAdded topic => exact hσ.topicChanged (hcount ▸ hpossible s hs)
  | topicRemoved topic => exact hσ.topicChanged (hcount ▸ hpossible s hs)
  | sendState properties topics charCount =>
    obtain ⟨h', hσ'⟩ := hσ.sendState (hpossible s hs).1 ((hpossible s hs).2.trans hsubs)
    exact ⟨h', n, hσ'⟩
  | lose i =>
    exact ⟨h, n, hσ.of_sublist (List.eraseIdx_sublist σ.channel i)
      fun s' hs' => ⟨s', hs', ⟨rfl, rfl, rfl, rfl⟩, rfl⟩⟩
  | deliver => exact ⟨h, n, hσ.deliver hwell⟩
  | maintain =>
    exact ⟨h, n, hσ.of_sublist (List.Sublist.refl σ.channel) fun s' => onCoreMaintenance_record⟩

theorem SyncSystem.Starts.syncInv (hσ : σ.Starts sending receiving) :
    ∃ startTime h n, SyncInv sending receiving startTime h n σ := by
  obtain ⟨s, hs, hid, hsubs, hcount, hnew⟩ := hσ.sender
  refine ⟨s.broker.startTime, ⟨fun _ => ∅, fun _ => [], fun _ => 0⟩, 0, hσ.guids, rfl, le_rfl,
    ⟨s, hs, hid, rfl, by rw [hcount]; rfl, hsubs⟩, ?_, ?_, ?_,
    fun s' hs' hstart => absurd hstart (hnew s' hs')⟩
  · simp [hσ.channel]
  · simp [hσ.channel]
  · simp [hσ.progress]

/-- **Two brokers agree on the topics of one of them whenever they agree on its start time and change
count, in every run where each delivered event is taken well.** -/
theorem SyncSystem.topics_agree
    (hσ : SyncSystem.Reached sending receiving
      (fun σ op => σ.Possible sending op ∧ σ.DeliveredWell sending receiving op) σ) :
    σ.Agreement sending := by
  obtain ⟨startTime, h, n, hinv⟩ : ∃ startTime h n, SyncInv sending receiving startTime h n σ := by
    induction hσ with
    | init hstarts => exact hstarts.syncInv
    | step _ env op hop ih =>
      obtain ⟨startTime, h, n, hinv⟩ := ih
      exact ⟨startTime, hinv.step hop⟩
  intro s s' hs hs' hstart hcount
  obtain ⟨s₀, hs₀, -, hstart₀, hcount₀, hsubs₀⟩ := hinv.sender
  obtain rfl : s₀ = s := Option.some.inj (hs₀.symm.trans hs)
  rcases (hinv.record s' hs' (hstart.trans hstart₀)).1.topics with ⟨hknown, -, -⟩ | ⟨hbehind, -⟩
  · rw [hknown, hcount, hcount₀, hsubs₀]
  · rw [hcount, hcount₀] at hbehind
    omega

end

/-! ### Runs -/

namespace SyncSystem

instance (sending : BrokerSettings) (σ : SyncSystem) :
    ∀ op, Decidable (σ.Possible sending op)
  | .topicAdded _ | .topicRemoved _ =>
      decidable_of_iff ((σ.sender.brokers.lookup (cstr sending.guid)).all fun s =>
        decide (s.subscriptionsChangeCount.toNat + 1 < 2 ^ 32)) <| by
        simp [Possible, Option.all_eq_true]
  | .sendState _ topics _ =>
      decidable_of_iff ((σ.sender.brokers.lookup (cstr sending.guid)).all fun s =>
        decide (topics.Nodup ∧ topics.toFinset = s.subscriptions)) <| by
        simp [Possible, Option.all_eq_true]
  | .lose _ | .deliver | .maintain => .isTrue trivial

instance (σ : SyncSystem) (s : BrokerState) : ∀ m, Decidable (σ.TakenWell s m)
  | .state _ => .isTrue trivial
  | .topics startTime changeCount p snapshot index =>
      inferInstanceAs (Decidable (s.broker.startTime = startTime →
        s.subscriptionsChangeCount ≠ changeCount → p.state &&& stateEnd ≠ 0 →
          index = 0 ∨ σ.progress = some (snapshot, index)))
  | .topic _ startTime changeCount _ changed =>
      inferInstanceAs (Decidable (changed = false → s.broker.startTime = startTime →
        s.subscriptionsChangeCount ≠ changeCount - 1))

instance (sending receiving : BrokerSettings) (σ : SyncSystem) :
    ∀ op, Decidable (σ.DeliveredWell sending receiving op)
  | .deliver =>
      decidable_of_iff (receiving.topicRoutingEnabled = true → σ.channel.head?.all fun m =>
        (σ.receiver.brokers.lookup (cstr sending.guid)).all fun s =>
          decide (σ.TakenWell s m)) <| by
        simp [DeliveredWell, Option.all_eq_true]
  | .topicAdded _ | .topicRemoved _ | .sendState _ _ _ | .lose _ | .maintain => .isTrue trivial

/-- A sender `S` that has just started, and a receiver `R` that knows no broker. -/
def start : SyncSystem where
  sender := (BrokerRegistry.init BrokerRegistry.steadyEnv).setState (lit "S")
    { broker := { id := lit "S", hostname := lit "h", startTime := 1 } }
  receiver := .init BrokerRegistry.steadyEnv

def runSync (ops : List SyncOp) : SyncSystem :=
  ops.foldl (step { guid := lit "S" } { guid := lit "R" } BrokerRegistry.steadyEnv) start

theorem starts_start : start.Starts { guid := lit "S" } { guid := lit "R" } where
  guids := by decide
  sender := ⟨{ broker := { id := lit "S", hostname := lit "h", startTime := 1 } }, by rfl, by rfl,
    rfl, rfl, fun s' hs' => absurd hs' (by simp [start, BrokerRegistry.init])⟩
  channel := rfl
  progress := rfl

/-- A run is reached if each of its steps meets the condition. -/
theorem reached_runSync {ok : SyncSystem → SyncOp → Prop}
    {ops : List SyncOp} (hops : ∀ i : Fin ops.length, ok (runSync (ops.take i)) (ops.get i)) :
    Reached { guid := lit "S" } { guid := lit "R" } ok (runSync ops) := by
  induction ops using List.reverseRecOn with
  | nil => exact .init starts_start
  | append_singleton ops op ih =>
    rw [runSync, List.foldl_append]
    have hlast : ok (runSync ops) op := by simpa using hops ⟨ops.length, by simp⟩
    refine .step (ih fun i => ?_) _ op hlast
    have hi := hops ⟨i, by simp⟩
    simpa [List.take_append_of_le_length i.2.le] using hi

/-- The sender's two topics are sent in two batches.  The events of the topics and the first batch are
lost. -/
def halfTransfer : List SyncOp :=
  [.topicAdded (lit "a"), .topicAdded (lit "b"), .lose 0, .lose 0,
    .sendState { id := lit "S", hostname := lit "h" } [lit "a", lit "b"] 1, .deliver, .lose 0,
    .deliver]

/-- The receiver is left with half of the topics, at the sender's change count. -/
theorem topics_disagree :
    ¬ ∀ σ, Reached { guid := lit "S" } { guid := lit "R" }
      (fun σ op => σ.Possible { guid := lit "S" } op) σ → σ.Agreement { guid := lit "S" } := by
  intro h
  have hsender : ((runSync halfTransfer).sender.brokers.lookup (lit "S")).isSome = true := by
    decide +kernel
  have hreceiver : ((runSync halfTransfer).receiver.brokers.lookup (lit "S")).isSome = true := by
    decide +kernel
  have hagree := h (runSync halfTransfer) (reached_runSync (by decide +kernel)) _ _
    (Option.some_get hsender).symm (Option.some_get hreceiver).symm (by decide +kernel +revert)
    (by decide +kernel +revert)
  exact absurd hagree (by decide +kernel +revert)

def fullTransfer : List SyncOp :=
  [.topicAdded (lit "a"), .topicAdded (lit "b"), .lose 0, .lose 0,
    .sendState { id := lit "S", hostname := lit "h" } [lit "a", lit "b"] 1, .deliver, .deliver,
    .deliver]

/-- Without the loss the receiver has both topics. -/
theorem topics_agree_fullTransfer : (runSync fullTransfer).Agreement { guid := lit "S" } :=
  topics_agree (reached_runSync (by decide +kernel))

end SyncSystem

end DxlBroker
