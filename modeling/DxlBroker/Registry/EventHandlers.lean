import DxlBroker.Core.MessageFields
import DxlBroker.Registry.CacheRuns

/-!
# The handlers of broker events

The events by which brokers tell each other their state: the broker with its connections, its topics
in batches, and single topics added or removed.  Parsing JSON is not part of the model: a handler is
given what the parser makes of the payload, which may be an error.
-/

namespace DxlBroker

open Bytes Unordered

/-! ### Message header values -/

/-- The digits of `istringstream >> uint32_t`: white space is skipped, a sign is accepted, and a
number that does not fit becomes the largest one. -/
def asUint32 (value : Bytes) : UInt32 :=
  let text := value.dropWhile fun c => c == 0x20 || (0x09 ≤ c && c ≤ 0x0d)
  let negative := text.head? == some 0x2d
  let text := if negative || text.head? == some 0x2b then text.drop 1 else text
  let digits := text.takeWhile fun c => 0x30 ≤ c && c ≤ 0x39
  let n := digits.foldl (fun n c => n * 10 + (c - 0x30).toNat) 0
  if n < 2 ^ 32 then if negative then -UInt32.ofNat n else UInt32.ofNat n else 0xffffffff

def propStartTime : Bytes := lit "startTime"

def propChangeCount : Bytes := lit "changeCount"

/-- `getOtherField` -/
def DxlMessage.getOtherField (m : DxlMessage) (name : Bytes) : Option Bytes :=
  m.getOtherFields.otherFields.bind fun fields => fields.lookup name

/-- `getMessageHeaderValues`: the broker start time and the change count, zero when absent. -/
def getMessageHeaderValues (m : DxlMessage) : UInt32 × UInt32 :=
  ((m.getOtherField propStartTime).elim 0 asUint32,
    (m.getOtherField propChangeCount).elim 0 asUint32)

/-! ### Payloads -/

/-- `BrokerStateEventPayload` as it is read. -/
structure BrokerStateEventPayload where
  broker : Broker
  connections : List Bytes
  childConnections : List Bytes

/-- `BrokerStateTopicsEventPayload` as it is read. -/
structure BrokerStateTopicsEventPayload where
  state : UInt8
  topics : List Bytes

def stateStart : UInt8 := 0x01

def stateEnd : UInt8 := 0x02

/-- What the JSON parser and the `read` functions make of a payload. -/
structure PayloadReader where
  brokerState : Bytes → Except String BrokerStateEventPayload
  brokerStateTopics : Bytes → Except String BrokerStateTopicsEventPayload
  brokerTopic : Bytes → Except String Bytes

/-! ### What an event does to the registry -/

namespace BrokerRegistry

variable (settings : BrokerSettings) (env : RegistryEnv)

/-- A broker tells its properties and connections. -/
def onBrokerState (p : BrokerStateEventPayload) (r : BrokerRegistry) : BrokerRegistry :=
  ((r.addBroker settings env p.broker).setConnections env p.broker.id p.connections
    p.childConnections).updateRegistrationTime env p.broker.id

/-- A batch of a broker's topics, unless the record has this start time and change count already. -/
def onBrokerStateTopics (brokerGuid : Bytes) (startTime changeCount : UInt32)
    (p : BrokerStateTopicsEventPayload) (r : BrokerRegistry) : BrokerRegistry :=
  match r.brokers.lookup brokerGuid with
  | none => r
  | some s =>
      if s.broker.startTime ≠ startTime ∨ s.subscriptionsChangeCount ≠ changeCount then
        let r := if p.state &&& stateStart ≠ 0 then r.clearPendingTopics brokerGuid else r
        let r := r.addPendingTopics brokerGuid p.topics.toFinset (readWildcardCount p.topics)
        if p.state &&& stateEnd ≠ 0 then
          (r.swapPendingTopics env brokerGuid).setTopicsChangeCount brokerGuid changeCount
        else r
      else r

/-- The record is the one before the change: same start time, and the count one behind.  A broker
without a record counts as valid. -/
def validState (brokerGuid : Bytes) (startTime changeCount : UInt32) (r : BrokerRegistry) : Bool :=
  (r.brokers.lookup brokerGuid).elim true fun s =>
    s.broker.startTime == startTime && s.subscriptionsChangeCount == changeCount - 1

/-- One topic is added or removed, whether the record is valid or not; only a valid one gets the new
change count. -/
def onBrokerTopic (sourceBrokerGuid : Bytes) (isAdd : Bool) (startTime changeCount : UInt32)
    (topic : Bytes) (r : BrokerRegistry) : BrokerRegistry :=
  let valid := r.validState sourceBrokerGuid startTime changeCount
  let r := if isAdd then r.addTopic settings env sourceBrokerGuid topic
    else r.removeTopic settings env sourceBrokerGuid topic
  if valid then r.setTopicsChangeCount sourceBrokerGuid changeCount else r

end BrokerRegistry

/-! ### What an event does to the record of its broker -/

section

variable {settings : BrokerSettings} {env : RegistryEnv} {r : BrokerRegistry}

/-- The record after a batch of topics. -/
def BrokerState.receiveBatch (startTime changeCount : UInt32) (p : BrokerStateTopicsEventPayload)
    (s : BrokerState) : BrokerState :=
  if s.broker.startTime ≠ startTime ∨ s.subscriptionsChangeCount ≠ changeCount then
    let s := if p.state &&& stateStart ≠ 0 then s.clearPendingTopics else s
    let s := s.addPendingTopics p.topics.toFinset (readWildcardCount p.topics)
    if p.state &&& stateEnd ≠ 0 then s.swapPendingTopics.setTopicsChangeCount changeCount else s
  else s

theorem BrokerRegistry.lookup_onBrokerStateTopics (guid k : Bytes)
    (startTime changeCount : UInt32) (p : BrokerStateTopicsEventPayload) :
    (r.onBrokerStateTopics env guid startTime changeCount p).brokers.lookup k =
      if k = guid then (r.brokers.lookup guid).map (BrokerState.receiveBatch startTime changeCount p)
      else r.brokers.lookup k := by
  unfold onBrokerStateTopics
  cases hs : r.brokers.lookup guid with
  | none =>
    by_cases hk : k = guid
    · rw [if_pos hk, hk, hs]
      rfl
    · rw [if_neg hk]
  | some s =>
    simp only [Option.map_some, BrokerState.receiveBatch]
    by_cases hk : k = guid
    · subst hk
      rw [if_pos rfl]
      split_ifs <;>
        simp [hs, setTopicsChangeCount, lookup_modifyState, lookup_swapPendingTopics,
          addPendingTopics, clearPendingTopics]
    · rw [if_neg hk]
      split_ifs <;>
        simp [hk, setTopicsChangeCount, lookup_modifyState, lookup_swapPendingTopics,
          addPendingTopics, clearPendingTopics]

/-- The record after a topic was added or removed. -/
def BrokerState.changeTopic (settings : BrokerSettings) (isAdd : Bool) (topic : Bytes)
    (s : BrokerState) : BrokerState :=
  if isAdd then (s.addTopic settings topic).1 else (s.removeTopic settings topic).1

theorem BrokerRegistry.lookup_onBrokerTopic (guid k : Bytes) (isAdd : Bool) (startTime changeCount : UInt32)
    (topic : Bytes) :
    (r.onBrokerTopic settings env guid isAdd startTime changeCount topic).brokers.lookup k =
      if k = guid then (r.brokers.lookup guid).map fun s =>
        if s.broker.startTime = startTime ∧ s.subscriptionsChangeCount = changeCount - 1 then
          (s.changeTopic settings isAdd topic).setTopicsChangeCount changeCount
        else s.changeTopic settings isAdd topic
      else r.brokers.lookup k := by
  unfold BrokerRegistry.onBrokerTopic BrokerState.changeTopic
  have htopic : ∀ k, (if isAdd then r.addTopic settings env guid topic
      else r.removeTopic settings env guid topic).brokers.lookup k =
      if k = guid then (r.brokers.lookup guid).map fun s =>
        if isAdd then (s.addTopic settings topic).1 else (s.removeTopic settings topic).1
      else r.brokers.lookup k := by
    intro k
    cases isAdd with
    | true => exact BrokerRegistry.lookup_addTopic r guid k topic
    | false => exact BrokerRegistry.lookup_removeTopic r guid k topic
  simp only
  cases hs : r.brokers.lookup guid with
  | none =>
    have hvalid : r.validState guid startTime changeCount = true := by
      simp [BrokerRegistry.validState, hs]
    rw [hvalid, if_pos rfl, BrokerRegistry.setTopicsChangeCount, BrokerRegistry.lookup_modifyState,
      htopic, htopic, if_pos rfl, hs]
    split_ifs <;> rfl
  | some s =>
    have hvalid : r.validState guid startTime changeCount = true ↔
        s.broker.startTime = startTime ∧ s.subscriptionsChangeCount = changeCount - 1 := by
      simp [BrokerRegistry.validState, hs]
    by_cases hv : s.broker.startTime = startTime ∧ s.subscriptionsChangeCount = changeCount - 1
    · rw [if_pos (hvalid.mpr hv), BrokerRegistry.setTopicsChangeCount,
        BrokerRegistry.lookup_modifyState, htopic, htopic, if_pos rfl, hs]
      simp only [Option.map_some, if_pos hv]
      split_ifs <;> rfl
    · rw [if_neg (mt hvalid.mp hv), htopic, hs]
      simp only [Option.map_some, if_neg hv]

end

/-! ### The handlers -/

/-- The events with a handler here. -/
inductive BrokerEvent
  | brokerState
  | brokerStateTopics
  | topicAdded
  | topicRemoved
  deriving DecidableEq

section

variable (settings : BrokerSettings) (env : RegistryEnv) (reader : PayloadReader)
  (ctx : CoreMessageContext) (evt : DxlMessage) (r : BrokerRegistry)

/-- `BrokerStateEventHandler::onStoreMessage` -/
def brokerStateEventHandler : Except String BrokerRegistry :=
  if ctx.isLocalBrokerSource settings then .ok r
  else (reader.brokerState evt.getPayloadStr).map fun p => r.onBrokerState settings env p

/-- `BrokerStateTopicsEventHandler::onStoreMessage`: the payload is only read when it is needed. -/
def brokerStateTopicsEventHandler : Except String BrokerRegistry :=
  if settings.topicRoutingEnabled && !ctx.isLocalBrokerSource settings then
    match r.brokers.lookup evt.getSourceBrokerGuid with
    | none => .ok r
    | some s =>
        let header := getMessageHeaderValues evt
        if s.broker.startTime ≠ header.1 ∨ s.subscriptionsChangeCount ≠ header.2 then
          (reader.brokerStateTopics evt.getPayloadStr).map fun p =>
            r.onBrokerStateTopics env evt.getSourceBrokerGuid header.1 header.2 p
        else .ok r
  else .ok r

/-- `BrokerTopicEventHandler::onStoreMessage` for the two topics it is registered for. -/
def brokerTopicEventHandler (isAdd : Bool) : Except String BrokerRegistry :=
  if settings.topicRoutingEnabled && !ctx.isLocalBrokerSource settings then
    let header := getMessageHeaderValues evt
    (reader.brokerTopic evt.getPayloadStr).map fun topic =>
      r.onBrokerTopic settings env evt.getSourceBrokerGuid isAdd header.1 header.2 topic
  else .ok r

/-- The handler of each event. -/
def onStoreBrokerEvent : BrokerEvent → Except String BrokerRegistry
  | .brokerState => brokerStateEventHandler settings env reader ctx evt r
  | .brokerStateTopics => brokerStateTopicsEventHandler settings env reader ctx evt r
  | .topicAdded => brokerTopicEventHandler settings env reader ctx evt r true
  | .topicRemoved => brokerTopicEventHandler settings env reader ctx evt r false

end

end DxlBroker
