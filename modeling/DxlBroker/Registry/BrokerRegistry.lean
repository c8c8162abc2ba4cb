import DxlBroker.Registry.TopicCache

/-!
# The broker registry

The registry of all brokers of the fabric with its two caches: the routes found so far, and the
topics behind each bridge.
-/

namespace DxlBroker

open Bytes Unordered

/-- What the operations of the registry read from outside, besides what the topic cache reads. -/
structure RegistryEnv extends CacheEnv where
  time : ℤ
  order : ConnectionOrder

structure BrokerRegistry where
  brokers : BrokerTable := ∅
  /-- The routing cache `m_cache`: the next broker from one broker on the way to another. -/
  cache : Map (Bytes × Bytes) Bytes := ∅
  topicCacheService : TopicCacheService := {}
  ttlCheckTime : ℤ := 0

namespace BrokerRegistry

variable (settings : BrokerSettings) (env : RegistryEnv)

/-- The registry of a broker that starts. -/
def init : BrokerRegistry where
  topicCacheService := .init env.toCacheEnv

/-- `clearCacheWithDelay` of the topic cache, with the delay of the settings. -/
def clearTopicCache (r : BrokerRegistry) : BrokerRegistry :=
  { r with topicCacheService := r.topicCacheService.clearCacheWithDelay env.toCacheEnv 0 }

/-- `clearAllCaches` -/
def clearAllCaches (r : BrokerRegistry) : BrokerRegistry := clearTopicCache env { r with cache := ∅ }

/-- One record is changed, nothing else. -/
def setState (r : BrokerRegistry) (brokerId : Bytes) (s : BrokerState) : BrokerRegistry :=
  { r with brokers := r.brokers.insert brokerId s }

/-- `addBroker`: an existing broker with the same start time keeps its connections and topics. -/
def addBroker (b : Broker) (r : BrokerRegistry) : BrokerRegistry :=
  if b.id = [] ∨ b.hostname = [] then r
  else
    match r.brokers.lookup b.id with
    | some s =>
        if s.broker.startTime = b.startTime then
          let r := if s.broker.isTopicRoutingEnabled settings ≠ b.topicRoutingEnabled then
              r.clearTopicCache env else r
          r.setState b.id { s with broker := { b with id := s.broker.id } }
        else (r.setState b.id { broker := b, regTime := env.time }).clearAllCaches env
    | none => (r.setState b.id { broker := b, regTime := env.time }).clearAllCaches env

/-- `removeBroker`: the connections to the broker are removed from all records but the local one. -/
def removeBroker (brokerId : Bytes) (r : BrokerRegistry) : BrokerRegistry :=
  if r.brokers.hasBroker brokerId then
    let disconnected := r.brokers.mapVals fun id s =>
      if id = cstr settings.guid then s else s.removeConnection brokerId
    clearAllCaches env { r with brokers := disconnected.erase brokerId }
  else r

/-- The record of a broker, if there is one, is replaced. -/
def modifyState (brokerId : Bytes) (f : BrokerState → BrokerState) (r : BrokerRegistry) :
    BrokerRegistry :=
  match r.brokers.lookup brokerId with
  | some s => r.setState brokerId (f s)
  | none => r

/-- `updateTtl` -/
def updateTtl (brokerId : Bytes) (ttl : UInt32) (r : BrokerRegistry) : BrokerRegistry :=
  r.modifyState brokerId fun s => { s with broker := { s.broker with ttl := ttl } }

/-- `updateRegistrationTime` -/
def updateRegistrationTime (brokerId : Bytes) (r : BrokerRegistry) : BrokerRegistry :=
  r.modifyState brokerId fun s => { s with regTime := env.time }

/-- `addConnection` -/
def addConnection (brokerId connectionId : Bytes) (isChild : Bool) (r : BrokerRegistry) :
    BrokerRegistry :=
  if connectionId ≠ [] ∧ (r.brokers.lookup brokerId).isSome then
    (r.modifyState brokerId fun s => s.addConnection connectionId isChild).clearAllCaches env
  else r

/-- `removeConnection` -/
def removeConnection (brokerId connectionId : Bytes) (r : BrokerRegistry) : BrokerRegistry :=
  if connectionId ≠ [] ∧ (r.brokers.lookup brokerId).isSome then
    (r.modifyState brokerId fun s => s.removeConnection connectionId).clearAllCaches env
  else r

/-- `setConnections`: the caches stay when nothing changes. -/
def setConnections (brokerId : Bytes) (connectionIds childConnectionIds : List Bytes)
    (r : BrokerRegistry) : BrokerRegistry :=
  match r.brokers.lookup brokerId with
  | none => r
  | some s =>
      let res := s.setConnections env.iter connectionIds childConnectionIds.toFinset
      if res.2 then (r.setState brokerId res.1).clearAllCaches env else r

/-- `addTopic` -/
def addTopic (brokerId topic : Bytes) (r : BrokerRegistry) : BrokerRegistry :=
  match r.brokers.lookup brokerId with
  | none => r
  | some s =>
      let res := s.addTopic settings topic
      if res.2 then
        let r := r.setState brokerId res.1
        { r with
          topicCacheService :=
            r.topicCacheService.addTopic env.toCacheEnv r.brokers brokerId topic }
      else r

/-- `removeTopic` -/
def removeTopic (brokerId topic : Bytes) (r : BrokerRegistry) : BrokerRegistry :=
  match r.brokers.lookup brokerId with
  | none => r
  | some s =>
      let res := s.removeTopic settings topic
      if res.2 then
        let r := r.setState brokerId res.1
        { r with
          topicCacheService :=
            r.topicCacheService.removeTopic env.toCacheEnv r.brokers brokerId topic }
      else r

/-- `clearPendingTopics` -/
def clearPendingTopics (brokerId : Bytes) (r : BrokerRegistry) : BrokerRegistry :=
  r.modifyState brokerId BrokerState.clearPendingTopics

/-- `addPendingTopics` -/
def addPendingTopics (brokerId : Bytes) (subs : Finset Bytes) (wildcardCount : UInt32)
    (r : BrokerRegistry) : BrokerRegistry :=
  r.modifyState brokerId fun s => s.addPendingTopics subs wildcardCount

/-- `swapPendingTopics` -/
def swapPendingTopics (brokerId : Bytes) (r : BrokerRegistry) : BrokerRegistry :=
  if (r.brokers.lookup brokerId).isSome then
    (r.modifyState brokerId BrokerState.swapPendingTopics).clearTopicCache env
  else r

/-- `setTopicsChangeCount` -/
def setTopicsChangeCount (brokerId : Bytes) (changeCount : UInt32) (r : BrokerRegistry) :
    BrokerRegistry :=
  r.modifyState brokerId fun s => s.setTopicsChangeCount changeCount

/-- A broker is removed if its time to live has passed. -/
def removeIfExpired (r : BrokerRegistry) (brokerId : Bytes) : BrokerRegistry :=
  match r.brokers.lookup brokerId with
  | some s => if s.isExpired settings env.time then r.removeBroker settings env brokerId else r
  | none => r

/-- `onCoreMaintenance`: expired brokers are removed, when it is time to check. -/
def onCoreMaintenance (r : BrokerRegistry) : BrokerRegistry :=
  if env.time - r.ttlCheckTime ≥ settings.ttlCheckIntervalMins * 60 then
    (env.iter.arrange r.brokers.keys).foldl (removeIfExpired settings env)
      { r with ttlCheckTime := env.time }
  else r

/-- `isSubscriberInHierarchy`: the topic cache answers or the brokers are searched. -/
def isSubscriberInHierarchy (brokerId connection topic : Bytes) (r : BrokerRegistry) :
    Bool × BrokerRegistry :=
  let res := r.topicCacheService.isSubscriber settings env.order env.toCacheEnv r.brokers brokerId
    connection topic
  (res.1.getD (r.brokers.findSubscriber settings env.order brokerId connection topic),
    { r with topicCacheService := res.2 })

/-- `getNextBroker`: the route of the cache, or the second broker of a path that is found. -/
def getNextBroker (source target : Bytes) (r : BrokerRegistry) : Bytes × BrokerRegistry :=
  if r.brokers.hasBroker source && r.brokers.hasBroker target then
    if source = target then (target, r)
    else
      match r.cache.lookup (source, target) with
      | some next => (next, r)
      | none =>
          match r.brokers.findPathToBroker env.order source target with
          | some (_ :: next :: _) =>
              (next, if next = [] then r
                else { r with cache := r.cache.insert (source, target) next })
          | _ => ([], r)
  else ([], r)

end BrokerRegistry

/-! ### What the operations do to the records -/

namespace BrokerRegistry

variable {settings : BrokerSettings} {env : RegistryEnv} (r : BrokerRegistry) (id k : Bytes)

@[simp] theorem clearTopicCache_brokers : (r.clearTopicCache env).brokers = r.brokers := rfl

@[simp] theorem clearAllCaches_brokers : (r.clearAllCaches env).brokers = r.brokers := rfl

theorem lookup_setState (s : BrokerState) :
    (r.setState id s).brokers.lookup k = if k = id then some s else r.brokers.lookup k := by
  show (AList.insert id s r.brokers).lookup k = _
  split_ifs with h
  · rw [h, AList.lookup_insert]
  · exact AList.lookup_insert_ne h

/-- An operation that leaves all records as they are. -/
theorem lookup_self {o : Option BrokerState} (h : r.brokers.lookup id = o) :
    r.brokers.lookup k = if k = id then o else r.brokers.lookup k := by
  split_ifs with hk
  · rw [hk, h]
  · rfl

theorem lookup_modifyState (f : BrokerState → BrokerState) :
    (r.modifyState id f).brokers.lookup k =
      if k = id then (r.brokers.lookup id).map f else r.brokers.lookup k := by
  unfold modifyState
  cases h : r.brokers.lookup id with
  | none => exact lookup_self r id k h
  | some s => exact lookup_setState r id k (f s)

theorem lookup_addTopic (topic : Bytes) :
    (r.addTopic settings env id topic).brokers.lookup k =
      if k = id then (r.brokers.lookup id).map fun s => (s.addTopic settings topic).1
      else r.brokers.lookup k := by
  unfold addTopic
  cases h : r.brokers.lookup id with
  | none => exact lookup_self r id k h
  | some s =>
    by_cases hmem : topic ∈ s.subscriptions
    · simp only [BrokerState.addTopic_of_mem settings s hmem, Option.map_some]
      rw [if_neg Bool.false_ne_true]
      exact lookup_self r id k h
    · have hnew : (s.addTopic settings topic).2 = true := by
        simpa [BrokerState.addTopic_snd] using hmem
      simp only [hnew, if_true]
      exact lookup_setState r id k _

theorem lookup_removeTopic (topic : Bytes) :
    (r.removeTopic settings env id topic).brokers.lookup k =
      if k = id then (r.brokers.lookup id).map fun s => (s.removeTopic settings topic).1
      else r.brokers.lookup k := by
  unfold removeTopic
  cases h : r.brokers.lookup id with
  | none => exact lookup_self r id k h
  | some s =>
    by_cases hmem : topic ∈ s.subscriptions
    · have hgone : (s.removeTopic settings topic).2 = true := by
        simpa [BrokerState.removeTopic_snd] using hmem
      simp only [hgone, if_true]
      exact lookup_setState r id k _
    · simp only [BrokerState.removeTopic_of_notMem settings s hmem, Option.map_some]
      rw [if_neg Bool.false_ne_true]
      exact lookup_self r id k h

theorem lookup_swapPendingTopics :
    (r.swapPendingTopics env id).brokers.lookup k =
      if k = id then (r.brokers.lookup id).map BrokerState.swapPendingTopics
      else r.brokers.lookup k := by
  unfold swapPendingTopics
  split_ifs with hid hk hk
  · simp [lookup_modifyState, hk]
  · simp [lookup_modifyState, hk]
  · rw [hk, Option.not_isSome_iff_eq_none.mp hid]
    rfl
  · rfl

theorem lookup_setConnections (connections children : List Bytes) :
    (r.setConnections env id connections children).brokers.lookup k =
      if k = id then (r.brokers.lookup id).map fun s =>
        (s.setConnections env.iter connections children.toFinset).1
      else r.brokers.lookup k := by
  unfold setConnections
  cases h : r.brokers.lookup id with
  | none => exact lookup_self r id k h
  | some s =>
    cases hflag : (s.setConnections env.iter connections children.toFinset).2 with
    | true =>
      simp only [hflag, if_true]
      exact lookup_setState r id k _
    | false =>
      have hsame : (s.setConnections env.iter connections children.toFinset).1 = s := by
        unfold BrokerState.setConnections at hflag ⊢
        split_ifs at hflag ⊢
        rfl
      simp only [hflag, Bool.false_eq_true, if_false, Option.map_some, hsame]
      exact lookup_self r id k h

/-- The record of a broker after `addBroker`. -/
def registered (env : RegistryEnv) (b : Broker) : Option BrokerState → BrokerState
  | some s =>
      if s.broker.startTime = b.startTime then { s with broker := { b with id := s.broker.id } }
      else { broker := b, regTime := env.time }
  | none => { broker := b, regTime := env.time }

theorem lookup_addBroker (b : Broker) :
    (r.addBroker settings env b).brokers.lookup k =
      if k = b.id ∧ b.id ≠ [] ∧ b.hostname ≠ [] then
        some (registered env b (r.brokers.lookup b.id))
      else r.brokers.lookup k := by
  unfold addBroker
  by_cases hignored : b.id = [] ∨ b.hostname = []
  · rw [if_pos hignored, if_neg]
    tauto
  · rw [if_neg hignored]
    have hid : b.id ≠ [] ∧ b.hostname ≠ [] := not_or.mp hignored
    have hiff : (k = b.id ∧ b.id ≠ [] ∧ b.hostname ≠ []) ↔ k = b.id := and_iff_left hid
    simp only [hiff]
    cases h : r.brokers.lookup b.id with
    | none => exact lookup_setState r b.id k _
    | some s =>
      simp only [registered]
      by_cases hstart : s.broker.startTime = b.startTime
      · simp only [hstart, if_true]
        by_cases hrouting : s.broker.isTopicRoutingEnabled settings ≠ b.topicRoutingEnabled
        · rw [if_pos hrouting, lookup_setState]
          rfl
        · rw [if_neg hrouting, lookup_setState]
      · simp only [hstart, if_false]
        exact lookup_setState r b.id k _

/-! ### What the maintenance keeps -/

section

variable {settings : BrokerSettings} {env : RegistryEnv} {r : BrokerRegistry}

theorem removeBroker_of_unknown {id : Bytes} (h : r.brokers.hasBroker id = false) :
    r.removeBroker settings env id = r := by
  rw [removeBroker, h]
  rfl

/-- What the removal of a broker keeps is kept by the check of one broker. -/
theorem removeIfExpired_keeps {I : BrokerRegistry → Prop} {id : Bytes}
    (hremove : I r → I (r.removeBroker settings env id)) (h : I r) :
    I (r.removeIfExpired settings env id) := by
  unfold removeIfExpired
  split
  · split_ifs
    · exact hremove h
    · exact h
  · exact h

/-- What the removal of brokers and the time of the last check leave true is true after the
maintenance. -/
theorem onCoreMaintenance_keeps {I : BrokerRegistry → Prop}
    (hremove : ∀ r id, I r → I (r.removeBroker settings env id))
    (htime : ∀ r time, I r → I { r with ttlCheckTime := time }) (h : I r) :
    I (r.onCoreMaintenance settings env) := by
  have hloop : ∀ (ids : List Bytes) (r : BrokerRegistry), I r →
      I (ids.foldl (removeIfExpired settings env) r) := by
    intro ids
    induction ids with
    | nil => exact fun _ h => h
    | cons id ids ih => exact fun r h => ih _ (removeIfExpired_keeps (hremove r id) h)
  unfold onCoreMaintenance
  split_ifs
  · exact hloop _ _ (htime r env.time h)
  · exact h

end

/-- The search for a route changes the routing cache only. -/
theorem getNextBroker_frame (env : RegistryEnv) (r : BrokerRegistry) (source target : Bytes) :
    (r.getNextBroker env source target).2.brokers = r.brokers ∧
      (r.getNextBroker env source target).2.topicCacheService = r.topicCacheService := by
  unfold getNextBroker
  split_ifs
  · exact ⟨rfl, rfl⟩
  · split
    · exact ⟨rfl, rfl⟩
    · split
      · split_ifs
        · exact ⟨rfl, rfl⟩
        · exact ⟨rfl, rfl⟩
      · exact ⟨rfl, rfl⟩
  · exact ⟨rfl, rfl⟩

end BrokerRegistry

end DxlBroker
