import DxlBroker.Registry.Hierarchy

/-!
# The topic cache

For each bridge of a broker the cache keeps the topics of all brokers behind the bridge.  A bridge's
cache is built in steps, one for each query, and kept up to date when a broker's topics change; any
other change of the registry clears the whole cache, which may then rest for a while.
-/

namespace DxlBroker

open Bytes Unordered

inductive CacheState
  | start
  | building
  | completed
  deriving DecidableEq

/-- `BrokerBridgeTopicCache`: the topics behind one bridge.  The count of the wildcards is an `int`, here
one that goes round. -/
structure BridgeTopicCache where
  brokers : Finset Bytes := ∅
  cachedBrokers : Finset Bytes := ∅
  topics : Finset Bytes := ∅
  wildcardCount : Int32 := 0
  topicRoutingEnabled : Bool := true
  state : CacheState := .start
  /-- The brokers that `m_brokersIter` has not passed yet. -/
  brokersIter : List Bytes := []

namespace BridgeTopicCache

/-- `_addTopic` -/
def addTopicHere (c : BridgeTopicCache) (topic : Bytes) : BridgeTopicCache :=
  if topic ∈ c.topics then c
  else
    { c with
      topics := insert topic c.topics
      wildcardCount := if isWildcard topic then c.wildcardCount + 1 else c.wildcardCount }

/-- `forEachTopic` with `_addTopic`: the order of the topics does not matter
(`addTopics_eq_foldl`). -/
def addTopics (c : BridgeTopicCache) (topics : Finset Bytes) : BridgeTopicCache :=
  { c with
    topics := c.topics ∪ topics
    wildcardCount := c.wildcardCount + Int32.ofNat (wildcardTotal (topics \ c.topics)) }

section Build

variable (settings : BrokerSettings) (order : ConnectionOrder) (iter : IterOrder Bytes)
  (brokers : BrokerTable)

/-- The visit of `FindBrokersVisitor` ends the traversal: the broker has topic routing off. -/
def stopsVisit (b : Bytes) : Bool :=
  (brokers.lookup b).elim false fun s => !s.isTopicRoutingEnabled settings

/-- All brokers a traversal can meet. -/
def occurring (start : Bytes) : List Bytes :=
  start :: brokers.keys.flatMap fun b => brokers.connections order b

/-- The first step of `buildCacheIncrement`: all brokers behind the bridge are found. -/
def findBrokers (brokerId bridgeId : Bytes) (c : BridgeTopicCache) : BridgeTopicCache :=
  let found := brokers.depthFirstTraversal order bridgeId brokerId (stopsVisit settings brokers)
  let visited := c.brokers ∪ found.2
  let enabled := c.topicRoutingEnabled && !found.1
  let iterated := iter.enumerate (occurring order brokers bridgeId) visited
  { c with
    brokers := visited
    topicRoutingEnabled := enabled
    brokersIter := iterated
    state := if enabled && !iterated.isEmpty then .building else .completed }

/-- The topics of a broker are added, if it is known. -/
def cacheBroker (b : Bytes) (c : BridgeTopicCache) : BridgeTopicCache :=
  match brokers.lookup b with
  | some s => { c.addTopics s.subscriptions with cachedBrokers := insert b c.cachedBrokers }
  | none => c

/-- The topics that the next step of the build adds. -/
def nextTopics (c : BridgeTopicCache) : Finset Bytes :=
  match c.state, c.brokersIter with
  | .building, b :: _ => (brokers.lookup b).elim ∅ fun s => s.subscriptions
  | _, _ => ∅

/-- `buildCacheIncrement` for a bridge of a source broker. -/
def buildCacheIncrement (brokerId bridgeId : Bytes) (c : BridgeTopicCache) : BridgeTopicCache :=
  match c.state, c.brokersIter with
  | .start, _ => c.findBrokers settings order iter brokers brokerId bridgeId
  | .building, b :: rest =>
      { c.cacheBroker brokers b with
        brokersIter := rest
        state := if rest.isEmpty then .completed else .building }
  | .building, [] => c
  | .completed, _ => c

end Build

/-- `containsBroker` -/
def containsBroker (c : BridgeTopicCache) (brokerId : Bytes) : Bool := decide (brokerId ∈ c.brokers)

/-- `isBrokerCached` -/
def isBrokerCached (c : BridgeTopicCache) (brokerId : Bytes) : Bool :=
  if c.state = .completed then c.containsBroker brokerId else decide (brokerId ∈ c.cachedBrokers)

/-- `addTopic`, for a cache that contains the broker. -/
def addTopic (brokers : BrokerTable) (brokerId topic : Bytes) (c : BridgeTopicCache) :
    BridgeTopicCache :=
  if c.topicRoutingEnabled && c.isBrokerCached brokerId && decide (topic ∉ c.topics) &&
      brokers.hasTopic brokerId topic then
    c.addTopicHere topic
  else c

/-- `removeTopic`, for a cache that contains the broker: the topic stays while another cached broker
has it. -/
def removeTopic (brokers : BrokerTable) (brokerId topic : Bytes) (c : BridgeTopicCache) :
    BridgeTopicCache :=
  if c.topicRoutingEnabled && c.isBrokerCached brokerId && decide (topic ∈ c.topics) &&
      !brokers.hasTopic brokerId topic &&
      !decide (∃ b ∈ c.cachedBrokers, brokers.hasTopic b topic = true) then
    { c with
      topics := c.topics.erase topic
      wildcardCount := if isWildcard topic then c.wildcardCount - 1 else c.wildcardCount }
  else c

theorem removeTopic_eq_or (c : BridgeTopicCache) (brokers : BrokerTable) (brokerId topic : Bytes) :
    c.removeTopic brokers brokerId topic = c ∨ topic ∈ c.topics ∧
      c.removeTopic brokers brokerId topic = { c with
        topics := c.topics.erase topic
        wildcardCount := if isWildcard topic then c.wildcardCount - 1 else c.wildcardCount } := by
  unfold removeTopic
  split
  · rename_i hremove
    simp only [Bool.and_eq_true, decide_eq_true_eq] at hremove
    exact .inr ⟨hremove.1.1.2, rfl⟩
  · exact .inl rfl

/-- The answer of a completed cache. -/
def answer (c : BridgeTopicCache) (topic : Bytes) : Bool :=
  !c.topicRoutingEnabled || decide (topic ∈ c.topics) ||
    (decide (c.wildcardCount > 0) && (wildcardAncestors topic).any fun w => decide (w ∈ c.topics))

/-- `isSubscriber`: one step of the build, and an answer when the build is complete. -/
def isSubscriber (settings : BrokerSettings) (order : ConnectionOrder) (iter : IterOrder Bytes)
    (brokers : BrokerTable) (brokerId bridgeId topic : Bytes) (c : BridgeTopicCache) :
    Option Bool × BridgeTopicCache :=
  let c := c.buildCacheIncrement settings order iter brokers brokerId bridgeId
  (if c.state = .completed then some (c.answer topic) else none, c)

end BridgeTopicCache

/-- `BrokerTopicCache`: the caches of a broker's bridges. -/
abbrev BrokerTopicCache := Map Bytes BridgeTopicCache

/-- The loop of `BrokerTopicCache::addTopic` and `removeTopic`: it ends at the first bridge cache
that contains the broker. -/
def BrokerTopicCache.updateFirst (brokerId : Bytes) (update : BridgeTopicCache → BridgeTopicCache) :
    List Bytes → BrokerTopicCache → BrokerTopicCache
  | [], caches => caches
  | bridgeId :: rest, caches =>
      match caches.lookup bridgeId with
      | some c =>
          if c.containsBroker brokerId then caches.insert bridgeId (update c)
          else updateFirst brokerId update rest caches
      | none => updateFirst brokerId update rest caches

/-- What the cache service reads from outside: the clock and two settings that may change while the
broker runs. -/
structure CacheEnv where
  now : UInt32
  cacheEnabled : Bool
  clearDelay : UInt32
  iter : IterOrder Bytes

structure TopicCacheService where
  wasEnabled : Bool := false
  enabledTime : UInt32 := 0
  brokerCacheById : Map Bytes BrokerTopicCache := ∅

namespace TopicCacheService

variable (env : CacheEnv)

/-- The cache is switched on and no delay is running. -/
def enabledNow (s : TopicCacheService) : Bool :=
  env.cacheEnabled && (s.enabledTime == 0 || decide (s.enabledTime < env.now))

/-- `checkEnabled( true )` -/
def checkEnabledOnClear (s : TopicCacheService) : Bool × TopicCacheService :=
  let enabled := s.enabledNow env
  (enabled, { s with
    enabledTime := if enabled then 0 else s.enabledTime
    wasEnabled := enabled })

/-- `clearCache` -/
def clearCache (s : TopicCacheService) : TopicCacheService :=
  let r := s.checkEnabledOnClear env
  if r.1 then { r.2 with brokerCacheById := ∅ } else r.2

/-- `checkEnabled()`: a cache that becomes enabled again is cleared. -/
def checkEnabled (s : TopicCacheService) : Bool × TopicCacheService :=
  let enabled := s.enabledNow env
  let s := { s with enabledTime := if enabled then 0 else s.enabledTime }
  let s := if !s.wasEnabled && enabled then s.clearCache env else s
  (enabled, { s with wasEnabled := enabled })

/-- The constructor. -/
def init : TopicCacheService := (checkEnabled env {}).2

/-- `clearCacheWithDelay`; a delay of zero stands for the setting. -/
def clearCacheWithDelay (delay : UInt32) (s : TopicCacheService) : TopicCacheService :=
  let d := if delay ≠ 0 then delay else env.clearDelay
  let s := s.clearCache env
  { s with enabledTime := if d > 0 then env.now + d else 0 }

/-- The loop of `addTopic` and `removeTopic` over the caches of all brokers. -/
def updateTopics (brokerId : Bytes) (update : BridgeTopicCache → BridgeTopicCache)
    (s : TopicCacheService) : TopicCacheService :=
  let r := s.checkEnabled env
  if r.1 then
    { r.2 with
      brokerCacheById := r.2.brokerCacheById.mapVals fun _ caches =>
        caches.updateFirst brokerId update (env.iter.arrange caches.keys) }
  else r.2

/-- `addTopic` -/
def addTopic (brokers : BrokerTable) (brokerId topic : Bytes) (s : TopicCacheService) :
    TopicCacheService :=
  s.updateTopics env brokerId (BridgeTopicCache.addTopic brokers brokerId topic)

/-- `removeTopic` -/
def removeTopic (brokers : BrokerTable) (brokerId topic : Bytes) (s : TopicCacheService) :
    TopicCacheService :=
  s.updateTopics env brokerId (BridgeTopicCache.removeTopic brokers brokerId topic)

/-- `getBrokerCache`: made for an existing broker. -/
def getBrokerCache (brokers : BrokerTable) (brokerId : Bytes) (s : TopicCacheService) :
    Option BrokerTopicCache :=
  (s.brokerCacheById.lookup brokerId).or (if brokers.hasBroker brokerId then some ∅ else none)

theorem of_getBrokerCache {brokers : BrokerTable} {brokerId : Bytes} {s : TopicCacheService}
    {caches : BrokerTopicCache} (h : s.getBrokerCache brokers brokerId = some caches) :
    s.brokerCacheById.lookup brokerId = some caches ∨ caches = ∅ := by
  rw [getBrokerCache, Option.or_eq_some_iff] at h
  rcases h with h | ⟨-, h⟩
  · exact .inl h
  · split_ifs at h
    exact .inr (Option.some.inj h).symm

end TopicCacheService

/-- `getBridgeCache`: made for an existing connection. -/
def BrokerTopicCache.getBridgeCache (brokers : BrokerTable) (brokerId bridgeId : Bytes)
    (caches : BrokerTopicCache) : Option BridgeTopicCache :=
  (caches.lookup bridgeId).or (if brokers.hasConnection brokerId bridgeId then some {} else none)

theorem BrokerTopicCache.of_getBridgeCache {brokers : BrokerTable} {brokerId bridgeId : Bytes}
    {caches : BrokerTopicCache} {c : BridgeTopicCache}
    (h : caches.getBridgeCache brokers brokerId bridgeId = some c) :
    caches.lookup bridgeId = some c ∨ c = {} := by
  rw [getBridgeCache, Option.or_eq_some_iff] at h
  rcases h with h | ⟨-, h⟩
  · exact .inl h
  · split_ifs at h
    exact .inr (Option.some.inj h).symm

/-- `isSubscriber`: the answer of the cache, if it has one. -/
def TopicCacheService.isSubscriber (settings : BrokerSettings) (order : ConnectionOrder)
    (env : CacheEnv) (brokers : BrokerTable) (brokerId bridgeId topic : Bytes)
    (s : TopicCacheService) : Option Bool × TopicCacheService :=
  let r := s.checkEnabled env
  let s := r.2
  if r.1 then
    match s.getBrokerCache brokers brokerId with
    | none => (none, s)
    | some caches =>
        match caches.getBridgeCache brokers brokerId bridgeId with
        | none => (none, { s with brokerCacheById := s.brokerCacheById.insert brokerId caches })
        | some c =>
            let r := c.isSubscriber settings order env.iter brokers brokerId bridgeId topic
            (r.1, { s with
              brokerCacheById := s.brokerCacheById.insert brokerId (caches.insert bridgeId r.2) })
  else (none, s)

end DxlBroker
