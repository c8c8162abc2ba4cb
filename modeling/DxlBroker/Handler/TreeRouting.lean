import DxlBroker.Handler.MessageRouting
import DxlBroker.Lib.TreeRoute
import DxlBroker.Mqtt.Delivery

/-!
# Routing on a tree of brokers

Brokers that are connected as a tree, each with the whole tree in its registry, pass a message on
from bridge to bridge.  Every broker decides for itself, with its own route cache; the message comes
to the brokers on the paths to its destinations, and to no other, once.
-/

namespace DxlBroker

open Bytes Unordered TreeRoute

/-! ### Brokers that pass messages on -/

/-- A tree of brokers, with their identifiers as vertices. -/
structure BrokerTree where
  brokers : Finset Bytes
  graph : SimpleGraph Bytes
  acyclic : graph.IsAcyclic
  mem_of_adj : ∀ {v w}, graph.Adj v w → v ∈ brokers
  connected : ∀ v ∈ brokers, ∀ w ∈ brokers, graph.Reachable v w
  guid : ∀ v ∈ brokers, cstr v = v ∧ v ≠ []

/-- What a broker has besides its registry: its settings, the subscriptions, the current address of
each bridge, and the answers of the insert handlers that are not modelled. -/
structure FabricNode where
  settings : BrokerSettings
  db : SubsDb
  curAddress : MqttContext → Option ℕ
  upgradeOutgoingQos : Bool
  authorized : MqttContext → Bool

/-- One insert of `_subs_process`; the brokers behind the bridges inserted into are collected. -/
def FabricNode.insertInto (node : FabricNode) (env : RegistryEnv) (ctx : CoreMessageContext)
    (m : DxlMessage) (acc : List Bytes × InsertState) (context : MqttContext) :
    List Bytes × InsertState :=
  match insertTarget node.settings (node.curAddress context) context with
  | .error _ => acc
  | .ok t =>
      let res := messageRoutingHandler node.settings env ctx (some m) t acc.2
      (if res.1 ≠ .reject ∧ node.authorized context = true ∧ t.isBridge = true then
        acc.1 ++ [t.destId] else acc.1, res.2)

/-- A stored message is inserted for every matching subscription. -/
def FabricNode.insertMessage (node : FabricNode) (env : RegistryEnv) (ctx : CoreMessageContext)
    (m : DxlMessage) (sourceId : Bytes) (qos : ℕ) (r : BrokerRegistry) :
    List Bytes × BrokerRegistry :=
  let queue := mqtt3DbMessagesQueue node.upgradeOutgoingQos node.db sourceId ctx.topic qos
  let res := (queue.map MessageInsert.context).foldl (node.insertInto env ctx m)
    ([], { registry := r })
  (res.1, res.2.registry)

/-- The brokers and the connection of each broker to each of its neighbours. -/
structure Fabric where
  node : Bytes → FabricNode
  bridge : Bytes → Bytes → MqttContext

/-- The registries, and the message on its way from broker to broker. -/
structure FabricState where
  registry : Bytes → BrokerRegistry
  message : Spread Bytes

/-- The message is stored at `v`, for a connection with the given identifier. -/
def Fabric.store (F : Fabric) (env : RegistryEnv) (ctx : CoreMessageContext) (m : DxlMessage)
    (sourceId : Bytes) (qos : ℕ) (v : Bytes) (registry : Bytes → BrokerRegistry) :
    List Bytes × (Bytes → BrokerRegistry) :=
  let res := (F.node v).insertMessage env ctx m sourceId qos (registry v)
  (res.1, Function.update registry v res.2)

/-- The states reached when a message is published at `s` and the bridges deliver in any order.  The
topic cache is off. -/
inductive Fabric.Reached (F : Fabric) (m : DxlMessage) (topic : Bytes) (qos : ℕ)
    (s sourceId : Bytes) (registry : Bytes → BrokerRegistry) : FabricState → Prop
  | publish (env : RegistryEnv) (ctx : CoreMessageContext) (henv : env.cacheEnabled = false)
      (hctx : ctx.topic = topic) :
      F.Reached m topic qos s sourceId registry
        { registry := (F.store env ctx m sourceId qos s registry).2
          message := .publish s (F.store env ctx m sourceId qos s registry).1 }
  | deliver {σ : FabricState} (hσ : F.Reached m topic qos s sourceId registry σ)
      (env : RegistryEnv) (ctx : CoreMessageContext) (henv : env.cacheEnabled = false)
      (hctx : ctx.topic = topic) {i : ℕ} {u w : Bytes}
      (hi : σ.message.inFlight[i]? = some (u, w)) :
      F.Reached m topic qos s sourceId registry
        { registry := (F.store env ctx m (F.bridge w u).id qos w σ.registry).2
          message := σ.message.deliver i w
            (F.store env ctx m (F.bridge w u).id qos w σ.registry).1 }

/-! ### What the brokers have in common -/

/-- The registry holds the tree: its brokers with their connections, the topics that are the same
everywhere, and routes of the tree in the route cache. -/
structure BrokerTree.HeldBy (T : BrokerTree) (records : Bytes → BrokerState)
    (r : BrokerRegistry) : Prop where
  known : ∀ k, (r.brokers.lookup k).isSome = true ↔ k ∈ T.brokers
  connections : ∀ k s, r.brokers.lookup k = some s →
    ∀ c, s.hasConnection c = true ↔ T.graph.Adj k c
  topics : ∀ k s, r.brokers.lookup k = some s → s.broker.id = k ∧
    s.broker.topicRoutingEnabled = (records k).broker.topicRoutingEnabled ∧
    s.subscriptions = (records k).subscriptions ∧
    s.subscriptionsWildcardCount = (records k).subscriptionsWildcardCount
  routes : ∀ v x next, r.cache.lookup (v, x) = some next → Via T.graph v next x

/-- The connections with a subscription that matches the topic, in the order of the search. -/
def subscribers (db : SubsDb) (topic : Bytes) : List MqttContext :=
  (matchingPaths (subTopicTokenise topic)).flatMap fun p => contextsAt db (rootToken topic :: p)

/-- The brokers are set up for the tree: a bridge to each neighbour, with its own identifier, that is
subscribed to the topic once and that the other insert handlers allow. -/
structure BrokerTree.SetUp (T : BrokerTree) (F : Fabric) (topic : Bytes) : Prop where
  guid : ∀ v ∈ T.brokers, (F.node v).settings.guid = v
  routing : ∀ v ∈ T.brokers, (F.node v).settings.topicRoutingEnabled = true
  wf : ∀ v ∈ T.brokers, (F.node v).db.subs.WF
  bridge : ∀ v u, T.graph.Adj v u → (F.bridge v u).isBridge = true ∧
    (F.node v).authorized (F.bridge v u) = true ∧
    getBridgeBrokerIdFromContext v (F.bridge v u).id ((F.node v).curAddress (F.bridge v u)) = .ok u
  ids : ∀ v u w, T.graph.Adj v u → T.graph.Adj v w →
    (F.bridge v u).id = (F.bridge v w).id → u = w
  once : ∀ v ∈ T.brokers, ((subscribers (F.node v).db topic).filter MqttContext.isBridge).Nodup
  subscribed : ∀ v ∈ T.brokers, ∀ c, c.isBridge = true →
    (c ∈ subscribers (F.node v).db topic ↔ ∃ u, T.graph.Adj v u ∧ c = F.bridge v u)

/-- A message with registered destination brokers, or an event that is routed by its topic. -/
def BrokerTree.Routable (T : BrokerTree) (m : DxlMessage) (topic : Bytes) : Prop :=
  m.getDestinationBrokerGuids.elim
    (m.isEventMessage = true ∧ startsWith dxlClientPrefixBracket topic = false ∧
      startsWith dxlBrokerEventPrefix topic = false)
    fun guids => ∀ g ∈ guids, g ∈ T.brokers

/-- The brokers a message is for: its destinations, or those with a subscriber. -/
def targetsOf (m : DxlMessage) (isSubscriberInBroker : Bytes → Bool) : Set Bytes :=
  m.getDestinationBrokerGuids.elim { x | isSubscriberInBroker x = true } fun guids =>
    { x | x ∈ guids }

/-- The brokers a message is for, by the registry of the broker it is published at. -/
def Fabric.targets (F : Fabric) (registry : Bytes → BrokerRegistry) (m : DxlMessage)
    (topic s : Bytes) : Set Bytes :=
  targetsOf m fun x => (registry s).brokers.isSubscriberInBroker (F.node s).settings x topic

/-! ### The registry's answers -/

namespace BrokerTree.HeldBy

variable {T : BrokerTree} {records : Bytes → BrokerState} {r : BrokerRegistry}

theorem connected_iff (h : T.HeldBy records r) {v w : Bytes} :
    r.brokers.Connected v w ↔ T.graph.Adj v w := by
  constructor
  · rintro ⟨s, hs, hw⟩
    exact (h.connections v s hs w).mp hw
  · intro hadj
    obtain ⟨s, hs⟩ := Option.isSome_iff_exists.mp ((h.known v).mpr (T.mem_of_adj hadj))
    exact ⟨s, hs, (h.connections v s hs w).mpr hadj⟩

theorem hasBroker (h : T.HeldBy records r) {v : Bytes} (hv : v ∈ T.brokers) :
    r.brokers.hasBroker v = true := by
  simp [BrokerTable.hasBroker, (h.known v).mpr hv, (T.guid v hv).2]

theorem step_eq (h : T.HeldBy records r) (order : ConnectionOrder) :
    DepthFirst.Step (r.brokers.connections order) (fun _ => true) = T.graph.Adj := by
  funext v w
  simp [DepthFirst.Step, BrokerTable.mem_connections, h.connected_iff]

/-- A path is found, and its second broker leads to the target. -/
theorem findPathToBroker (h : T.HeldBy records r) (order : ConnectionOrder) {v x : Bytes}
    (hv : v ∈ T.brokers) (hx : x ∈ T.brokers) (hne : v ≠ x) :
    ∃ next rest, r.brokers.findPathToBroker order v x = some (v :: next :: rest) ∧
      Via T.graph v next x := by
  have hinner : ∀ u, r.brokers.connections order u ≠ [] → u ∈ r.brokers.keys.toFinset :=
    fun u => BrokerTable.mem_keys_of_connections
  have hreach : ∃ w, DepthFirst.Reach (r.brokers.connections order) (fun _ => true) v w ∧
      (w == x) = true := by
    refine ⟨x, ?_, beq_self_eq_true x⟩
    rw [DepthFirst.Reach, h.step_eq order]
    exact (SimpleGraph.reachable_iff_reflTransGen v x).mp (T.connected v hv x hx)
  have hsome := (DepthFirst.search_isSome_iff hinner v).mpr hreach
  rw [BrokerTable.card_keys] at hsome
  obtain ⟨path, hpath⟩ := Option.isSome_iff_exists.mp hsome
  have hpath' := hpath
  rw [← BrokerTable.card_keys] at hpath'
  obtain ⟨w, hhead, hlast, hchain, hnodup, hstop⟩ := DepthFirst.search_path hinner v hpath'
  obtain rfl : w = x := by simpa using hstop
  rw [h.step_eq order] at hchain
  cases path with
  | nil => simp at hhead
  | cons u tail =>
    obtain rfl : u = v := by simpa using hhead
    cases tail with
    | nil => exact absurd (by simpa using hlast) hne
    | cons next rest =>
      refine ⟨next, rest, hpath, ?_⟩
      rw [List.isChain_cons_cons] at hchain
      obtain ⟨p, hp⟩ := exists_walk_of_chain hchain.2 (by simpa using hlast)
      exact ⟨hchain.1, p, hp ▸ (List.nodup_cons.mp hnodup).1⟩

theorem of_cache (h : T.HeldBy records r) {v x next : Bytes} (hvia : Via T.graph v next x) :
    T.HeldBy records { r with cache := r.cache.insert (v, x) next } where
  known := h.known
  connections := h.connections
  topics := h.topics
  routes v' x' next' hroute := by
    by_cases heq : (v', x') = (v, x)
    · rw [heq, AList.lookup_insert, Option.some.injEq] at hroute
      rw [(Prod.mk.inj heq).1, (Prod.mk.inj heq).2, ← hroute]
      exact hvia
    · rw [AList.lookup_insert_ne heq] at hroute
      exact h.routes v' x' next' hroute

/-- `getNextBroker`, with or without the cache. -/
theorem getNextBroker (h : T.HeldBy records r) (env : RegistryEnv) {v x : Bytes}
    (hv : v ∈ T.brokers) (hx : x ∈ T.brokers) :
    T.HeldBy records (r.getNextBroker env v x).2 ∧ (r.getNextBroker env v x).1 ≠ [] ∧
      ∀ c, T.graph.Adj v c → (c = (r.getNextBroker env v x).1 ↔ Via T.graph v c x) := by
  have hnext : ∀ {next}, Via T.graph v next x → next ≠ [] ∧
      ∀ c, T.graph.Adj v c → (c = next ↔ Via T.graph v c x) := by
    intro next hvia
    refine ⟨(T.guid next (T.mem_of_adj hvia.1.symm)).2, fun c _ => ⟨?_, fun hc => ?_⟩⟩
    · rintro rfl
      exact hvia
    · exact hc.unique T.acyclic hvia
  unfold BrokerRegistry.getNextBroker
  rw [h.hasBroker hv, h.hasBroker hx, Bool.and_self, if_pos rfl]
  by_cases heq : v = x
  · rw [if_pos heq]
    refine ⟨h, (T.guid x hx).2, fun c hadj => iff_of_false ?_ fun hvia => hvia.ne heq⟩
    rintro rfl
    exact hadj.ne heq
  · rw [if_neg heq]
    cases hcache : r.cache.lookup (v, x) with
    | some next => exact ⟨h, hnext (h.routes v x next hcache)⟩
    | none =>
      obtain ⟨next, rest, hpath, hvia⟩ := h.findPathToBroker env.order hv hx heq
      simp only [hpath]
      rw [if_neg (hnext hvia).1]
      exact ⟨h.of_cache hvia, hnext hvia⟩

theorem addNextBroker (h : T.HeldBy records r) {settings : BrokerSettings} (env : RegistryEnv)
    {guids : List Bytes} (hv : cstr settings.guid ∈ T.brokers) (hguids : ∀ g ∈ guids, g ∈ T.brokers)
    (acc : List Bytes) :
    T.HeldBy records (guids.foldl (DxlBroker.addNextBroker settings env) (acc, r)).2 ∧
      ∀ c, T.graph.Adj (cstr settings.guid) c →
        (c ∈ (guids.foldl (DxlBroker.addNextBroker settings env) (acc, r)).1 ↔
          c ∈ acc ∨ ∃ x ∈ guids, Via T.graph (cstr settings.guid) c x) := by
  induction guids generalizing acc r with
  | nil => exact ⟨h, fun c _ => by simp⟩
  | cons x guids ih =>
    obtain ⟨hheld, hne, hvia⟩ := h.getNextBroker env hv (hguids x List.mem_cons_self)
    obtain ⟨hheld', hmem⟩ := ih hheld (fun g hg => hguids g (List.mem_cons_of_mem _ hg))
      (acc.insert (r.getNextBroker env (cstr settings.guid) x).1)
    rw [List.foldl_cons, DxlBroker.addNextBroker]
    simp only [if_neg hne]
    refine ⟨hheld', fun c hadj => ?_⟩
    rw [hmem c hadj, List.mem_insert_iff, hvia c hadj]
    simp only [List.mem_cons, exists_eq_or_imp]
    tauto

/-- Without the topic cache a bridge leads to a subscriber when a broker behind it has one. -/
theorem isSubscriberInHierarchy (h : T.HeldBy records r) {settings : BrokerSettings}
    {env : RegistryEnv} (henv : env.cacheEnabled = false) {c : Bytes} (topic : Bytes)
    (hadj : T.graph.Adj (cstr settings.guid) c) :
    T.HeldBy records (r.isSubscriberInHierarchy settings env (cstr settings.guid) c topic).2 ∧
      ((r.isSubscriberInHierarchy settings env (cstr settings.guid) c topic).1 = true ↔
        ∃ x, Via T.graph (cstr settings.guid) c x ∧
          r.brokers.isSubscriberInBroker settings x topic = true) := by
  have hnone : (r.topicCacheService.isSubscriber settings env.order env.toCacheEnv r.brokers
      (cstr settings.guid) c topic).1 = none := by
    simp [TopicCacheService.isSubscriber, TopicCacheService.checkEnabled,
      TopicCacheService.enabledNow, henv]
  refine ⟨⟨h.known, h.connections, h.topics, h.routes⟩, ?_⟩
  rw [BrokerRegistry.isSubscriberInHierarchy]
  simp only [hnone, Option.getD_none, BrokerTable.findSubscriber_iff]
  refine exists_congr fun x => and_congr_left fun _ => ?_
  rw [BrokerTable.ReachAvoiding, and_iff_right hadj.ne']
  have hstep : (fun v w => r.brokers.Connected v w ∧ w ≠ cstr settings.guid) =
      fun v w => T.graph.Adj v w ∧ w ≠ cstr settings.guid := by
    funext v w
    rw [h.connected_iff]
  rw [hstep, reflTransGen_iff_walk hadj.ne', Via, and_iff_right hadj]

end BrokerTree.HeldBy

/-! ### One broker -/

/-- `isSubscriberInBroker` as the other brokers see it. -/
def remoteSubscriber (s : BrokerState) (topic : Bytes) : Bool :=
  !s.broker.topicRoutingEnabled || s.hasTopic topic ||
    (decide (s.subscriptionsWildcardCount > 0) && (wildcardAncestors topic).any s.hasTopic)

/-- The brokers a message is for, as the other brokers see them. -/
def BrokerTree.targets (T : BrokerTree) (records : Bytes → BrokerState) (m : DxlMessage)
    (topic : Bytes) : Set Bytes :=
  targetsOf m fun x => decide (x ∈ T.brokers) && remoteSubscriber (records x) topic

section

variable {T : BrokerTree} {records : Bytes → BrokerState} {settings : BrokerSettings}
  {env : RegistryEnv} {ctx : CoreMessageContext} {m : DxlMessage} {topic : Bytes}

theorem BrokerTree.HeldBy.isSubscriberInBroker {r : BrokerRegistry} (h : T.HeldBy records r)
    {x : Bytes} (hne : x ≠ cstr settings.guid) :
    r.brokers.isSubscriberInBroker settings x topic =
      (decide (x ∈ T.brokers) && remoteSubscriber (records x) topic) := by
  unfold BrokerTable.isSubscriberInBroker
  cases hs : r.brokers.lookup x with
  | none =>
    have hx : x ∉ T.brokers := by simp [← h.known x, hs]
    simp [hx]
  | some s =>
    have hx : x ∈ T.brokers := by simp [← h.known x, hs]
    obtain ⟨hid, hflag, hsubs, hcount⟩ := h.topics x s hs
    have hhas : s.hasTopic = (records x).hasTopic := by
      funext t
      simp [BrokerState.hasTopic, hsubs]
    have hlocal : s.broker.isLocalBroker settings = false := by
      simp [Broker.isLocalBroker, hid, hne]
    simp [BrokerTable.hasSubscriber, BrokerState.isTopicRoutingEnabled,
      Broker.isTopicRoutingEnabled, hlocal, remoteSubscriber, hx, hflag, hhas, hcount]

/-- What the state of the inserts holds at the broker `v`: the tree, and the right next brokers once
they were found. -/
structure InsertState.Routes (T : BrokerTree) (records : Bytes → BrokerState) (m : DxlMessage)
    (v : Bytes) (st : InsertState) : Prop where
  held : T.HeldBy records st.registry
  next : ∀ next, st.nextBrokerGuids = some next → ∃ guids, m.getDestinationBrokerGuids = some guids ∧
    ∀ c, T.graph.Adj v c → (c ∈ next ↔ ∃ x ∈ guids, Via T.graph v c x)

theorem InsertState.Routes.getNextBrokerGuids {st : InsertState}
    (h : st.Routes T records m (cstr settings.guid)) (env : RegistryEnv)
    (hv : cstr settings.guid ∈ T.brokers) (hm : T.Routable m topic) :
    (m.getNextBrokerGuids settings env st).Routes T records m (cstr settings.guid) ∧
      ((m.getNextBrokerGuids settings env st).nextBrokerGuids = none ↔
        m.getDestinationBrokerGuids = none) := by
  unfold DxlMessage.getNextBrokerGuids
  cases hnext : st.nextBrokerGuids with
  | some next =>
    obtain ⟨guids, hguids, -⟩ := h.next next hnext
    exact ⟨h, by simp [hnext, hguids]⟩
  | none =>
    cases hdest : m.getDestinationBrokerGuids with
    | none => exact ⟨h, by simp [hnext]⟩
    | some guids =>
      have hmem : ∀ g ∈ env.iter.arrange guids, g ∈ T.brokers := by
        rw [BrokerTree.Routable, hdest] at hm
        exact fun g hg => hm g (IterOrder.mem_arrange env.iter |>.mp hg)
      obtain ⟨hheld, hvia⟩ := h.held.addNextBroker env hv hmem []
      refine ⟨⟨hheld, fun next hnext => ⟨guids, hdest, fun c hadj => ?_⟩⟩, by simp⟩
      rw [← Option.some.inj hnext, hvia c hadj]
      simp

theorem allowBridge_spec {st : InsertState} (h : st.Routes T records m (cstr settings.guid))
    (hv : cstr settings.guid ∈ T.brokers) (hm : T.Routable m topic)
    (hrouting : settings.topicRoutingEnabled = true) (henv : env.cacheEnabled = false)
    (hctx : ctx.topic = topic) {c : Bytes} (hadj : T.graph.Adj (cstr settings.guid) c) :
    (allowBridge settings env ctx m c st).2.Routes T records m (cstr settings.guid) ∧
      ((allowBridge settings env ctx m c st).1 = true ↔
        ∃ x ∈ T.targets records m topic, Via T.graph (cstr settings.guid) c x) := by
  obtain ⟨hroutes, hnone⟩ := h.getNextBrokerGuids env hv hm
  unfold allowBridge
  simp only
  cases hnext : (m.getNextBrokerGuids settings env st).nextBrokerGuids with
  | some next =>
    obtain ⟨guids, hguids, hvia⟩ := hroutes.next next hnext
    refine ⟨hroutes, ?_⟩
    simp only [DxlMessage.hasGuid_iff, hvia c hadj, BrokerTree.targets, targetsOf, hguids,
      Option.elim_some, Set.mem_ofPred_eq]
  | none =>
    have hdest := hnone.mp hnext
    rw [BrokerTree.Routable, hdest] at hm
    obtain ⟨hevent, hclient, hbroker⟩ := hm
    obtain ⟨hheld, hsub⟩ := hroutes.held.isSubscriberInHierarchy henv ctx.topic hadj
    simp only [hrouting, hevent, hctx, hclient, hbroker, Bool.and_self, if_true, Bool.or_self,
      Bool.false_eq_true, if_false]
    rw [hctx] at hsub hheld
    refine ⟨⟨hheld, fun next hn => by cases hn⟩, ?_⟩
    rw [hsub]
    simp only [BrokerTree.targets, targetsOf, hdest, Option.elim_none, Set.mem_ofPred_eq]
    refine exists_congr fun x => ?_
    rw [and_comm]
    refine and_congr_left fun hvia => ?_
    rw [hroutes.held.isSubscriberInBroker hvia.ne.symm]

end

section

variable {T : BrokerTree} {records : Bytes → BrokerState} {F : Fabric} {env : RegistryEnv}
  {ctx : CoreMessageContext} {m : DxlMessage} {topic v : Bytes}

/-- One insert: a client changes nothing here, a bridge is taken when it leads to a target. -/
theorem insertInto_spec (hF : T.SetUp F topic) (hv : v ∈ T.brokers) (hm : T.Routable m topic)
    (henv : env.cacheEnabled = false) (hctx : ctx.topic = topic) {acc : List Bytes × InsertState}
    (h : acc.2.Routes T records m v) {c : MqttContext}
    (hc : c.isBridge = true → ∃ u, T.graph.Adj v u ∧ c = F.bridge v u) :
    ((F.node v).insertInto env ctx m acc c).2.Routes T records m v ∧
      ((c.isBridge = false ∧ ((F.node v).insertInto env ctx m acc c).1 = acc.1) ∨
        ∃ u, T.graph.Adj v u ∧ c = F.bridge v u ∧
          (((∃ x ∈ T.targets records m topic, Via T.graph v u x) ∧
              ((F.node v).insertInto env ctx m acc c).1 = acc.1 ++ [u]) ∨
            ((¬ ∃ x ∈ T.targets records m topic, Via T.graph v u x) ∧
              ((F.node v).insertInto env ctx m acc c).1 = acc.1))) := by
  unfold FabricNode.insertInto
  cases hbridge : c.isBridge with
  | false =>
    simp only [insertTarget, hbridge, Bool.false_eq_true, if_false, messageRoutingHandler, and_false]
    split_ifs <;> exact ⟨h, .inl ⟨trivial, trivial⟩⟩
  | true =>
    obtain ⟨u, hadj, rfl⟩ := hc hbridge
    obtain ⟨-, hauth, hid⟩ := hF.bridge v u hadj
    have hguid : cstr (F.node v).settings.guid = v := by rw [hF.guid v hv, (T.guid v hv).1]
    obtain ⟨hroutes, hallow⟩ := @allowBridge_spec T records (F.node v).settings env ctx m topic acc.2
      (hguid.symm ▸ h) (hguid.symm ▸ hv) hm (hF.routing v hv) henv hctx u (hguid.symm ▸ hadj)
    rw [hguid] at hroutes hallow
    simp only [insertTarget, hbridge, if_true, hguid, hid, Except.map, messageRoutingHandler]
    refine ⟨hroutes, .inr ⟨u, hadj, rfl, ?_⟩⟩
    by_cases hx : (allowBridge (F.node v).settings env ctx m u acc.2).1 = true
    · exact .inl ⟨hallow.mp hx, by simp [hx, hauth]⟩
    · exact .inr ⟨mt hallow.mpr hx, by simp [hx]⟩

/-- All inserts: the bridges that lead to a target, in the order of the subscriptions. -/
theorem insertAll_spec (hF : T.SetUp F topic) (hv : v ∈ T.brokers) (hm : T.Routable m topic)
    (henv : env.cacheEnabled = false) (hctx : ctx.topic = topic) (contexts : List MqttContext) :
    ∀ acc : List Bytes × InsertState, acc.2.Routes T records m v →
      (∀ c ∈ contexts, c.isBridge = true → ∃ u, T.graph.Adj v u ∧ c = F.bridge v u) →
      (contexts.filter MqttContext.isBridge).Nodup → acc.1.Nodup →
      (∀ u ∈ acc.1, F.bridge v u ∉ contexts) →
      (contexts.foldl ((F.node v).insertInto env ctx m) acc).2.Routes T records m v ∧
        (contexts.foldl ((F.node v).insertInto env ctx m) acc).1.Nodup ∧
        ∀ u, u ∈ (contexts.foldl ((F.node v).insertInto env ctx m) acc).1 ↔ u ∈ acc.1 ∨
          (T.graph.Adj v u ∧ F.bridge v u ∈ contexts ∧
            ∃ x ∈ T.targets records m topic, Via T.graph v u x) := by
  induction contexts with
  | nil =>
    intro acc h _ _ hnodup _
    exact ⟨h, hnodup, by simp⟩
  | cons c contexts ih =>
    intro acc h hbridges hcontexts hnodup hfresh
    obtain ⟨hroutes, hcase⟩ := insertInto_spec hF hv hm henv hctx h
      (hbridges c List.mem_cons_self)
    have hrest : ∀ c ∈ contexts, c.isBridge = true → ∃ u, T.graph.Adj v u ∧ c = F.bridge v u :=
      fun c hc => hbridges c (List.mem_cons_of_mem _ hc)
    have hrestNodup : (contexts.filter MqttContext.isBridge).Nodup :=
      hcontexts.sublist ((List.sublist_cons_self c contexts).filter _)
    have hfresh' : ∀ u ∈ acc.1, F.bridge v u ∉ contexts :=
      fun u hu hmem => hfresh u hu (List.mem_cons_of_mem _ hmem)
    rw [List.foldl_cons]
    rcases hcase with ⟨hclient, heq⟩ | ⟨u, hadj, rfl, ⟨hleads, heq⟩ | ⟨hleads, heq⟩⟩
    · -- A client: it is no bridge of a neighbour.
      obtain ⟨h1, h2, h3⟩ := ih _ hroutes hrest hrestNodup (heq ▸ hnodup) (heq ▸ hfresh')
      refine ⟨h1, h2, fun w => ?_⟩
      rw [h3 w, heq]
      refine or_congr_right (and_congr_right fun hw => ?_)
      have hne : F.bridge v w ≠ c := by
        rintro rfl
        rw [(hF.bridge v w hw).1] at hclient
        cases hclient
      rw [List.mem_cons, or_iff_right hne]
    · have hnotMem : F.bridge v u ∉ contexts := by
        rw [List.filter_cons_of_pos (hF.bridge v u hadj).1, List.nodup_cons,
          List.mem_filter] at hcontexts
        exact fun hmem => hcontexts.1 ⟨hmem, (hF.bridge v u hadj).1⟩
      have hnew : u ∉ acc.1 := fun hu => hfresh u hu List.mem_cons_self
      obtain ⟨h1, h2, h3⟩ := ih _ hroutes hrest hrestNodup
        (by
          rw [heq]
          exact List.nodup_append.mpr ⟨hnodup, List.nodup_singleton u, by
            rintro a ha b hb rfl
            exact hnew (List.mem_singleton.mp hb ▸ ha)⟩)
        (by
          rw [heq]
          intro w hw
          rcases List.mem_append.mp hw with hw | hw
          · exact hfresh' w hw
          · rw [List.mem_singleton.mp hw]
            exact hnotMem)
      refine ⟨h1, h2, fun w => ?_⟩
      rw [h3 w, heq, List.mem_append, List.mem_singleton, List.mem_cons]
      constructor
      · rintro ((hw | rfl) | ⟨hw, hmem, hx⟩)
        · exact .inl hw
        · exact .inr ⟨hadj, .inl rfl, hleads⟩
        · exact .inr ⟨hw, .inr hmem, hx⟩
      · rintro (hw | ⟨hw, heq' | hmem, hx⟩)
        · exact .inl (.inl hw)
        · exact .inl (.inr (hF.ids v w u hw hadj (congrArg MqttContext.id heq')))
        · exact .inr ⟨hw, hmem, hx⟩
    · obtain ⟨h1, h2, h3⟩ := ih _ hroutes hrest hrestNodup (heq ▸ hnodup) (heq ▸ hfresh')
      refine ⟨h1, h2, fun w => ?_⟩
      rw [h3 w, heq]
      refine or_congr_right (and_congr_right fun hw => ?_)
      rw [List.mem_cons, or_and_right]
      refine (or_iff_right ?_).symm
      rintro ⟨heq', hx⟩
      obtain rfl := hF.ids v w u hw hadj (congrArg MqttContext.id heq')
      exact hleads hx

/-- A broker forwards a message as a vertex of the tree does. -/
theorem insertMessage_forwards (hF : T.SetUp F topic) (hv : v ∈ T.brokers) (hm : T.Routable m topic)
    (henv : env.cacheEnabled = false) (hctx : ctx.topic = topic) {r : BrokerRegistry}
    (h : T.HeldBy records r) (qos : ℕ) (source : Option Bytes) {sourceId : Bytes}
    (hsource : ∀ u, T.graph.Adj v u → ((F.bridge v u).id = sourceId ↔ source = some u)) :
    T.HeldBy records ((F.node v).insertMessage env ctx m sourceId qos r).2 ∧
      Forwards T.graph (T.targets records m topic) v source
        ((F.node v).insertMessage env ctx m sourceId qos r).1 := by
  have hqueue : (mqtt3DbMessagesQueue (F.node v).upgradeOutgoingQos (F.node v).db sourceId topic
      qos).map MessageInsert.context =
      (subscribers (F.node v).db topic).filter (notSource sourceId) := by
    rw [mqtt3DbMessagesQueue_contexts (hF.wf v hv), deliveries, subscribers, List.map_flatMap,
      List.filter_flatMap]
    refine List.flatMap_congr fun p _ => ?_
    rw [List.map_map]
    exact List.map_id _
  unfold FabricNode.insertMessage
  simp only [hctx, hqueue]
  have hstart : InsertState.Routes T records m v { registry := r } :=
    ⟨h, fun next hnext => by cases hnext⟩
  obtain ⟨hroutes, hnodup, hmem⟩ := insertAll_spec hF hv hm henv hctx
    ((subscribers (F.node v).db topic).filter (notSource sourceId)) ([], _) hstart
    (fun c hc hb => (hF.subscribed v hv c hb).mp (List.mem_of_mem_filter hc))
    (by
      rw [List.filter_comm]
      exact (hF.once v hv).filter _)
    List.nodup_nil (by simp)
  refine ⟨hroutes.held, hnodup, fun c => ?_⟩
  rw [hmem c]
  simp only [List.not_mem_nil, false_or, List.mem_filter]
  constructor
  · rintro ⟨hadj, ⟨-, hnot⟩, hx⟩
    refine ⟨fun hs => ?_, hx⟩
    simp [notSource, (hF.bridge v c hadj).1, (hsource c hadj).mpr hs] at hnot
  · rintro ⟨hne, x, hx, hvia⟩
    have hid : (F.bridge v c).id ≠ sourceId := fun h => hne ((hsource c hvia.1).mp h)
    have hb := (hF.bridge v c hvia.1).1
    refine ⟨hvia.1, ⟨(hF.subscribed v hv _ hb).mpr ⟨c, hvia.1, rfl⟩, ?_⟩, x, hx, hvia⟩
    simp [notSource, hid]

end

/-! ### The whole tree -/

section

variable {T : BrokerTree} {records : Bytes → BrokerState} {F : Fabric} {m : DxlMessage}
  {topic s sourceId : Bytes} {qos : ℕ} {registry : Bytes → BrokerRegistry} {σ : FabricState}

theorem heldBy_update {registry : Bytes → BrokerRegistry}
    (h : ∀ v ∈ T.brokers, T.HeldBy records (registry v)) {w : Bytes} {r : BrokerRegistry}
    (hr : T.HeldBy records r) : ∀ v ∈ T.brokers, T.HeldBy records (Function.update registry w r v) := by
  intro v hv
  by_cases hvw : v = w
  · subst hvw
    rw [Function.update_self]
    exact hr
  · rw [Function.update_of_ne hvw]
    exact h v hv

/-- The brokers spread a message as the tree does. -/
theorem Fabric.Reached.spread (hF : T.SetUp F topic) (hm : T.Routable m topic)
    (hs : s ∈ T.brokers) (hsource : ∀ u, T.graph.Adj s u → (F.bridge s u).id ≠ sourceId)
    (hregistry : ∀ v ∈ T.brokers, T.HeldBy records (registry v))
    (hσ : F.Reached m topic qos s sourceId registry σ) :
    Spread.Reached T.graph (T.targets records m topic) s σ.message ∧
      ∀ v ∈ T.brokers, T.HeldBy records (σ.registry v) := by
  induction hσ with
  | publish env ctx henv hctx =>
    obtain ⟨hheld, hforwards⟩ := insertMessage_forwards hF hs hm henv hctx (hregistry s hs) qos
      none fun u hadj => iff_of_false (hsource u hadj) (by simp)
    exact ⟨.publish hforwards, heldBy_update hregistry hheld⟩
  | deliver hσ env ctx henv hctx hi ih =>
    rename_i σ i u w
    obtain ⟨hspread, hheld⟩ := ih
    have hinv := hspread.inv T.acyclic
    have hadj : T.graph.Adj u w :=
      (hinv.wanted u w (hinv.inFlight u w (List.mem_of_getElem? hi)).1).adj T.acyclic
    have hw : w ∈ T.brokers := T.mem_of_adj hadj.symm
    obtain ⟨hheld', hforwards⟩ := insertMessage_forwards hF hw hm henv hctx (hheld w hw) qos
      (some u) fun x hx => by
        constructor
        · intro hid
          rw [hF.ids w x u hx hadj.symm hid]
        · rintro heq
          rw [Option.some.inj heq]
    exact ⟨hspread.deliver hi hforwards, heldBy_update hheld hheld'⟩

/-- Whether `s` itself is a target makes no difference. -/
theorem wanted_congr {targets targets' : Set Bytes} (h : ∀ x, x ≠ s → (x ∈ targets ↔ x ∈ targets'))
    {v c : Bytes} : Wanted T.graph targets s v c ↔ Wanted T.graph targets' s v c := by
  refine exists_congr fun x => and_congr_left fun hx => h x ?_
  rintro rfl
  obtain ⟨hvia, hback⟩ := (carries_iff T.acyclic).mp hx
  exact hvia.not_opposite T.acyclic hback

theorem onPath_congr {targets targets' : Set Bytes} (h : ∀ x, x ≠ s → x ∈ targets → x ∈ targets')
    {w : Bytes}
    (hw : w = s ∨ ∃ x ∈ targets, ∃ p : T.graph.Walk s x, p.IsPath ∧ w ∈ p.support) :
    w = s ∨ ∃ x ∈ targets', ∃ p : T.graph.Walk s x, p.IsPath ∧ w ∈ p.support := by
  rcases hw with rfl | ⟨x, hx, p, hp, hw⟩
  · exact .inl rfl
  · by_cases hxs : x = s
    · subst hxs
      rw [SimpleGraph.Walk.nil_iff_support_eq.mp (SimpleGraph.Walk.isPath_iff_nil.mp hp)] at hw
      exact .inl (List.mem_singleton.mp hw)
    · exact .inr ⟨x, h x hxs hx, p, hp, hw⟩

/-- **A message published at a broker of a tree is inserted into the bridges on the paths to the
brokers it is for, away from that broker and once, and comes to the brokers on these paths, each
once, in whatever order the bridges deliver.** -/
theorem routed_exactly_once (hF : T.SetUp F topic) (hm : T.Routable m topic) (hs : s ∈ T.brokers)
    (hsource : ∀ u, T.graph.Adj s u → (F.bridge s u).id ≠ sourceId)
    (hregistry : ∀ v ∈ T.brokers, T.HeldBy records (registry v))
    (hσ : F.Reached m topic qos s sourceId registry σ) :
    σ.message.sent.Nodup ∧ σ.message.received.Nodup ∧
    σ.message.received.length ≤ T.brokers.card ∧
    (∀ v c, (v, c) ∈ σ.message.sent →
      ∃ x ∈ F.targets registry m topic s, Carries T.graph s x v c) ∧
    (σ.message.inFlight = [] →
      (∀ v c, (v, c) ∈ σ.message.sent ↔
        ∃ x ∈ F.targets registry m topic s, Carries T.graph s x v c) ∧
      ∀ w, w ∈ σ.message.received ↔ w = s ∨ ∃ x ∈ F.targets registry m topic s,
        ∃ p : T.graph.Walk s x, p.IsPath ∧ w ∈ p.support) := by
  have hguid : cstr (F.node s).settings.guid = s := by rw [hF.guid s hs, (T.guid s hs).1]
  have htargets : ∀ x, x ≠ s →
      (x ∈ T.targets records m topic ↔ x ∈ F.targets registry m topic s) := by
    intro x hx
    simp only [Fabric.targets, BrokerTree.targets, targetsOf]
    cases m.getDestinationBrokerGuids with
    | some guids => exact Iff.rfl
    | none =>
      rw [Option.elim_none, Option.elim_none, Set.mem_ofPred_eq, Set.mem_ofPred_eq,
        (hregistry s hs).isSubscriberInBroker (hguid.symm ▸ hx)]
  have hspread := (hσ.spread hF hm hs hsource hregistry).1
  have hinv := hspread.inv T.acyclic
  obtain ⟨hsent, hreceived, hon, hdone⟩ := hspread.exactly_once T.acyclic
  refine ⟨hsent, hreceived, ?_, fun v c hvc => (wanted_congr htargets).mp (hon v c hvc), ?_⟩
  · -- The brokers that have the message are brokers of the tree, each counted once.
    rw [← List.toFinset_card_of_nodup hreceived]
    refine Finset.card_le_card fun w hw => ?_
    rcases hinv.received w (List.mem_toFinset.mp hw) with rfl | ⟨u, hu⟩
    · exact hs
    · exact T.mem_of_adj ((hinv.wanted u w hu).adj T.acyclic).symm
  · intro hempty
    obtain ⟨hall, hreached⟩ := hdone hempty
    refine ⟨fun v c => (hall v c).trans (wanted_congr htargets), fun w => (hreached w).trans ⟨?_, ?_⟩⟩
    · exact onPath_congr fun x hx => (htargets x hx).mp
    · exact onPath_congr fun x hx => (htargets x hx).mpr

end

/-! ### Two brokers -/

/-- The brokers `A` and `B`, with a bridge between them. -/
def pairTree : BrokerTree where
  brokers := {lit "A", lit "B"}
  graph := SimpleGraph.edge (lit "A") (lit "B")
  acyclic := by
    have hne : ¬ (⊥ : SimpleGraph Bytes).Reachable (lit "A") (lit "B") := by
      rw [SimpleGraph.reachable_bot]
      decide
    simpa using SimpleGraph.isAcyclic_bot.sup_edge_of_not_reachable hne
  mem_of_adj h := by
    rcases (SimpleGraph.edge_adj _ _ _ _).mp h with ⟨⟨rfl, -⟩ | ⟨rfl, -⟩, -⟩ <;> decide
  connected := by
    have hadj : (SimpleGraph.edge (lit "A") (lit "B")).Adj (lit "A") (lit "B") :=
      (SimpleGraph.edge_adj _ _ _ _).mpr ⟨.inl ⟨rfl, rfl⟩, by decide⟩
    simp only [Finset.mem_insert, Finset.mem_singleton]
    rintro v (rfl | rfl) w (rfl | rfl)
    · exact .refl _
    · exact hadj.reachable
    · exact hadj.symm.reachable
    · exact .refl _
  guid := by decide

theorem pairTree_adj {v w : Bytes} : pairTree.graph.Adj v w ↔
    (v = lit "A" ∧ w = lit "B") ∨ (v = lit "B" ∧ w = lit "A") := by
  refine (SimpleGraph.edge_adj _ _ _ _).trans (and_iff_left_of_imp ?_)
  rintro (⟨rfl, rfl⟩ | ⟨rfl, rfl⟩) <;> decide

/-- The bridge has the same name at both ends; `A` is the child. -/
def pairBridge : MqttContext := { id := lit "h.A:B", isBridge := true }

def pairDb : SubsDb := (SubsRun.run { guid := [] } [.add pairBridge (lit "#") 0]).db

def pairFabric : Fabric where
  node v := ⟨{ guid := v }, pairDb, fun _ => some 0, false, fun _ => true⟩
  bridge _ _ := pairBridge

/-- The record of a broker with one connection. -/
def pairState (id connection : Bytes) : BrokerState where
  broker := { id := id }
  countedConnections := (∅ : Map Bytes UInt32).insert connection 1

def pairRegistry : BrokerRegistry where
  brokers := (AList.insert (lit "A") (pairState (lit "A") (lit "B")) (∅ : BrokerTable)).insert
    (lit "B") (pairState (lit "B") (lit "A"))

theorem pairTree_setUp : pairTree.SetUp pairFabric (lit "t") where
  guid _ _ := rfl
  routing _ _ := rfl
  wf _ _ := by
    refine (@holds_run {pairBridge} (Set.injOn_singleton _ _) _ _ fun op hop => ?_).wf
    rw [List.mem_singleton.mp hop]
    exact ⟨rfl, by decide⟩
  bridge v u hadj := by
    rcases pairTree_adj.mp hadj with ⟨rfl, rfl⟩ | ⟨rfl, rfl⟩ <;> exact ⟨rfl, rfl, by decide⟩
  ids v u w hu hw _ := by
    rcases pairTree_adj.mp hu with ⟨rfl, rfl⟩ | ⟨rfl, rfl⟩ <;>
      rcases pairTree_adj.mp hw with ⟨h, rfl⟩ | ⟨h, rfl⟩ <;>
      first | rfl | exact absurd h (by decide)
  once _ _ := by
    show ((subscribers pairDb (lit "t")).filter MqttContext.isBridge).Nodup
    decide +kernel
  subscribed v hv c _ := by
    have hsubs : subscribers pairDb (lit "t") = [pairBridge] := by decide +kernel
    show c ∈ subscribers pairDb (lit "t") ↔ ∃ u, pairTree.graph.Adj v u ∧ c = pairBridge
    rw [hsubs, List.mem_singleton]
    simp only [pairTree, Finset.mem_insert, Finset.mem_singleton] at hv
    constructor
    · intro hc
      rcases hv with rfl | rfl
      · exact ⟨lit "B", pairTree_adj.mpr (.inl ⟨rfl, rfl⟩), hc⟩
      · exact ⟨lit "A", pairTree_adj.mpr (.inr ⟨rfl, rfl⟩), hc⟩
    · rintro ⟨_, -, hc⟩
      exact hc

theorem pairState_hasConnection (id connection c : Bytes) :
    (pairState id connection).hasConnection c = true ↔ c = connection := by
  unfold BrokerState.hasConnection pairState
  by_cases hc : c = connection
  · rw [hc, AList.lookup_insert]
    simp
  · rw [AList.lookup_insert_ne hc, AList.lookup_empty]
    simp [hc]

theorem pairTree_heldBy : pairTree.HeldBy (fun k => { broker := { id := k } }) pairRegistry := by
  have hlookup : ∀ k, pairRegistry.brokers.lookup k =
      if k = lit "B" then some (pairState (lit "B") (lit "A"))
      else if k = lit "A" then some (pairState (lit "A") (lit "B")) else none := by
    intro k
    unfold pairRegistry
    split_ifs with hB hA
    · rw [hB, AList.lookup_insert]
    · rw [AList.lookup_insert_ne hB, hA, AList.lookup_insert]
    · rw [AList.lookup_insert_ne hB, AList.lookup_insert_ne hA, AList.lookup_empty]
  refine ⟨fun k => ?_, fun k s hs c => ?_, fun k s hs => ?_, fun v x next h => ?_⟩
  · rw [hlookup k]
    split_ifs with hB hA <;> simp [pairTree, *]
  · rw [hlookup k] at hs
    split_ifs at hs with hB hA
    · rw [← Option.some.inj hs, pairState_hasConnection, pairTree_adj, hB]
      exact ⟨fun hc => .inr ⟨rfl, hc⟩, fun h => h.elim (fun h => absurd h.1 (by decide)) And.right⟩
    · rw [← Option.some.inj hs, pairState_hasConnection, pairTree_adj, hA]
      exact ⟨fun hc => .inl ⟨rfl, hc⟩, fun h => h.elim And.right fun h => absurd h.1 (by decide)⟩
  · rw [hlookup k] at hs
    split_ifs at hs with hB hA
    · rw [← Option.some.inj hs, hB]
      exact ⟨rfl, rfl, rfl, rfl⟩
    · rw [← Option.some.inj hs, hA]
      exact ⟨rfl, rfl, rfl, rfl⟩
  · cases h

/-- An event for the broker `B`. -/
def pairEvent : DxlMessage where
  msg := { createDxlMessage .event (lit "c") (lit "c") (lit "m") with brokerGuids := [lit "B"] }

def pairContext : CoreMessageContext where
  sourceId := lit "c"
  canonicalSourceId := lit "c"
  isSourceBridge := false
  contextFlags := 0
  topic := lit "t"

/-- The clock and the settings are left at zero, the topic cache is off. -/
def pairEnv : RegistryEnv where
  now := 0
  cacheEnabled := false
  clearDelay := 0
  iter := .asListed Bytes
  time := 0
  order _ := .asListed Bytes

/-- The event of a client of `A` is on its way to `B`. -/
def pairStart : FabricState where
  registry := (pairFabric.store pairEnv pairContext pairEvent (lit "c") 0 (lit "A")
    fun _ => pairRegistry).2
  message := .publish (lit "A") (pairFabric.store pairEnv pairContext pairEvent (lit "c") 0
    (lit "A") fun _ => pairRegistry).1

/-- The event has come to `B`. -/
def pairEnd : FabricState where
  registry := (pairFabric.store pairEnv pairContext pairEvent pairBridge.id 0 (lit "B")
    pairStart.registry).2
  message := pairStart.message.deliver 0 (lit "B") (pairFabric.store pairEnv pairContext pairEvent
    pairBridge.id 0 (lit "B") pairStart.registry).1

theorem routed_exactly_once_pair :
    pairEnd.message.received = [lit "A", lit "B"] ∧ pairEnd.message.sent.Nodup ∧
      ∃ x ∈ pairFabric.targets (fun _ => pairRegistry) pairEvent (lit "t") (lit "A"),
        Carries pairTree.graph (lit "A") x (lit "A") (lit "B") := by
  have hstart : pairFabric.Reached pairEvent (lit "t") 0 (lit "A") (lit "c")
      (fun _ => pairRegistry) pairStart := .publish pairEnv pairContext rfl rfl
  have hend : pairFabric.Reached pairEvent (lit "t") 0 (lit "A") (lit "c")
      (fun _ => pairRegistry) pairEnd :=
    hstart.deliver pairEnv pairContext rfl rfl (i := 0) (u := lit "A") (w := lit "B")
      (by decide +kernel)
  have hdest : ∀ g ∈ [lit "B"], g ∈ pairTree.brokers := by decide
  obtain ⟨hnodup, -, -, hon, -⟩ := routed_exactly_once pairTree_setUp
    (show pairTree.Routable pairEvent (lit "t") from hdest) (by decide)
    (fun _ _ => show pairBridge.id ≠ lit "c" by decide) (fun _ _ => pairTree_heldBy) hend
  exact ⟨by decide +kernel, hnodup, hon _ _ (by decide +kernel)⟩

end DxlBroker
