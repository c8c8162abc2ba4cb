import DxlBroker.Mqtt.SubsRepresentation
import Mathlib.Data.List.Chain

/-!
# Topics added to and removed from the broker

A notification is sent where the first client comes to a node or the last one leaves it; bridges do
not count.  For each node the notifications alternate, and the last one says whether a client is
subscribed there.  Its topic is put together from the names on the way to the node.
-/

namespace DxlBroker

open Bytes Subhier

/-- A client is among the leaves of a node. -/
def hasClient (subs : List Subleaf) : Bool := subs.any fun leaf => !leaf.context.isBridge

/-- The buffer after the names of a path were added to it. -/
def topicBelow (fulltopic : Bytes) (depth : ℕ) : List Bytes → Bytes
  | [] => fulltopic
  | name :: path => topicBelow (addTopicToPath name fulltopic depth) (depth + 1) path

/-- The topic of a node. -/
def pathTopic (path : List Bytes) : Bytes := topicBelow [] 0 path

/-- A notification for a node. -/
structure NodeNotice where
  path : List Bytes
  added : Bool
  deriving DecidableEq

def NodeNotice.notice (e : NodeNotice) : TopicNotice :=
  if e.added then .added (pathTopic e.path) else .removed (pathTopic e.path)

/-- The notification for a change of the leaves of a node. -/
def changeNotice (path : List Bytes) (before after : List Subleaf) : List NodeNotice :=
  if hasClient before = hasClient after then [] else [⟨path, hasClient after⟩]

mutual

/-- The paths from a node to those below it, in the order of the tree walk. -/
def nodePaths : Subhier → List (List Bytes)
  | ⟨_, _, _, _, children, _, _, _⟩ => [] :: pathsBelow children

def pathsBelow : List Subhier → List (List Bytes)
  | [] => []
  | child :: children => (nodePaths child).map (child.topic :: ·) ++ pathsBelow children

end

namespace SubsOp

/-- The nodes at which a call looks at the leaves. -/
def visited (db : SubsDb) : SubsOp → List (List Bytes)
  | .add _ sub _ => [subPath sub]
  | .remove _ sub => [subPath sub]
  | .clean _ => pathsBelow db.subs.children

/-- The database after a call. -/
def apply (s : BrokerSettings) (db : SubsDb) : SubsOp → SubsDb
  | .add context sub qos => (mqtt3SubAdd s db context sub qos).2
  | .remove context sub => mqtt3SubRemove db context sub
  | .clean cleanSubs => mqtt3SubsCleanSession db cleanSubs

/-- The notifications of a call, node by node. -/
def fired (s : BrokerSettings) (db : SubsDb) (op : SubsOp) : List NodeNotice :=
  (op.visited db).flatMap fun p =>
    changeNotice p (db.subs.leavesAt p) ((op.apply s db).subs.leavesAt p)

end SubsOp

/-! ### The notifications of the leaf loops -/

theorem hasClient_append (k l : List Subleaf) : hasClient (k ++ l) = (hasClient k || hasClient l) :=
  List.any_append

theorem hasClient_cons (leaf : Subleaf) (subs : List Subleaf) :
    hasClient (leaf :: subs) = (!leaf.context.isBridge || hasClient subs) := rfl

theorem all_isBridge (subs : List Subleaf) :
    (subs.all fun leaf => leaf.context.isBridge) = !hasClient subs := by
  rw [hasClient, List.not_any_eq_all_not]
  simp

theorem hasClient_congr {k l : List Subleaf}
    (h : k.map Subleaf.context = l.map Subleaf.context) : hasClient k = hasClient l := by
  have key : ∀ m : List Subleaf, hasClient m = (m.map Subleaf.context).any fun c => !c.isBridge :=
    fun m => by rw [List.any_map]; rfl
  rw [key, key, h]

/-- The notification with a topic for a change of the leaves. -/
def topicNotice (topic : Bytes) (before after : List Subleaf) : List TopicNotice :=
  if hasClient before = hasClient after then []
  else if hasClient after then [.added topic] else [.removed topic]

theorem map_changeNotice (path : List Bytes) (before after : List Subleaf) :
    (changeNotice path before after).map NodeNotice.notice =
      topicNotice (pathTopic path) before after := by
  unfold changeNotice topicNotice
  split_ifs with h ha
  · rfl
  · simp [NodeNotice.notice, ha]
  · simp [NodeNotice.notice, ha]

theorem topicNotice_self (topic : Bytes) (subs : List Subleaf) :
    topicNotice topic subs subs = [] := if_pos rfl

theorem addLeaf_notices (context : MqttContext) (qos : ℕ) (n : Subhier) (topic : Bytes)
    (log : SubsLog) :
    (addLeaf context qos n topic log).2.2.notices =
      log.notices ++ topicNotice topic n.subs (withLeaf context qos n.subs) := by
  unfold addLeaf withLeaf
  split_ifs with hany
  · rw [topicNotice, if_pos (hasClient_congr (updateQos_contexts context.id qos n.subs)).symm,
      List.append_nil]
  · have hnew : hasClient (n.subs ++ [⟨context, qos⟩]) =
        (hasClient n.subs || !context.isBridge) := by
      rw [hasClient_append, hasClient_cons]
      exact congrArg _ (Bool.or_false _)
    simp only [all_isBridge, topicNotice, hnew]
    cases hasClient n.subs <;> cases context.isBridge <;>
      simp [SubsLog.notify, SubsLog.addContextCount, SubsLog.addSubscription]

theorem removeLeaf_notices (context : MqttContext) (n : Subhier) (topic : Bytes) (log : SubsLog) :
    (removeLeaf context n topic log).2.notices = log.notices ++
      topicNotice topic n.subs (n.subs.eraseP fun leaf => leaf.context == context) := by
  unfold removeLeaf
  split_ifs with hany
  · obtain ⟨leaf, hleaf, hcontext⟩ := List.any_eq_true.mp hany
    obtain ⟨d, l₁, l₂, -, hd, hl, he⟩ :=
      List.exists_of_eraseP (p := fun leaf => leaf.context == context) hleaf hcontext
    have hd : d.context = context := by simpa using hd
    have hbefore : hasClient n.subs = (hasClient l₁ || (!context.isBridge || hasClient l₂)) := by
      rw [hl, hasClient_append, hasClient_cons, hd]
    have hafter : hasClient (n.subs.eraseP fun leaf => leaf.context == context) =
        (hasClient l₁ || hasClient l₂) := by
      rw [he, hasClient_append]
    simp only [isTopicRemoved, all_isBridge, topicNotice, hbefore, hafter]
    cases hasClient l₁ <;> cases hasClient l₂ <;> cases context.isBridge <;>
      simp [SubsLog.notify, SubsLog.addContextCount, SubsLog.addSubscription]
  · have : n.subs.eraseP (fun leaf => leaf.context == context) = n.subs :=
      List.eraseP_of_forall_not fun leaf hleaf hcontext =>
        hany (List.any_eq_true.mpr ⟨leaf, hleaf, hcontext⟩)
    rw [this, topicNotice_self, List.append_nil]

/-- One notification at most: for the last client that a cleaned node loses. -/
theorem cleanLeaves_notices (cleanSubs : MqttContext → Bool) (topic : Bytes)
    (subs kept : List Subleaf) (log : SubsLog) :
    (cleanLeaves cleanSubs topic kept subs log).2.notices = log.notices ++
      topicNotice topic (kept ++ subs)
        (kept ++ subs.filter fun leaf => !cleanSubs leaf.context) := by
  induction subs generalizing kept log with
  | nil => simp [cleanLeaves, topicNotice_self]
  | cons leaf subs ih =>
    rw [cleanLeaves]
    by_cases h : cleanSubs leaf.context = true
    · rw [if_pos h, ih, List.filter_cons_of_neg (by simp [h])]
      -- Without the leaf there are fewer clients, and none comes back.
      have hmono : hasClient (kept ++ subs.filter fun leaf => !cleanSubs leaf.context) = true →
          hasClient (kept ++ subs) = true := by
        simp only [hasClient_append, Bool.or_eq_true]
        refine Or.imp_right fun hfilter => ?_
        obtain ⟨l, hl, hclient⟩ := List.any_eq_true.mp hfilter
        exact List.any_eq_true.mpr ⟨l, (List.mem_filter.mp hl).1, hclient⟩
      have hcons : hasClient (kept ++ leaf :: subs) =
          (!leaf.context.isBridge || hasClient (kept ++ subs)) := by
        simp only [hasClient_append, hasClient_cons]
        cases leaf.context.isBridge <;> simp
      simp only [isTopicRemoved, all_isBridge, topicNotice, hcons]
      revert hmono
      cases hasClient (kept ++ subs.filter fun leaf => !cleanSubs leaf.context) <;>
        cases hasClient (kept ++ subs) <;> cases leaf.context.isBridge <;>
        simp [SubsLog.notify, SubsLog.addSubscription]
    · rw [if_neg h, ih, List.filter_cons_of_pos (by simp [h])]
      simp only [List.append_assoc, List.singleton_append]

/-! ### The walks -/

theorem subAdd_notices {s : BrokerSettings} {context : MqttContext} {log : SubsLog}
    (hallowed : subscriptionAllowed s context log = true) (qos : ℕ) {tokens : List Bytes} :
    ∀ {n : Subhier}, n.Everywhere Neat → ∀ (fulltopic : Bytes) (depth : ℕ),
      (subAdd s context qos n tokens fulltopic depth log).2.2.notices = log.notices ++
        topicNotice (topicBelow fulltopic depth (n.topic :: tokens)) (n.leavesAt tokens)
          (withLeaf context qos (n.leavesAt tokens)) := by
  induction tokens with
  | nil =>
    intro n _ fulltopic depth
    simp only [subAdd, hallowed, Bool.not_true, Bool.false_eq_true, if_false]
    exact addLeaf_notices context qos n _ log
  | cons token tokens ih =>
    intro n hn fulltopic depth
    have hlink := hn.here.linked
    simp only [subAdd, hallowed, Bool.not_true, Bool.false_eq_true, if_false, hlink.hashFind_eq]
    cases hchild : n.child? token with
    | some c =>
      obtain ⟨hc, rfl⟩ := mem_of_child? hchild
      rw [hlink.leavesAt_cons hc]
      exact ih (hn.children c hc) _ _
    | none =>
      have hnil : n.leavesAt (token :: tokens) = [] := by rw [leavesAt, hchild]
      have hbranch : ({ addr := n.freshAddr, topic := token } : Subhier).leavesAt tokens = [] :=
        leavesAt_of_isUnused rfl tokens
      have h := ih (neat_leaf n.freshAddr token) (addTopicToPath n.topic fulltopic depth) (depth + 1)
      rw [hbranch] at h
      rw [hnil]
      exact h

/-- The leaf of a context at one path is added, or has its QoS changed. -/
def addAt (context : MqttContext) (qos : ℕ) (tokens p : List Bytes) (subs : List Subleaf) :
    List Subleaf :=
  if p = tokens then withLeaf context qos subs else subs

theorem onChild_addAt (context : MqttContext) (qos : ℕ) (t : Bytes) (tokens p : List Bytes)
    (subs : List Subleaf) :
    onChild t (addAt context qos tokens) p subs = addAt context qos (t :: tokens) p subs := by
  cases p with
  | nil => simp [onChild, addAt]
  | cons u p =>
    by_cases h : u = t <;> simp [onChild, addAt, h]

theorem subAdd_leavesAt {s : BrokerSettings} {context : MqttContext} {log : SubsLog}
    (hallowed : subscriptionAllowed s context log = true) (qos : ℕ) {tokens : List Bytes} :
    ∀ {n : Subhier}, n.Everywhere Neat → ∀ (fulltopic : Bytes) (depth : ℕ) (p : List Bytes),
      (subAdd s context qos n tokens fulltopic depth log).2.1.leavesAt p =
        addAt context qos tokens p (n.leavesAt p) := by
  induction tokens with
  | nil =>
    intro n _ fulltopic depth p
    simp only [subAdd, hallowed, Bool.not_true, Bool.false_eq_true, if_false,
      (addLeaf_subs context qos n (addTopicToPath n.topic fulltopic depth) log).1]
    cases p with
    | nil => rfl
    | cons t p => rfl
  | cons token tokens ih =>
    intro n hn fulltopic depth p
    have hlink := hn.here.linked
    have hgrown := fun {c : Subhier} (hc : c.Everywhere Neat) =>
      @subAdd_grown s context log hallowed qos tokens c hc (addTopicToPath n.topic fulltopic depth)
        (depth + 1)
    rw [← onChild_addAt]
    simp only [subAdd, hallowed, Bool.not_true, Bool.false_eq_true, if_false, hlink.hashFind_eq]
    cases hchild : n.child? token with
    | some c =>
      obtain ⟨hc, rfl⟩ := mem_of_child? hchild
      have hneat := hn.children c hc
      exact leavesAt_setChild hlink ⟨hc, (hgrown hneat).addr, (hgrown hneat).topic⟩
        (ih hneat _ _) p
    | none =>
      have hfresh : n.Fresh { addr := n.freshAddr, topic := token } :=
        ⟨rfl, fun c hc ht => by simpa [ht] using List.find?_eq_none.mp hchild c hc⟩
      have hmem : ({ addr := n.freshAddr, topic := token } : Subhier) ∈
          (n.addChild { addr := n.freshAddr, topic := token }).children := by
        simp [Subhier.addChild]
      have hneat := neat_leaf n.freshAddr token
      rw [← leavesAt_addChild hlink hfresh (fun p => leavesAt_of_isUnused rfl p) p]
      exact leavesAt_setChild (linked_addChild hlink hfresh)
        ⟨hmem, (hgrown hneat).addr, (hgrown hneat).topic⟩ (ih hneat _ _) p

theorem subRemove_notices (context : MqttContext) (log : SubsLog) {tokens : List Bytes} :
    ∀ {n : Subhier}, n.Everywhere Neat → ∀ (fulltopic : Bytes) (depth : ℕ),
      (subRemove context n tokens fulltopic depth log).2.notices = log.notices ++
        topicNotice (topicBelow fulltopic depth (n.topic :: tokens)) (n.leavesAt tokens)
          (eraseAt context tokens tokens (n.leavesAt tokens)) := by
  induction tokens with
  | nil =>
    intro n _ fulltopic depth
    exact removeLeaf_notices context n _ log
  | cons token tokens ih =>
    intro n hn fulltopic depth
    rw [subRemove, leavesAt, child?]
    cases hchild : n.children.find? (fun c => c.topic == token) with
    | none => simp [eraseAt, topicNotice_self]
    | some c =>
      obtain ⟨hc, rfl⟩ := mem_of_child? hchild
      have h := ih (hn.children c hc) (addTopicToPath n.topic fulltopic depth) (depth + 1)
      rw [eraseAt, if_pos rfl] at h ⊢
      exact h

theorem subRemove_leavesAt (context : MqttContext) (log : SubsLog) {tokens : List Bytes} :
    ∀ {n : Subhier}, n.Everywhere Neat → ∀ (fulltopic : Bytes) (depth : ℕ) (p : List Bytes),
      (subRemove context n tokens fulltopic depth log).1.leavesAt p =
        eraseAt context tokens p (n.leavesAt p) := by
  induction tokens with
  | nil =>
    intro n _ fulltopic depth p
    rw [subRemove, removeLeaf_subs]
    cases p with
    | nil => rfl
    | cons t p => rfl
  | cons token tokens ih =>
    intro n hn fulltopic depth p
    rw [subRemove, ← onChild_eraseAt]
    cases hchild : n.children.find? (fun c => c.topic == token) with
    | none =>
      have hnil : ∀ p, n.leavesAt (token :: p) = [] := fun p => by
        rw [leavesAt, child?, hchild]
      cases p with
      | nil => rfl
      | cons t p =>
        rw [onChild]
        split_ifs with ht
        · rw [ht, hnil]
          simp [eraseAt]
        · rfl
    | some c =>
      obtain ⟨hc, rfl⟩ := mem_of_child? hchild
      have hneat := hn.children c hc
      have h := @subRemove_trimmed context log tokens c hneat
        (addTopicToPath n.topic fulltopic depth) (depth + 1)
      exact leavesAt_putChild hn.here.linked ⟨hc, h.addr, h.topic⟩ (ih hneat _ _) p

/-- The notifications of a clean call below a node. -/
def cleanedNotices (cleanSubs : MqttContext → Bool) (fulltopic : Bytes) (depth : ℕ) (n : Subhier)
    (paths : List (List Bytes)) : List TopicNotice :=
  paths.flatMap fun p => topicNotice (topicBelow fulltopic depth p) (n.leavesAt p)
    (cleanAt cleanSubs p (n.leavesAt p))

theorem subsCleanChildren_notices (cleanSubs : MqttContext → Bool) {fulltopic : Bytes}
    {depth : ℕ} {n : Subhier} {children : List Subhier}
    (hleaves : ∀ c ∈ children, ∀ p, n.leavesAt (c.topic :: p) = c.leavesAt p)
    (ih : ∀ c ∈ children, ∀ log, (subsCleanSession cleanSubs c fulltopic depth log).2.notices =
      log.notices ++ (nodePaths c).flatMap fun p =>
        topicNotice (topicBelow fulltopic depth (c.topic :: p)) (c.leavesAt p)
          (cleanAt cleanSubs p (c.leavesAt p))) (put : Subhier → Subhier → Subhier) :
    ∀ (root : Subhier) (log : SubsLog),
      (children.foldl (fun (r : Subhier × SubsLog) c =>
        (put r.1 (subsCleanSession cleanSubs c fulltopic depth r.2).1,
          (subsCleanSession cleanSubs c fulltopic depth r.2).2)) (root, log)).2.notices =
      log.notices ++ cleanedNotices cleanSubs fulltopic depth n (pathsBelow children) := by
  induction children with
  | nil =>
    intro root log
    simp [pathsBelow, cleanedNotices]
  | cons c children ihc =>
    intro root log
    rw [List.foldl_cons, ihc (fun d hd => hleaves d (List.mem_cons_of_mem _ hd))
      (fun d hd => ih d (List.mem_cons_of_mem _ hd)), ih c List.mem_cons_self, pathsBelow,
      cleanedNotices, cleanedNotices, List.flatMap_append, List.flatMap_map, List.append_assoc]
    simp only [hleaves c List.mem_cons_self]
    rfl

theorem subsCleanSession_notices (cleanSubs : MqttContext → Bool) {n : Subhier}
    (hn : n.Everywhere Linked) :
    ∀ fulltopic depth log, (subsCleanSession cleanSubs n fulltopic depth log).2.notices =
      log.notices ++ (nodePaths n).flatMap fun p =>
        topicNotice (topicBelow fulltopic depth (n.topic :: p)) (n.leavesAt p)
          (cleanAt cleanSubs p (n.leavesAt p)) := by
  induction hn with
  | @intro n hlink hchildren ih =>
    intro fulltopic depth log
    obtain ⟨addr, topic, subs, retained, children, hashTable, poundCount, plusCount⟩ := n
    rw [subsCleanSession]
    simp only
    rw [subsCleanChildren_eq_foldl, subsCleanChildren_notices cleanSubs
      (fun c hc p => hlink.leavesAt_cons hc p) fun c hc => ih c hc _ _, cleanLeaves_notices,
      nodePaths, List.flatMap_cons, List.nil_append, List.nil_append, List.append_assoc]
    rfl

/-! ### Calls -/

/-- A step that looks at the leaves of some nodes and changes no others. -/
structure SubsDb.Changes (db db' : SubsDb) (paths : List (List Bytes)) : Prop where
  notices : db'.log.notices = db.log.notices ++ paths.flatMap fun p =>
    topicNotice (pathTopic p) (db.subs.leavesAt p) (db'.subs.leavesAt p)
  other : ∀ p, p ∉ paths → db'.subs.leavesAt p = db.subs.leavesAt p

/-- A change of the leaves at one path. -/
theorem SubsDb.Changes.single {db db' : SubsDb} {p : List Bytes} {f : List Subleaf → List Subleaf}
    (hleaves : ∀ q, db'.subs.leavesAt q = if q = p then f (db.subs.leavesAt q)
      else db.subs.leavesAt q)
    (hnotices : db'.log.notices = db.log.notices ++
      topicNotice (pathTopic p) (db.subs.leavesAt p) (f (db.subs.leavesAt p))) :
    db.Changes db' [p] where
  notices := by
    rw [List.flatMap_singleton, hleaves p, if_pos rfl]
    exact hnotices
  other q hq := by rw [hleaves, if_neg fun h => hq (List.mem_singleton.mpr h)]

/-! ### The nodes of a tree -/

theorem nodePaths_eq (n : Subhier) : nodePaths n = [] :: pathsBelow n.children := by
  cases n
  simp [nodePaths]

theorem mem_pathsBelow {t : Bytes} {p : List Bytes} {children : List Subhier} :
    t :: p ∈ pathsBelow children ↔ ∃ c ∈ children, c.topic = t ∧ p ∈ nodePaths c := by
  induction children with
  | nil => simp [pathsBelow]
  | cons c children ih => simp [pathsBelow, ih, and_comm]

theorem nil_not_mem_pathsBelow (children : List Subhier) : [] ∉ pathsBelow children := by
  induction children with
  | nil => simp [pathsBelow]
  | cons c children ih => simp [pathsBelow, ih]

/-- Where there is no node there are no leaves. -/
theorem leavesAt_of_not_mem {n : Subhier} {p : List Bytes} (h : p ∉ nodePaths n) :
    n.leavesAt p = [] := by
  induction p generalizing n with
  | nil => simp [nodePaths_eq] at h
  | cons t p ih =>
    rw [leavesAt]
    cases hchild : n.child? t with
    | none => rfl
    | some c =>
      obtain ⟨hc, ht⟩ := mem_of_child? hchild
      refine ih fun hp => h ?_
      rw [nodePaths_eq]
      exact List.mem_cons_of_mem _ (mem_pathsBelow.mpr ⟨c, hc, ht, hp⟩)

theorem nodup_pathsBelow {children : List Subhier} (htopics : (children.map topic).Nodup)
    (hchildren : ∀ c ∈ children, (nodePaths c).Nodup) : (pathsBelow children).Nodup := by
  induction children with
  | nil => exact List.nodup_nil
  | cons c children ih =>
    rw [List.map_cons, List.nodup_cons] at htopics
    rw [pathsBelow, List.nodup_append]
    refine ⟨(hchildren c List.mem_cons_self).map fun p q h => (List.cons.inj h).2,
      ih htopics.2 fun d hd => hchildren d (List.mem_cons_of_mem _ hd), fun p hp q hq hpq => ?_⟩
    obtain ⟨r, -, rfl⟩ := List.mem_map.mp hp
    rw [← hpq] at hq
    obtain ⟨d, hd, ht, -⟩ := mem_pathsBelow.mp hq
    exact htopics.1 (ht ▸ List.mem_map_of_mem hd)

theorem nodup_nodePaths {n : Subhier} (h : n.Everywhere Linked) : (nodePaths n).Nodup := by
  induction h with
  | intro hlink _ ih =>
    rw [nodePaths_eq, List.nodup_cons]
    exact ⟨nil_not_mem_pathsBelow _, nodup_pathsBelow hlink.topics ih⟩

namespace SubsDb.Represented

variable {db : SubsDb} (h : db.Represented)
include h

omit h in
theorem changes_addAt (s : BrokerSettings) (context : MqttContext) (sub : Bytes) (qos : ℕ)
    {root child : Subhier} (hroot : root.Linked) (hchild : child ∈ root.children)
    (htopic : child.topic = rootToken sub) (hneat : child.Everywhere Neat)
    (hleaves : ∀ p, root.leavesAt p = db.subs.leavesAt p) :
    db.Changes (subAddAt s db.log context sub qos root child).2 [subPath sub] := by
  cases hallowed : subscriptionAllowed s context db.log with
  | false =>
    have hsame : ∀ p, (subAddAt s db.log context sub qos root child).2.subs.leavesAt p =
        db.subs.leavesAt p := fun p => by
      simp only [subAddAt, subAdd_rejected hallowed, setChild_self hroot hchild, hleaves]
    refine .single (f := id) (fun p => by rw [hsame, id, ite_self]) ?_
    rw [id, topicNotice_self, List.append_nil]
    simp only [subAddAt, subAdd_rejected hallowed]
  | true =>
    have hgrown := @subAdd_grown s context db.log hallowed qos (subTopicTokenise sub) child hneat
      [] 0
    refine .single (f := withLeaf context qos) (fun p => ?_) ?_
    · rw [← hleaves]
      have hset := leavesAt_setChild hroot ⟨hchild, hgrown.addr, hgrown.topic⟩
        (subAdd_leavesAt hallowed qos hneat [] 0) p
      rw [onChild_addAt, htopic] at hset
      exact hset
    · have hnotices := @subAdd_notices s context db.log hallowed qos (subTopicTokenise sub) child
        hneat [] 0
      rw [← hroot.leavesAt_cons hchild, hleaves, htopic] at hnotices
      exact hnotices

theorem changes_add (s : BrokerSettings) (context : MqttContext) (sub : Bytes) (qos : ℕ) :
    db.Changes (mqtt3SubAdd s db context sub qos).2 [subPath sub] := by
  rw [mqtt3SubAdd, h.linked.hashFind_eq]
  cases hchild : db.subs.child? (rootToken sub) with
  | some child =>
    obtain ⟨hmem, htopic⟩ := mem_of_child? hchild
    exact changes_addAt s context sub qos h.linked hmem htopic (h.neat child hmem) fun _ => rfl
  | none =>
    have hfresh : db.subs.Fresh { addr := db.subs.freshAddr, topic := rootToken sub } :=
      ⟨rfl, fun c hc ht => by simpa [ht] using List.find?_eq_none.mp hchild c hc⟩
    obtain ⟨hpound, hplus⟩ := rootToken_not_wildcard sub
    exact changes_addAt s context sub qos (linked_pushChild h.linked hfresh hpound hplus)
      List.mem_cons_self rfl (neat_leaf _ _)
      (leavesAt_pushChild h.linked hfresh hpound hplus fun p => leavesAt_of_isUnused rfl p)

theorem changes_remove (context : MqttContext) (sub : Bytes) :
    db.Changes (mqtt3SubRemove db context sub) [subPath sub] := by
  rw [mqtt3SubRemove, h.linked.hashFind_eq]
  cases hchild : db.subs.child? (rootToken sub) with
  | none =>
    refine .single (f := id) (fun p => by rw [id, ite_self]) ?_
    rw [id, topicNotice_self, List.append_nil]
  | some child =>
    obtain ⟨hmem, htopic⟩ := mem_of_child? hchild
    have hneat := h.neat child hmem
    have htrimmed := @subRemove_trimmed context db.log (subTopicTokenise sub) child hneat [] 0
    refine .single (f := fun subs => subs.eraseP fun leaf => leaf.context == context)
      (fun p => ?_) ?_
    · have hset := leavesAt_setChild h.linked ⟨hmem, htrimmed.addr, htrimmed.topic⟩
        (subRemove_leavesAt context db.log hneat [] 0) p
      rw [onChild_eraseAt, htopic] at hset
      exact hset
    · have hnotices := @subRemove_notices context db.log (subTopicTokenise sub) child hneat [] 0
      rw [← h.linked.leavesAt_cons hmem, htopic, eraseAt, if_pos rfl] at hnotices
      exact hnotices

theorem changes_clean (cleanSubs : MqttContext → Bool) :
    db.Changes (mqtt3SubsCleanSession db cleanSubs) (pathsBelow db.subs.children) where
  notices := by
    simp only [(h.clean cleanSubs).2.2]
    rw [mqtt3SubsCleanSession_eq_foldl]
    exact subsCleanChildren_notices cleanSubs (fun c hc p => h.linked.leavesAt_cons hc p)
      (fun c hc => subsCleanSession_notices cleanSubs ((h.neat c hc).imp fun _ h => h.linked) [] 0)
      Subhier.setChild db.subs db.log
  other p hp := by
    have hnil : db.subs.leavesAt p = [] := by
      cases p with
      | nil => exact h.subs
      | cons t p => exact leavesAt_of_not_mem fun hmem => hp (by simpa [nodePaths_eq] using hmem)
    rw [(h.clean cleanSubs).2.2, hnil]
    rfl

theorem changes (s : BrokerSettings) (op : SubsOp) : db.Changes (op.apply s db) (op.visited db) := by
  cases op with
  | add context sub qos => exact h.changes_add s context sub qos
  | remove context sub => exact h.changes_remove context sub
  | clean cleanSubs => exact h.changes_clean cleanSubs

theorem nodup_visited (op : SubsOp) : (op.visited db).Nodup := by
  cases op with
  | add context sub qos => exact List.nodup_singleton _
  | remove context sub => exact List.nodup_singleton _
  | clean cleanSubs =>
    exact nodup_pathsBelow h.linked.topics fun c hc =>
      nodup_nodePaths ((h.neat c hc).imp fun _ h => h.linked)

theorem represented_apply (s : BrokerSettings) (op : SubsOp) : (op.apply s db).Represented := by
  cases op with
  | add context sub qos => exact (h.add s context sub qos).represented
  | remove context sub => exact (h.remove context sub).represented
  | clean cleanSubs => exact (h.clean cleanSubs).1

/-- The notifications of a call are those fired for its nodes. -/
theorem notices_apply (s : BrokerSettings) (op : SubsOp) :
    (op.apply s db).log.notices =
      db.log.notices ++ (op.fired s db).map NodeNotice.notice := by
  rw [(h.changes s op).notices, SubsOp.fired, List.map_flatMap]
  simp only [map_changeNotice]

/-- For a node a call fires what the change of its leaves asks for, whether it looks at the node
or not. -/
theorem filter_fired (s : BrokerSettings) (op : SubsOp) (p : List Bytes) :
    (op.fired s db).filter (fun e => e.path = p) =
      changeNotice p (db.subs.leavesAt p) ((op.apply s db).subs.leavesAt p) := by
  have hpath : ∀ q, ∀ e ∈ changeNotice q (db.subs.leavesAt q) ((op.apply s db).subs.leavesAt q),
      e.path = q := fun q e he => by
    unfold changeNotice at he
    split_ifs at he
    · cases he
    · rw [List.mem_singleton.mp he]
  have hself : (changeNotice p (db.subs.leavesAt p) ((op.apply s db).subs.leavesAt p)).filter
      (fun e => e.path = p) = changeNotice p (db.subs.leavesAt p)
        ((op.apply s db).subs.leavesAt p) :=
    List.filter_eq_self.mpr fun e he => by simp [hpath p e he]
  have hother : ∀ paths : List (List Bytes), p ∉ paths → (paths.flatMap fun q =>
      changeNotice q (db.subs.leavesAt q) ((op.apply s db).subs.leavesAt q)).filter
        (fun e => e.path = p) = [] := fun paths hp => by
    refine List.filter_eq_nil_iff.mpr fun e he => ?_
    obtain ⟨q, hq, he⟩ := List.mem_flatMap.mp he
    have hep := hpath q e he
    rw [decide_eq_true_eq]
    exact fun h => hp (by rw [← h, hep]; exact hq)
  by_cases hp : p ∈ op.visited db
  · obtain ⟨l₁, l₂, hl⟩ := List.append_of_mem hp
    have hnodup := h.nodup_visited op
    rw [hl, List.nodup_middle, List.nodup_cons, List.mem_append, not_or] at hnodup
    rw [SubsOp.fired, hl, List.flatMap_append, List.flatMap_cons, List.filter_append,
      List.filter_append, hother l₁ hnodup.1.1, hother l₂ hnodup.1.2, hself, List.nil_append,
      List.append_nil]
  · rw [SubsOp.fired, hother _ hp, (h.changes s op).other p hp, changeNotice, if_pos rfl]

end SubsDb.Represented

/-! ### Runs -/

namespace SubsRun

/-- The notifications of a sequence of calls, node by node. -/
def fired (s : BrokerSettings) (db : SubsDb) : List SubsOp → List NodeNotice
  | [] => []
  | op :: ops => op.fired s db ++ fired s (op.apply s db) ops

theorem run_db (s : BrokerSettings) (ops : List SubsOp) :
    (run s ops).db = ops.foldl (SubsOp.apply s) .init := by
  have key : ∀ (ops : List SubsOp) (r : SubsRun),
      (ops.foldl (step s) r).db = ops.foldl (SubsOp.apply s) r.db := by
    intro ops
    induction ops with
    | nil => exact fun _ => rfl
    | cons op ops ih =>
      intro r
      rw [List.foldl_cons, ih, List.foldl_cons]
      cases op <;> rfl
  exact key ops .init

/-- The kinds of the notifications fired for a node: added or removed. -/
def kindsAt (p : List Bytes) (fired : List NodeNotice) : List Bool :=
  (fired.filter fun e => e.path = p).map NodeNotice.added

/-- The notifications so far are those fired, and for each node they alternate. -/
structure Alternating (db : SubsDb) (fired : List NodeNotice) : Prop where
  represented : db.Represented
  notices : db.log.notices = fired.map NodeNotice.notice
  chain : ∀ p, (false :: kindsAt p fired).IsChain (· ≠ ·)
  last : ∀ p, (false :: kindsAt p fired).getLast? = some (hasClient (db.subs.leavesAt p))

theorem Alternating.apply {db : SubsDb} {fired : List NodeNotice} (h : Alternating db fired)
    (s : BrokerSettings) (op : SubsOp) : Alternating (op.apply s db) (fired ++ op.fired s db) := by
  have hkinds : ∀ p, kindsAt p (fired ++ op.fired s db) = kindsAt p fired ++
      if hasClient (db.subs.leavesAt p) = hasClient ((op.apply s db).subs.leavesAt p) then []
      else [hasClient ((op.apply s db).subs.leavesAt p)] := fun p => by
    rw [kindsAt, List.filter_append, h.represented.filter_fired s op p, List.map_append,
      changeNotice, apply_ite (List.map NodeNotice.added)]
    rfl
  refine ⟨h.represented.represented_apply s op, ?_, fun p => ?_, fun p => ?_⟩
  · rw [h.represented.notices_apply s op, h.notices, List.map_append]
  · rw [hkinds, ← List.cons_append]
    split_ifs with hsame
    · rw [List.append_nil]
      exact h.chain p
    · refine (h.chain p).append (List.isChain_singleton _) fun x hx y hy => ?_
      rw [h.last p, Option.mem_some_iff] at hx
      rw [List.head?_cons, Option.mem_some_iff] at hy
      rwa [← hx, ← hy]
  · rw [hkinds, ← List.cons_append]
    split_ifs with hsame
    · rw [List.append_nil, h.last p, hsame]
    · rw [List.getLast?_append, List.getLast?_singleton]
      rfl

theorem alternating_run (s : BrokerSettings) (ops : List SubsOp) :
    Alternating (run s ops).db (fired s .init ops) := by
  have key : ∀ (ops : List SubsOp) (db : SubsDb) (before : List NodeNotice),
      Alternating db before →
      Alternating (ops.foldl (SubsOp.apply s) db) (before ++ fired s db ops) := by
    intro ops
    induction ops with
    | nil =>
      intro db before h
      rw [fired, List.append_nil]
      exact h
    | cons op ops ih =>
      intro db before h
      rw [fired, ← List.append_assoc]
      exact ih _ _ (h.apply s op)
  rw [run_db]
  refine key ops .init [] ⟨represented_init, rfl, fun p => List.isChain_singleton _, fun p => ?_⟩
  rw [leavesAt_init]
  rfl

end SubsRun

/-- **Alternating notifications.**  In every run of subscribe, unsubscribe and clean calls the
notifications sent are those fired for the nodes of the tree; for each node they alternate,
beginning with an added topic, and the last one is an added topic exactly when a client that is no
bridge is subscribed at the node. -/
theorem topicNotices_alternate (s : BrokerSettings) (ops : List SubsOp) :
    (SubsRun.run s ops).db.log.notices =
      (SubsRun.fired s .init ops).map NodeNotice.notice ∧
    ∀ path, (false :: SubsRun.kindsAt path (SubsRun.fired s .init ops)).IsChain (· ≠ ·) ∧
      ((SubsRun.kindsAt path (SubsRun.fired s .init ops)).getLast? = some true ↔
        ∃ leaf ∈ (SubsRun.run s ops).db.subs.leavesAt path, leaf.context.isBridge = false) := by
  have h := SubsRun.alternating_run s ops
  refine ⟨h.notices, fun path => ⟨h.chain path, ?_⟩⟩
  have hlast := h.last path
  have hclient : hasClient ((SubsRun.run s ops).db.subs.leavesAt path) = true ↔
      ∃ leaf ∈ (SubsRun.run s ops).db.subs.leavesAt path, leaf.context.isBridge = false := by
    simp [hasClient]
  rw [← hclient]
  cases hkinds : SubsRun.kindsAt path (SubsRun.fired s .init ops) with
  | nil =>
    rw [hkinds, List.getLast?_singleton, Option.some.injEq] at hlast
    simp [← hlast]
  | cons kind kinds =>
    rw [hkinds, List.getLast?_cons_cons] at hlast
    rw [hlast, Option.some.injEq]

end DxlBroker
