import DxlBroker.Core.Settings
import DxlBroker.Mqtt.Topic
import Mathlib.Data.List.Basic
import Mathlib.Data.Int.Notation
import Mathlib.Logic.Function.Basic

/-!
# The subscription tree

The tree of `subs.c`.  A node has its subscriptions, a list of children, and beside that list a
hash table from topic to child with two counters for the children named `#` and `+`.  A hash table
entry is a pointer: it holds the address of a child, and a lookup follows it.

`mqtt3SubAdd`, `mqtt3SubRemove` and `mqtt3SubsCleanSession` change the tree, and
`mqtt3DbMessagesQueue` searches it.  Messages are not retained here, so no node is created for one.
-/

namespace DxlBroker

open Bytes

/-- `struct mosquitto`: what the model reads of a connection.  The record stands for
the pointer too; none of these fields changes while the connection has subscriptions. -/
structure MqttContext where
  id : Bytes
  canonicalId : Bytes := []
  isBridge : Bool := false
  dxlFlags : UInt8 := 0
  dxlTenantGuid : Bytes := []
  deriving DecidableEq

/-- `struct _mosquitto_subleaf`. -/
structure Subleaf where
  context : MqttContext
  qos : ℕ
  deriving DecidableEq

/-- `struct _mosquitto_subhier`. -/
structure Subhier where
  addr : ℕ
  topic : Bytes
  subs : List Subleaf := []
  retained : Bool := false
  children : List Subhier := []
  hashTable : List (Bytes × ℕ) := []
  poundCount : ℤ := 0
  plusCount : ℤ := 0

/-- A call of `dxl_on_topic_added_to_broker` or `dxl_on_topic_removed_from_broker`. -/
inductive TopicNotice
  | added (topic : Bytes)
  | removed (topic : Bytes)
  deriving DecidableEq

/-- The counters beside the tree, and the notifications sent so far. -/
structure SubsLog where
  subscriptionCount : ℤ := 0
  contextCount : MqttContext → ℤ := fun _ => 0
  notices : List TopicNotice := []

namespace SubsLog

def addSubscription (log : SubsLog) (n : ℤ) : SubsLog :=
  { log with subscriptionCount := log.subscriptionCount + n }

def addContextCount (log : SubsLog) (context : MqttContext) (n : ℤ) : SubsLog :=
  { log with
    contextCount := Function.update log.contextCount context (log.contextCount context + n) }

def notify (log : SubsLog) (notice : TopicNotice) : SubsLog :=
  { log with notices := log.notices ++ [notice] }

end SubsLog

namespace Subhier

/-! ### Hash tables -/

/-- `HASH_FIND_STR`, and the node its result points to. -/
def hashFind (n : Subhier) (topic : Bytes) : Option Subhier :=
  match n.hashTable.find? (fun e => e.1 == topic) with
  | none => none
  | some e => n.children.find? fun c => c.addr == e.2

/-- `add_heir_to_hash`. -/
def addHeirToHash (table : List (Bytes × ℕ)) (topic : Bytes) (addr : ℕ) : List (Bytes × ℕ) :=
  if table.any (fun e => e.1 == topic) then table else table ++ [(topic, addr)]

/-- `remove_heir_from_hash`. -/
def removeHeirFromHash (table : List (Bytes × ℕ)) (topic : Bytes) : List (Bytes × ℕ) :=
  table.eraseP fun e => e.1 == topic

/-- `topic_is_wild_card`. -/
def topicIsWildCard (topic wildCard : Bytes) : Bool := topic == wildCard

/-- An address that no child and no entry of the hash table has. -/
def freshAddr (n : Subhier) : ℕ :=
  (n.children.map addr ++ n.hashTable.map Prod.snd).foldr max 0 + 1

/-- The writes to a child go to the node of its address. -/
def setChild (n child : Subhier) : Subhier :=
  { n with children := n.children.map fun c => if c.addr = child.addr then child else c }

/-- A new child at the end of the list, as `_sub_add` links it. -/
def addChild (n branch : Subhier) : Subhier :=
  { n with
    children := n.children ++ [branch]
    hashTable := addHeirToHash n.hashTable branch.topic branch.addr
    poundCount := n.poundCount + if topicIsWildCard branch.topic poundLevel then 1 else 0
    plusCount := n.plusCount + if topicIsWildCard branch.topic plusLevel then 1 else 0 }

/-- A new first-level node at the front of the list, as `mqtt3_sub_add` links it. -/
def pushChild (n branch : Subhier) : Subhier :=
  { n with
    children := branch :: n.children
    hashTable := addHeirToHash n.hashTable branch.topic branch.addr }

/-- A child is unlinked, with the counters kept from going below zero. -/
def dropChild (n branch : Subhier) : Subhier :=
  { n with
    children := n.children.eraseP fun c => c.addr == branch.addr
    hashTable := removeHeirFromHash n.hashTable branch.topic
    poundCount := n.poundCount -
      if topicIsWildCard branch.topic poundLevel ∧ 0 < n.poundCount then 1 else 0
    plusCount := n.plusCount -
      if topicIsWildCard branch.topic plusLevel ∧ 0 < n.plusCount then 1 else 0 }

/-- The test before a node is freed. -/
def isUnused (n : Subhier) : Bool := n.children.isEmpty && n.subs.isEmpty && !n.retained

/-- The node after one of its children was changed: an unused child is unlinked. -/
def putChild (n child : Subhier) : Subhier :=
  if child.isUnused then n.dropChild child else n.setChild child

end Subhier

/-! ### Full topics -/

def maxTopicLen : ℕ := 1024

/-- `_add_topic_to_path`: the buffer holds at most `maxTopicLen` bytes with its NUL. -/
def addTopicToPath (topic fulltopic : Bytes) (depth : ℕ) : Bytes :=
  let separator : Bytes :=
    if 2 < depth ∨ (depth = 2 ∧ topic = [] ∧ 0 < fulltopic.length) then [slash] else []
  (fulltopic ++ separator ++ topic).take (maxTopicLen - 1)

/-! ### Adding -/

/-- The tenant check at the top of `_sub_add_full_topic`.  The `int` count is compared as an
unsigned number. -/
def subscriptionAllowed (s : BrokerSettings) (context : MqttContext) (log : SubsLog) : Bool :=
  !s.multiTenantModeEnabled || context.dxlFlags &&& dxlFlagOps != 0 ||
    s.tenantClientSubscriptionLimit == 0 ||
    UInt32.ofInt (log.contextCount context) < s.tenantClientSubscriptionLimit

/-- A second subscription of one client changes the QoS of its leaf. -/
def updateQos (id : Bytes) (qos : ℕ) : List Subleaf → List Subleaf
  | [] => []
  | leaf :: subs =>
      if leaf.context.id = id then { leaf with qos := qos } :: subs
      else leaf :: updateQos id qos subs

/-- The end of `_sub_add_full_topic`, where all tokens are used up. -/
def addLeaf (context : MqttContext) (qos : ℕ) (n : Subhier) (fulltopic : Bytes) (log : SubsLog) :
    ℤ × Subhier × SubsLog :=
  if n.subs.any (fun leaf => leaf.context.id == context.id) then
    (-1, { n with subs := updateQos context.id qos n.subs }, log)
  else
    let firstLeaf := n.subs.all fun leaf => leaf.context.isBridge
    let log := (log.addSubscription 1).addContextCount context 1
    let log := if firstLeaf && !context.isBridge then log.notify (.added fulltopic) else log
    (0, { n with subs := n.subs ++ [⟨context, qos⟩] }, log)

/-- `_sub_add_full_topic`. -/
def subAdd (s : BrokerSettings) (context : MqttContext) (qos : ℕ) (n : Subhier) :
    List Bytes → Bytes → ℕ → SubsLog → ℤ × Subhier × SubsLog
  | [], fulltopic, depth, log =>
      if !subscriptionAllowed s context log then (1, n, log)
      else addLeaf context qos n (addTopicToPath n.topic fulltopic depth) log
  | token :: tokens, fulltopic, depth, log =>
      if !subscriptionAllowed s context log then (1, n, log)
      else
        let fulltopic := addTopicToPath n.topic fulltopic depth
        match n.hashFind token with
        | some child =>
            let (rc, child, log) := subAdd s context qos child tokens fulltopic (depth + 1) log
            (rc, n.setChild child, log)
        | none =>
            let branch : Subhier := { addr := n.freshAddr, topic := token }
            let (rc, child, log) := subAdd s context qos branch tokens fulltopic (depth + 1) log
            (rc, (n.addChild branch).setChild child, log)

/-! ### Removing -/

/-- `_is_topic_removed`. -/
def isTopicRemoved (context : MqttContext) (subs : List Subleaf) : Bool :=
  !context.isBridge && subs.all fun leaf => leaf.context.isBridge

/-- The end of `_sub_remove_full_topic`, where all tokens are used up. -/
def removeLeaf (context : MqttContext) (n : Subhier) (fulltopic : Bytes) (log : SubsLog) :
    Subhier × SubsLog :=
  if n.subs.any (fun leaf => leaf.context == context) then
    let subs := n.subs.eraseP fun leaf => leaf.context == context
    let log := (log.addSubscription (-1)).addContextCount context (-1)
    let log := if isTopicRemoved context subs then log.notify (.removed fulltopic) else log
    ({ n with subs := subs }, log)
  else (n, log)

/-- `_sub_remove_full_topic`: the children are searched along their list. -/
def subRemove (context : MqttContext) (n : Subhier) :
    List Bytes → Bytes → ℕ → SubsLog → Subhier × SubsLog
  | [], fulltopic, depth, log =>
      removeLeaf context n (addTopicToPath n.topic fulltopic depth) log
  | token :: tokens, fulltopic, depth, log =>
      let fulltopic := addTopicToPath n.topic fulltopic depth
      match n.children.find? fun c => c.topic == token with
      | none => (n, log)
      | some branch =>
          let (child, log) := subRemove context branch tokens fulltopic (depth + 1) log
          (n.putChild child, log)

/-! ### Cleaning -/

/-- The leaf loop of `_subs_clean_session_full_topic`; `kept` are the leaves passed so far. -/
def cleanLeaves (cleanSubs : MqttContext → Bool) (fulltopic : Bytes) (kept : List Subleaf) :
    List Subleaf → SubsLog → List Subleaf × SubsLog
  | [], log => (kept, log)
  | leaf :: subs, log =>
      if cleanSubs leaf.context then
        let log := log.addSubscription (-1)
        let log := if isTopicRemoved leaf.context (kept ++ subs) then
          log.notify (.removed fulltopic) else log
        cleanLeaves cleanSubs fulltopic kept subs log
      else cleanLeaves cleanSubs fulltopic (kept ++ [leaf]) subs log

mutual

/-- `_subs_clean_session_full_topic`. -/
def subsCleanSession (cleanSubs : MqttContext → Bool) : Subhier → Bytes → ℕ → SubsLog →
    Subhier × SubsLog
  | ⟨addr, topic, subs, retained, children, hashTable, poundCount, plusCount⟩, fulltopic, depth,
      log =>
      let fulltopic := addTopicToPath topic fulltopic depth
      let (subs, log) := cleanLeaves cleanSubs fulltopic [] subs log
      subsCleanChildren cleanSubs children
        ⟨addr, topic, subs, retained, children, hashTable, poundCount, plusCount⟩ fulltopic depth log

/-- The child loop of `_subs_clean_session_full_topic`. -/
def subsCleanChildren (cleanSubs : MqttContext → Bool) : List Subhier → Subhier → Bytes → ℕ →
    SubsLog → Subhier × SubsLog
  | [], root, _, _, log => (root, log)
  | child :: children, root, fulltopic, depth, log =>
      let (child, log) := subsCleanSession cleanSubs child fulltopic (depth + 1) log
      subsCleanChildren cleanSubs children (root.putChild child) fulltopic depth log

end

/-! ### Searching -/

/-- The leaves of a node that `_subs_process` inserts for: all but the bridge a message came
from. -/
def subsProcess (sourceId : Bytes) (n : Subhier) : List Subleaf :=
  n.subs.filter fun leaf => !(leaf.context.isBridge && leaf.context.id == sourceId)

/-- A `#` below the node: the topic matches here, whatever follows. -/
def poundLeaves (sourceId : Bytes) (n : Subhier) : List Subleaf :=
  if n.poundCount = 0 then []
  else (n.hashFind poundLevel).elim [] fun branch =>
    if branch.children.isEmpty then subsProcess sourceId branch else []

/-- `_sub_search`: the leaves it inserts for, in order. -/
def subSearch (sourceId : Bytes) (n : Subhier) : List Bytes → List Subleaf
  | [] => poundLeaves sourceId n
  | token :: tokens =>
      let found (branch : Subhier) : List Subleaf :=
        subSearch sourceId branch tokens ++
          if tokens.isEmpty then subsProcess sourceId branch else []
      poundLeaves sourceId n ++
        ((if n.plusCount = 0 then [] else (n.hashFind plusLevel).elim [] found) ++
        (n.hashFind token).elim [] found)

/-! ### The database -/

/-- The subscriptions of `struct mosquitto_db`. -/
structure SubsDb where
  subs : Subhier
  log : SubsLog := {}

/-- The tree made by `mqtt3_db_open`. -/
def SubsDb.init : SubsDb where
  subs := {
    addr := 0
    topic := []
    children := [{ addr := 1, topic := [] }, { addr := 2, topic := lit "$SYS" }]
    hashTable := [([], 1), (lit "$SYS", 2)] }

/-- The end of `mqtt3_sub_add`, for the first-level node that was found or made. -/
def subAddAt (s : BrokerSettings) (log : SubsLog) (context : MqttContext) (sub : Bytes) (qos : ℕ)
    (root child : Subhier) : ℤ × SubsDb :=
  let (rc, child, log) := subAdd s context qos child (subTopicTokenise sub) [] 0 log
  (if rc = -1 then 0 else rc, { subs := root.setChild child, log := log })

/-- `mqtt3_sub_add`. -/
def mqtt3SubAdd (s : BrokerSettings) (db : SubsDb) (context : MqttContext) (sub : Bytes)
    (qos : ℕ) : ℤ × SubsDb :=
  match db.subs.hashFind (rootToken sub) with
  | some child => subAddAt s db.log context sub qos db.subs child
  | none =>
      let child : Subhier := { addr := db.subs.freshAddr, topic := rootToken sub }
      subAddAt s db.log context sub qos (db.subs.pushChild child) child

/-- `mqtt3_sub_remove`: first-level nodes stay. -/
def mqtt3SubRemove (db : SubsDb) (context : MqttContext) (sub : Bytes) : SubsDb :=
  match db.subs.hashFind (rootToken sub) with
  | none => db
  | some child =>
      let (child, log) := subRemove context child (subTopicTokenise sub) [] 0 db.log
      { subs := db.subs.setChild child, log := log }

/-- `mqtt3_subs_clean_session`: the contexts with `clean_subs` lose all their subscriptions. -/
def mqtt3SubsCleanSession (db : SubsDb) (cleanSubs : MqttContext → Bool) : SubsDb :=
  db.subs.children.foldl (fun db child =>
    let (child, log) := subsCleanSession cleanSubs child [] 0 db.log
    { subs := db.subs.setChild child, log := log }) db

/-- A call of `mqtt3_db_message_insert`. -/
structure MessageInsert where
  context : MqttContext
  qos : ℕ
  retain : Bool

/-- The insert that `_subs_process` attempts for a leaf (the message is not to be retained). -/
def insertFor (upgradeOutgoingQos : Bool) (qos : ℕ) (leaf : Subleaf) : MessageInsert where
  context := leaf.context
  qos := if upgradeOutgoingQos then leaf.qos else min qos leaf.qos
  retain := false

/-- `mqtt3_db_messages_queue`: the inserts attempted for a message. -/
def mqtt3DbMessagesQueue (upgradeOutgoingQos : Bool) (db : SubsDb) (sourceId topic : Bytes)
    (qos : ℕ) : List MessageInsert :=
  match db.subs.hashFind (rootToken topic) with
  | none => []
  | some child =>
      (subSearch sourceId child (subTopicTokenise topic)).map (insertFor upgradeOutgoingQos qos)

end DxlBroker
