import Mathlib.Algebra.Group.Nat.Defs
import DxlBroker.Mqtt.Topic

/-!
# The messages of a connection

Every connection keeps a list of the messages on their way to its client.  Those without an
acknowledgement leave the list when they are sent.  The others stay until the client acknowledges
them; only so many of them may be in flight, and the rest waits in the list.  A broker takes no
messages from clients that it would have to acknowledge, so there are only messages to clients.
-/

namespace DxlBroker

/-- `mosquitto_msg_state`, the states of a message to a client. -/
inductive MsgState
  | publishQos0
  | publishQos1
  | waitForPuback
  | publishQos2
  | waitForPubrec
  | resendPubrel
  | waitForPubcomp
  | queued
  deriving DecidableEq

/-- The state in which a message is sent, for its quality of service, which is two at most. -/
def publishState : ℕ → MsgState
  | 0 => .publishQos0
  | 1 => .publishQos1
  | _ => .publishQos2

/-- `mosquitto_client_msg`; the stored message is given by its `db_id`. -/
structure ClientMessage where
  store : ℕ
  mid : ℕ
  qos : ℕ
  state : MsgState
  timestamp : ℤ := 0
  dup : Bool := false
  retain : Bool := false
  clientMessage : Bool := false
  deriving DecidableEq

/-- What a context keeps of its messages. -/
structure MsgQueue where
  msgs : List ClientMessage := []
  msgCount : ℤ := 0
  msgCount12 : ℤ := 0
  lastMid : ℕ := 0
  isDropping : Bool := false

/-- The limits of the queues; zero stands for none. -/
structure QueueLimits where
  maxInflight : ℕ := 20
  maxQueued : ℕ := 100
  queueQos0Messages : Bool := false

/-- What is sent for a message. -/
inductive QueueSend
  | publish (msg : ClientMessage)
  | pubrel (mid : ℕ)
  deriving DecidableEq

/-- The destination of a message, as it is found when the message is to be inserted. -/
structure InsertConn where
  /-- `IS_CONTEXT_INVALID` -/
  invalid : Bool := false
  /-- A bridge that connects only when there are messages for it. -/
  lazyBridge : Bool := false
  /-- The queue of packets is full, and the message is no exception. -/
  packetQueueExceeded : Bool := false
  /-- `dxl_on_insert_message`: whether the message is inserted, as one for clients or not. -/
  onInsert : Option Bool := some false

namespace ClientMessage

/-- The message needs an acknowledgement. -/
def acked (m : ClientMessage) : Bool := 0 < m.qos

/-- The message is on its way and not acknowledged. -/
def inFlight (m : ClientMessage) : Bool := m.acked && m.state != .queued

/-- A message that waits may be sent. -/
def promote (now : ℤ) (m : ClientMessage) : ClientMessage :=
  if m.state = .queued then { m with state := publishState m.qos, timestamp := now } else m

/-- `mqtt3_db_message_timeout_check` of a message. -/
def retry (threshold now : ℤ) (m : ClientMessage) : ClientMessage :=
  if m.timestamp < threshold then
    match m.state with
    | .waitForPuback => { m with state := .publishQos1, timestamp := now, dup := true }
    | .waitForPubrec => { m with state := .publishQos2, timestamp := now, dup := true }
    | .waitForPubcomp => { m with state := .resendPubrel, timestamp := now, dup := true }
    | _ => m
  else m

/-- What a new connection makes of a message that does not wait. -/
def reset (m : ClientMessage) : ClientMessage :=
  if m.state = .queued then m
  else if m.qos = 2 ∧ m.state = .waitForPubcomp then { m with state := .resendPubrel }
  else { m with state := publishState m.qos }

end ClientMessage

namespace MsgQueue

section

variable (limits : QueueLimits) (now : ℤ)

/-- `_mosquitto_mid_generate`: sixteen bits, without zero. -/
def midGenerate (q : MsgQueue) : ℕ × MsgQueue :=
  let mid := (q.lastMid + 1) % 2 ^ 16
  let mid := if mid = 0 then 1 else mid
  (mid, { q with lastMid := mid })

/-- The state of a message that is inserted, and the code; none if the message is dropped because the
queue is full. -/
def insertState (q : MsgQueue) (invalid : Bool) (qos : ℕ) : Option (MsgState × ℕ) :=
  if invalid then
    if 0 < limits.maxQueued ∧ limits.maxQueued ≤ q.msgCount12 then none else some (.queued, 0)
  else if qos = 0 ∨ limits.maxInflight = 0 ∨ q.msgCount12 < limits.maxInflight then
    some (publishState qos, 0)
  else if limits.maxQueued = 0 ∨ q.msgCount12 - limits.maxInflight < limits.maxQueued then
    some (.queued, 2)
  else none

/-- A message is put behind the others. -/
def push (m : ClientMessage) (q : MsgQueue) : MsgQueue :=
  { q with
    msgs := q.msgs ++ [m]
    msgCount := q.msgCount + 1
    msgCount12 := if 0 < m.qos then q.msgCount12 + 1 else q.msgCount12 }

/-- `mqtt3_db_message_insert`: the code, the queue, and the message that was inserted. -/
def messageInsert (conn : InsertConn) (mid qos : ℕ) (retain : Bool) (store : ℕ) (q : MsgQueue) :
    ℕ × MsgQueue × Option ClientMessage :=
  if conn.invalid && qos == 0 && !limits.queueQos0Messages && !conn.lazyBridge then (2, q, none)
  else if !conn.invalid && conn.packetQueueExceeded then (2, q, none)
  else
    match q.insertState limits conn.invalid qos with
    | none => (2, { q with isDropping := true }, none)
    | some (state, rc) =>
        match conn.onInsert with
        | none => (0, q, none)
        | some clientMessage =>
            let m : ClientMessage := {
              store := store, mid := mid, qos := qos, state := state, timestamp := now
              retain := retain, clientMessage := clientMessage }
            (rc, q.push m, some m)

/-- The insert that `_subs_process` makes: only messages with an acknowledgement get an identifier. -/
def subsInsert (conn : InsertConn) (qos : ℕ) (retain : Bool) (store : ℕ) (q : MsgQueue) :
    ℕ × MsgQueue × Option ClientMessage :=
  if qos = 0 then q.messageInsert limits now conn 0 qos retain store
  else
    let res := q.midGenerate
    res.2.messageInsert limits now conn res.1 qos retain store

/-- What a loop over the list keeps, and what it removes. -/
def without (q : MsgQueue) (kept removed : List ClientMessage) : MsgQueue :=
  { q with
    msgs := kept
    msgCount := q.msgCount - removed.length
    msgCount12 := q.msgCount12 - removed.countP ClientMessage.acked }

/-- The loop of `mqtt3_db_message_delete`, with `msg_index` and `deleted`: what is kept and what is
removed.  A message that waits moves up when its place is one of those in flight.  Without an
identifier it is the loop of `mqtt3_db_message_release`, which finds no message of its direction. -/
def deleteLoop (mid : Option ℕ) : ℕ → Bool → List ClientMessage → List ClientMessage × List ClientMessage
  | _, _, [] => ([], [])
  | index, deleted, m :: msgs =>
      let m := if index + 1 ≤ limits.maxInflight then m.promote now else m
      if mid = some m.mid then
        if limits.maxInflight < index then (msgs, [m])
        else
          let rest := deleteLoop mid index true msgs
          (rest.1, m :: rest.2)
      else if limits.maxInflight < index + 1 ∧ deleted then (m :: msgs, [])
      else
        let rest := deleteLoop mid (index + 1) deleted msgs
        (m :: rest.1, rest.2)

/-- `mqtt3_db_message_delete`: the queue, and what is removed. -/
def messageDelete (mid : ℕ) (q : MsgQueue) : MsgQueue × List ClientMessage :=
  let res := deleteLoop limits now (some mid) 0 false q.msgs
  (q.without res.1 res.2, res.2)

/-- `mqtt3_db_message_release` -/
def messageRelease (q : MsgQueue) : MsgQueue :=
  { q with msgs := (deleteLoop limits now none 0 false q.msgs).1 }

/-- The loop of `mqtt3_db_message_update`: the first message with the identifier changes. -/
def updateFirst (mid : ℕ) (state : MsgState) : List ClientMessage → List ClientMessage
  | [] => []
  | m :: msgs =>
      if m.mid = mid then { m with state := state, timestamp := now } :: msgs
      else m :: updateFirst mid state msgs

/-- `mqtt3_db_message_update` -/
def messageUpdate (mid : ℕ) (state : MsgState) (q : MsgQueue) : ℕ × MsgQueue :=
  if q.msgs.any fun m => m.mid == mid then
    (0, { q with msgs := updateFirst now mid state q.msgs })
  else (1, q)

/-- `mqtt3_db_message_timeout_check` -/
def timeoutCheck (threshold : ℤ) (q : MsgQueue) : MsgQueue :=
  { q with msgs := q.msgs.map (ClientMessage.retry threshold now) }

/-- The second loop of `mqtt3_db_message_reconnect_reset`; the times are not set. -/
def resetFirst (q : MsgQueue) : List ClientMessage :=
  let count := if limits.maxInflight = 0 then q.msgs.length else limits.maxInflight
  (q.msgs.take count).map (fun m => m.promote m.timestamp) ++ q.msgs.drop count

/-- `mqtt3_db_message_reconnect_reset` -/
def reconnectReset (q : MsgQueue) : MsgQueue :=
  let q := { q with
    msgs := q.msgs.map ClientMessage.reset
    msgCount := q.msgs.length
    msgCount12 := q.msgs.countP ClientMessage.acked }
  { q with msgs := q.resetFirst limits }

/-- `mqtt3_db_messages_delete`: the queue, and what is removed. -/
def messagesDelete (q : MsgQueue) : MsgQueue × List ClientMessage :=
  ({ q with msgs := [], msgCount := 0, msgCount12 := 0 }, q.msgs)

end

/-- What the writing of the messages comes to: the code, the messages that are kept and those that
are removed, and what was sent. -/
structure WriteResult where
  rc : ℕ := 0
  kept : List ClientMessage
  removed : List ClientMessage := []
  sent : List QueueSend := []

namespace WriteResult

/-- A message is kept. -/
def keep (m : ClientMessage) (sent : List QueueSend) (r : WriteResult) : WriteResult :=
  { r with kept := m :: r.kept, sent := sent ++ r.sent }

/-- A message is removed, as it is sent. -/
def remove (m : ClientMessage) (r : WriteResult) : WriteResult :=
  { r with removed := m :: r.removed, sent := .publish m :: r.sent }

end WriteResult

/-- The loop of `mqtt3_db_message_write`, with the results of the packets that are sent, which succeed
if no more are given. -/
def writeLoop (now : ℤ) : List ClientMessage → List ℕ → WriteResult
  | [], _ => { kept := [] }
  | m :: msgs, rcs =>
      let rc := rcs.headD 0
      let stop : WriteResult := { rc := rc, kept := m :: msgs }
      match m.state with
      | .publishQos0 => if rc = 0 then (writeLoop now msgs rcs.tail).remove m else stop
      | .publishQos1 =>
          if rc = 0 then (writeLoop now msgs rcs.tail).keep
            { m with timestamp := now, dup := true, state := .waitForPuback } [.publish m]
          else stop
      | .publishQos2 =>
          if rc = 0 then (writeLoop now msgs rcs.tail).keep
            { m with timestamp := now, dup := true, state := .waitForPubrec } [.publish m]
          else stop
      | .resendPubrel =>
          if rc = 0 then (writeLoop now msgs rcs.tail).keep
            { m with state := .waitForPubcomp } [.pubrel m.mid]
          else stop
      | _ => (writeLoop now msgs rcs).keep m []

/-- `mqtt3_db_message_write`, of a connection that is valid: the code, the queue, what is removed, and
what was sent. -/
def messageWrite (now : ℤ) (rcs : List ℕ) (q : MsgQueue) :
    ℕ × MsgQueue × List ClientMessage × List QueueSend :=
  let res := writeLoop now q.msgs rcs
  (res.rc, q.without res.kept res.removed, res.removed, res.sent)

/-! ### What happens to a queue -/

/-- What happens to a queue: messages come, the client answers, and the loop writes. -/
inductive Op
  | deliver (conn : InsertConn) (qos : ℕ) (retain : Bool) (store : ℕ)
  /-- PUBACK or PUBCOMP -/
  | pubackcomp (mid : ℕ)
  | pubrec (mid : ℕ)
  | pubrel
  | write (rcs : List ℕ)
  | timeout (threshold : ℤ)
  | reconnect
  | clear

/-- A step of a queue: the queue, the messages that were removed and inserted, and what was sent. -/
structure Stepped where
  queue : MsgQueue
  released : List ClientMessage := []
  sent : List QueueSend := []
  inserted : List ClientMessage := []

/-- A step at a time.  An acknowledgement without an identifier is ignored, unlike a PUBREC, which is
answered with a PUBREL if its message is found. -/
def step (limits : QueueLimits) (now : ℤ) (q : MsgQueue) : Op → Stepped
  | .deliver conn qos retain store =>
      let res := q.subsInsert limits now conn qos retain store
      { queue := res.2.1, inserted := res.2.2.toList }
  | .pubackcomp mid =>
      if mid = 0 then { queue := q }
      else
        let res := q.messageDelete limits now mid
        { queue := res.1, released := res.2 }
  | .pubrec mid =>
      let res := q.messageUpdate now mid .waitForPubcomp
      { queue := res.2, sent := if res.1 = 0 then [.pubrel mid] else [] }
  | .pubrel => { queue := q.messageRelease limits now }
  | .write rcs =>
      let res := q.messageWrite now rcs
      { queue := res.2.1, released := res.2.2.1, sent := res.2.2.2 }
  | .timeout threshold => { queue := q.timeoutCheck now threshold }
  | .reconnect => { queue := q.reconnectReset limits }
  | .clear =>
      let res := q.messagesDelete
      { queue := res.1, released := res.2 }

end MsgQueue

end DxlBroker
