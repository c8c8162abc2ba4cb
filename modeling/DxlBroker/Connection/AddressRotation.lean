import DxlBroker.Connection.BrokerLoop
import DxlBroker.Lib.WorkQueue

/-!
# The rotation of the bridge addresses

The maintenance loop looks after the bridge that the broker starts automatically.  While the context
has no socket, `restart_bridge_connection` takes the next address, has it checked by a worker thread
and tries to connect once a check of the current address has succeeded.  While it has one,
`checkPrimaryBridge` has the primary addresses pinged by a second worker, and after a successful
ping closes the socket and steps back, so that the address is the next to be taken.

A state is a `Rotation`; the actions are the ticks of the loop, the steps of the two workers and the
loss of the connection, in any order.  The workers take up work only when there is some.  Reads of an
address outside the array have no result.  The history of a run is the list of its events, the latest
first.
-/

namespace DxlBroker

open Bytes WorkQueue

namespace Bridge

/-- The address after the current one, in a circle. -/
def nextAddress (b : Bridge) : ℕ :=
  if b.curAddress + 1 = b.addressCount then 0 else b.curAddress + 1

/-- The address before the current primary address: the one after it is taken next. -/
def beforePrimary (b : Bridge) : ℕ :=
  if b.curPrimaryAddress = 0 then b.addressCount - 1 else b.curPrimaryAddress - 1

/-- The primary address after the current one. -/
def nextPrimary (b : Bridge) : ℕ :=
  if b.primaryAddressCount ≤ b.curPrimaryAddress + 1 then 0 else b.curPrimaryAddress + 1

end Bridge

/-- `bridge_address`; the port is cut to 16 bits wherever it is used. -/
structure BridgeAddress where
  address : Bytes
  port : UInt16
  deriving DecidableEq

/-- The fields of the bridge and its context that the maintenance loop works on, and the two connection
checkers: of `restart_bridge_connection` and of `checkPrimaryBridge`. -/
structure Rotation where
  bridge : Bridge
  addresses : List BridgeAddress
  restartT : ℤ := 0
  primaryRetry : ℤ := 0
  /-- The context has a socket. -/
  connected : Bool := false
  checks : Worker BridgeAddress Bool := {}
  pings : Worker BridgeAddress Bool := {}

namespace Rotation

/-- What happens to the addresses, with the index that is current at the time. -/
inductive Event
  /-- A check is pushed. -/
  | check (i : ℕ) (a : BridgeAddress)
  /-- The result of a check is taken. -/
  | result (i : ℕ) (a : BridgeAddress) (ok : Bool)
  /-- `mqtt3_bridge_connect` -/
  | connect (i : ℕ) (a : BridgeAddress) (ok : Bool)
  /-- A ping of a primary address is pushed. -/
  | ping (i : ℕ) (a : BridgeAddress)
  /-- The result of a ping is taken. -/
  | pingResult (i : ℕ) (a : BridgeAddress) (ok : Bool)
  deriving DecidableEq

/-! ### The two functions of the loop -/

/-- The first part of `restart_bridge_connection`: when the last address is done with, the next one
becomes the current address. -/
def takeNext (s : Rotation) (now : ℤ) : Rotation :=
  if s.restartT = 0 then
    let bridge := { s.bridge with curAddress := s.bridge.nextAddress }
    { s with
      restartT := 1
      bridge := bridge
      primaryRetry :=
        if bridge.roundRobin = false ∧ bridge.primaryAddressCount ≤ bridge.curAddress then now + 5
        else s.primaryRetry }
  else s

/-- `restart_bridge_connection` for an automatic bridge: `between` are the steps of the worker between
the two reads of the status, `ok` the outcome of a connection attempt. -/
def restartBridgeConnection (s : Rotation) (now : ℤ) (between : List (WorkerStep Bool)) (ok : Bool) :
    Option (Rotation × List Event) :=
  let s := s.takeNext now
  let i := s.bridge.curAddress
  if s.restartT < now then
    match s.checks.getStatus between with
    | (.nothing, checks) =>
        (s.addresses[i]?).map fun a => ({ s with checks := checks.push a }, [.check i a])
    | (.resultsAvailable, checks) =>
        match checks.pop with
        | none => some ({ s with checks := checks }, [])
        | some ((b, success), checks) =>
            (s.addresses[i]?).map fun a =>
              let s := { s with checks := checks, restartT := 0 }
              if a = b then
                if success then
                  ({ s with connected := ok }, [.result i b true, .connect i a ok])
                else (s, [.result i b false])
              -- "not the same as the context broker"
              else (s, [.result i b success])
    | (.working, checks) => some ({ s with checks := checks }, [])
  else some (s, [])

/-- `checkPrimaryBridge` -/
def checkPrimaryBridge (s : Rotation) (now : ℤ) (between : List (WorkerStep Bool)) :
    Option (Rotation × List Event) :=
  let p := s.bridge.curPrimaryAddress
  if s.bridge.roundRobin = false ∧ s.bridge.primaryAddressCount ≤ s.bridge.curAddress ∧
      s.primaryRetry < now then
    match s.pings.getStatus between with
    | (.nothing, pings) =>
        (s.addresses[p]?).map fun a => ({ s with pings := pings.push a }, [.ping p a])
    | (.resultsAvailable, pings) =>
        match pings.pop with
        | none => some ({ s with pings := pings }, [])
        | some ((b, success), pings) =>
            (s.addresses[p]?).map fun a =>
              let s := { s with pings := pings }
              if a = b then
                if success then
                  ({ s with
                      connected := false
                      bridge := { s.bridge with curAddress := s.bridge.beforePrimary } },
                    [.pingResult p b true])
                else
                  ({ s with bridge := { s.bridge with curPrimaryAddress := s.bridge.nextPrimary } },
                    [.pingResult p b false])
              else (s, [.pingResult p b success])
    | (.working, pings) => some ({ s with pings := pings }, [])
  else some (s, [])

/-! ### Runs -/

inductive Action
  /-- The turn of the bridge in `maintenance_loop`; `timedOut` says whether
  `_mosquitto_check_keepalive` closes the socket. -/
  | tick (now : ℤ) (timedOut : Bool) (between : List (WorkerStep Bool)) (ok : Bool)
  | checkWorker (x : WorkerStep Bool)
  | pingWorker (x : WorkerStep Bool)
  /-- The connection is lost, or closed elsewhere in the broker. -/
  | drop

def step (s : Rotation) : Action → Option (Rotation × List Event)
  | .tick now timedOut between ok =>
      if s.connected then
        { s with connected := !timedOut }.checkPrimaryBridge now between
      else s.restartBridgeConnection now between ok
  | .checkWorker x => some ({ s with checks := s.checks.step x }, [])
  | .pingWorker x => some ({ s with pings := s.pings.step x }, [])
  | .drop => some ({ s with connected := false }, [])

/-- No check is finished between the two reads of its status. -/
def Untorn (s : Rotation) : Action → Prop
  | .tick _ _ between _ =>
      if s.connected then ¬s.pings.Torn between else ¬s.checks.Torn between
  | _ => True

/-- A bridge as `BridgeConfigurationRunner` makes it. -/
def start (addresses : List BridgeAddress) (initial primaryCount : ℕ) (roundRobin : Bool) :
    Rotation where
  bridge := {
    addressCount := addresses.length
    curAddress := initial
    primaryAddressCount := primaryCount
    roundRobin := roundRobin }
  addresses := addresses

/-- Runs whose actions are all allowed, with their history. -/
inductive Run (allowed : Rotation → Action → Prop) (s₀ : Rotation) : Rotation → List Event → Prop
  | start : Run allowed s₀ s₀ []
  | step {s s' : Rotation} {h es : List Event} (hrun : Run allowed s₀ s h) (a : Action)
      (hallowed : allowed s a) (hstep : s.step a = some (s', es)) :
      Run allowed s₀ s' (es.reverse ++ h)

/-! ### The history -/

def Event.isCheck : Event → Bool
  | .check _ _ => true
  | _ => false

/-- What happened since the last check was pushed. -/
def sinceCheck (h : List Event) : List Event := h.takeWhile fun e => !e.isCheck

/-- The last check. -/
def lastCheck : List Event → Option (ℕ × BridgeAddress)
  | [] => none
  | .check i a :: _ => some (i, a)
  | _ :: h => lastCheck h

/-- The last ping. -/
def lastPing : List Event → Option (ℕ × BridgeAddress)
  | [] => none
  | .ping i a :: _ => some (i, a)
  | _ :: h => lastPing h

/-! ### What a tick can do -/

/-- The outcomes of `restart_bridge_connection` once the address is taken. -/
inductive Restarted (s : Rotation) (torn : Prop) : Rotation → List Event → Prop
  | wait (checks : Worker BridgeAddress Bool) (hsame : checks.pending = s.checks.pending) :
      Restarted s torn { s with checks := checks } []
  | check (checks : Worker BridgeAddress Bool) (a : BridgeAddress)
      (hsame : checks.pending = s.checks.pending) (ha : s.addresses[s.bridge.curAddress]? = some a)
      (htorn : s.checks.pending ≠ [] → torn) :
      Restarted s torn { s with checks := checks.push a } [.check s.bridge.curAddress a]
  | refuse (checks : Worker BridgeAddress Bool) (b : BridgeAddress) (success : Bool)
      (hpop : s.checks.pending = b :: checks.pending) :
      Restarted s torn { s with checks := checks, restartT := 0 }
        [.result s.bridge.curAddress b success]
  | connect (checks : Worker BridgeAddress Bool) (b : BridgeAddress) (ok : Bool)
      (hpop : s.checks.pending = b :: checks.pending)
      (hb : s.addresses[s.bridge.curAddress]? = some b) :
      Restarted s torn { s with checks := checks, restartT := 0, connected := ok }
        [.result s.bridge.curAddress b true, .connect s.bridge.curAddress b ok]

theorem restarted (s : Rotation) (now : ℤ) (between : List (WorkerStep Bool)) (ok : Bool)
    (hi : (s.takeNext now).bridge.curAddress < (s.takeNext now).addresses.length) :
    ∃ s' es, s.restartBridgeConnection now between ok = some (s', es) ∧
      Restarted (s.takeNext now) ((s.takeNext now).checks.Torn between) s' es := by
  unfold restartBridgeConnection
  simp only
  generalize s.takeNext now = t at hi ⊢
  have ha : t.addresses[t.bridge.curAddress]? = some (t.addresses[t.bridge.curAddress]) :=
    List.getElem?_eq_getElem hi
  split_ifs with hnow
  · have hpending := t.checks.pending_getStatus between
    split
    · rename_i checks hstatus
      rw [hstatus] at hpending
      rw [ha]
      exact ⟨_, _, rfl, .check checks _ hpending ha (Worker.nothing_iff_torn hstatus).mp⟩
    · rename_i checks hstatus
      rw [hstatus] at hpending
      obtain ⟨⟨b, success⟩, checks', hpop⟩ := Worker.pop_of_resultsAvailable hstatus
      have hcons := hpending.symm.trans (Worker.pending_pop hpop)
      simp only [hpop, ha, Option.map_some]
      split_ifs with hsame hsuccess
      · subst hsame
        exact ⟨_, _, rfl, .connect checks' _ ok hcons ha⟩
      · exact ⟨_, _, rfl, .refuse checks' b false hcons⟩
      · exact ⟨_, _, rfl, .refuse checks' b success hcons⟩
    · rename_i checks hstatus
      rw [hstatus] at hpending
      exact ⟨_, _, rfl, .wait checks hpending⟩
  · exact ⟨_, _, rfl, .wait t.checks rfl⟩

/-- The outcomes of `checkPrimaryBridge`. -/
inductive Pinged (s : Rotation) (torn : Prop) : Rotation → List Event → Prop
  | wait (pings : Worker BridgeAddress Bool) (hsame : pings.pending = s.pings.pending) :
      Pinged s torn { s with pings := pings } []
  | ping (pings : Worker BridgeAddress Bool) (a : BridgeAddress)
      (hsame : pings.pending = s.pings.pending)
      (ha : s.addresses[s.bridge.curPrimaryAddress]? = some a)
      (htorn : s.pings.pending ≠ [] → torn) :
      Pinged s torn { s with pings := pings.push a } [.ping s.bridge.curPrimaryAddress a]
  | success (pings : Worker BridgeAddress Bool) (b : BridgeAddress)
      (hcond : s.bridge.roundRobin = false ∧ s.bridge.primaryAddressCount ≤ s.bridge.curAddress)
      (hpop : s.pings.pending = b :: pings.pending)
      (hb : s.addresses[s.bridge.curPrimaryAddress]? = some b) :
      Pinged s torn { s with
        pings := pings
        connected := false
        bridge := { s.bridge with curAddress := s.bridge.beforePrimary } }
        [.pingResult s.bridge.curPrimaryAddress b true]
  | failure (pings : Worker BridgeAddress Bool) (b : BridgeAddress)
      (hcond : s.bridge.roundRobin = false ∧ s.bridge.primaryAddressCount ≤ s.bridge.curAddress)
      (hpop : s.pings.pending = b :: pings.pending)
      (hb : s.addresses[s.bridge.curPrimaryAddress]? = some b) :
      Pinged s torn { s with
        pings := pings
        bridge := { s.bridge with curPrimaryAddress := s.bridge.nextPrimary } }
        [.pingResult s.bridge.curPrimaryAddress b false]
  | other (pings : Worker BridgeAddress Bool) (b : BridgeAddress) (success : Bool)
      (hpop : s.pings.pending = b :: pings.pending)
      (hb : s.addresses[s.bridge.curPrimaryAddress]? ≠ some b) :
      Pinged s torn { s with pings := pings } [.pingResult s.bridge.curPrimaryAddress b success]

theorem pinged (s : Rotation) (now : ℤ) (between : List (WorkerStep Bool))
    (hp : s.bridge.primaryAddressCount ≤ s.bridge.curAddress →
      s.bridge.curPrimaryAddress < s.addresses.length) :
    ∃ s' es, s.checkPrimaryBridge now between = some (s', es) ∧
      Pinged s (s.pings.Torn between) s' es := by
  unfold checkPrimaryBridge
  simp only
  by_cases hcond : s.bridge.roundRobin = false ∧ s.bridge.primaryAddressCount ≤ s.bridge.curAddress ∧
      s.primaryRetry < now
  · rw [if_pos hcond]
    have ha := List.getElem?_eq_getElem (hp hcond.2.1)
    have hpending := s.pings.pending_getStatus between
    split
    · rename_i pings hstatus
      rw [hstatus] at hpending
      rw [ha]
      exact ⟨_, _, rfl, .ping pings _ hpending ha (Worker.nothing_iff_torn hstatus).mp⟩
    · rename_i pings hstatus
      rw [hstatus] at hpending
      obtain ⟨⟨b, success⟩, pings', hpop⟩ := Worker.pop_of_resultsAvailable hstatus
      have hcons := hpending.symm.trans (Worker.pending_pop hpop)
      simp only [hpop, ha, Option.map_some]
      split_ifs with hsame hsuccess
      · subst hsame
        exact ⟨_, _, rfl, .success pings' _ ⟨hcond.1, hcond.2.1⟩ hcons ha⟩
      · subst hsame
        exact ⟨_, _, rfl, .failure pings' _ ⟨hcond.1, hcond.2.1⟩ hcons ha⟩
      · refine ⟨_, _, rfl, .other pings' b success hcons ?_⟩
        rw [ha]
        simpa using hsame
    · rename_i pings hstatus
      rw [hstatus] at hpending
      exact ⟨_, _, rfl, .wait pings hpending⟩
  · rw [if_neg hcond]
    exact ⟨_, _, rfl, .wait s.pings rfl⟩

/-! ### The broker's loop -/

/-- The context at `i` in the broker's loop is that of the bridge. -/
def Tracks (β : MqttBroker) (i : ℕ) (s : Rotation) : Prop :=
  ∃ c, β.contexts.lookup i = some c ∧ c.bridge = some s.bridge ∧ c.sock = s.connected ∧
    c.wsi = false

section

variable {settings : BrokerSettings} {env : RegistryEnv} {β : MqttBroker} {i : ℕ} {s s' : Rotation}
  {es : List Event} {torn : Prop}

theorem Tracks.setContext (c : Context) (hbridge : c.bridge = some s.bridge)
    (hsock : c.sock = s.connected) (hwsi : c.wsi = false) : Tracks (β.setContext i c) i s :=
  ⟨c, AList.lookup_insert _, hbridge, hsock, hwsi⟩

/-- `restart_bridge_connection` is a step of the loop for some choice of a connection attempt. -/
theorem Tracks.restarted (hβ : Tracks β i s) (hconn : s.connected = false) (now : ℤ)
    (hr : Restarted (s.takeNext now) torn s' es) :
    ∃ connect, Tracks (β.restartBridge i (decide (s.restartT = 0)) connect) i s' := by
  obtain ⟨c, hc, hbridge, hsock, hwsi⟩ := hβ
  have htaken : (s.takeNext now).connected = false ∧ (s.takeNext now).bridge =
      if s.restartT = 0 then { s.bridge with curAddress := s.bridge.nextAddress }
      else s.bridge := by
    unfold takeNext
    split_ifs
    · exact ⟨hconn, rfl⟩
    · exact ⟨hconn, rfl⟩
  have hstay : s'.bridge = (s.takeNext now).bridge := by
    cases hr <;> rfl
  -- The loop only knows whether a connection was tried, and with what outcome.
  obtain ⟨connect, hsock'⟩ : ∃ connect : Option Bool, s'.connected = connect.getD false := by
    cases hr with
    | connect checks b ok hpop hb => exact ⟨some ok, rfl⟩
    | _ => exact ⟨none, htaken.1⟩
  refine ⟨connect, ?_⟩
  unfold MqttBroker.restartBridge
  simp only [hc]
  generalize hd : (if decide (s.restartT = 0) = true then _ else c) = d
  have hd' : d.bridge = some s'.bridge ∧ d.sock = false ∧ d.wsi = false := by
    subst hd
    rw [hstay, htaken.2]
    by_cases h0 : s.restartT = 0
    · simp [h0, hbridge, hsock, hconn, hwsi, Bridge.nextAddress]
    · simp [h0, hbridge, hsock, hconn, hwsi]
  cases connect with
  | none => exact .setContext d hd'.1 (hd'.2.1.trans hsock'.symm) hd'.2.2
  | some ok => exact .setContext _ hd'.1 hsock'.symm hd'.2.2

/-- The maintenance of a connected bridge is a step of the loop for some outcome of a ping. -/
theorem Tracks.pinged (hβ : Tracks β i s) (hconn : s.connected = true) (timedOut : Bool)
    (hp : Pinged { s with connected := !timedOut } torn s' es) :
    ∃ ping, Tracks (β.maintainBridge settings env i timedOut ping) i s' := by
  obtain ⟨c, hc, hbridge, hsock, hwsi⟩ := hβ
  unfold MqttBroker.maintainBridge
  simp only [hc, hbridge]
  generalize hd : (if timedOut then c.socketClose else c) = d
  have hd' : d.bridge = some s.bridge ∧ d.sock = !timedOut ∧ d.wsi = false := by
    subst hd
    cases timedOut with
    | false => exact ⟨hbridge, hsock.trans hconn, hwsi⟩
    | true => simp [Context.socketClose, hwsi, hbridge]
  generalize hγ : (if d.sock = true then β.setContext i d
    else (β.setContext i d).dxlOnBridgeDisconnected settings env d) = γ
  have hlookup : γ.contexts.lookup i = some d := by
    subst hγ
    split_ifs
    · exact AList.lookup_insert _
    · rw [MqttBroker.dxlOnBridgeDisconnected_frame.1]
      exact AList.lookup_insert _
  have hnone : γ.checkPrimaryBridge settings env i d s.bridge none = γ := by
    unfold MqttBroker.checkPrimaryBridge
    exact ite_self γ
  -- A ping without a result, or of another address, is none for the loop.
  have hidle : ∀ t : Rotation, t.bridge = s.bridge → t.connected = !timedOut →
      ∃ ping, Tracks (γ.checkPrimaryBridge settings env i d s.bridge ping) i t := by
    intro t hbridge' hconn'
    refine ⟨none, d, ?_, hbridge' ▸ hd'.1, hd'.2.1.trans hconn'.symm, hd'.2.2⟩
    rw [hnone]
    exact hlookup
  cases hp with
  | wait pings hsame => exact hidle _ rfl rfl
  | ping pings a hsame ha htorn => exact hidle _ rfl rfl
  | other pings b success hpop hb => exact hidle _ rfl rfl
  | success pings b hcond hpop hb =>
    refine ⟨some true, ?_⟩
    rw [MqttBroker.checkPrimaryBridge, if_pos hcond]
    refine .setContext _ rfl ?_ ?_
    · simp [Context.withBridge, Context.socketClose, hd'.2.2]
    · simp [Context.withBridge, Context.socketClose, hd'.2.2]
  | failure pings b hcond hpop hb =>
    refine ⟨some false, ?_⟩
    rw [MqttBroker.checkPrimaryBridge, if_pos hcond]
    exact .setContext _ rfl hd'.2.1 hd'.2.2

end

/-! ### Every run -/

/-- What holds in every run: the indices are in range, and what the worker was given to check is in the
history. -/
structure Base (addresses : List BridgeAddress) (s : Rotation) (h : List Event) : Prop where
  addresses_eq : s.addresses = addresses
  count : s.bridge.addressCount = addresses.length
  cur : s.bridge.curAddress < addresses.length
  primary : s.bridge.curPrimaryAddress = 0 ∨
    s.bridge.curPrimaryAddress < s.bridge.primaryAddressCount
  checked : ∀ a ∈ s.checks.pending, ∃ j, .check j a ∈ h

/-- A connection attempt is to the current address and comes right after a successful result for it, of
a check that was pushed before. -/
def ConnectLaw (addresses : List BridgeAddress) (h : List Event) (s' : Rotation)
    (es : List Event) : Prop :=
  ∀ i b ok, .connect i b ok ∈ es →
    i = s'.bridge.curAddress ∧ addresses[i]? = some b ∧
      es = [.result i b true, .connect i b ok] ∧ ∃ j, .check j b ∈ h

section

variable {addresses : List BridgeAddress} {s s' : Rotation} {h es : List Event} {torn : Prop}

theorem nextAddress_lt {b : Bridge} (hcur : b.curAddress < b.addressCount) :
    b.nextAddress < b.addressCount := by
  unfold Bridge.nextAddress
  split_ifs <;> omega

theorem nextAddress_eq_mod {b : Bridge} (hcur : b.curAddress < b.addressCount) :
    b.nextAddress = (b.curAddress + 1) % b.addressCount := by
  unfold Bridge.nextAddress
  split_ifs with hend
  · rw [hend, Nat.mod_self]
  · rw [Nat.mod_eq_of_lt (by omega)]

theorem Base.start (initial primaryCount : ℕ) (roundRobin : Bool)
    (hinitial : initial < addresses.length) :
    Base addresses (start addresses initial primaryCount roundRobin) [] where
  addresses_eq := rfl
  count := rfl
  cur := hinitial
  primary := .inl rfl
  checked a ha := by cases ha

theorem takeNext_checks (s : Rotation) (now : ℤ) : (s.takeNext now).checks = s.checks := by
  unfold takeNext
  split_ifs <;> rfl

theorem Base.takeNext (hs : Base addresses s h) (now : ℤ) : Base addresses (s.takeNext now) h := by
  unfold Rotation.takeNext
  split_ifs
  · refine ⟨hs.addresses_eq, hs.count, ?_, hs.primary, hs.checked⟩
    rw [← hs.count]
    exact nextAddress_lt (hs.count ▸ hs.cur)
  · exact hs

theorem Base.primary_lt (hs : Base addresses s h)
    (hle : s.bridge.primaryAddressCount ≤ s.bridge.curAddress) :
    s.bridge.curPrimaryAddress < addresses.length := by
  have hcur := hs.cur
  rcases hs.primary with h0 | hlt
  · omega
  · omega

theorem Base.checked_append (hs : Base addresses s h) (es : List Event) {a : BridgeAddress}
    (ha : a ∈ s.checks.pending) : ∃ j, .check j a ∈ es ++ h := by
  obtain ⟨j, hj⟩ := hs.checked a ha
  exact ⟨j, List.mem_append_right _ hj⟩

/-- What does not touch the bridge. -/
theorem Base.of_bridge (hs : Base addresses s h) (haddresses : s'.addresses = s.addresses)
    (hbridge : s'.bridge = s.bridge)
    (hchecked : ∀ a ∈ s'.checks.pending, ∃ j, .check j a ∈ es.reverse ++ h) :
    Base addresses s' (es.reverse ++ h) where
  addresses_eq := haddresses.trans hs.addresses_eq
  count := hbridge ▸ hs.count
  cur := hbridge ▸ hs.cur
  primary := hbridge ▸ hs.primary
  checked := hchecked

theorem Base.restarted (hs : Base addresses s h) (hr : Restarted s torn s' es) :
    Base addresses s' (es.reverse ++ h) ∧ ConnectLaw addresses h s' es := by
  cases hr with
  | wait checks hsame =>
    refine ⟨hs.of_bridge rfl rfl fun a ha => hs.checked_append _ ?_, by simp [ConnectLaw]⟩
    rw [← hsame]
    exact ha
  | check checks a hsame ha htorn =>
    refine ⟨hs.of_bridge rfl rfl fun b hb => ?_, by simp [ConnectLaw]⟩
    rw [Worker.pending_push, hsame, List.mem_append, List.mem_singleton] at hb
    rcases hb with hold | rfl
    · exact hs.checked_append _ hold
    · exact ⟨s.bridge.curAddress, by simp⟩
  | refuse checks b success hpop =>
    refine ⟨hs.of_bridge rfl rfl fun a ha => hs.checked_append _ ?_, by simp [ConnectLaw]⟩
    rw [hpop]
    exact List.mem_cons_of_mem _ ha
  | connect checks b ok hpop hb =>
    refine ⟨hs.of_bridge rfl rfl fun a ha => hs.checked_append _ ?_, ?_⟩
    · rw [hpop]
      exact List.mem_cons_of_mem _ ha
    · intro i c ok' hmem
      simp only [List.mem_cons, reduceCtorEq, Event.connect.injEq, List.not_mem_nil, or_false,
        false_or] at hmem
      obtain ⟨rfl, rfl, rfl⟩ := hmem
      exact ⟨rfl, hs.addresses_eq ▸ hb, rfl, hs.checked c (by rw [hpop]; exact List.mem_cons_self)⟩

theorem Base.pinged (hs : Base addresses s h) (hp : Pinged s torn s' es) :
    Base addresses s' (es.reverse ++ h) ∧ ConnectLaw addresses h s' es := by
  have hchecked : ∀ a ∈ s.checks.pending, ∃ j, .check j a ∈ es.reverse ++ h :=
    fun a ha => hs.checked_append _ ha
  cases hp with
  | wait pings hsame => exact ⟨hs.of_bridge rfl rfl hchecked, by simp [ConnectLaw]⟩
  | ping pings a hsame ha htorn => exact ⟨hs.of_bridge rfl rfl hchecked, by simp [ConnectLaw]⟩
  | success pings b hcond hpop hb =>
    refine ⟨⟨hs.addresses_eq, hs.count, ?_, hs.primary, hchecked⟩, by simp [ConnectLaw]⟩
    -- Stepping back stays in range, as the primary address that was read is in range.
    have hlt : s.bridge.curPrimaryAddress < addresses.length :=
      hs.addresses_eq ▸ (List.getElem?_eq_some_iff.mp hb).1
    have hcount := hs.count
    simp only [Bridge.beforePrimary]
    split_ifs <;> omega
  | failure pings b hcond hpop hb =>
    refine ⟨⟨hs.addresses_eq, hs.count, hs.cur, ?_, hchecked⟩, by simp [ConnectLaw]⟩
    simp only [Bridge.nextPrimary]
    split_ifs with hend
    · exact .inl rfl
    · exact .inr (by omega)
  | other pings b success hpop hb =>
    exact ⟨hs.of_bridge rfl rfl hchecked, by simp [ConnectLaw]⟩

/-- Every action has a result, which a tick gets from one of the two functions. -/
theorem Base.step (hs : Base addresses s h) (a : Action) :
    ∃ s' es, s.step a = some (s', es) ∧ Base addresses s' (es.reverse ++ h) ∧
      ConnectLaw addresses h s' es := by
  cases a with
  | tick now timedOut between ok =>
    by_cases hconn : s.connected = true
    · have hs1 : Base addresses { s with connected := !timedOut } h :=
        @Base.of_bridge addresses s _ h [] hs rfl rfl hs.checked
      obtain ⟨s', es, hstep, hp⟩ := Rotation.pinged { s with connected := !timedOut } now between
        fun hle => hs1.addresses_eq ▸ hs1.primary_lt hle
      refine ⟨s', es, ?_, hs1.pinged hp⟩
      rw [Rotation.step, if_pos hconn]
      exact hstep
    · have hs1 := hs.takeNext now
      obtain ⟨s', es, hstep, hr⟩ := Rotation.restarted s now between ok
        (hs1.addresses_eq ▸ hs1.cur)
      refine ⟨s', es, ?_, hs1.restarted hr⟩
      rw [Rotation.step, if_neg hconn]
      exact hstep
  | checkWorker x =>
    refine ⟨_, _, rfl, hs.of_bridge rfl rfl fun a ha => hs.checked a ?_, by simp [ConnectLaw]⟩
    rw [← Worker.pending_step s.checks x]
    exact ha
  | pingWorker x =>
    exact ⟨_, _, rfl, hs.of_bridge rfl rfl hs.checked, by simp [ConnectLaw]⟩
  | drop => exact ⟨_, _, rfl, hs.of_bridge rfl rfl hs.checked, by simp [ConnectLaw]⟩

theorem Base.of_run {allowed : Rotation → Action → Prop} {s₀ : Rotation}
    (h₀ : Base addresses s₀ []) (hrun : Run allowed s₀ s h) :
    Base addresses s h := by
  induction hrun with
  | start => exact h₀
  | step hrun a hallowed hstep ih =>
    obtain ⟨s', es, hstep', hbase, -⟩ := ih.step a
    rw [hstep'] at hstep
    cases hstep
    exact hbase

/-- An action is a step of the broker's loop, or does not concern it. -/
theorem Tracks.step {settings : BrokerSettings} {env : RegistryEnv} {β : MqttBroker} {i : ℕ}
    (hβ : Tracks β i s) (hs : Base addresses s h) {a : Action} (hstep : s.step a = some (s', es)) :
    ∃ steps : List MqttBroker.Step, Tracks (steps.foldl (MqttBroker.step settings env) β) i s' := by
  obtain ⟨c, hc, hbridge, hsock, hwsi⟩ := hβ
  have hinvalid : c.invalid = !s.connected := by simp [Context.invalid, hsock, hwsi]
  cases a with
  | tick now timedOut between ok =>
    by_cases hconn : s.connected = true
    · rw [Rotation.step, if_pos hconn] at hstep
      obtain ⟨s1, es1, hstep1, hp⟩ := Rotation.pinged { s with connected := !timedOut } now between
        fun hle => hs.addresses_eq ▸ hs.primary_lt hle
      rw [hstep1] at hstep
      cases hstep
      obtain ⟨ping, htracks⟩ : ∃ ping,
          Tracks (β.maintainBridge settings env i timedOut ping) i s' :=
        Tracks.pinged ⟨c, hc, hbridge, hsock, hwsi⟩ hconn timedOut hp
      refine ⟨[.maintainBridge i timedOut ping], ?_⟩
      simpa [MqttBroker.step, MqttBroker.whenContext, hc, hinvalid, hconn] using htracks
    · have hconn' : s.connected = false := by simpa using hconn
      have hs1 := hs.takeNext now
      rw [Rotation.step, if_neg hconn] at hstep
      obtain ⟨s1, es1, hstep1, hr⟩ := Rotation.restarted s now between ok
        (hs1.addresses_eq ▸ hs1.cur)
      rw [hstep1] at hstep
      cases hstep
      obtain ⟨connect, htracks⟩ := Tracks.restarted ⟨c, hc, hbridge, hsock, hwsi⟩ hconn' now hr
      refine ⟨[.restartBridge i (decide (s.restartT = 0)) connect], ?_⟩
      simpa [MqttBroker.step, MqttBroker.whenContext, hc, hinvalid, hconn', hbridge] using htracks
  | checkWorker x =>
    cases hstep
    exact ⟨[], c, hc, hbridge, hsock, hwsi⟩
  | pingWorker x =>
    cases hstep
    exact ⟨[], c, hc, hbridge, hsock, hwsi⟩
  | drop =>
    cases hstep
    refine ⟨[.forceDisconnect i], c.socketClose, ?_, ?_, ?_, ?_⟩
    · simp [MqttBroker.step, MqttBroker.lookup_contextDisconnect, hc]
    · simp [Context.socketClose, hwsi, hbridge]
    · simp [Context.socketClose, hwsi]
    · simp [Context.socketClose, hwsi]

/-- Every run of the bridge is part of a run of the broker's loop. -/
theorem Tracks.of_run {settings : BrokerSettings} {env : RegistryEnv} {β : MqttBroker} {i : ℕ}
    {allowed : Rotation → Action → Prop} {s₀ : Rotation} (hβ : Tracks β i s₀)
    (h₀ : Base addresses s₀ []) (hrun : Run allowed s₀ s h) :
    ∃ steps : List MqttBroker.Step, Tracks (steps.foldl (MqttBroker.step settings env) β) i s := by
  induction hrun with
  | start => exact ⟨[], hβ⟩
  | step hrun a hallowed hstep ih =>
    obtain ⟨steps, htracks⟩ := ih
    obtain ⟨more, htracks'⟩ := htracks.step (h₀.of_run hrun) hstep
    refine ⟨steps ++ more, ?_⟩
    rw [List.foldl_append]
    exact htracks'

/-! ### Runs without a torn read -/

@[simp] theorem sinceCheck_check (i : ℕ) (a : BridgeAddress) (h : List Event) :
    sinceCheck (.check i a :: h) = [] := rfl

theorem sinceCheck_cons {e : Event} (he : e.isCheck = false) (h : List Event) :
    sinceCheck (e :: h) = e :: sinceCheck h := by
  simp [sinceCheck, he]

@[simp] theorem sinceCheck_result (i : ℕ) (a : BridgeAddress) (ok : Bool) (h : List Event) :
    sinceCheck (.result i a ok :: h) = .result i a ok :: sinceCheck h := rfl

@[simp] theorem sinceCheck_connect (i : ℕ) (a : BridgeAddress) (ok : Bool) (h : List Event) :
    sinceCheck (.connect i a ok :: h) = .connect i a ok :: sinceCheck h := rfl

/-- The index that the next check will be of, once the result of a pending one is taken. -/
def upcoming (s : Rotation) : ℕ :=
  if s.restartT = 0 ∨ s.checks.pending ≠ [] then s.bridge.nextAddress else s.bridge.curAddress

/-- The last check led to a connection, and no ping has succeeded since. -/
structure Quiet (s : Rotation) (h : List Event) : Prop where
  restart : s.restartT = 0
  idle : s.checks.pending = []
  connect : ∃ k c, .connect k c true ∈ sinceCheck h
  noPing : ∀ p a, .pingResult p a true ∉ sinceCheck h

/-- What holds as long as no read of a status was torn: at most one check is pending, of the current
address, and at most one ping, of the current primary address. -/
structure Steady (addresses : List BridgeAddress) (s : Rotation) (h : List Event) : Prop where
  base : Base addresses s h
  restart : s.restartT = 0 ∨ s.restartT = 1
  checks : s.checks.pending = [] ∨
    (s.restartT = 1 ∧ s.connected = false ∧ sinceCheck h = [] ∧
      ∃ a, s.checks.pending = [a] ∧ lastCheck h = some (s.bridge.curAddress, a))
  connected : s.connected = true → Quiet s h
  next : ∀ i a, lastCheck h = some (i, a) → (∀ k c, .connect k c true ∉ sinceCheck h) →
    s.upcoming = (i + 1) % addresses.length
  primary : ∀ p a, .pingResult p a true ∈ sinceCheck h →
    s.upcoming = p ∧ addresses[p]? = some a
  pings : s.pings.pending = [] ∨
    ∃ a, s.pings.pending = [a] ∧ addresses[s.bridge.curPrimaryAddress]? = some a ∧
      lastPing h = some (s.bridge.curPrimaryAddress, a)

/-- A check is of the address after the last one that was checked, unless that check led to a
connection; and of the primary address that was pinged with success since. -/
def CheckLaw (addresses : List BridgeAddress) (h es : List Event) : Prop :=
  ∀ j b, .check j b ∈ es → addresses[j]? = some b ∧
    (∀ i a, lastCheck h = some (i, a) → (∀ k c, .connect k c true ∉ sinceCheck h) →
      j = (i + 1) % addresses.length) ∧
    (∀ p a, .pingResult p a true ∈ sinceCheck h → j = p ∧ b = a)

/-- A result is that of the last check, and a ping result that of the last ping. -/
def ResultLaw (addresses : List BridgeAddress) (h es : List Event) : Prop :=
  (∀ i b ok, .result i b ok ∈ es → lastCheck h = some (i, b)) ∧
    ∀ p b ok, .pingResult p b ok ∈ es → lastPing h = some (p, b) ∧ addresses[p]? = some b

theorem nextAddress_beforePrimary {b : Bridge} (hp : b.curPrimaryAddress < b.addressCount) :
    ({ b with curAddress := b.beforePrimary } : Bridge).nextAddress = b.curPrimaryAddress := by
  unfold Bridge.nextAddress Bridge.beforePrimary
  simp only
  split_ifs <;> omega

theorem CheckLaw.of_no_check (hes : ∀ e ∈ es, e.isCheck = false) : CheckLaw addresses h es := by
  intro j b hmem
  cases hes _ hmem

theorem Steady.start (initial primaryCount : ℕ) (roundRobin : Bool)
    (hinitial : initial < addresses.length) :
    Steady addresses (start addresses initial primaryCount roundRobin) [] where
  base := .start initial primaryCount roundRobin hinitial
  restart := .inl rfl
  checks := .inl rfl
  connected hconn := by cases hconn
  next i a hlast := by cases hlast
  primary p a hmem := by cases hmem
  pings := .inl rfl

/-- Taking the next address does not change which one is checked next. -/
theorem Steady.takeNext (hs : Steady addresses s h) (hconn : s.connected = false) (now : ℤ) :
    Steady addresses (s.takeNext now) h ∧ (s.takeNext now).restartT = 1 ∧
      (s.takeNext now).connected = false := by
  have hbase := hs.base.takeNext now
  by_cases h0 : s.restartT = 0
  · have hidle : s.checks.pending = [] := by
      rcases hs.checks with hnil | ⟨h1, -⟩
      · exact hnil
      · rw [h0] at h1
        cases h1
    -- The index moves on now, and the check that follows does not move it again.
    have hup : (s.takeNext now).upcoming = s.upcoming := by
      have hchecks := takeNext_checks s now
      simp only [upcoming, hchecks, h0, hidle]
      simp [Rotation.takeNext, h0]
    have hrest : (s.takeNext now).restartT = 1 := by simp [Rotation.takeNext, h0]
    have hconn' : (s.takeNext now).connected = false := by simp [Rotation.takeNext, h0, hconn]
    refine ⟨⟨hbase, .inr hrest, .inl ?_, ?_, hup ▸ hs.next, hup ▸ hs.primary, ?_⟩, hrest, hconn'⟩
    · rw [takeNext_checks, hidle]
    · intro hc
      rw [hconn'] at hc
      cases hc
    · simpa [Rotation.takeNext, h0] using hs.pings
  · have hsame : s.takeNext now = s := by rw [Rotation.takeNext, if_neg h0]
    rw [hsame]
    exact ⟨hs, hs.restart.resolve_left h0, hconn⟩

/-- What only moves jobs between the queues of a worker. -/
theorem Steady.of_pending (hs : Steady addresses s h) (haddresses : s'.addresses = s.addresses)
    (hbridge : s'.bridge = s.bridge) (hrestart : s'.restartT = s.restartT)
    (hconn : s'.connected = s.connected) (hchecks : s'.checks.pending = s.checks.pending)
    (hpings : s'.pings.pending = s.pings.pending) : Steady addresses s' h := by
  have hup : s'.upcoming = s.upcoming := by simp only [upcoming, hrestart, hchecks, hbridge]
  exact {
    base := @Base.of_bridge addresses s s' h [] hs.base haddresses hbridge
      (hchecks ▸ hs.base.checked)
    restart := hrestart ▸ hs.restart
    checks := by
      rw [hchecks, hrestart, hconn, hbridge]
      exact hs.checks
    connected := fun hc => by
      have hq := hs.connected (hconn ▸ hc)
      exact ⟨hrestart.trans hq.restart, hchecks.trans hq.idle, hq.connect, hq.noPing⟩
    next := hup ▸ hs.next
    primary := hup ▸ hs.primary
    pings := by
      rw [hpings, hbridge]
      exact hs.pings }

/-- A result is that of the only check that is pending. -/
theorem Steady.result (hs : Steady addresses s h) {b : BridgeAddress} {rest : List BridgeAddress}
    (hpop : s.checks.pending = b :: rest) :
    rest = [] ∧ sinceCheck h = [] ∧ lastCheck h = some (s.bridge.curAddress, b) ∧
      s.upcoming = s.bridge.nextAddress := by
  rcases hs.checks with hnil | ⟨-, -, hsince, a, hpending, hlast⟩
  · rw [hnil] at hpop
    cases hpop
  · have hup : s.upcoming = s.bridge.nextAddress := by simp [upcoming, hpending]
    rw [hpending, List.cons.injEq] at hpop
    obtain ⟨rfl, hrest⟩ := hpop
    exact ⟨hrest.symm, hsince, hlast, hup⟩

/-- A ping result is that of the only ping that is pending. -/
theorem Steady.pingResult (hs : Steady addresses s h) {b : BridgeAddress}
    {rest : List BridgeAddress} (hpop : s.pings.pending = b :: rest) :
    rest = [] ∧ addresses[s.bridge.curPrimaryAddress]? = some b ∧
      lastPing h = some (s.bridge.curPrimaryAddress, b) := by
  rcases hs.pings with hnil | ⟨a, hpending, ha, hlast⟩
  · rw [hnil] at hpop
    cases hpop
  · rw [hpending, List.cons.injEq] at hpop
    obtain ⟨rfl, hrest⟩ := hpop
    exact ⟨hrest.symm, ha, hlast⟩

theorem Steady.restarted (hs : Steady addresses s h) (hone : s.restartT = 1)
    (hconn : s.connected = false) (hun : ¬torn) (hr : Restarted s torn s' es) :
    Steady addresses s' (es.reverse ++ h) ∧ CheckLaw addresses h es ∧
      ResultLaw addresses h es := by
  have hbase := (hs.base.restarted hr).1
  have hbad : s.connected ≠ true := by simp [hconn]
  cases hr with
  | wait checks hsame =>
    exact ⟨hs.of_pending rfl rfl rfl rfl hsame rfl, .of_no_check (by simp), by simp [ResultLaw]⟩
  | check checks a hsame ha htorn =>
    -- A check is pushed only when none is pending, since the read was not torn.
    have hidle : s.checks.pending = [] := by
      by_contra hne
      exact hun (htorn hne)
    have hup : s.upcoming = s.bridge.curAddress := by simp [upcoming, hone, hidle]
    rw [hs.base.addresses_eq] at ha
    have hpending : (checks.push a).pending = [a] := by
      rw [Worker.pending_push, hsame, hidle, List.nil_append]
    refine ⟨⟨hbase, hs.restart, .inr ⟨hone, hconn, rfl, a, hpending, rfl⟩,
      fun hc => absurd hc hbad, ?_, ?_, hs.pings⟩, ?_, by simp [ResultLaw]⟩
    · intro i b hlast _
      cases hlast
      have hcur : s.bridge.curAddress < s.bridge.addressCount := hs.base.count ▸ hs.base.cur
      simp only [upcoming, hpending, ne_eq, List.cons_ne_self, not_false_eq_true, or_true, if_true]
      rw [← hs.base.count]
      exact nextAddress_eq_mod hcur
    · intro p b hmem
      cases hmem
    · intro j b hmem
      rw [List.mem_singleton, Event.check.injEq] at hmem
      obtain ⟨rfl, rfl⟩ := hmem
      refine ⟨ha, fun i c hlast hno => hup ▸ hs.next i c hlast hno, fun p c hmem => ?_⟩
      obtain ⟨hp, hc⟩ := hs.primary p c hmem
      rw [hup] at hp
      rw [← hp, ha] at hc
      exact ⟨hp, Option.some.inj hc⟩
  | refuse checks b success hpop =>
    obtain ⟨hrest, hsince, hlast, hup⟩ := hs.result hpop
    refine ⟨⟨hbase, .inl rfl, .inl hrest, fun hc => absurd hc hbad, ?_, ?_, hs.pings⟩,
      .of_no_check (by simp [Event.isCheck]), ?_⟩
    · intro i c hlast' _
      have hnext := hs.next i c hlast' (by simp [hsince])
      rwa [hup] at hnext
    · intro p c hmem
      simp [hsince] at hmem
    · refine ⟨fun i c ok hmem => ?_, by simp⟩
      rw [List.mem_singleton, Event.result.injEq] at hmem
      obtain ⟨rfl, rfl, -⟩ := hmem
      exact hlast
  | connect checks b ok hpop hb =>
    obtain ⟨hrest, hsince, hlast, hup⟩ := hs.result hpop
    refine ⟨⟨hbase, .inl rfl, .inl hrest, ?_, ?_, ?_, hs.pings⟩,
      .of_no_check (by simp [Event.isCheck]), ?_⟩
    · rintro rfl
      exact ⟨rfl, hrest, ⟨s.bridge.curAddress, b, by simp⟩, by simp [hsince]⟩
    · intro i c hlast' _
      have hnext := hs.next i c hlast' (by simp [hsince])
      rwa [hup] at hnext
    · intro p c hmem
      simp [hsince] at hmem
    · refine ⟨fun i c ok' hmem => ?_, by simp⟩
      simp only [List.mem_cons, Event.result.injEq, reduceCtorEq, List.not_mem_nil, or_false] at hmem
      obtain ⟨rfl, rfl, -⟩ := hmem
      exact hlast

theorem Quiet.cons (hq : Quiet s h) {e : Event} (he : e.isCheck = false)
    (hno : ∀ p a, e ≠ .pingResult p a true) : Quiet s (e :: h) := by
  obtain ⟨k, c, hmem⟩ := hq.connect
  refine ⟨hq.restart, hq.idle, ⟨k, c, ?_⟩, fun p a hmem' => ?_⟩
  · rw [sinceCheck_cons he]
    exact List.mem_cons_of_mem _ hmem
  · rw [sinceCheck_cons he, List.mem_cons] at hmem'
    rcases hmem' with heq | hold
    · exact hno p a heq.symm
    · exact hq.noPing p a hold

theorem Steady.pinged (hs : Steady addresses s h) (hq : Quiet s h) (hun : ¬torn)
    (hp : Pinged s torn s' es) :
    Steady addresses s' (es.reverse ++ h) ∧ CheckLaw addresses h es ∧
      ResultLaw addresses h es := by
  have hbase := (hs.base.pinged hp).1
  -- The last check led to a connection, so that it does not bind the next one.
  obtain ⟨k, c, hconnect⟩ := hq.connect
  cases hp with
  | wait pings hsame =>
    exact ⟨hs.of_pending rfl rfl rfl rfl rfl hsame, .of_no_check (by simp), by simp [ResultLaw]⟩
  | ping pings a hsame ha htorn =>
    have hidle : s.pings.pending = [] := by
      by_contra hne
      exact hun (htorn hne)
    rw [hs.base.addresses_eq] at ha
    have hquiet := hq.cons (e := .ping s.bridge.curPrimaryAddress a) rfl (by simp)
    refine ⟨⟨hbase, hs.restart, .inl hq.idle,
      fun _ => ⟨hq.restart, hq.idle, hquiet.connect, hquiet.noPing⟩,
      fun i b _ hno => absurd (List.mem_cons_of_mem _ hconnect) (hno k c),
      fun p b hmem => absurd hmem (hquiet.noPing p b), .inr ⟨a, ?_, ha, rfl⟩⟩,
      .of_no_check (by simp [Event.isCheck]), by simp [ResultLaw]⟩
    rw [Worker.pending_push, hsame, hidle, List.nil_append]
  | success pings b hcond hpop hb =>
    obtain ⟨hrest, ha, hlast⟩ := hs.pingResult hpop
    have hlt : s.bridge.curPrimaryAddress < s.bridge.addressCount := by
      rw [hs.base.count]
      exact (List.getElem?_eq_some_iff.mp ha).1
    refine ⟨⟨hbase, hs.restart, .inl hq.idle, fun hc => (by cases hc),
      fun i b _ hno => absurd (List.mem_cons_of_mem _ hconnect) (hno k c), ?_, .inl hrest⟩,
      .of_no_check (by simp [Event.isCheck]), ?_⟩
    · intro p d hmem
      rcases List.mem_cons.mp hmem with heq | hold
      · rw [Event.pingResult.injEq] at heq
        obtain ⟨rfl, rfl, -⟩ := heq
        refine ⟨?_, ha⟩
        simp only [upcoming, hq.restart, true_or, if_true]
        exact nextAddress_beforePrimary hlt
      · exact absurd hold (hq.noPing p d)
    · refine ⟨by simp, fun p d ok hmem => ?_⟩
      rw [List.mem_singleton, Event.pingResult.injEq] at hmem
      obtain ⟨rfl, rfl, -⟩ := hmem
      exact ⟨hlast, ha⟩
  | failure pings b hcond hpop hb =>
    obtain ⟨hrest, ha, hlast⟩ := hs.pingResult hpop
    have hquiet := hq.cons (e := .pingResult s.bridge.curPrimaryAddress b false) rfl (by simp)
    refine ⟨⟨hbase, hs.restart, .inl hq.idle,
      fun _ => ⟨hq.restart, hq.idle, hquiet.connect, hquiet.noPing⟩,
      fun i b _ hno => absurd (List.mem_cons_of_mem _ hconnect) (hno k c),
      fun p d hmem => absurd hmem (hquiet.noPing p d), .inl hrest⟩,
      .of_no_check (by simp [Event.isCheck]), ?_⟩
    refine ⟨by simp, fun p d ok hmem => ?_⟩
    rw [List.mem_singleton, Event.pingResult.injEq] at hmem
    obtain ⟨rfl, rfl, -⟩ := hmem
    exact ⟨hlast, ha⟩
  | other pings b success hpop hb =>
    -- The only pending ping is of the current primary address.
    obtain ⟨-, ha, -⟩ := hs.pingResult hpop
    rw [hs.base.addresses_eq] at hb
    exact absurd ha hb

/-- One action whose read of a status is not torn. -/
theorem Steady.step (hs : Steady addresses s h) {a : Action} (hun : s.Untorn a)
    (hstep : s.step a = some (s', es)) :
    Steady addresses s' (es.reverse ++ h) ∧ CheckLaw addresses h es ∧
      ResultLaw addresses h es := by
  cases a with
  | tick now timedOut between ok =>
    by_cases hconn : s.connected = true
    · rw [Untorn, if_pos hconn] at hun
      rw [Rotation.step, if_pos hconn] at hstep
      have hq := hs.connected hconn
      have hq1 : Quiet { s with connected := !timedOut } h :=
        ⟨hq.restart, hq.idle, hq.connect, hq.noPing⟩
      have hs1 : Steady addresses { s with connected := !timedOut } h :=
        ⟨@Base.of_bridge addresses s _ h [] hs.base rfl rfl hs.base.checked, hs.restart,
          .inl hq.idle, fun _ => hq1, hs.next, hs.primary, hs.pings⟩
      obtain ⟨s1, es1, hstep1, hp⟩ := Rotation.pinged { s with connected := !timedOut } now between
        fun hle => hs1.base.addresses_eq ▸ hs1.base.primary_lt hle
      rw [hstep1] at hstep
      cases hstep
      exact hs1.pinged hq1 hun hp
    · have hconn' : s.connected = false := by simpa using hconn
      rw [Untorn, if_neg hconn] at hun
      rw [Rotation.step, if_neg hconn] at hstep
      obtain ⟨hs1, hone, hconn1⟩ := hs.takeNext hconn' now
      obtain ⟨s1, es1, hstep1, hr⟩ := Rotation.restarted s now between ok
        (hs1.base.addresses_eq ▸ hs1.base.cur)
      rw [hstep1] at hstep
      cases hstep
      exact hs1.restarted hone hconn1 (by rwa [takeNext_checks]) hr
  | checkWorker x =>
    cases hstep
    exact ⟨hs.of_pending rfl rfl rfl rfl (s.checks.pending_step x) rfl, .of_no_check (by simp),
      by simp [ResultLaw]⟩
  | pingWorker x =>
    cases hstep
    exact ⟨hs.of_pending rfl rfl rfl rfl rfl (s.pings.pending_step x), .of_no_check (by simp),
      by simp [ResultLaw]⟩
  | drop =>
    cases hstep
    refine ⟨⟨hs.base.of_bridge rfl rfl hs.base.checked, hs.restart, ?_, fun hc => (by cases hc),
      hs.next, hs.primary, hs.pings⟩,
      .of_no_check (by simp), by simp [ResultLaw]⟩
    rcases hs.checks with hnil | ⟨hone, -, hsince, hpending⟩
    · exact .inl hnil
    · exact .inr ⟨hone, rfl, hsince, hpending⟩

theorem Steady.of_run {s₀ : Rotation} (h₀ : Steady addresses s₀ []) (hrun : Run Untorn s₀ s h) :
    Steady addresses s h := by
  induction hrun with
  | start => exact h₀
  | step hrun a hun hstep ih => exact (ih.step hun hstep).1

/-- A torn read makes the bridge check the same address once more. -/
theorem Steady.not_checkLaw_of_torn (hs : Steady addresses s h) (htwo : 1 < addresses.length)
    (hconn : s.connected = false) {now : ℤ} (hnow : 1 < now) (timedOut : Bool)
    {between : List (WorkerStep Bool)} (htorn : s.checks.Torn between) (ok : Bool) :
    ∃ s' es, s.step (.tick now timedOut between ok) = some (s', es) ∧
      ¬CheckLaw addresses h es := by
  have hstatus : s.checks.getStatus between = (.nothing, s.checks.steps between) := by
    simp [Worker.getStatus, htorn.1, htorn.2.1]
  obtain ⟨hone, -, hsince, a, -, hlast⟩ :=
    hs.checks.resolve_left ((Worker.nothing_iff_torn hstatus).mpr htorn)
  have hsame : s.takeNext now = s := by
    rw [Rotation.takeNext, if_neg (by simp [hone])]
  have hcur := hs.base.cur
  have hlt : s.bridge.curAddress < s.addresses.length := hs.base.addresses_eq ▸ hcur
  refine ⟨{ s with checks := (s.checks.steps between).push (s.addresses[s.bridge.curAddress]) },
    [.check s.bridge.curAddress (s.addresses[s.bridge.curAddress])], ?_, fun hlaw => ?_⟩
  · simp only [Rotation.step, hconn, Bool.false_eq_true, if_false, restartBridgeConnection, hsame,
      hone, hnow, if_true, hstatus, List.getElem?_eq_getElem hlt, Option.map_some]
  · obtain ⟨-, hnext, -⟩ := hlaw _ _ (List.mem_singleton_self _)
    have heq := hnext _ a hlast (by simp [hsince])
    -- With two addresses the one after the current one is another.
    rcases Nat.lt_or_ge (s.bridge.curAddress + 1) addresses.length with hin | hend
    · rw [Nat.mod_eq_of_lt hin] at heq
      omega
    · rw [show s.bridge.curAddress + 1 = addresses.length by omega, Nat.mod_self] at heq
      omega

/-- In every run the current address is one of the list and connection attempts follow their checks.
While no read of a status is torn, the checks go round the list, except that a primary address is
checked after a successful ping of it; the first torn read of the reconnection check ends this. -/
theorem addressRotation {initial : ℕ} (hinitial : initial < addresses.length) (primaryCount : ℕ)
    (roundRobin : Bool) :
    (∀ s h, Run (fun _ _ => True) (start addresses initial primaryCount roundRobin) s h →
      s.bridge.curAddress < addresses.length ∧
      ∀ a, ∃ s' es, s.step a = some (s', es) ∧ ConnectLaw addresses h s' es) ∧
    ∀ s h, Run Untorn (start addresses initial primaryCount roundRobin) s h →
      (∀ a, s.Untorn a → ∃ s' es, s.step a = some (s', es) ∧ CheckLaw addresses h es ∧
        ResultLaw addresses h es) ∧
      ∀ now timedOut between ok, 1 < addresses.length → s.connected = false → 1 < now →
        s.checks.Torn between → ∃ s' es, s.step (.tick now timedOut between ok) = some (s', es) ∧
          ¬CheckLaw addresses h es := by
  refine ⟨fun s h hrun => ?_, fun s h hrun => ?_⟩
  · have hbase := (Base.start initial primaryCount roundRobin hinitial).of_run hrun
    refine ⟨hbase.cur, fun a => ?_⟩
    obtain ⟨s', es, hstep, -, hlaw⟩ := hbase.step a
    exact ⟨s', es, hstep, hlaw⟩
  · have hs := (Steady.start initial primaryCount roundRobin hinitial).of_run hrun
    refine ⟨fun a hun => ?_, fun now timedOut between ok htwo hconn hnow htorn =>
      hs.not_checkLaw_of_torn htwo hconn hnow timedOut htorn ok⟩
    obtain ⟨s', es, hstep, -, -⟩ := hs.base.step a
    exact ⟨s', es, hstep, (hs.step hun hstep).2⟩

end

/-- Three addresses. -/
def threeAddresses : List BridgeAddress :=
  [⟨lit "a", 8883⟩, ⟨lit "b", 8883⟩, ⟨lit "c", 8883⟩]

/-- What happened, the latest first: the check of `b` fails, that of `c` leads to a connection, and the
primary address `a` answers a ping. -/
def backToPrimary : List Event :=
  [.pingResult 0 ⟨lit "a", 8883⟩ true, .ping 0 ⟨lit "a", 8883⟩,
    .connect 2 ⟨lit "c", 8883⟩ true, .result 2 ⟨lit "c", 8883⟩ true, .check 2 ⟨lit "c", 8883⟩,
    .result 1 ⟨lit "b", 8883⟩ false, .check 1 ⟨lit "b", 8883⟩]

/-- The bridge after that. -/
def stateBackToPrimary : Rotation where
  bridge := { addressCount := 3, curAddress := 2, primaryAddressCount := 1, roundRobin := false }
  addresses := threeAddresses
  primaryRetry := 35

theorem run_backToPrimary :
    Run Untorn (start threeAddresses 0 1 false) stateBackToPrimary backToPrimary := by
  have h := @Run.start Untorn (start threeAddresses 0 1 false)
  have h := h.step (.tick 10 false [] false) (show ¬Worker.Torn _ _ by decide) rfl
  have h := h.step (.checkWorker (.report false)) trivial rfl
  have h := h.step (.checkWorker .done) trivial rfl
  have h := h.step (.tick 20 false [] false) (show ¬Worker.Torn _ _ by decide) rfl
  have h := h.step (.tick 30 false [] false) (show ¬Worker.Torn _ _ by decide) rfl
  have h := h.step (.checkWorker (.report true)) trivial rfl
  have h := h.step (.checkWorker .done) trivial rfl
  have h := h.step (.tick 40 false [] true) (show ¬Worker.Torn _ _ by decide) rfl
  have h := h.step (.tick 50 false [] false) (show ¬Worker.Torn _ _ by decide) rfl
  have h := h.step (.pingWorker (.report true)) trivial rfl
  have h := h.step (.pingWorker .done) trivial rfl
  exact h.step (.tick 60 false [] false) (show ¬Worker.Torn _ _ by decide) rfl

/-- The bridge goes back to the address that was pinged: `a` is checked next, and checked again if the
read of the status of this check is torn. -/
theorem addressRotation_threeAddresses :
    (∃ s' es, stateBackToPrimary.step (.tick 70 false [] false) = some (s', es) ∧
      es = [.check 0 ⟨lit "a", 8883⟩] ∧ CheckLaw threeAddresses backToPrimary es ∧
        ResultLaw threeAddresses backToPrimary es) ∧
    ∃ s, Run Untorn (start threeAddresses 0 1 false) s
        (.check 0 ⟨lit "a", 8883⟩ :: backToPrimary) ∧
      ∃ s' es, s.step (.tick 80 false [.report false, .done] false) = some (s', es) ∧
        ¬CheckLaw threeAddresses (.check 0 ⟨lit "a", 8883⟩ :: backToPrimary) es := by
  have hlaw := (@addressRotation threeAddresses 0 (by decide) 1 false).2
  have huntorn : Untorn stateBackToPrimary (.tick 70 false [] false) :=
    show ¬Worker.Torn _ _ by decide
  refine ⟨?_, _, run_backToPrimary.step _ huntorn rfl, ?_⟩
  · obtain ⟨s', es, hstep, hcheck, hresult⟩ := (hlaw _ _ run_backToPrimary).1 _ huntorn
    refine ⟨s', es, hstep, ?_, hcheck, hresult⟩
    cases hstep
    rfl
  · exact (hlaw _ _ (run_backToPrimary.step _ huntorn rfl)).2 80 false [.report false, .done] false
      (by decide) rfl (by decide) (by decide)

/-- A check of `b` fails between the two reads of its status, and `b` is checked again.  The result of
the second check is taken when `c` is current, and `c` is passed over without a check. -/
theorem not_checkLaw_passedOver :
    ¬ ∀ s h, Run (fun _ _ => True) (start threeAddresses 0 3 true) s h →
      ∀ a s' es, s.step a = some (s', es) → CheckLaw threeAddresses h es := by
  intro hall
  have hlaw := hall _ _ (.step (.step (.step (.step (.step (.step .start
    (.tick 10 false [] false) trivial rfl)
    (.tick 20 false [.report false, .done] false) trivial rfl)
    (.tick 30 false [] false) trivial rfl)
    (.checkWorker (.report false)) trivial rfl)
    (.checkWorker .done) trivial rfl)
    (.tick 40 false [] false) trivial rfl) (.tick 60 false [] false) _ _ rfl
  obtain ⟨-, hnext, -⟩ := hlaw 0 ⟨lit "a", 8883⟩ (List.mem_singleton_self _)
  have hlast : (0 : ℕ) = (1 + 1) % 3 := hnext 1 ⟨lit "b", 8883⟩ rfl fun k c => by
    show Event.connect k c true ∉
      [.result 2 ⟨lit "b", 8883⟩ false, .result 1 ⟨lit "b", 8883⟩ false]
    simp
  cases hlast

end Rotation

end DxlBroker
