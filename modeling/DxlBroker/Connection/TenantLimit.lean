import DxlBroker.Connection.BrokerLoop

/-!
# The connections of a tenant

The number of connections of a tenant is limited.  The limit is checked in the TLS handshake and the
connection is counted with its CONNECT packet, so that between them any number of others may pass the
check.  A client is connected from its CONNECT packet on, until its context is cleaned up.  Its
connection is counted down there.
-/

namespace DxlBroker

open Bytes Unordered

/-- The context of a client that is connected and counts for a tenant. -/
def Context.clientOf (settings : BrokerSettings) (tenantGuid : Bytes) (c : Context) : Bool :=
  c.id.isSome && c.isTenantLimited settings && c.tenantGuid == some tenantGuid

namespace MqttBroker

section

variable (settings : BrokerSettings)

/-- The number of connected clients of a tenant. -/
def connectedClients (β : MqttBroker) (tenantGuid : Bytes) : ℕ :=
  β.contexts.countVals (Context.clientOf settings tenantGuid)

/-- The number of connected clients of a tenant other than one context. -/
def otherClients (β : MqttBroker) (i : ℕ) (tenantGuid : Bytes) : ℕ :=
  Map.countVals (Context.clientOf settings tenantGuid) (β.contexts.erase i)

/-- The clients among them whose connection is still open. -/
def openClients (β : MqttBroker) (tenantGuid : Bytes) : ℕ :=
  β.contexts.countVals fun c => c.clientOf settings tenantGuid && !c.invalid

/-- The recorded number of connections of a tenant. -/
def recordedConnections (β : MqttBroker) (tenantGuid : Bytes) : ℤ :=
  (β.connectionsPerTenant.lookup tenantGuid).getD 0

/-! ### The condition -/

/-- A context that becomes that of a client is one of a tenant below its limit. -/
def RoomFor (β : MqttBroker) (j : ℕ) (c : Context) : Prop :=
  ∀ t, c.isTenantLimited settings = true → c.tenantGuid = some t →
    (β.otherClients settings j t : ℤ) < connectionLimit settings

/-- The number of contexts with an identifier. -/
def numIds (β : MqttBroker) (id : Bytes) : ℕ := β.contexts.countVals fun c => c.id == some id

/-- The number of entries of the index with an identifier. -/
def numEntries (β : MqttBroker) (id : Bytes) : ℕ := β.clientIndex.countP fun e => e.1 == id

/-- The identifier generated for a client is new, and its tenant has room; a broker that names the
identifier of another context takes over that context, if it is one with room. -/
def ConnectCountOk (β : MqttBroker) (i : ℕ) (c : Context) (cenv : ConnectEnv) (command : UInt8)
    (payload guid : Bytes) : Prop :=
  c.state = .new → ∀ c' id,
    connectPacket settings cenv c β.clientIndex.length command payload guid = .ok (c', id) →
    (c'.isBridge = false →
      β.numIds id = 0 ∧ β.clientIndex.lookup id = none ∧ β.RoomFor settings i c') ∧
    ∀ j old, β.clientIndex.lookup id = some j → β.contexts.lookup j = some old →
      (old.wsi || c.wsi) = false → j ≠ i ∧ old.id = some id ∧ β.RoomFor settings j (reused c' old)

/-- The condition on a step.  The broker's own bridge does not have the identifier of a client. -/
def CountingOk (β : MqttBroker) (_ : RegistryEnv) : Step → Prop
  | .read i (.connect cenv command payload guid _) _ =>
      ∀ c, β.contexts.lookup i = some c → readable c = true →
        β.ConnectCountOk settings i c cenv command payload guid
  | .bridgeNew _ id _ => ∀ k c, β.contexts.lookup k = some c → c.isBridge = false →
      c.id ≠ some id
  | _ => True

/-- The recorded numbers are right, no tenant is above its limit, and every client is found in the
index when its context is cleaned up. -/
structure Accounted (β : MqttBroker) : Prop where
  recorded : ∀ t, β.recordedConnections t = β.connectedClients settings t
  limit : ∀ t, β.connectedClients settings t = 0 ∨
    (β.connectedClients settings t : ℤ) ≤ connectionLimit settings
  indexed : ∀ {i c id}, β.contexts.lookup i = some c → c.isBridge = false → c.id = some id →
    β.numIds id ≤ β.numEntries id
  opened : ∀ {i c}, β.contexts.lookup i = some c → c.isBridge = false → c.id ≠ none →
    c.state ≠ .new
  bridges : ∀ {i c}, β.contexts.lookup i = some c → c.bridge.isSome = true → c.isBridge = true

end

variable {settings : BrokerSettings} {env : RegistryEnv} {β : MqttBroker} {c : Context} {i : ℕ}

/-! ### Counting -/

/-- A change of a context that is no change of a client. -/
structure Quiet (settings : BrokerSettings) (c c' : Context) : Prop where
  id : c'.id = c.id
  clientOf : ∀ t, c'.clientOf settings t = c.clientOf settings t
  isBridge : c.id ≠ none → c'.isBridge = c.isBridge
  opened : c'.isBridge = false → c'.id ≠ none → c'.state ≠ .new
  bridges : c'.bridge.isSome = true → c'.isBridge = true

theorem Accounted.setContext (h : β.Accounted settings) (hc : β.contexts.lookup i = some c)
    {c' : Context} (hquiet : Quiet settings c c') : (β.setContext i c').Accounted settings := by
  have hcount : ∀ p : Context → Bool, p c' = p c →
      (β.setContext i c').contexts.countVals p = β.contexts.countVals p := by
    intro p hp
    rw [countVals_setContext, @countVals_contexts β i p, hc, hp]
    rfl
  have hclients : ∀ t, (β.setContext i c').connectedClients settings t =
      β.connectedClients settings t := fun t => hcount _ (hquiet.clientOf t)
  have hids : ∀ id, (β.setContext i c').numIds id = β.numIds id := fun id =>
    hcount _ (by rw [hquiet.id])
  refine ⟨fun t => ?_, fun t => ?_, fun {j d id} hd hbridge hid => ?_,
    fun {j d} hd hbridge hid => ?_, fun {j d} hd hbridge => ?_⟩
  · rw [hclients]
    exact h.recorded t
  · rw [hclients]
    exact h.limit t
  · rw [hids]
    rw [lookup_setContext] at hd
    split_ifs at hd
    · cases hd
      rw [hquiet.id] at hid
      refine h.indexed hc ?_ hid
      rw [← hquiet.isBridge (by rw [hid]; nofun)]
      exact hbridge
    · exact h.indexed hd hbridge hid
  · rw [lookup_setContext] at hd
    split_ifs at hd
    · cases hd
      exact hquiet.opened hbridge hid
    · exact h.opened hd hbridge hid
  · rw [lookup_setContext] at hd
    split_ifs at hd
    · cases hd
      exact hquiet.bridges hbridge
    · exact h.bridges hd hbridge

theorem Accounted.congr {β' : MqttBroker} (h : β.Accounted settings)
    (hcontexts : β'.contexts = β.contexts) (hindex : β'.clientIndex = β.clientIndex)
    (hcounts : β'.connectionsPerTenant = β.connectionsPerTenant) : β'.Accounted settings := by
  cases β
  cases β'
  cases hcontexts
  cases hindex
  cases hcounts
  exact ⟨h.recorded, h.limit, h.indexed, h.opened, h.bridges⟩

theorem quiet_socketClose (h : β.Accounted settings) (hc : β.contexts.lookup i = some c) :
    Quiet settings c c.socketClose := by
  have hbridges : c.bridge.isSome = true → c.isBridge = true := h.bridges hc
  have hopened : c.isBridge = false → c.id ≠ none → c.state ≠ .new := h.opened hc
  unfold Context.socketClose
  split_ifs
  · exact ⟨rfl, fun _ => rfl, fun _ => rfl, fun _ _ => nofun, hbridges⟩
  · exact ⟨rfl, fun _ => rfl, fun _ => rfl, hopened, hbridges⟩

theorem Accounted.contextDisconnect (h : β.Accounted settings) :
    (β.contextDisconnect settings env i).Accounted settings := by
  cases hc : β.contexts.lookup i with
  | none =>
    unfold MqttBroker.contextDisconnect
    rw [hc]
    exact h
  | some c =>
    refine (h.setContext hc (quiet_socketClose h hc)).congr ?_ contextDisconnect_frame.1
      contextDisconnect_frame.2
    unfold MqttBroker.contextDisconnect
    rw [hc]
    simp only
    split_ifs
    · unfold MqttBroker.setContext
      rw [dxlOnBridgeDisconnected_frame.1]
    · rfl

/-! ### The recorded numbers -/

theorem recordedConnections_update (hlimit : connectionLimit settings ≠ 0) (n : ℤ) (t : Bytes) :
    (β.updateTenantConnectionCount settings c n).recordedConnections t =
      if c.isTenantLimited settings && c.tenantGuid == some t then
        BrokerCore.clampCount (connectionLimit settings) (β.recordedConnections t + n)
      else β.recordedConnections t := by
  unfold updateTenantConnectionCount
  cases hlimited : c.isTenantLimited settings with
  | false => rfl
  | true =>
    obtain ⟨guid, hguid⟩ : ∃ guid, c.tenantGuid = some guid := by
      simp only [Context.isTenantLimited, Bool.and_eq_true] at hlimited
      exact Option.isSome_iff_exists.mp hlimited.2
    simp only [if_true, recordedConnections, updateTenantLimitCount, if_neg hlimit, hguid,
      Option.getD_some, Bool.true_and, beq_iff_eq, Option.some.injEq]
    by_cases ht : guid = t
    · subst ht
      rw [if_pos rfl, AList.lookup_insert, Option.getD_some, hguid, Option.getD_some]
    · rw [if_neg ht, AList.lookup_insert_ne (Ne.symm ht)]

/-! ### The clean-up -/

theorem closed_keeps : c.closed.id = c.id ∧ c.closed.isBridge = c.isBridge ∧
    c.closed.isTenantLimited settings = c.isTenantLimited settings ∧
    c.closed.tenantGuid = c.tenantGuid ∧ c.closed.bridge = c.bridge ∧
    (c.closed.state = .new → c.state = .new) := by
  unfold Context.closed Context.socketClose
  simp only
  split_ifs <;> exact ⟨rfl, rfl, rfl, rfl, rfl, by first | exact id | exact nofun⟩

theorem connectedClients_eq (t : Bytes) : β.connectedClients settings t =
    β.otherClients settings i t +
      if (β.contexts.lookup i).any (Context.clientOf settings t) then 1 else 0 :=
  countVals_contexts _

theorem numEntries_pos {id : Bytes} :
    (β.clientIndex.any fun e => e.1 == id) = true ↔ 0 < β.numEntries id := by
  rw [numEntries, List.countP_pos_iff, List.any_eq_true]

theorem numEntries_erase {id : Bytes} (h : (β.clientIndex.any fun e => e.1 == id) = true)
    (id' : Bytes) : (β.clientIndex.eraseP fun e => e.1 == id).countP (fun e => e.1 == id') =
      β.numEntries id' - if id = id' then 1 else 0 := by
  obtain ⟨e, he, hid⟩ := List.any_eq_true.mp h
  obtain ⟨a, l₁, l₂, -, ha, hl, herase⟩ := List.exists_of_eraseP (p := fun e => e.1 == id) he hid
  rw [herase, numEntries, hl, List.countP_append, List.countP_append, List.countP_cons]
  rw [beq_iff_eq] at ha
  simp only [ha, beq_iff_eq]
  split_ifs <;> omega

/-- What the clean-up of a context records. -/
theorem Accounted.forgetClient (hlimit : connectionLimit settings ≠ 0) (h : β.Accounted settings)
    (hc : β.contexts.lookup i = some c) :
    (∀ t, (β.forgetClient settings c.closed).recordedConnections t =
      β.otherClients settings i t) ∧
    ∀ id, (β.forgetClient settings c.closed).numEntries id =
      β.numEntries id - if c.id = some id then 1 else 0 := by
  obtain ⟨hid, hbridge, hlimited, htenant, -, hstate⟩ := @closed_keeps settings c
  have hclients : ∀ t, β.recordedConnections t =
      β.otherClients settings i t + if c.clientOf settings t then 1 else 0 := by
    intro t
    rw [h.recorded, @connectedClients_eq settings β i t, hc]
    push_cast
    rfl
  -- The context of a bridge does not count.
  have hnone : c.isBridge = true ∨ c.id = none → ∀ t,
      β.recordedConnections t = β.otherClients settings i t := by
    intro hnot t
    have hclient : c.clientOf settings t = false := by
      rcases hnot with hnot | hnot <;> simp [Context.clientOf, Context.isTenantLimited, hnot]
    simpa [hclient] using hclients t
  unfold MqttBroker.forgetClient
  rw [hid]
  cases hx : c.id with
  | none => exact ⟨hnone (.inr hx), fun id => by simp⟩
  | some x =>
    simp only [Option.some.injEq]
    split_ifs with hfound
    · have hentries := numEntries_erase hfound
      unfold dxlOnClientDisconnected
      rw [hbridge, hid, hx]
      by_cases hisBridge : c.isBridge = true
      · rw [if_pos (.inl hisBridge)]
        exact ⟨hnone (.inl hisBridge), hentries⟩
      · have hclient : c.isBridge = false := Bool.not_eq_true _ ▸ hisBridge
        have hopened : c.closed.state ≠ .new := fun hnew =>
          h.opened hc hclient (by rw [hx]; nofun) (hstate hnew)
        rw [if_neg (by simp [hclient, hopened])]
        refine ⟨fun t => ?_, fun id => ?_⟩
        · rw [recordedConnections_update hlimit, hlimited, htenant]
          have hcount := hclients t
          have hmax := h.limit t
          have htotal := h.recorded t
          have hrecorded : recordedConnections
              { β with clientIndex := β.clientIndex.eraseP fun e => e.1 == x } t =
              β.recordedConnections t := rfl
          rw [hrecorded]
          have hclientOf : c.clientOf settings t =
              (c.isTenantLimited settings && c.tenantGuid == some t) := by
            simp [Context.clientOf, hx]
          rw [hclientOf] at hcount
          split_ifs at hcount ⊢
          · unfold BrokerCore.clampCount
            split_ifs <;> omega
          · omega
        · rw [numEntries, updateTenantConnectionCount_frame.2.1]
          exact hentries id
    · have hzero : β.numEntries x = 0 := by
        have hnot := (@numEntries_pos β x).not.mp hfound
        omega
      have hisBridge : c.isBridge = true := by
        by_contra hnot
        have hle := h.indexed hc (Bool.not_eq_true _ ▸ hnot) hx
        have hone : 0 < β.numIds x := by
          rw [numIds, @countVals_contexts β i, hc]
          simp [hx]
        omega
      refine ⟨hnone (.inl hisBridge), fun id => ?_⟩
      split_ifs with hsame
      · rw [← hsame, hzero]
      · rfl

theorem Accounted.contextFree (hlimit : connectionLimit settings ≠ 0) (h : β.Accounted settings) :
    (β.contextFree settings i).Accounted settings := by
  unfold MqttBroker.contextFree
  cases hc : β.contexts.lookup i with
  | none => exact h
  | some c =>
    obtain ⟨hrecorded, hentries⟩ := h.forgetClient hlimit hc
    simp only
    generalize hfreed : ({ β.forgetClient settings c.closed with
      contexts := (β.forgetClient settings c.closed).contexts.erase i } : MqttBroker) = β'
    have hcontexts : β'.contexts = β.contexts.erase i := by
      rw [← hfreed, (@forgetClient_frame settings β c.closed).1]
    have hrecorded' : ∀ t, β'.recordedConnections t = β.otherClients settings i t := by
      rw [← hfreed]
      exact hrecorded
    have hentries' : ∀ id, β'.numEntries id =
        β.numEntries id - if c.id = some id then 1 else 0 := by
      rw [← hfreed]
      exact hentries
    have hclients : ∀ t, β'.connectedClients settings t = β.otherClients settings i t := by
      intro t
      rw [connectedClients, hcontexts]
      rfl
    have hlookup : ∀ {j d}, β'.contexts.lookup j = some d → β.contexts.lookup j = some d := by
      intro j d hd
      rw [hcontexts] at hd
      exact (Map.lookup_erase_eq_some.mp hd).2
    refine ⟨fun t => ?_, fun t => ?_, fun {j d id} hd hbridge hid => ?_,
      fun {j d} hd hbridge hid => h.opened (hlookup hd) hbridge hid,
      fun {j d} hd hbridge => h.bridges (hlookup hd) hbridge⟩
    · rw [hclients]
      exact hrecorded' t
    · rw [hclients]
      have hcount := @connectedClients_eq settings β i t
      have hmax := h.limit t
      omega
    · have hle := h.indexed (hlookup hd) hbridge hid
      have hids : β.numIds id = β'.numIds id + if c.id = some id then 1 else 0 := by
        rw [numIds, numIds, hcontexts, @countVals_contexts β i, hc]
        simp only [Option.any_some, beq_iff_eq]
      have hentry := hentries' id
      omega

/-! ### CONNECT -/

/-- A context that is given an identifier: the numbers, once it is recorded and counted. -/
theorem Accounted.enrolled (h : β.Accounted settings) {j : ℕ} (hc : β.contexts.lookup j = some c)
    {β' : MqttBroker} {d : Context} {id : Bytes}
    (hlookup : ∀ k, β'.contexts.lookup k = if k = j then some d else β.contexts.lookup k)
    (hrecorded : ∀ t, β'.recordedConnections t =
      β.otherClients settings j t + if d.clientOf settings t then 1 else 0)
    (hentries : ∀ x, (β.numEntries x - if c.id = some x then 1 else 0) +
      (if id = x then 1 else 0) ≤ β'.numEntries x)
    (hid : d.id = some id) (hstate : d.isBridge = false → d.state ≠ .new)
    (hbridges : d.bridge.isSome = true → d.isBridge = true)
    (hlimit : ∀ t, d.clientOf settings t = true →
      (β.otherClients settings j t : ℤ) < connectionLimit settings)
    (hindexed : d.isBridge = false → β.numIds id ≤ β.numEntries id) : β'.Accounted settings := by
  have hcount : ∀ p : Context → Bool, β'.contexts.countVals p =
      Map.countVals p (β.contexts.erase j) + if p d then 1 else 0 := by
    intro p
    rw [← countVals_setContext]
    exact Map.countVals_of_lookup (fun k => (hlookup k).trans lookup_setContext.symm) p
  have hclients : ∀ t, β'.connectedClients settings t =
      β.otherClients settings j t + if d.clientOf settings t then 1 else 0 := fun t => hcount _
  have hids : ∀ x, β'.numIds x + (if c.id = some x then 1 else 0) =
      β.numIds x + if id = x then 1 else 0 := by
    intro x
    rw [numIds, hcount, numIds, @countVals_contexts β j, hc, hid]
    simp only [Option.any_some, beq_iff_eq, Option.some.injEq]
    omega
  refine ⟨fun t => ?_, fun t => ?_, fun {k e x} he hbridge hx => ?_,
    fun {k e} he hbridge hx => ?_, fun {k e} he hbridge => ?_⟩
  · rw [hrecorded, hclients]
    push_cast
    rfl
  · rw [hclients]
    have hcount := @connectedClients_eq settings β j t
    have hmax := h.limit t
    split_ifs with hclient
    · have hroom := hlimit t hclient
      omega
    · omega
  · have hids' := hids x
    have hentry := hentries x
    have hle : β.numIds x ≤ β.numEntries x := by
      rw [hlookup] at he
      split_ifs at he
      · cases he
        cases hid.symm.trans hx
        exact hindexed hbridge
      · exact h.indexed he hbridge hx
    have hold : (if c.id = some x then 1 else 0) ≤ β.numIds x := by
      rw [numIds, @countVals_contexts β j, hc]
      simp only [Option.any_some, beq_iff_eq]
      omega
    omega
  · rw [hlookup] at he
    split_ifs at he
    · cases he
      exact hstate hbridge
    · exact h.opened he hbridge hx
  · rw [hlookup] at he
    split_ifs at he
    · cases he
      exact hbridges hbridge
    · exact h.bridges he hbridge
/-- The numbers after the identifier was recorded and the client counted. -/
theorem identify_counts (hlimit : connectionLimit settings ≠ 0) {j : ℕ} {id : Bytes} {n : Bytes → ℕ}
    (hid : c.id = some id) (hrecorded : ∀ t, β.recordedConnections t = n t)
    (hroom : ∀ t, c.clientOf settings t = true → (n t : ℤ) < connectionLimit settings) :
    (∀ t, (β.identify settings j c).recordedConnections t =
      n t + if c.clientOf settings t then 1 else 0) ∧
    ∀ x, (β.identify settings j c).numEntries x = β.numEntries x + if id = x then 1 else 0 := by
  refine ⟨fun t => ?_, fun x => ?_⟩
  · have hclientOf : c.clientOf settings t =
        (c.isTenantLimited settings && c.tenantGuid == some t) := by
      simp [Context.clientOf, hid]
    unfold identify dxlOnClientConnected
    simp only [hid]
    by_cases hbridge : c.isBridge = true
    · rw [if_pos (.inr hbridge), hclientOf, show c.isTenantLimited settings = false by
        simp [Context.isTenantLimited, hbridge]]
      exact (hrecorded t).trans (by simp)
    · rw [if_neg (by simp [hbridge]), recordedConnections_update hlimit, ← hclientOf]
      have hsame : recordedConnections
          { β.setContext j c with clientIndex := (id, j) :: β.clientIndex } t = n t := hrecorded t
      simp only [Option.getD_some]
      rw [hsame]
      split_ifs with hclient
      · have hless := hroom t hclient
        unfold BrokerCore.clampCount
        split_ifs <;> omega
      · exact (add_zero _).symm
  · rw [numEntries, identify, dxlOnClientConnected_frame.2.1, hid]
    simp only [Option.getD_some, List.countP_cons, beq_iff_eq]
    rfl

/-- A context that is recorded with an identifier and announced.  Before that, `β₁` differs from an
accounted `β` in that context, which is not recorded. -/
theorem Accounted.enroll (hlimit : connectionLimit settings ≠ 0) (h : β.Accounted settings) {j : ℕ}
    (hc : β.contexts.lookup j = some c) {β₁ : MqttBroker} {d : Context} {id : Bytes} {sendOk : Bool}
    (hlookup : ∀ k, β₁.contexts.lookup k = if k = j then some d else β.contexts.lookup k)
    (hrecorded : ∀ t, β₁.recordedConnections t = β.otherClients settings j t)
    (hentries : ∀ x, (β.numEntries x - if c.id = some x then 1 else 0) ≤ β₁.numEntries x)
    (hbridges : d.bridge.isSome = true → d.isBridge = true)
    (hok : d.isBridge = false → β.numIds id ≤ β.numEntries id ∧ β.RoomFor settings j d) :
    (β₁.enroll settings env j id sendOk).2.Accounted settings := by
  have hroom : ∀ t, (d.withId id).clientOf settings t = true →
      (β.otherClients settings j t : ℤ) < connectionLimit settings := by
    intro t ht
    simp only [Context.clientOf, Bool.and_eq_true, beq_iff_eq] at ht
    have hlimited : d.isTenantLimited settings = true := ht.1.2
    have hbridge : d.isBridge = false := by
      simp only [Context.isTenantLimited, Bool.and_eq_true, Bool.not_eq_true'] at hlimited
      exact hlimited.1.2
    exact (hok hbridge).2 t hlimited ht.2
  obtain ⟨hcounted, hindex⟩ := @identify_counts settings β₁ (d.withId id) hlimit j id _ rfl
    hrecorded hroom
  obtain ⟨hcontexts, -⟩ := @identify_frame settings β₁ (d.withId id) j
  unfold MqttBroker.enroll
  rw [hlookup, if_pos rfl]
  simp only
  obtain ⟨e, he, hcontexts', hindex', hcounts'⟩ :=
    @announce_frame settings env (β₁.identify settings j (d.withId id)) (d.withId id) j sendOk
      (by rw [hcontexts, lookup_setContext, if_pos rfl])
  have hkeeps : e.id = some id ∧ e.bridge = d.bridge ∧ e.isBridge = d.isBridge ∧
      ∀ t, e.clientOf settings t = (d.withId id).clientOf settings t := by
    rcases he with rfl | ⟨-, rfl⟩
    · exact ⟨rfl, rfl, rfl, fun _ => rfl⟩
    · unfold Context.socketClose
      split_ifs <;> exact ⟨rfl, rfl, rfl, fun _ => rfl⟩
  obtain ⟨hid, hbridge, hisBridge, hclientOf⟩ := hkeeps
  refine h.enrolled (d := e) hc (fun k => ?_) (fun t => ?_) (fun x => ?_) hid
    (fun hclient => ?_) ?_ (fun t ht => hroom t (hclientOf t ▸ ht))
    fun hclient => (hok (hisBridge ▸ hclient)).1
  · rw [hcontexts', lookup_setContext, hcontexts, lookup_setContext, hlookup]
    split_ifs <;> rfl
  · rw [recordedConnections, hcounts', hclientOf]
    exact hcounted t
  · have hentry := hentries x
    have hadded := hindex x
    have hsame : numEntries (announce settings env j (d.withId id) sendOk
        (β₁.identify settings j (d.withId id))).2 x =
        (β₁.identify settings j (d.withId id)).numEntries x := by
      unfold numEntries
      rw [hindex']
    omega
  · rcases he with rfl | ⟨hnot, -⟩
    · nofun
    · rw [hisBridge, show d.isBridge = true from hnot] at hclient
      cases hclient
  · rw [hbridge, hisBridge]
    exact hbridges

theorem otherClients_setContext (hc : β.contexts.lookup i = some c) {c' : Context}
    (hclientOf : ∀ t, c'.clientOf settings t = c.clientOf settings t) (j : ℕ) (t : Bytes) :
    (β.setContext i c').otherClients settings j t = β.otherClients settings j t := by
  have hclients : (β.setContext i c').connectedClients settings t =
      β.connectedClients settings t := by
    rw [connectedClients, countVals_setContext, hclientOf, connectedClients,
      @countVals_contexts β i, hc]
    rfl
  have hcount := @connectedClients_eq settings (β.setContext i c') j t
  have hcount' := @connectedClients_eq settings β j t
  have hany : ((β.setContext i c').contexts.lookup j).any (Context.clientOf settings t) =
      (β.contexts.lookup j).any (Context.clientOf settings t) := by
    rw [lookup_setContext]
    split_ifs with hj
    · rw [hj, hc]
      exact hclientOf t
    · rfl
  rw [hany] at hcount
  omega

theorem numIds_setContext (hc : β.contexts.lookup i = some c) {c' : Context} (hid : c'.id = c.id)
    (id : Bytes) : (β.setContext i c').numIds id = β.numIds id := by
  rw [numIds, countVals_setContext, numIds, @countVals_contexts β i, hc, hid]
  rfl

/-- A context in the state `new` is not that of a client. -/
theorem Accounted.not_client (h : β.Accounted settings) (hc : β.contexts.lookup i = some c)
    (hnew : c.state = .new) : c.isBridge = true ∨ c.id = none := by
  cases hbridge : c.isBridge with
  | true => exact .inl rfl
  | false =>
    right
    by_contra hid
    exact h.opened hc hbridge hid hnew

theorem clientOf_eq_false (h : c.isBridge = true ∨ c.id = none) (t : Bytes) :
    c.clientOf settings t = false := by
  rcases h with h | h <;> simp [Context.clientOf, Context.isTenantLimited, h]

theorem quiet_parsed (h : β.Accounted settings) (hc : β.contexts.lookup i = some c)
    (hnew : c.state = .new) {c' : Context} (hparsed : Parsed c c') : Quiet settings c c' := by
  have hnot := h.not_client hc hnew
  have hnot' : c'.isBridge = true ∨ c'.id = none := by
    rw [hparsed.id]
    exact hnot.imp_left hparsed.isBridge
  refine ⟨hparsed.id, fun t => ?_, fun hid => ?_, fun hbridge hid => ?_, fun hbridge => ?_⟩
  · rw [clientOf_eq_false hnot, clientOf_eq_false hnot']
  · have hbridge := hnot.resolve_right hid
    rw [hbridge, hparsed.isBridge hbridge]
  · rcases hnot' with hnot' | hnot'
    · rw [hbridge] at hnot'
      cases hnot'
    · exact absurd hnot' hid
  · rw [hparsed.bridge] at hbridge
    exact hparsed.isBridge (h.bridges hc hbridge)

/-- A context that is not that of a client is recorded with an identifier. -/
theorem Accounted.enroll_self (hlimit : connectionLimit settings ≠ 0) (h : β.Accounted settings)
    (hc : β.contexts.lookup i = some c) (hnot : c.isBridge = true ∨ c.id = none) {id : Bytes}
    {sendOk : Bool}
    (hok : c.isBridge = false → β.numIds id ≤ β.numEntries id ∧ β.RoomFor settings i c) :
    (β.enroll settings env i id sendOk).2.Accounted settings := by
  refine h.enroll hlimit hc (fun k => ?_) (fun t => ?_) (fun x => Nat.sub_le _ _) (h.bridges hc) hok
  · split_ifs with hk
    · rw [hk, hc]
    · rfl
  · rw [h.recorded, @connectedClients_eq settings β i t, hc, Option.any_some,
      clientOf_eq_false hnot]
    rfl

theorem forgetClient_setContext {d : Context} : (β.setContext i c).forgetClient settings d =
    (β.forgetClient settings d).setContext i c := by
  unfold MqttBroker.forgetClient dxlOnClientDisconnected updateTenantConnectionCount
    MqttBroker.setContext
  split
  · rfl
  · split_ifs <;> rfl

theorem Accounted.takeOver (hlimit : connectionLimit settings ≠ 0) (h : β.Accounted settings)
    (hc : β.contexts.lookup i = some c) {j : ℕ} {old : Context}
    (hold : β.contexts.lookup j = some old) (hj : j ≠ i) {id : Bytes} (hid : old.id = some id)
    (hroom : β.RoomFor settings j (reused c old)) {sendOk : Bool} :
    ((β.takeOver settings i j c old).enroll settings env j id sendOk).2.Accounted settings := by
  have hbridges : c.bridge.isSome = true → c.isBridge = true := h.bridges hc
  have hgiven : (β.setContext i (given c)).Accounted settings :=
    h.setContext hc ⟨rfl, fun _ => rfl, fun _ => rfl, fun _ _ => nofun, hbridges⟩
  have hold' : (β.setContext i (given c)).contexts.lookup j = some old := by
    rw [lookup_setContext, if_neg hj, hold]
  obtain ⟨hrecorded, hentries⟩ := hgiven.forgetClient hlimit hold'
  rw [forgetClient_setContext] at hrecorded hentries
  obtain ⟨-, hisBridge, -, -, hbridge, -⟩ := @closed_keeps settings old
  refine hgiven.enroll hlimit hold' (d := reused c old) (fun k => ?_) hrecorded
    (fun x => (hentries x).ge) (fun hsome => ?_) fun hclient => ⟨?_, fun t hlimited ht => ?_⟩
  · rw [takeOver_frame.1, lookup_setContext, lookup_setContext, lookup_setContext]
    split_ifs with hki hkj
    · rw [← hkj, hki] at hj
      cases hj rfl
    · rfl
    · rfl
    · rfl
  · have hsome' : old.closed.bridge.isSome = true := hsome
    rw [hbridge] at hsome'
    exact hisBridge.trans (h.bridges hold hsome')
  · exact hgiven.indexed hold' (hisBridge.symm.trans hclient) hid
  · have hsame := @otherClients_setContext settings β c i hc (given c) (fun _ => rfl) j t
    rw [hsame]
    exact hroom t hlimited ht
/-- The context for an identifier is recorded with it. -/
theorem Accounted.contextFor (hlimit : connectionLimit settings ≠ 0) (h : β.Accounted settings)
    (hc : β.contexts.lookup i = some c) (hnot : c.isBridge = true ∨ c.id = none) {id : Bytes}
    {sendOk : Bool}
    (hclient : c.isBridge = false → β.numIds id = 0 ∧ β.clientIndex.lookup id = none ∧
      β.RoomFor settings i c)
    (htake : ∀ j old, β.clientIndex.lookup id = some j → β.contexts.lookup j = some old →
      (old.wsi || c.wsi) = false → j ≠ i ∧ old.id = some id ∧ β.RoomFor settings j (reused c old)) :
    ((β.contextFor settings env i c id).2.enroll settings env
      (β.contextFor settings env i c id).1 id sendOk).2.Accounted settings := by
  have hself : c.isBridge = false → β.numIds id ≤ β.numEntries id ∧ β.RoomFor settings i c := by
    intro hbridge
    obtain ⟨hzero, -, hroom⟩ := hclient hbridge
    exact ⟨hzero ▸ Nat.zero_le _, hroom⟩
  unfold MqttBroker.contextFor
  cases hindex : β.clientIndex.lookup id with
  | none => exact h.enroll_self hlimit hc hnot hself
  | some j =>
    -- The identifier of a client is new.
    have hbridge : c.isBridge = true := by
      by_contra hnot
      have hnone := (hclient (Bool.not_eq_true _ ▸ hnot)).2.1
      cases hindex.symm.trans hnone
    simp only
    cases hold : β.contexts.lookup j with
    | none => exact h.enroll_self hlimit hc hnot hself
    | some old =>
      simp only
      split_ifs with hwsi
      · have hc' : (β.contextDisconnect settings env j).contexts.lookup i =
            some (if i = j then c.socketClose else c) := by
          rw [lookup_contextDisconnect]
          split_ifs with hj
          · rw [← hj, hc]
            rfl
          · exact hc
        have hbridge' : (if i = j then c.socketClose else c).isBridge = true := by
          unfold Context.socketClose
          split_ifs <;> exact hbridge
        refine h.contextDisconnect.enroll_self hlimit hc' (.inl hbridge') fun hnot => ?_
        rw [hbridge'] at hnot
        cases hnot
      · obtain ⟨hj, hid, hroom⟩ := htake j old hindex hold (Bool.not_eq_true _ ▸ hwsi)
        exact h.takeOver hlimit hc hold hj hid hroom

theorem Accounted.handleConnect (hlimit : connectionLimit settings ≠ 0) (h : β.Accounted settings)
    {cenv : ConnectEnv} {command : UInt8} {payload guid : Bytes} {sendOk : Bool}
    (hok : ∀ c, β.contexts.lookup i = some c →
      β.ConnectCountOk settings i c cenv command payload guid) :
    (β.handleConnect settings env cenv i command payload guid sendOk).2.Accounted settings := by
  unfold MqttBroker.handleConnect
  cases hc : β.contexts.lookup i with
  | none => exact h
  | some c =>
    simp only
    split_ifs with hstate
    · exact h.contextDisconnect
    · have hnew : c.state = .new := not_not.mp hstate
      obtain ⟨herror, hparsed⟩ := @connectPacket_keeps settings c cenv β.clientIndex.length command
        payload guid
      have hclients := hok c hc hnew
      cases hpacket : connectPacket settings cenv c β.clientIndex.length command payload guid with
      | error res =>
        have hquiet := quiet_parsed h hc hnew (herror _ _ hpacket)
        exact (h.setContext hc hquiet).contextDisconnect
      | ok res =>
        obtain ⟨c', id⟩ := res
        obtain ⟨hclient, htake⟩ := hclients c' id hpacket
        have hsame := hparsed c' id hpacket
        have hquiet := quiet_parsed h hc hnew hsame
        have hset := h.setContext hc hquiet
        have hc' : (β.setContext i c').contexts.lookup i = some c' := by
          rw [lookup_setContext, if_pos rfl]
        refine hset.contextFor hlimit hc' (hset.not_client hc' (hsame.state.trans hnew))
          (fun hbridge => ?_) fun j old hindex hold hwsi => ?_
        · obtain ⟨hzero, hnone, hroom⟩ := hclient hbridge
          refine ⟨(numIds_setContext hc hquiet.id id).trans hzero, hnone, fun t hlimited ht => ?_⟩
          rw [otherClients_setContext hc hquiet.clientOf]
          exact hroom t hlimited ht
        · rw [hsame.wsi] at hwsi
          have hj : j ≠ i := by
            intro hj
            subst hj
            rw [hc'] at hold
            cases hold
            exact (htake j c hindex hc (by rwa [hsame.wsi] at hwsi)).1 rfl
          rw [lookup_setContext, if_neg hj] at hold
          obtain ⟨-, hid, hroom⟩ := htake j old hindex hold hwsi
          refine ⟨hj, hid, fun t hlimited ht => ?_⟩
          rw [otherClients_setContext hc hquiet.clientOf]
          exact hroom t hlimited ht

/-! ### The other steps -/

theorem quiet_withState (h : β.Accounted settings) (hc : β.contexts.lookup i = some c)
    {state : ClientState} (hstate : state ≠ .new) : Quiet settings c (c.withState state) := by
  have hbridges : c.bridge.isSome = true → c.isBridge = true := h.bridges hc
  exact ⟨rfl, fun _ => rfl, fun _ => rfl, fun _ _ => hstate, hbridges⟩

theorem quiet_bridge {c' : Context} (hbridge : c.isBridge = true) (hbridge' : c'.isBridge = true)
    (hid : c'.id = c.id) : Quiet settings c c' := by
  refine ⟨hid, fun t => ?_, fun _ => hbridge'.trans hbridge.symm, fun hnot => ?_, fun _ => hbridge'⟩
  · rw [clientOf_eq_false (.inl hbridge), clientOf_eq_false (.inl hbridge')]
  · rw [hbridge'] at hnot
    cases hnot

theorem Accounted.handleConnack (h : β.Accounted settings) {code : Option UInt8} {sendOk : Bool} :
    (β.handleConnack settings env i code sendOk).2.Accounted settings := by
  unfold MqttBroker.handleConnack
  cases hc : β.contexts.lookup i with
  | none => exact h
  | some c =>
    have hconnected : (β.setContext i (c.withState .connected)).Accounted settings :=
      h.setContext hc (quiet_withState h hc nofun)
    simp only
    split
    · split
      · split
        · obtain ⟨hcontexts, hindex, hcounts⟩ := @dxlOnBridgeConnected_frame settings env β c
          have hannounced : (if c.isBridge then β.dxlOnBridgeConnected settings env c
              else β).Accounted settings := by
            split_ifs
            · exact h.congr hcontexts hindex hcounts
            · exact h
          refine hannounced.setContext ?_ (quiet_withState h hc nofun)
          split_ifs
          · rw [hcontexts, hc]
          · exact hc
        · split_ifs
          · exact h.congr dxlOnBridgeConnected_frame.1 dxlOnBridgeConnected_frame.2.1
              dxlOnBridgeConnected_frame.2.2
          · exact h
      · exact hconnected
    · exact h

theorem Accounted.handleDisconnect (h : β.Accounted settings) {command : UInt8}
    {remainingLength : ℕ} :
    (β.handleDisconnect settings env i command remainingLength).2.Accounted settings := by
  unfold MqttBroker.handleDisconnect
  cases hc : β.contexts.lookup i with
  | none => exact h
  | some c =>
    simp only
    split_ifs
    · exact h
    · exact h.contextDisconnect
    · have hquiet : Quiet settings c (c.withState .disconnecting) := quiet_withState h hc nofun
      exact (h.setContext hc hquiet).contextDisconnect

theorem Accounted.packetHandle (hlimit : connectionLimit settings ≠ 0) (h : β.Accounted settings)
    {packet : Packet}
    (hok : ∀ cenv command payload guid sendOk,
      packet = .connect cenv command payload guid sendOk →
      ∀ c, β.contexts.lookup i = some c → β.ConnectCountOk settings i c cenv command payload guid) :
    (β.packetHandle settings env i packet).2.Accounted settings := by
  cases packet with
  | connect cenv command payload guid sendOk =>
    exact h.handleConnect hlimit (hok cenv command payload guid sendOk rfl)
  | connack code sendOk => exact h.handleConnack
  | disconnect command remainingLength => exact h.handleDisconnect
  | other remainingLength rc => exact h

theorem Accounted.handleRead (hlimit : connectionLimit settings ≠ 0) (h : β.Accounted settings)
    {packet : Packet} {exceeds : Bool}
    (hok : ∀ cenv command payload guid sendOk,
      packet = .connect cenv command payload guid sendOk →
      ∀ c, β.contexts.lookup i = some c → β.ConnectCountOk settings i c cenv command payload guid) :
    (β.handleRead settings env i packet exceeds).Accounted settings := by
  have hread : (β.packetRead settings env i packet exceeds).2.Accounted settings := by
    unfold MqttBroker.packetRead
    split
    · exact h
    · split
      · exact h
      · split
        · rename_i hexceeds
          simp only
          split
          · refine h.contextDisconnect.packetHandle hlimit ?_
            rintro cenv command payload guid sendOk rfl
            simp [Packet.isConnect] at hexceeds
          · exact h.contextDisconnect
        · exact h.packetHandle hlimit hok
  unfold MqttBroker.handleRead
  simp only
  split_ifs
  · exact hread
  · exact hread.contextDisconnect

theorem Accounted.maintainBridge (h : β.Accounted settings) {timedOut : Bool}
    {ping : Option Bool} :
    (β.maintainBridge settings env i timedOut ping).Accounted settings := by
  unfold MqttBroker.maintainBridge
  cases hc : β.contexts.lookup i with
  | none => exact h
  | some c =>
    simp only
    cases hbridge : c.bridge with
    | none => exact h
    | some bridge =>
      have hisBridge : c.isBridge = true := h.bridges hc (by rw [hbridge]; rfl)
      simp only
      generalize hd : (if timedOut = true then c.socketClose else c) = d
      have hd' : d.isBridge = true ∧ d.id = c.id := by
        rw [← hd]
        unfold Context.socketClose
        split_ifs <;> exact ⟨hisBridge, rfl⟩
      have hset : (β.setContext i d).Accounted settings :=
        h.setContext hc (quiet_bridge hisBridge hd'.1 hd'.2)
      generalize hβ : (if d.sock = true then β.setContext i d
        else (β.setContext i d).dxlOnBridgeDisconnected settings env d) = β₁
      obtain ⟨hβ₁, hlookup⟩ : β₁.Accounted settings ∧ β₁.contexts.lookup i = some d := by
        rw [← hβ]
        obtain ⟨hcontexts, hindex, hcounts⟩ :=
          @dxlOnBridgeDisconnected_frame settings env (β.setContext i d) d
        split_ifs
        · exact ⟨hset, by rw [lookup_setContext, if_pos rfl]⟩
        · exact ⟨hset.congr hcontexts hindex hcounts,
            by rw [hcontexts, lookup_setContext, if_pos rfl]⟩
      unfold MqttBroker.checkPrimaryBridge
      split
      · split
        · exact hβ₁
        · obtain ⟨hcontexts, hindex, hcounts⟩ := @dxlOnBridgeDisconnected_frame settings env β₁ d
          have hclosed : d.socketClose.isBridge = true ∧ d.socketClose.id = d.id := by
            unfold Context.socketClose
            split_ifs <;> exact ⟨hd'.1, rfl⟩
          exact (hβ₁.congr hcontexts hindex hcounts).setContext (by rw [hcontexts, hlookup])
            (quiet_bridge hd'.1 hclosed.1 hclosed.2)
        · exact hβ₁.setContext hlookup (quiet_bridge hd'.1 hd'.1 rfl)
      · exact hβ₁

theorem Accounted.restartBridge (h : β.Accounted settings) (hc : β.contexts.lookup i = some c)
    (hbridge : c.bridge.isSome = true) {next : Bool} {connect : Option Bool} :
    (β.restartBridge i next connect).Accounted settings := by
  have hisBridge : c.isBridge = true := h.bridges hc hbridge
  unfold MqttBroker.restartBridge
  rw [hc]
  simp only
  generalize hd : (if next = true then _ else c) = d
  have hd' : d.isBridge = true ∧ d.id = c.id := by
    rw [← hd]
    split_ifs <;> exact ⟨hisBridge, rfl⟩
  split
  · exact h.setContext hc (quiet_bridge hisBridge hd'.1 hd'.2)
  · exact h.setContext hc (quiet_bridge hisBridge hd'.1 hd'.2)

/-- A new context is not that of a client, and does not have the identifier of one. -/
theorem Accounted.addContext (h : β.Accounted settings) (hnot : c.isBridge = true ∨ c.id = none)
    (hid : ∀ k d, β.contexts.lookup k = some d → d.isBridge = false → d.id ≠ none → c.id ≠ d.id)
    (hbridges : c.bridge.isSome = true → c.isBridge = true) :
    (β.addContext i c).Accounted settings := by
  unfold MqttBroker.addContext
  split_ifs with hfree
  · have hcount : ∀ p : Context → Bool, (β.setContext i c).contexts.countVals p =
        β.contexts.countVals p + if p c then 1 else 0 := Map.countVals_insert hfree.2 c
    have hclients : ∀ t, (β.setContext i c).connectedClients settings t =
        β.connectedClients settings t := by
      intro t
      rw [connectedClients, hcount, clientOf_eq_false hnot]
      rfl
    refine ⟨fun t => ?_, fun t => ?_, fun {k d id} hd hbridge hx => ?_,
      fun {k d} hd hbridge hx => ?_, fun {k d} hd hbridge => ?_⟩
    · rw [hclients]
      exact h.recorded t
    · rw [hclients]
      exact h.limit t
    · rw [lookup_setContext] at hd
      split_ifs at hd
      · cases hd
        rcases hnot with hnot | hnot
        · cases hbridge.symm.trans hnot
        · cases hx.symm.trans hnot
      · have hne : c.id ≠ some id := hx ▸ hid k d hd hbridge (by rw [hx]; nofun)
        rw [numIds, hcount, if_neg (by simpa using hne)]
        exact h.indexed hd hbridge hx
    · rw [lookup_setContext] at hd
      split_ifs at hd
      · cases hd
        rcases hnot with hnot | hnot
        · cases hbridge.symm.trans hnot
        · exact absurd hnot hx
      · exact h.opened hd hbridge hx
    · rw [lookup_setContext] at hd
      split_ifs at hd
      · cases hd
        exact hbridges hbridge
      · exact h.bridges hd hbridge
  · exact h

theorem Accounted.certificate (h : β.Accounted settings) (hc : β.contexts.lookup i = some c)
    (hnew : c.state = .new) {bytesExceeded : Bytes → Bool} {cert : Certificate} :
    (β.processClientCertificate settings bytesExceeded i cert).2.Accounted settings := by
  obtain ⟨c', hsame, hset⟩ :=
    @processClientCertificate_frame settings β c i bytesExceeded cert hc
  rw [hset]
  exact h.setContext hc (quiet_parsed h hc hnew
    ⟨hsame.state, hsame.sock, hsame.wsi, hsame.bridge, hsame.id, hsame.isBridge.trans⟩)

theorem Accounted.wsDestroy (h : β.Accounted settings) :
    (β.step settings env (.wsDestroy i)).Accounted settings := by
  have hdestroy : ∀ {β' : MqttBroker} {d : Context}, β'.Accounted settings →
      β'.contexts.lookup i = some d →
      (β'.setContext i { d with wsi := false }).Accounted settings := by
    intro β' d h' hd
    have hopened : d.isBridge = false → d.id ≠ none → d.state ≠ .new := h'.opened hd
    have hbridges : d.bridge.isSome = true → d.isBridge = true := h'.bridges hd
    exact h'.setContext hd ⟨rfl, fun _ => rfl, fun _ => rfl, hopened, hbridges⟩
  unfold step
  simp only
  cases hc : β.contexts.lookup i with
  | none => exact h
  | some c =>
    simp only
    generalize hβ : (if (c.wsi && decide (c.state ≠ .wsDead)) = true then
      β.contextDisconnect settings env i else β) = β₁
    have hβ₁ : β₁.Accounted settings := by
      rw [← hβ]
      split_ifs
      · exact h.contextDisconnect
      · exact h
    split
    · exact hβ₁
    · rename_i d hd
      exact hdestroy hβ₁ hd

/-- One step. -/
theorem Accounted.step (hlimit : connectionLimit settings ≠ 0) (h : β.Accounted settings) {st : Step}
    (hok : β.CountingOk settings env st) : (β.step settings env st).Accounted settings := by
  cases st with
  | accept i wsi =>
    refine h.addContext (.inr rfl) (fun k d hd hbridge hid hsame => hid hsame.symm) nofun
  | certificate i bytesExceeded cert =>
    unfold MqttBroker.step
    refine whenContext_cases (P := Accounted settings) h fun c hc hp => ?_
    simp only [decide_eq_true_eq] at hp
    have hread : (β.processClientCertificate settings bytesExceeded i cert).2.Accounted settings :=
      h.certificate hc hp.1
    show (if _ then _ else _ : MqttBroker).Accounted settings
    split_ifs
    · exact hread
    · exact hread.contextDisconnect
  | read i packet exceeds =>
    refine whenContext_cases (P := Accounted settings) h fun c hc hp => h.handleRead hlimit ?_
    rintro cenv command payload guid sendOk rfl d hd
    cases hc.symm.trans hd
    exact hok c hc hp
  | drop i => exact whenContext_cases (P := Accounted settings) h fun c hc hp => h.contextDisconnect
  | forceDisconnect i => exact h.contextDisconnect
  | wsDestroy i => exact h.wsDestroy
  | maintainBridge i timedOut ping =>
    exact whenContext_cases (P := Accounted settings) h fun c hc hp => h.maintainBridge
  | restartBridge i next connect =>
    refine whenContext_cases (P := Accounted settings) h fun c hc hp => ?_
    rw [Bool.and_eq_true] at hp
    exact h.restartBridge hc hp.2
  | cleanSession i =>
    exact whenContext_cases (P := Accounted settings) h fun c hc hp => h.contextFree hlimit
  | bridgeNew i id bridge =>
    exact h.addContext (.inl rfl) (fun k d hd hbridge _ => (hok k d hd hbridge).symm) fun _ => rfl
  | clearBridge i =>
    unfold MqttBroker.step
    refine whenContext_cases (P := Accounted settings) h fun c hc hp => ?_
    exact Accounted.contextFree hlimit h.contextDisconnect

theorem Reached.accounted (hlimit : connectionLimit settings ≠ 0)
    (h : Reached settings (CountingOk settings) β) : β.Accounted settings := by
  induction h with
  | init hlocal hempty =>
    exact ⟨fun t => rfl, fun t => .inl rfl, fun hd => (nomatch hd), fun hd => (nomatch hd),
      fun hd => (nomatch hd)⟩
  | step h env st hok ih => exact ih.step hlimit hok
  | other h hlocal ih => exact ih.congr rfl rfl rfl

theorem toInt_le_toNat (n : UInt32) : n.toInt32.toInt ≤ n.toNat := by
  have h : n.toInt32.toInt = n.toBitVec.toInt := rfl
  rw [h, BitVec.toInt_eq_toNat_cond, UInt32.toNat]
  split_ifs <;> omega

theorem openClients_le (t : Bytes) :
    β.openClients settings t ≤ β.connectedClients settings t := by
  refine List.countP_mono_left fun e _ he => ?_
  rw [Bool.and_eq_true] at he
  exact he.1

/-- **The connections of a tenant.**  With a limit, and as long as every CONNECT packet of a client
finds fewer other clients of its tenant than the limit, no tenant has more connected clients, and the
recorded number is theirs. -/
theorem Reached.connections_counted (hlimit : settings.tenantConnectionLimit ≠ 0)
    (h : Reached settings (CountingOk settings) β) (t : Bytes) :
    β.connectedClients settings t ≤ settings.tenantConnectionLimit.toNat ∧
      β.openClients settings t ≤ settings.tenantConnectionLimit.toNat ∧
      β.recordedConnections t = β.connectedClients settings t := by
  have haccounted := h.accounted (limit_ne_zero hlimit)
  have hle : β.connectedClients settings t ≤ settings.tenantConnectionLimit.toNat := by
    rcases haccounted.limit t with hzero | hle
    · rw [hzero]
      exact Nat.zero_le _
    · have hsigned : connectionLimit settings ≤ settings.tenantConnectionLimit.toNat :=
        toInt_le_toNat settings.tenantConnectionLimit
      omega
  exact ⟨hle, (openClients_le t).trans hle, haccounted.recorded t⟩

/-- A tenant may have one connection. -/
def oneConnection : BrokerSettings where
  guid := lit "L"
  tenantGuid := lit "O"
  multiTenantModeEnabled := true
  tenantConnectionLimit := 1

/-- Two clients of a tenant pass the check of their certificates. -/
def shaken : MqttBroker :=
  [Step.accept 0 false, .accept 1 false,
    .certificate 0 (fun _ => false) { sha1 := lit "a", tenantGuids := [lit "T"] },
    .certificate 1 (fun _ => false) { sha1 := lit "b", tenantGuids := [lit "T"] }].foldl
    (step oneConnection BrokerRegistry.steadyEnv) started

/-- The context of the first one then. -/
def shakenClient : Context where
  sock := true
  tenantGuid := some (lit "T")
  certHashes := [lit "a"]

/-- The CONNECT packet of a client that is given the identifier. -/
def connectStep (i : ℕ) (guid : Bytes) : Step :=
  .read i (.connect { isBrokerCert := fun _ => false, maxConnectCount := 0 } 0x10
    ([0, 4] ++ lit "MQTT" ++ [4, 2, 0, 60, 0, 0]) guid true) false

theorem reached_shaken {Ok : MqttBroker → RegistryEnv → Step → Prop}
    (haccept : ∀ β i, Ok β BrokerRegistry.steadyEnv (.accept i false))
    (hcert : ∀ β i cert, Ok β BrokerRegistry.steadyEnv (.certificate i (fun _ => false) cert)) :
    Reached oneConnection Ok shaken := by
  refine Reached.foldl (.init rfl rfl) fun β st hst => ?_
  fin_cases hst
  · exact haccept β 0
  · exact haccept β 1
  · exact hcert β 0 _
  · exact hcert β 1 _

/-- The first client connects. -/
def connectedOnce : MqttBroker :=
  shaken.step oneConnection BrokerRegistry.steadyEnv (connectStep 0 (lit "x"))

/-- The second one connects. -/
def connectedTwice : MqttBroker :=
  connectedOnce.step oneConnection BrokerRegistry.steadyEnv (connectStep 1 (lit "y"))

theorem connectPacket_shakenClient :
    connectPacket oneConnection { isBrokerCert := fun _ => false, maxConnectCount := 0 } shakenClient
      0 0x10 ([0, 4] ++ lit "MQTT" ++ [4, 2, 0, 60, 0, 0]) (lit "x") =
      .ok ({ shakenClient with protocol311 := true }, lit "a:x") := by
  decide +kernel

theorem connectedOnce_counted :
    Reached oneConnection (CountingOk oneConnection) connectedOnce ∧
    connectedOnce.connectedClients oneConnection (lit "T") = 1 ∧
    ∀ t, connectedOnce.connectedClients oneConnection t ≤ 1 ∧
      connectedOnce.openClients oneConnection t ≤ 1 ∧
      connectedOnce.recordedConnections t = connectedOnce.connectedClients oneConnection t := by
  have h : Reached oneConnection (CountingOk oneConnection) connectedOnce := by
    refine .step (reached_shaken (fun _ _ => trivial) fun _ _ _ => trivial) _ _ ?_
    intro c hc _ _ c' id hpacket
    have hc' : shaken.contexts.lookup 0 = some shakenClient := by decide
    cases hc'.symm.trans hc
    obtain ⟨rfl, rfl⟩ := Prod.mk.inj (Except.ok.inj (connectPacket_shakenClient.symm.trans hpacket))
    refine ⟨fun _ => ⟨by decide, rfl, fun t _ ht => ?_⟩, fun j old hj => (nomatch hj)⟩
    cases ht
    decide
  exact ⟨h, by decide, h.connections_counted (by decide)⟩

/-- Both clients passed the check before one of them was counted. -/
theorem connectedTwice_exceeds :
    Reached oneConnection (fun _ _ _ => True) connectedTwice ∧
    oneConnection.tenantConnectionLimit = 1 ∧
    connectedTwice.openClients oneConnection (lit "T") = 2 ∧
    connectedTwice.connectedClients oneConnection (lit "T") = 2 ∧
    connectedTwice.recordedConnections (lit "T") = 1 :=
  ⟨.step (.step (reached_shaken (fun _ _ => trivial) fun _ _ _ => trivial) _ _ trivial) _ _ trivial,
    rfl, by decide, by decide, by decide⟩

end MqttBroker

end DxlBroker
