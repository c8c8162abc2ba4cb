import DxlBroker.Core.Settings
import DxlBroker.Message.DxlMessage

/-!
# Source fields of stored messages

`setDxlMessageFields` is run on every DXL message before any handler sees it.  For a message of a
local client it writes the source fields and the `dxl.certs` field; in multi-tenant mode it also
applies the tenant rules.

`setOtherField` inserts into a hash map, and an insert keeps what is there: a `dxl.certs` field of
the client's own stays.  `carriesSource_iff` says for which messages that changes the result.
-/

namespace DxlBroker

open Bytes Msgpack Unordered

/-- `CoreMessageContext`: what the broker knows about one message while it is handled. -/
structure CoreMessageContext where
  sourceId : Bytes
  canonicalSourceId : Bytes
  isSourceBridge : Bool
  contextFlags : UInt8
  topic : Bytes
  messageInsertEnabled : Bool := true
  serviceNotFoundEnabled : Bool := true
  destCount : ℕ := 0

namespace CoreMessageContext

def isSourceOps (ctx : CoreMessageContext) : Bool := ctx.contextFlags &&& dxlFlagOps != 0

/-- Whether the message was stored by the broker itself. -/
def isLocalBrokerSource (ctx : CoreMessageContext) (s : BrokerSettings) : Bool :=
  cstr ctx.sourceId == cstr s.guid

end CoreMessageContext

/-- The name of the field with the client's certificate chain. -/
def dxlCerts : Bytes := lit "dxl.certs"

/-- The field writes for a message of a local client. -/
def setClientFields (s : BrokerSettings) (ctx : CoreMessageContext) (m : DxlMessage)
    (certChain : Option Bytes) : DxlMessage :=
  let m := m.setSourceBrokerGuid s.guid
  let m := m.setSourceClientId ctx.canonicalSourceId
  let m := m.setSourceClientInstanceId ctx.sourceId
  let m := m.setOtherField dxlCerts (cstr (certChain.getD []))
  if ¬ s.multiTenantModeEnabled ∧ 0 < (cstr m.msg.sourceTenantGuid).length then
    m.setSourceTenantGuid []
  else m

/-- The destination tenants a message of another tenant may name: its own and the ops tenant. -/
def destTenantsAllowed (s : BrokerSettings) (ctx : CoreMessageContext) (sourceTenantGuid : Bytes)
    (m : DxlMessage) : Except String Bool :=
  match m.getDestinationTenantGuids with
  | none => .ok true
  | some guids =>
      if ctx.isSourceOps then .ok true
      else do
        let opsTenantGuid ← s.getTenantGuid
        return guids.all fun guid => guid == cstr sourceTenantGuid || guid == opsTenantGuid

/-- `setDxlMessageFields`: whether the message is propagated, with the context and the message it
leaves behind (an error leaves the writes made before it). -/
def setDxlMessageFields (s : BrokerSettings) (ctx : CoreMessageContext) (sourceTenantGuid : Bytes)
    (m : DxlMessage) (certChain : Option Bytes) :
    Except String Bool × CoreMessageContext × DxlMessage :=
  if ¬ ctx.isSourceBridge then
    let m := setClientFields s ctx m certChain
    if s.multiTenantModeEnabled then
      let m := m.setSourceTenantGuid sourceTenantGuid
      (destTenantsAllowed s ctx sourceTenantGuid m, ctx, m)
    else (.ok true, ctx, m)
  else if s.multiTenantModeEnabled then
    match s.getTenantGuid with
    | .error e => (.error e, ctx, m)
    | .ok opsTenantGuid =>
        -- A message of the ops tenant has the ops flag at every broker.
        if opsTenantGuid = cstr m.msg.sourceTenantGuid then
          (.ok true, { ctx with contextFlags := ctx.contextFlags ||| dxlFlagOps }, m)
        else (.ok true, ctx, m)
  else (.ok true, ctx, m)

/-- The bytes a stored message is re-serialized to after the field writes. -/
def reserialize (c : Codec) (order : IterOrder (Bytes × Bytes)) (s : BrokerSettings)
    (ctx : CoreMessageContext) (sourceTenantGuid : Bytes) (certChain : Option Bytes)
    (m : DxlMessageT) : Option Bytes :=
  ((setDxlMessageFields s ctx sourceTenantGuid { msg := m } certChain).2.2.toBytes c order false).2

/-- The message carries the true source of a client's message: the local broker, the ids of the
context, and one field with the certificate chain. -/
structure CarriesSource (s : BrokerSettings) (ctx : CoreMessageContext) (certChain : Option Bytes)
    (m : DxlMessageT) : Prop where
  sourceBrokerGuid : m.sourceBrokerGuid = cstr s.guid
  sourceClientId : m.sourceClientId = cstr ctx.canonicalSourceId
  sourceClientInstanceId : m.sourceClientInstanceId = cstr ctx.sourceId
  even : m.otherFields.length % 2 = 0
  certs : (DxlMessage.fieldPairs m.otherFields).filter (fun p => p.1 = dxlCerts) =
    [(dxlCerts, cstr (certChain.getD []))]

/-- The `dxl.certs` field that the sender put into an array of other fields, if any. -/
def suppliedCerts (otherFields : List Bytes) : Option Bytes :=
  if otherFields.length % 2 = 0 then
    ((DxlMessage.fieldPairs otherFields).find? fun p => p.1 = dxlCerts).map Prod.snd
  else none

/-! ### What the field writes leave behind -/

theorem fieldPairs_nulFree (l : List Bytes) {p : Bytes × Bytes}
    (h : p ∈ DxlMessage.fieldPairs l) : cstr p.1 = p.1 ∧ cstr p.2 = p.2 := by
  induction l using DxlMessage.fieldPairs.induct with
  | case1 name value l ih =>
    rw [DxlMessage.fieldPairs, List.mem_cons] at h
    rcases h with rfl | h
    · exact ⟨cstr_cstr _, cstr_cstr _⟩
    · exact ih h
  | case2 l hl =>
    rw [DxlMessage.fieldPairs] at h
    · cases h
    · exact hl

theorem fieldPairs_flatMap (l : List (Bytes × Bytes)) :
    DxlMessage.fieldPairs (l.flatMap fun p => [p.1, p.2]) =
      l.map fun p => (cstr p.1, cstr p.2) := by
  induction l with
  | nil => rfl
  | cons p l ih => simp [DxlMessage.fieldPairs, ih]

theorem length_flatMap_pair (l : List (Bytes × Bytes)) :
    (l.flatMap fun p => [cstr p.1, cstr p.2]).length = 2 * l.length := by
  induction l with
  | nil => rfl
  | cons p l ih => simp [ih]; omega

/-- The fields a client's message has in the end: its own ones and `dxl.certs`. -/
def finalFields (otherFields : List Bytes) (chain : Bytes) : Map Bytes Bytes :=
  (if 0 < otherFields.length ∧ otherFields.length % 2 = 0 then
    Map.ofPairs (DxlMessage.fieldPairs otherFields) else ∅).emplace dxlCerts chain

theorem finalFields_nulFree (otherFields : List Bytes) {chain : Bytes} (hc : cstr chain = chain)
    {p : Bytes × Bytes} (h : p ∈ (finalFields otherFields chain).pairs) :
    cstr p.1 = p.1 ∧ cstr p.2 = p.2 := by
  rcases Map.mem_pairs_emplace h with h | rfl
  · split_ifs at h
    · exact fieldPairs_nulFree _ (Map.mem_of_mem_pairs_ofPairs h)
    · cases h
  · exact ⟨rfl, hc⟩

/-- An insert keeps the field that the sender supplied. -/
theorem lookup_finalFields (otherFields : List Bytes) (chain : Bytes) :
    (finalFields otherFields chain).lookup dxlCerts =
      some ((suppliedCerts otherFields).getD chain) := by
  rw [finalFields, Map.lookup_emplace_self, suppliedCerts]
  by_cases heven : otherFields.length % 2 = 0
  · cases otherFields with
    | nil => rfl
    | cons a l =>
      rw [if_pos ⟨Nat.succ_pos _, heven⟩, if_pos heven, Map.lookup_ofPairs]
  · rw [if_neg (fun h => heven h.2), if_neg heven]
    rfl

/-- A message of a local client after the field writes. -/
structure ClientFields (s : BrokerSettings) (ctx : CoreMessageContext) (chain : Bytes)
    (m : DxlMessageT) (m' : DxlMessage) : Prop where
  version : m'.msg.version = m.version
  payload : m'.msg.payload = m.payload
  sourceBrokerGuid : m'.msg.sourceBrokerGuid = cstr s.guid
  sourceClientId : m'.msg.sourceClientId = cstr ctx.canonicalSourceId
  sourceClientInstanceId : m'.msg.sourceClientInstanceId = cstr ctx.sourceId
  otherFields : m'.otherFields = some (finalFields m.otherFields chain)
  pending : m'.otherFieldsPending = true

theorem setOtherField_fresh (m : DxlMessage) (h : m.otherFields = none) (chain : Bytes) :
    (m.setOtherField dxlCerts chain).otherFields = some (finalFields m.msg.otherFields chain) ∧
      (m.setOtherField dxlCerts chain).msg = m.msg := by
  rw [DxlMessage.setOtherField, DxlMessage.getOtherFields, h, finalFields]
  split_ifs
  · exact ⟨rfl, rfl⟩
  · simp [h]

theorem setClientFields_spec (s : BrokerSettings) (ctx : CoreMessageContext) (m : DxlMessageT)
    (certChain : Option Bytes) :
    ClientFields s ctx (cstr (certChain.getD [])) m
      (setClientFields s ctx { msg := m } certChain) := by
  obtain ⟨hfields, hmsg⟩ := setOtherField_fresh
    (((({ msg := m } : DxlMessage).setSourceBrokerGuid s.guid).setSourceClientId
      ctx.canonicalSourceId).setSourceClientInstanceId ctx.sourceId) rfl (cstr (certChain.getD []))
  unfold setClientFields
  simp only
  split_ifs
  all_goals
    exact ⟨(congrArg DxlMessageT.version hmsg :), (congrArg DxlMessageT.payload hmsg :),
      (congrArg DxlMessageT.sourceBrokerGuid hmsg :), (congrArg DxlMessageT.sourceClientId hmsg :),
      (congrArg DxlMessageT.sourceClientInstanceId hmsg :), hfields, rfl⟩

theorem setDxlMessageFields_client {s : BrokerSettings} {ctx : CoreMessageContext}
    (hctx : ctx.isSourceBridge = false) (sourceTenantGuid : Bytes) (m : DxlMessageT)
    (certChain : Option Bytes) :
    ClientFields s ctx (cstr (certChain.getD [])) m
      (setDxlMessageFields s ctx sourceTenantGuid { msg := m } certChain).2.2 := by
  have h := setClientFields_spec s ctx m certChain
  unfold setDxlMessageFields
  simp only [hctx]
  cases s.multiTenantModeEnabled
  · exact h
  · exact { h with }

theorem ClientFields.onPreToBytes {s : BrokerSettings} {ctx : CoreMessageContext} {chain : Bytes}
    {m : DxlMessageT} {m' : DxlMessage} (h : ClientFields s ctx chain m m')
    (order : IterOrder (Bytes × Bytes)) :
    (m'.onPreToBytes order).msg =
      { m'.msg with
        otherFields := (order.arrange (finalFields m.otherFields chain).pairs).flatMap
          fun p => [cstr p.1, cstr p.2] } := by
  have hpos : 0 < (finalFields m.otherFields chain).pairs.length := by
    have hmem : (dxlCerts, (suppliedCerts m.otherFields).getD chain) ∈
        (finalFields m.otherFields chain).pairs :=
      Map.mem_pairs.mpr (lookup_finalFields m.otherFields chain)
    exact List.length_pos_of_mem hmem
  rw [DxlMessage.onPreToBytes, if_pos h.pending]
  simp only [h.otherFields, if_pos hpos]

/-- The pairs that a reader of the re-serialized message finds are those of the hash map. -/
theorem fieldPairs_arrange (order : IterOrder (Bytes × Bytes)) (otherFields : List Bytes)
    {chain : Bytes} (hc : cstr chain = chain) :
    DxlMessage.fieldPairs (((order.arrange (finalFields otherFields chain).pairs).flatMap
      fun p => [cstr p.1, cstr p.2]).map cstr) =
      order.arrange (finalFields otherFields chain).pairs := by
  have hid : ∀ p ∈ order.arrange (finalFields otherFields chain).pairs,
      (cstr p.1, cstr p.2) = p := fun p hp => by
    obtain ⟨h1, h2⟩ := finalFields_nulFree otherFields hc (order.mem_arrange.mp hp)
    rw [h1, h2]
  have hmap : ((order.arrange (finalFields otherFields chain).pairs).flatMap
      fun p => [cstr p.1, cstr p.2]).map cstr =
      (order.arrange (finalFields otherFields chain).pairs).flatMap fun p => [p.1, p.2] := by
    rw [List.map_flatMap]
    refine List.flatMap_congr fun p hp => ?_
    have := hid p hp
    simp [Prod.ext_iff] at this
    simp [this]
  rw [hmap, fieldPairs_flatMap]
  conv_rhs => rw [← List.map_id (order.arrange _)]
  exact List.map_congr_left hid

/-- **A local client's message carries its true source** (the local broker, the ids of the context
and one `dxl.certs` field with the certificate chain) if and only if the client supplied no
`dxl.certs` field of its own, or supplied the right one.  The message is shorter than the limit
below which the library reads back what it wrote. -/
theorem carriesSource_iff {c : Codec} {limit : ℕ∞} (hc : c.LawfulBelow limit) {b : Bytes}
    {m : DxlMessageT} (hdecode : createDxlMessageFromBytes c b = .ok m)
    (order : IterOrder (Bytes × Bytes)) (s : BrokerSettings) (ctx : CoreMessageContext)
    (hctx : ctx.isSourceBridge = false) (sourceTenantGuid : Bytes) (certChain : Option Bytes)
    (hshort : ∀ bytes, reserialize c order s ctx sourceTenantGuid certChain m = some bytes →
      (bytes.length : ℕ∞) < limit) :
    (∃ bytes m', reserialize c order s ctx sourceTenantGuid certChain m = some bytes ∧
      createDxlMessageFromBytes c bytes = .ok m' ∧ CarriesSource s ctx certChain m') ↔
    ∀ v, suppliedCerts m.otherFields = some v → v = cstr (certChain.getD []) := by
  obtain ⟨_, -, hm⟩ := fromBytes_spec hdecode
  obtain ⟨payload, hpayload⟩ := hm.payload
  have hfields := setDxlMessageFields_client (s := s) hctx sourceTenantGuid m certChain
  set chain := cstr (certChain.getD []) with hchain
  have hnul : cstr chain = chain := by rw [hchain, cstr_cstr]
  have hmsg := hfields.onPreToBytes order
  set m' := (setDxlMessageFields s ctx sourceTenantGuid { msg := m } certChain).2.2
  obtain ⟨bytes, hencode⟩ := exists_toBytes c
    (show (m'.onPreToBytes order).msg.payload = .buf payload by
      rw [hmsg]
      exact hfields.payload.trans hpayload) false
  have hres : reserialize c order s ctx sourceTenantGuid certChain m = some bytes := hencode
  have hdec := readsBack_of_lt hc (hshort bytes hres) (m'.onPreToBytes order).msg false
    (by rw [hmsg]; exact hfields.version.trans hm.version) hencode
  -- The `dxl.certs` fields that a reader finds.
  have hcerts : (DxlMessage.fieldPairs
      (((m'.onPreToBytes order).msg.strip false).norm.otherFields)).filter
        (fun p => p.1 = dxlCerts) = [(dxlCerts, (suppliedCerts m.otherFields).getD chain)] := by
    rw [hmsg]
    show (DxlMessage.fieldPairs (((order.arrange (finalFields m.otherFields chain).pairs).flatMap
      fun p => [cstr p.1, cstr p.2]).map cstr)).filter _ = _
    rw [fieldPairs_arrange order _ hnul]
    apply List.perm_singleton.mp
    refine ((order.perm _).filter _).trans ?_
    rw [Map.filter_pairs, lookup_finalFields]
    rfl
  constructor
  · rintro ⟨bytes', m'', hb, hd, hsource⟩ v hv
    rw [hres, Option.some.injEq] at hb
    rw [← hb, hdec, Except.ok.injEq] at hd
    have := hsource.certs
    rw [← hd, hcerts, hv] at this
    simpa using this
  · intro hv
    refine ⟨bytes, _, hres, hdec, ?_⟩
    have hvalue : (suppliedCerts m.otherFields).getD chain = chain := by
      cases h : suppliedCerts m.otherFields with
      | none => rfl
      | some v => exact hv v h
    rw [hvalue] at hcerts
    refine ⟨?_, ?_, ?_, ?_, hcerts⟩
    · rw [hmsg]
      show cstr m'.msg.sourceBrokerGuid = _
      rw [hfields.sourceBrokerGuid, cstr_cstr]
    · rw [hmsg]
      show cstr m'.msg.sourceClientId = _
      rw [hfields.sourceClientId, cstr_cstr]
    · rw [hmsg]
      show cstr m'.msg.sourceClientInstanceId = _
      rw [hfields.sourceClientInstanceId, cstr_cstr]
    · rw [hmsg]
      show (((order.arrange _).flatMap fun p => [cstr p.1, cstr p.2]).map cstr).length % 2 = 0
      rw [List.length_map, length_flatMap_pair]
      exact Nat.mul_mod_right 2 _

/-- An event whose only other field is a forged `dxl.certs`. -/
def forgedCertsEvent : Bytes :=
  [0x03, 0x02, 0xa1, 0x65, 0xa0, 0xa0, 0x90, 0x90, 0xa0, 0x92, 0xa9] ++ dxlCerts ++
    [0xa1, 0x78, 0xa0, 0x90, 0xa0]

/-- A local client with the canonical id `c` that publishes on the topic `t`. -/
def clientContext : CoreMessageContext where
  sourceId := lit "c:1"
  canonicalSourceId := lit "c"
  isSourceBridge := false
  contextFlags := 0
  topic := lit "t"

/-- An on-premise broker. -/
def onPremise : BrokerSettings where
  guid := lit "b"

/-- The forged field survives: the re-serialized message does not carry the (empty) chain. -/
theorem forgedCertsEvent_survives :
    ∃ m, createDxlMessageFromBytes msgpackC forgedCertsEvent = .ok m ∧
      ¬ ∃ bytes m', reserialize msgpackC (.asListed _) onPremise clientContext [] none m =
          some bytes ∧ createDxlMessageFromBytes msgpackC bytes = .ok m' ∧
          CarriesSource onPremise clientContext none m' := by
  refine ⟨{ createDxlMessage .event [] [] (lit "e") with otherFields := [dxlCerts, lit "x"] },
    rfl, ?_⟩
  rintro ⟨bytes, m', hb, hd, hsource⟩
  cases hb
  cases hd
  exact absurd hsource.certs (by decide)

/-- An event with forged source fields and another field of the client's own. -/
def labelledEvent : Bytes :=
  [0x03, 0x02, 0xa1, 0x65, 0xa1, 0x78, 0xa1, 0x79, 0x90, 0x90, 0xa1, 0x70, 0x92, 0xa1, 0x6b, 0xa1,
    0x76, 0xa0, 0x90, 0xa1, 0x7a]

/-- What the broker reads of it. -/
def labelledMessage : DxlMessageT :=
  { createDxlMessage .event (lit "x") [] (lit "e") with
    sourceBrokerGuid := lit "y"
    payload := .buf (lit "p")
    otherFields := [lit "k", lit "v"]
    sourceClientInstanceId := lit "z" }

theorem carriesSource_labelledEvent :
    ∃ bytes m', reserialize msgpackC (.asListed _) onPremise clientContext [] (some (lit "chain"))
        labelledMessage = some bytes ∧
      createDxlMessageFromBytes msgpackC bytes = .ok m' ∧
      CarriesSource onPremise clientContext (some (lit "chain")) m' := by
  have hdecode : createDxlMessageFromBytes msgpackC labelledEvent = .ok labelledMessage := rfl
  have hnone : suppliedCerts labelledMessage.otherFields = none := by decide
  refine (carriesSource_iff msgpackC_lawful32.lawfulBelow hdecode (.asListed _) onPremise
    clientContext rfl [] (some (lit "chain")) fun bytes hbytes => ?_).mpr fun v hv => ?_
  · cases hbytes
    exact_mod_cast (show _ < 2 ^ 32 by decide)
  · rw [hnone] at hv
    cases hv

end DxlBroker
