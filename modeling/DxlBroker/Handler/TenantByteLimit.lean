import DxlBroker.Handler.TopicHandlers
import DxlBroker.Service.RegistryRuns

/-!
# The byte limit of a tenant

The bytes that were sent to the clients of a tenant are counted in 32 bits until the count is above
the limit.  A tenant that is above its limit at another broker is marked here by a count of one above
the limit.  Both sums are cut to 32 bits: a count that goes past `2 ^ 32` begins again at zero, and
with the largest limit the mark is zero.
-/

namespace DxlBroker

open Bytes Unordered

namespace BrokerCore

section

variable (settings : BrokerSettings) (env : ServiceEnv) (writeByteLimit : Bytes → Bytes)

/-- `sendLimitExceededEvent` for the byte limit. -/
def sendByteLimitExceededEvent (tenantId : Bytes) (core : BrokerCore) : BrokerCore :=
  core.send env channelDxlTenantLimitExceededEvent
    ((env.createEvent settings).setPayload (writeByteLimit (cstr tenantId)))

/-- `updateTenantSentByteCount`: whether the tenant is above its limit. -/
def updateTenantSentByteCount (tenantId : Bytes) (byteCount : UInt32) (core : BrokerCore) :
    Bool × BrokerCore :=
  let limit := settings.tenantByteLimit
  if limit = 0 then (false, core)
  else
    let res : UInt32 × UInt32 × BrokerCore :=
      match core.sentBytesPerTenant.lookup (cstr tenantId) with
      | none => (0, byteCount, { core with
          sentBytesPerTenant := core.sentBytesPerTenant.insert (cstr tenantId) byteCount })
      | some oldTotal =>
          -- Increment if not already exceeding
          if oldTotal ≤ limit then
            (oldTotal, oldTotal + byteCount, { core with
              sentBytesPerTenant :=
                core.sentBytesPerTenant.insert (cstr tenantId) (oldTotal + byteCount) })
          else (oldTotal, oldTotal, core)
    let exceeded := limit < res.2.1
    (exceeded, if res.1 ≠ res.2.1 ∧ exceeded then
      res.2.2.sendByteLimitExceededEvent settings env writeByteLimit tenantId else res.2.2)

/-- `resetTenantByteCounts` -/
def resetTenantByteCounts (core : BrokerCore) : BrokerCore :=
  { core with sentBytesPerTenant := ∅ }

/-- What is done to the counts. -/
inductive ByteOp
  | update (tenantId : Bytes) (byteCount : UInt32)
  | mark (tenantId : Bytes)
  | reset

def byteStep (core : BrokerCore) : ByteOp → BrokerCore
  | .update tenantId byteCount =>
      (core.updateTenantSentByteCount settings env writeByteLimit tenantId byteCount).2
  | .mark tenantId => core.markTenantExceedsByteCount settings tenantId
  | .reset => core.resetTenantByteCounts

def byteRun (ops : List ByteOp) (core : BrokerCore) : BrokerCore :=
  ops.foldl (byteStep settings env writeByteLimit) core

end

/-! ### What the answers should be -/

/-- The sum of the byte counts of a tenant since the last reset. -/
def sentSinceReset (tenant : Bytes) (ops : List ByteOp) : ℕ :=
  ops.foldl (fun sum op => match op with
    | .update tenantId byteCount => if cstr tenantId = tenant then sum + byteCount.toNat else sum
    | .mark _ => sum
    | .reset => 0) 0

/-- Whether a tenant was marked since the last reset. -/
def markedSinceReset (tenant : Bytes) (ops : List ByteOp) : Bool :=
  ops.foldl (fun marked op => match op with
    | .update _ _ => marked
    | .mark tenantId => marked || cstr tenantId == tenant
    | .reset => false) false

/-- Something holds of every update of a run and the calls before it. -/
def AtUpdates (P : List ByteOp → Bytes → UInt32 → Prop) (ops : List ByteOp) : Prop :=
  ∀ before tenantId byteCount after, ops = before ++ .update tenantId byteCount :: after →
    P before tenantId byteCount

section

variable (settings : BrokerSettings) (env : ServiceEnv) (writeByteLimit : Bytes → Bytes)

/-- An update of a tenant with some sum and mark so far: it is above the limit when the sum is or
when it is marked, and the event is sent when the sum first gets there without a mark. -/
def UpdateRight (core : BrokerCore) (sum : ℕ) (marked : Bool) (tenantId : Bytes)
    (byteCount : UInt32) : Prop :=
  ((core.updateTenantSentByteCount settings env writeByteLimit tenantId byteCount).1 = true ↔
    settings.tenantByteLimit.toNat < sum + byteCount.toNat ∨ marked = true) ∧
  (core.updateTenantSentByteCount settings env writeByteLimit tenantId byteCount).2.outbox =
    if marked = false ∧ sum ≤ settings.tenantByteLimit.toNat ∧
        settings.tenantByteLimit.toNat < sum + byteCount.toNat then
      (core.sendByteLimitExceededEvent settings env writeByteLimit tenantId).outbox
    else core.outbox

/-- Every update of a run is right. -/
def ByteLimitKept (core : BrokerCore) (ops : List ByteOp) : Prop :=
  AtUpdates (fun before tenantId byteCount =>
    UpdateRight settings env writeByteLimit (byteRun settings env writeByteLimit before core)
      (sentSinceReset (cstr tenantId) before) (markedSinceReset (cstr tenantId) before) tenantId
      byteCount) ops

/-- The sums of an update fit into 32 bits: for a marked tenant one above the limit, and for another
one that is not above its limit yet the sum with the new count. -/
def UpdateFits (sum : ℕ) (marked : Bool) (byteCount : UInt32) : Prop :=
  if marked then settings.tenantByteLimit.toNat + 1 < 2 ^ 32
  else sum ≤ settings.tenantByteLimit.toNat → sum + byteCount.toNat < 2 ^ 32

/-- This holds of every update of a run. -/
def SumsFit (ops : List ByteOp) : Prop :=
  AtUpdates (fun before tenantId byteCount =>
    UpdateFits settings (sentSinceReset (cstr tenantId) before)
      (markedSinceReset (cstr tenantId) before) byteCount) ops

/-- The count of a tenant. -/
def recordedBytes (core : BrokerCore) (tenant : Bytes) : ℕ :=
  ((core.sentBytesPerTenant.lookup tenant).getD 0).toNat

/-- A count against the sum and the mark it stands for: it is the sum as long as this is not above
the limit, and then above the limit as well, as is that of a marked tenant. -/
def BytesRecorded (core : BrokerCore) (tenant : Bytes) (sum : ℕ) (marked : Bool) : Prop :=
  if marked then settings.tenantByteLimit.toNat + 1 < 2 ^ 32 →
    settings.tenantByteLimit.toNat < core.recordedBytes tenant
  else if sum ≤ settings.tenantByteLimit.toNat then core.recordedBytes tenant = sum
  else settings.tenantByteLimit.toNat < core.recordedBytes tenant

end

/-! ### One call -/

section

variable {settings : BrokerSettings} {env : ServiceEnv} {writeByteLimit : Bytes → Bytes}
  {core : BrokerCore}

/-- The count after an update. -/
def newTotal (settings : BrokerSettings) (oldTotal : ℕ) (byteCount : UInt32) : ℕ :=
  if oldTotal ≤ settings.tenantByteLimit.toNat then (oldTotal + byteCount.toNat) % 2 ^ 32
  else oldTotal

/-- The event is sent when the total changed and is above the limit now. -/
theorem outbox_of_totals (tenantId : Bytes) (oldTotal total : UInt32) {core' : BrokerCore}
    (houtbox : core'.outbox = core.outbox) :
    (if oldTotal ≠ total ∧ settings.tenantByteLimit < total then
      core'.sendByteLimitExceededEvent settings env writeByteLimit tenantId else core').outbox =
    if oldTotal.toNat ≠ total.toNat ∧ settings.tenantByteLimit.toNat < total.toNat then
      (core.sendByteLimitExceededEvent settings env writeByteLimit tenantId).outbox
    else core.outbox := by
  simp only [ne_eq, ← UInt32.toNat_inj, UInt32.lt_iff_toNat_lt]
  split_ifs
  · unfold sendByteLimitExceededEvent send
    rw [houtbox]
  · exact houtbox

/-- The counts do not depend on the event. -/
theorem recordedBytes_of_totals {p : Prop} [Decidable p] {tenantId tenant : Bytes}
    {core' : BrokerCore} {total : UInt32}
    (hcounts : core'.sentBytesPerTenant = core.sentBytesPerTenant.insert (cstr tenantId) total) :
    (if p then core'.sendByteLimitExceededEvent settings env writeByteLimit tenantId
      else core').recordedBytes tenant =
    if tenant = cstr tenantId then total.toNat else core.recordedBytes tenant := by
  have hkept : (if p then core'.sendByteLimitExceededEvent settings env writeByteLimit tenantId
      else core').sentBytesPerTenant = core'.sentBytesPerTenant := by
    split_ifs <;> rfl
  rw [recordedBytes, hkept, hcounts]
  split_ifs with ht
  · rw [ht, AList.lookup_insert, Option.getD_some]
  · rw [AList.lookup_insert_ne ht, recordedBytes]

/-- An update, with a missing count read as zero. -/
theorem updateTenantSentByteCount_spec (hlimit : settings.tenantByteLimit ≠ 0) (tenantId : Bytes)
    (byteCount : UInt32) {oldTotal total : ℕ} (hold : core.recordedBytes (cstr tenantId) = oldTotal)
    (htotal : newTotal settings oldTotal byteCount = total) :
    ((core.updateTenantSentByteCount settings env writeByteLimit tenantId byteCount).1 = true ↔
      settings.tenantByteLimit.toNat < total) ∧
    (core.updateTenantSentByteCount settings env writeByteLimit tenantId byteCount).2.outbox =
      (if oldTotal ≠ total ∧ settings.tenantByteLimit.toNat < total then
        (core.sendByteLimitExceededEvent settings env writeByteLimit tenantId).outbox
      else core.outbox) ∧
    ∀ tenant, (core.updateTenantSentByteCount settings env writeByteLimit tenantId
        byteCount).2.recordedBytes tenant =
      if tenant = cstr tenantId then total else core.recordedBytes tenant := by
  unfold recordedBytes at hold
  unfold newTotal at htotal
  unfold updateTenantSentByteCount
  simp only [if_neg hlimit]
  cases hlookup : core.sentBytesPerTenant.lookup (cstr tenantId) with
  | none =>
    rw [hlookup, Option.getD_none] at hold
    simp only
    have hnew : byteCount.toNat = total := by
      rw [← htotal, ← hold, if_pos (by simp), UInt32.toNat_zero, Nat.zero_add,
        Nat.mod_eq_of_lt byteCount.toNat_lt]
    rw [← hold, ← hnew]
    exact ⟨by simp [UInt32.lt_iff_toNat_lt], outbox_of_totals tenantId 0 byteCount rfl,
      fun _ => recordedBytes_of_totals rfl⟩
  | some old =>
    rw [hlookup, Option.getD_some] at hold
    rw [← hold] at htotal
    by_cases hle : old ≤ settings.tenantByteLimit
    · rw [if_pos (UInt32.le_iff_toNat_le.mp hle), ← UInt32.toNat_add] at htotal
      rw [← hold, ← htotal]
      simp only [if_pos hle]
      exact ⟨by simp [UInt32.lt_iff_toNat_lt], outbox_of_totals tenantId old _ rfl,
        fun _ => recordedBytes_of_totals rfl⟩
    · rw [if_neg (by rwa [← UInt32.le_iff_toNat_le])] at htotal
      rw [← hold, ← htotal]
      simp only [if_neg hle]
      refine ⟨by simp [UInt32.lt_iff_toNat_lt], by simp, fun tenant => ?_⟩
      rw [if_neg (by simp)]
      split_ifs with ht
      · rw [ht, recordedBytes, hlookup, Option.getD_some]
      · rfl

theorem newTotal_above {oldTotal : ℕ} (h : settings.tenantByteLimit.toNat < oldTotal)
    (byteCount : UInt32) : newTotal settings oldTotal byteCount = oldTotal := by
  rw [newTotal, if_neg (by omega)]

/-- An update keeps the record and is right, if its sums fit. -/
theorem BytesRecorded.update (hlimit : settings.tenantByteLimit ≠ 0) {tenantId : Bytes} {sum : ℕ}
    {marked : Bool} (h : core.BytesRecorded settings (cstr tenantId) sum marked)
    {byteCount : UInt32} (hfits : UpdateFits settings sum marked byteCount) :
    (core.updateTenantSentByteCount settings env writeByteLimit tenantId
      byteCount).2.BytesRecorded settings (cstr tenantId) (sum + byteCount.toNat) marked ∧
    UpdateRight settings env writeByteLimit core sum marked tenantId byteCount := by
  obtain ⟨hanswer, houtbox, hrecorded⟩ := @updateTenantSentByteCount_spec settings env
    writeByteLimit core hlimit tenantId byteCount _ _ rfl rfl
  replace hrecorded := hrecorded (cstr tenantId)
  rw [if_pos rfl] at hrecorded
  unfold UpdateRight
  rw [hanswer, houtbox]
  unfold BytesRecorded at h ⊢
  rw [hrecorded]
  generalize core.recordedBytes (cstr tenantId) = oldTotal at h ⊢
  cases marked with
  | true =>
    -- A count above the limit stays where the mark put it.
    have habove := h hfits
    rw [newTotal_above habove]
    simp [habove]
  | false =>
    simp only [UpdateFits, Bool.false_eq_true, if_false, or_false, true_and] at h hfits ⊢
    split_ifs at h with hle
    -- Up to the limit the count is the sum, and the new sum is not wrapped.
    · have htotal : newTotal settings oldTotal byteCount = sum + byteCount.toNat := by
        rw [newTotal, h, if_pos hle, Nat.mod_eq_of_lt (hfits hle)]
      rw [htotal, h]
      refine ⟨?_, Iff.rfl, if_congr ?_ rfl rfl⟩
      · split_ifs <;> omega
      · omega
    -- The count has stopped above the limit, and the event has been sent.
    · rw [newTotal_above h, if_neg (by omega), if_neg (by simp), if_neg (by simp [hle])]
      exact ⟨h, by omega, rfl⟩

/-- An update is only right if its sums fit. -/
theorem BytesRecorded.updateFits (hlimit : settings.tenantByteLimit ≠ 0) {tenantId : Bytes} {sum : ℕ}
    {marked : Bool} (h : core.BytesRecorded settings (cstr tenantId) sum marked)
    {byteCount : UInt32}
    (hright : UpdateRight settings env writeByteLimit core sum marked tenantId byteCount) :
    UpdateFits settings sum marked byteCount := by
  have hanswer := (@updateTenantSentByteCount_spec settings env writeByteLimit core hlimit tenantId
    byteCount _ _ rfl rfl).1.symm.trans hright.1
  have hold : core.recordedBytes (cstr tenantId) < 2 ^ 32 := UInt32.toNat_lt _
  have hcount := byteCount.toNat_lt
  unfold UpdateFits
  unfold BytesRecorded at h
  generalize core.recordedBytes (cstr tenantId) = oldTotal at h hold hanswer
  unfold newTotal at hanswer
  cases marked with
  | true =>
    have habove := hanswer.mpr (.inr rfl)
    rw [if_pos rfl]
    split_ifs at habove <;> omega
  | false =>
    simp only [Bool.false_eq_true, if_false, or_false] at h hanswer ⊢
    intro hle
    rw [if_pos hle] at h
    rw [h, if_pos hle] at hanswer
    -- A wrapped sum is below the old one, so that the answer would be no.
    have hlast := settings.tenantByteLimit.toNat_lt
    omega

theorem BytesRecorded.mark (hlimit : settings.tenantByteLimit ≠ 0) {tenantId tenant : Bytes}
    {sum : ℕ} {marked : Bool} (h : core.BytesRecorded settings tenant sum marked) :
    (core.markTenantExceedsByteCount settings tenantId).BytesRecorded settings tenant sum
      (marked || cstr tenantId == tenant) := by
  have hrecorded : (core.markTenantExceedsByteCount settings tenantId).recordedBytes tenant =
      if tenant = cstr tenantId then (settings.tenantByteLimit.toNat + 1) % 2 ^ 32
      else core.recordedBytes tenant := by
    unfold markTenantExceedsByteCount recordedBytes
    rw [if_neg hlimit]
    simp only
    split_ifs with ht
    · rw [ht, AList.lookup_insert, Option.getD_some, UInt32.toNat_add]
      rfl
    · rw [AList.lookup_insert_ne ht]
  unfold BytesRecorded at h ⊢
  rw [hrecorded]
  by_cases ht : tenant = cstr tenantId
  · rw [if_pos ht, if_pos (by simp [ht])]
    intro hfits
    rw [Nat.mod_eq_of_lt hfits]
    omega
  · rw [if_neg ht, beq_eq_false_iff_ne.mpr (Ne.symm ht), Bool.or_false]
    exact h

theorem bytesRecorded_reset (hcounts : core.sentBytesPerTenant = ∅) (tenant : Bytes) :
    core.BytesRecorded settings tenant 0 false := by
  unfold BytesRecorded recordedBytes
  rw [hcounts, AList.lookup_empty]
  simp

theorem recordedBytes_update_of_ne (hlimit : settings.tenantByteLimit ≠ 0) {tenantId tenant : Bytes}
    (h : tenant ≠ cstr tenantId) (byteCount : UInt32) :
    (core.updateTenantSentByteCount settings env writeByteLimit tenantId
      byteCount).2.recordedBytes tenant = core.recordedBytes tenant := by
  obtain ⟨-, -, hrecorded⟩ := @updateTenantSentByteCount_spec settings env writeByteLimit core hlimit
    tenantId byteCount _ _ rfl rfl
  rw [hrecorded, if_neg h]

/-! ### Runs -/

theorem atUpdates_nil {P : List ByteOp → Bytes → UInt32 → Prop} : AtUpdates P [] := by
  intro before tenantId byteCount after h
  simp at h

theorem atUpdates_append {P : List ByteOp → Bytes → UInt32 → Prop} {ops : List ByteOp}
    {op : ByteOp} : AtUpdates P (ops ++ [op]) ↔
      AtUpdates P ops ∧ ∀ tenantId byteCount, op = .update tenantId byteCount →
        P ops tenantId byteCount := by
  constructor
  · refine fun h => ⟨fun before tenantId byteCount after hops => ?_, fun tenantId byteCount hop => ?_⟩
    · exact h before tenantId byteCount (after ++ [op]) (by rw [hops]; simp)
    · exact h ops tenantId byteCount [] (by rw [hop])
  · rintro ⟨hops, hlast⟩ before tenantId byteCount after heq
    rcases List.eq_nil_or_concat after with rfl | ⟨after, last, rfl⟩
    · obtain ⟨rfl, hop⟩ := List.append_inj' heq rfl
      exact hlast tenantId byteCount (List.cons.inj hop).1
    · rw [List.concat_eq_append, ← List.cons_append, ← List.append_assoc] at heq
      exact hops before tenantId byteCount after (List.append_inj' heq rfl).1

/-- One call keeps the records, if the sums of an update fit. -/
theorem bytesRecorded_step (hlimit : settings.tenantByteLimit ≠ 0) {ops : List ByteOp}
    (h : ∀ tenant, core.BytesRecorded settings tenant (sentSinceReset tenant ops)
      (markedSinceReset tenant ops)) {op : ByteOp}
    (hfits : ∀ tenantId byteCount, op = .update tenantId byteCount →
      UpdateFits settings (sentSinceReset (cstr tenantId) ops)
        (markedSinceReset (cstr tenantId) ops) byteCount) (tenant : Bytes) :
    (byteStep settings env writeByteLimit core op).BytesRecorded settings tenant
      (sentSinceReset tenant (ops ++ [op])) (markedSinceReset tenant (ops ++ [op])) := by
  unfold sentSinceReset markedSinceReset
  rw [List.foldl_append, List.foldl_append]
  cases op with
  | update tenantId byteCount =>
    simp only [List.foldl_cons, List.foldl_nil]
    split_ifs with ht
    · subst ht
      exact ((h _).update hlimit (hfits tenantId byteCount rfl)).1
    · have hsame := h tenant
      unfold BytesRecorded at hsame ⊢
      rw [byteStep, recordedBytes_update_of_ne hlimit (Ne.symm ht)]
      exact hsame
  | mark tenantId => exact (h tenant).mark hlimit
  | reset => exact bytesRecorded_reset rfl tenant

theorem bytesRecorded_byteRun (hlimit : settings.tenantByteLimit ≠ 0)
    (hcounts : core.sentBytesPerTenant = ∅) {ops : List ByteOp} (hfits : SumsFit settings ops)
    (tenant : Bytes) :
    (byteRun settings env writeByteLimit ops core).BytesRecorded settings tenant
      (sentSinceReset tenant ops) (markedSinceReset tenant ops) := by
  induction ops using List.reverseRecOn generalizing tenant with
  | nil => exact bytesRecorded_reset hcounts tenant
  | append_singleton ops op ih =>
    obtain ⟨hops, hop⟩ := atUpdates_append.mp hfits
    rw [byteRun, List.foldl_append]
    exact bytesRecorded_step hlimit (ih hops) hop tenant

end

/-- **The byte limit.**  In a run that begins without counts, every update tells whether the sum
since the last reset is above the limit or the tenant marked, and the event is sent exactly when the
sum gets above the limit without a mark, if and only if the sums of all updates fit into 32 bits. -/
theorem byteLimitKept_iff (settings : BrokerSettings) (hlimit : settings.tenantByteLimit ≠ 0)
    (env : ServiceEnv) (writeByteLimit : Bytes → Bytes) (core : BrokerCore)
    (hcounts : core.sentBytesPerTenant = ∅) (ops : List ByteOp) :
    ByteLimitKept settings env writeByteLimit core ops ↔ SumsFit settings ops := by
  induction ops using List.reverseRecOn with
  | nil => exact iff_of_true atUpdates_nil atUpdates_nil
  | append_singleton ops op ih =>
    unfold ByteLimitKept SumsFit at ih ⊢
    rw [atUpdates_append, atUpdates_append, ih]
    refine and_congr_right fun hops => forall₂_congr fun tenantId byteCount => imp_congr_right ?_
    rintro -
    have hrecorded := @bytesRecorded_byteRun settings env writeByteLimit core hlimit hcounts ops hops
      (cstr tenantId)
    exact ⟨hrecorded.updateFits hlimit, fun hfits => (hrecorded.update hlimit hfits).2⟩

/-- A limit of ten bytes. -/
def tenBytes : BrokerSettings := { plainSettings with tenantByteLimit := 10 }

/-- Ten bytes, then almost `2 ^ 32` more after a mark: all sums fit. -/
theorem byteLimitKept_marked :
    ByteLimitKept tenBytes (plainEnv 0) id {}
      [.update (lit "T") 10, .mark (lit "T"), .update (lit "T") 4294967291] := by
  refine (byteLimitKept_iff tenBytes (by decide) (plainEnv 0) id {} rfl _).mpr ?_
  unfold SumsFit
  rw [show [ByteOp.update (lit "T") 10, .mark (lit "T"), .update (lit "T") 4294967291] =
    [] ++ [.update (lit "T") 10] ++ [.mark (lit "T")] ++ [.update (lit "T") 4294967291] from rfl,
    atUpdates_append, atUpdates_append, atUpdates_append]
  refine ⟨⟨⟨atUpdates_nil, ?_⟩, nofun⟩, ?_⟩ <;> rintro tenantId byteCount ⟨⟩ <;> unfold UpdateFits <;>
    decide

/-- Ten bytes are allowed, and then almost `2 ^ 32` more. -/
theorem not_byteLimitKept :
    ¬ ByteLimitKept tenBytes (plainEnv 0) id {}
      [.update (lit "T") 10, .update (lit "T") 4294967291] := by
  intro h
  have hright := h [.update (lit "T") 10] (lit "T") 4294967291 [] rfl
  exact absurd (hright.1.mpr (.inl (by decide))) (by decide)

end BrokerCore

end DxlBroker
