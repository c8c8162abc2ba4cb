import DxlBroker.Registry.BrokerState
import DxlBroker.Service.ServiceRegistration

/-!
# Periods of services and brokers

A service expires when its time to live and the grace period are over, and so does a broker other
than the local one.  The period is a product of 32 bits, and the minutes that are left a difference
of 32 bits with a sign.  A time to live comes from a client or another broker and may be any number
of 32 bits.
-/

namespace DxlBroker

open Bytes

/-! ### What the values should be -/

/-- The period of a time to live, in seconds. -/
def periodSecs (settings : BrokerSettings) (ttl : UInt32) : ℤ :=
  60 * (ttl.toNat + settings.ttlGracePeriodMins)

/-- The product fits into 32 bits. -/
def PeriodFits (settings : BrokerSettings) (ttl : UInt32) : Prop :=
  0 ≤ periodSecs settings ttl ∧ periodSecs settings ttl < 2 ^ 32

instance (settings : BrokerSettings) (ttl : UInt32) : Decidable (PeriodFits settings ttl) :=
  inferInstanceAs (Decidable (_ ∧ _))

/-- A service has expired exactly when more than its period has passed. -/
def ServiceRegistration.ExpiryExact (settings : BrokerSettings) (reg : ServiceRegistration) : Prop :=
  ∀ now, reg.regTime ≤ now →
    (reg.isExpired settings now = true ↔ periodSecs settings reg.ttlMins < now - reg.regTime)

/-- So has a broker. -/
def BrokerState.ExpiryExact (settings : BrokerSettings) (s : BrokerState) : Prop :=
  ∀ now, s.regTime ≤ now →
    (s.isExpired settings now = true ↔ periodSecs settings s.broker.ttl < now - s.regTime)

/-- The minutes that have passed, rounded. -/
def ServiceRegistration.elapsedMins (reg : ServiceRegistration) (now : ℤ) : ℤ :=
  (now - reg.regTime + 30) / 60

/-- The conversion of a `double` to an `int32_t`; out of its range it has no defined value. -/
def int32OfDouble (x : ℤ) : Option Int32 :=
  if -2 ^ 31 ≤ x ∧ x < 2 ^ 31 then some (Int32.ofInt x) else none

/-- `getAdjustedTtlMins`, where its conversion is defined. -/
def ServiceRegistration.definedTtlMins (reg : ServiceRegistration) (now : ℤ) : Option UInt32 :=
  (int32OfDouble ((now - reg.regTime + 30).tdiv 60)).map fun _ => reg.getAdjustedTtlMins now

/-- The minutes that are left are the time to live less the minutes that have passed, or zero. -/
def ServiceRegistration.AdjustedExact (reg : ServiceRegistration) (now : ℤ) : Prop :=
  ∃ mins, reg.definedTtlMins now = some mins ∧
    (mins.toNat : ℤ) = max 0 (reg.ttlMins.toNat - reg.elapsedMins now)

/-- Both differences fit into 32 bits with a sign. -/
def ServiceRegistration.AdjustedFits (reg : ServiceRegistration) (now : ℤ) : Prop :=
  reg.elapsedMins now < 2 ^ 31 ∧ reg.ttlMins.toNat - reg.elapsedMins now < 2 ^ 31

/-! ### Expiry -/

section

variable {settings : BrokerSettings}

/-- A bound and its remainder divide all times alike only if they are equal. -/
theorem forall_lt_iff_of_emod {start period : ℤ} :
    (∀ now, start ≤ now → (now - start > period % 2 ^ 32 ↔ period < now - start)) ↔
      0 ≤ period ∧ period < 2 ^ 32 := by
  constructor
  · intro h
    have hrem := Int.emod_nonneg period (show (2 ^ 32 : ℤ) ≠ 0 by decide)
    have hlt := Int.emod_lt_of_pos period (show (0 : ℤ) < 2 ^ 32 by decide)
    constructor
    -- A negative period is over at once, and its remainder never.
    · have hstart := h start le_rfl
      omega
    · by_contra hbig
      -- A period that does not fit is not over at its end, but its remainder is.
      have hat := h (start + period) (by omega)
      omega
  · rintro ⟨hlow, hhigh⟩ now -
    rw [Int.emod_eq_of_lt hlow hhigh]

theorem lifetime_eq (reg : ServiceRegistration) :
    reg.lifetime settings = periodSecs settings reg.ttlMins % 2 ^ 32 := by
  rw [ServiceRegistration.lifetime, periodSecs, mul_comm]

theorem ServiceRegistration.expiryExact_iff (reg : ServiceRegistration) :
    reg.ExpiryExact settings ↔ PeriodFits settings reg.ttlMins := by
  unfold ServiceRegistration.ExpiryExact ServiceRegistration.isExpired
  simp only [decide_eq_true_eq, lifetime_eq]
  exact forall_lt_iff_of_emod

/-- Of two periods that fit, the longer one is not over earlier. -/
theorem ServiceRegistration.isExpired_of_ttl_le {reg longer : ServiceRegistration}
    (hfits : PeriodFits settings reg.ttlMins) (hlonger : PeriodFits settings longer.ttlMins)
    (htime : reg.regTime = longer.regTime) (hle : reg.ttlMins ≤ longer.ttlMins) {now : ℤ}
    (hnow : longer.regTime ≤ now) (h : longer.isExpired settings now = true) :
    reg.isExpired settings now = true := by
  have hlate := (longer.expiryExact_iff.mpr hlonger now hnow).mp h
  refine (reg.expiryExact_iff.mpr hfits now (htime.le.trans hnow)).mpr ?_
  unfold periodSecs at hlate ⊢
  rw [UInt32.le_iff_toNat_le] at hle
  omega

theorem BrokerState.expiryExact_iff (s : BrokerState) :
    s.ExpiryExact settings ↔
      s.broker.isLocalBroker settings = false ∧ PeriodFits settings s.broker.ttl := by
  unfold BrokerState.ExpiryExact BrokerState.isExpired
  cases hlocal : s.broker.isLocalBroker settings with
  | true =>
    -- The local broker is never expired, also when its period has passed.
    refine iff_of_false (fun h => ?_) (by simp)
    have hlate := h (s.regTime + max 0 (periodSecs settings s.broker.ttl + 1)) (by omega)
    simp only [if_true, Bool.false_eq_true, false_iff] at hlate
    omega
  | false =>
    simp only [Bool.false_eq_true, if_false, decide_eq_true_eq, true_and]
    have hperiod : (s.broker.ttl.toNat + settings.ttlGracePeriodMins) * 60 =
        periodSecs settings s.broker.ttl := mul_comm _ _
    rw [hperiod]
    exact forall_lt_iff_of_emod

end

/-! ### The minutes that are left -/

theorem ServiceRegistration.tdiv_elapsed {reg : ServiceRegistration} {now : ℤ}
    (h : reg.regTime ≤ now) : (now - reg.regTime + 30).tdiv 60 = reg.elapsedMins now :=
  Int.tdiv_eq_ediv_of_nonneg (by omega)

/-- The difference of a number and a signed one, read with a sign. -/
theorem toInt_sub_ofInt (ttl : UInt32) (mins : ℤ) :
    (ttl - (Int32.ofInt mins).toUInt32).toInt32.toInt =
      ((ttl.toNat : ℤ) - mins).bmod (2 ^ 32) := by
  have hback : (Int32.ofInt mins).toUInt32.toInt32 = Int32.ofInt mins := rfl
  have httl : ttl.toInt32.toInt = (ttl.toNat : ℤ).bmod (2 ^ 32) := BitVec.toInt_eq_toNat_bmod _
  rw [UInt32.toInt32_sub, hback, Int32.toInt_sub, Int32.toInt_ofInt, httl,
    show Int32.size = 2 ^ 32 from rfl]
  exact Int.bmod_sub_bmod.trans Int.sub_bmod_bmod

theorem toNat_toUInt32_of_pos {x : Int32} (h : 0 < x.toInt) : (x.toUInt32.toNat : ℤ) = x.toInt := by
  rw [Int32.toNat_toUInt32_of_le (Int32.le_iff_toInt_le.mpr h.le)]
  exact Int.toNat_of_nonneg h.le

/-- The minutes that are left, when those that have passed fit: they are right as long as they fit
too, and zero otherwise. -/
theorem ServiceRegistration.toNat_getAdjustedTtlMins {reg : ServiceRegistration} {now : ℤ}
    (h : reg.regTime ≤ now) (hmins : reg.elapsedMins now < 2 ^ 31) :
    ((reg.getAdjustedTtlMins now).toNat : ℤ) =
      if reg.ttlMins.toNat - reg.elapsedMins now < 2 ^ 31 then
        max 0 (reg.ttlMins.toNat - reg.elapsedMins now) else 0 := by
  have hmins0 : 0 ≤ reg.elapsedMins now := Int.ediv_nonneg (by omega) (by omega)
  have httl := reg.ttlMins.toNat_lt
  have hdiff := toInt_sub_ofInt reg.ttlMins (reg.elapsedMins now)
  unfold ServiceRegistration.getAdjustedTtlMins
  rw [ServiceRegistration.tdiv_elapsed h]
  simp only
  rw [Int.bmod_def] at hdiff
  split_ifs with hpos hfits hfits
  · rw [Int32.lt_iff_toInt_lt, Int32.toInt_zero] at hpos
    rw [toNat_toUInt32_of_pos hpos, hdiff]
    rw [hdiff] at hpos
    omega
  · rw [Int32.lt_iff_toInt_lt, Int32.toInt_zero, hdiff] at hpos
    omega
  · rw [Int32.lt_iff_toInt_lt, Int32.toInt_zero, hdiff] at hpos
    rw [UInt32.toNat_zero]
    omega
  · rfl

theorem ServiceRegistration.adjustedExact_iff {reg : ServiceRegistration} {now : ℤ}
    (h : reg.regTime ≤ now) : reg.AdjustedExact now ↔ reg.AdjustedFits now := by
  have hmins0 : 0 ≤ reg.elapsedMins now := Int.ediv_nonneg (by omega) (by omega)
  unfold ServiceRegistration.AdjustedExact ServiceRegistration.AdjustedFits
    ServiceRegistration.definedTtlMins int32OfDouble
  rw [ServiceRegistration.tdiv_elapsed h]
  by_cases hmins : reg.elapsedMins now < 2 ^ 31
  · have hvalue := ServiceRegistration.toNat_getAdjustedTtlMins h hmins
    rw [if_pos ⟨by omega, hmins⟩]
    simp only [Option.map_some, Option.some.injEq, exists_eq_left', hmins, true_and]
    rw [hvalue]
    split_ifs with hfits
    · exact iff_of_true rfl hfits
    · exact iff_of_false (by omega) hfits
  · rw [if_neg (fun hrange => hmins hrange.2)]
    exact iff_of_false (by simp) fun hfits => hmins hfits.1

/-- **The arithmetic of time to live.**  A service, or a broker other than the local one, expires
after its period at all times exactly when the period fits into 32 bits; of two services registered
at one time, whose periods fit, the one with the longer time to live does not expire earlier; and the
minutes that are left are right exactly when the differences fit into 32 bits with a sign. -/
theorem ttlArithmetic_iff (settings : BrokerSettings) (reg : ServiceRegistration) (s : BrokerState) :
    (reg.ExpiryExact settings ↔ PeriodFits settings reg.ttlMins) ∧
    (s.ExpiryExact settings ↔
      s.broker.isLocalBroker settings = false ∧ PeriodFits settings s.broker.ttl) ∧
    (∀ longer : ServiceRegistration, PeriodFits settings reg.ttlMins →
      PeriodFits settings longer.ttlMins → reg.regTime = longer.regTime →
      reg.ttlMins ≤ longer.ttlMins → ∀ now, longer.regTime ≤ now →
      longer.isExpired settings now = true → reg.isExpired settings now = true) ∧
    ∀ elapsed, 0 ≤ elapsed →
      (reg.AdjustedExact (reg.regTime + elapsed) ↔ reg.AdjustedFits (reg.regTime + elapsed)) :=
  ⟨reg.expiryExact_iff, s.expiryExact_iff,
    fun _ hfits hlonger htime hle _ hnow h =>
      ServiceRegistration.isExpired_of_ttl_le hfits hlonger htime hle hnow h,
    fun _ h => ServiceRegistration.adjustedExact_iff (Int.le_add_of_nonneg_right h)⟩

/-- A period of `2 ^ 32 + 344` seconds is one of 344 seconds. -/
theorem not_expiryExact_wrapped :
    ¬ ServiceRegistration.ExpiryExact { guid := lit "L" } { ttlMins := 71582789 } := by
  intro h
  exact absurd ((h 345 (by decide)).mp (by decide)) (by decide)

end DxlBroker
