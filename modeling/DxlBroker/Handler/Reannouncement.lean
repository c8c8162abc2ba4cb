import DxlBroker.Handler.TopicHandlers
import DxlBroker.Service.ExpiryPeriod
import DxlBroker.Service.RegistryRuns

/-!
# Announcing services again

A broker announces its services again when the fabric changes, each with the minutes that are left.
Another broker takes an announcement as a registration that begins when it arrives.  It keeps the
service at most 30 seconds longer than the broker that announces it, or a grace period from the last
announcement: one that is sent when the minutes have run out begins the grace period once more.
-/

namespace DxlBroker

open Bytes Unordered

/-- What `sendServiceRegistrationEvents` announces of a service. -/
def ServiceRegistration.announcement (settings : BrokerSettings) (now : ℤ)
    (reg : ServiceRegistration) : Option ServiceRegistration :=
  if reg.isExpired settings now then none else some (reg.resetRegistrationTime now)

namespace BrokerCore

/-- The announcements of all services. -/
def announcements (settings : BrokerSettings) (env : ServiceEnv) (core : BrokerCore) :
    List ServiceRegistration :=
  ((env.serviceOrder.arrange core.services.servicesById.keys).filterMap
    core.services.findService).filterMap (ServiceRegistration.announcement settings env.time)

/-- What a broker does when it takes an announcement. -/
def receive (settings : BrokerSettings) (env : ServiceEnv) (ptr : ServicePtr)
    (announced : ServiceRegistration) (core : BrokerCore) : BrokerCore :=
  (core.registerService settings env ptr
    { announced with regTime := env.time, brokerService := false }).2

/-- The registry of a broker that follows the announcements of a service, and the time of the last
one.  The service is only registered by these: whatever else happens leaves it or removes it. -/
inductive Follows (settings settings' : BrokerSettings) (reg : ServiceRegistration) :
    ℤ → BrokerCore → Prop
  | start {core : BrokerCore} (hnew : core.services.findService reg.serviceGuid = none) :
      Follows settings settings' reg reg.regTime core
  | announced {last : ℤ} {core : BrokerCore} (h : Follows settings settings' reg last core)
      (env : ServiceEnv) (ptr : ServicePtr) (hptr : core.services.Unused ptr)
      (htime : last ≤ env.time) {announced : ServiceRegistration}
      (hsent : reg.announcement settings env.time = some announced) :
      Follows settings settings' reg env.time (core.receive settings' env ptr announced)
  | other {last : ℤ} {core core' : BrokerCore} (h : Follows settings settings' reg last core)
      (hkept : ∀ found, core'.services.findService reg.serviceGuid = some found →
        core.services.findService reg.serviceGuid = some found) :
      Follows settings settings' reg last core'

/-! ### Announcements -/

section

variable {settings : BrokerSettings} {env : ServiceEnv} {core : BrokerCore}

theorem sendServiceRegistrationEvents_eq :
    core.sendServiceRegistrationEvents settings env =
      (core.announcements settings env).foldl
        (fun core reg => core.sendServiceRegistrationEvent settings env reg) core := by
  unfold sendServiceRegistrationEvents announcements
  generalize (env.serviceOrder.arrange core.services.servicesById.keys).filterMap
    core.services.findService = regs
  generalize core = start
  induction regs generalizing start with
  | nil => rfl
  | cons reg regs ih =>
    rw [List.foldl_cons, List.filterMap_cons, ServiceRegistration.announcement]
    split_ifs
    · exact ih start
    · exact ih _

/-- A service that is found is announced until it has expired. -/
theorem mem_announcements {guid : Bytes} {reg announced : ServiceRegistration}
    (hfind : core.services.findService guid = some reg)
    (hsent : reg.announcement settings env.time = some announced) :
    announced ∈ core.announcements settings env := by
  refine List.mem_filterMap.mpr ⟨reg, List.mem_filterMap.mpr ⟨guid, ?_, hfind⟩, hsent⟩
  rw [IterOrder.mem_arrange, ← AList.mem_keys, ← AList.lookup_isSome]
  rw [ServiceRegistry.findService, Option.map_eq_some_iff] at hfind
  obtain ⟨ptr, hptr, -⟩ := hfind
  rw [hptr]
  rfl

end

/-- The handler of the event takes the announcement that it reads. -/
theorem serviceRegisterEventHandler_receive {settings : BrokerSettings} {env : HandlerEnv}
    {st : StoreState} {event : DxlMessage} {announced : ServiceRegistration}
    (hsource : st.ctx.isLocalBrokerSource settings = false) (hevent : st.getDxlEvent = .ok event)
    (htenant : checkTenantGuid settings = .ok ())
    (hread : env.readRegister event.getPayloadStr = .ok announced) :
    (serviceRegisterEventHandler settings env st).2.core =
      st.core.receive settings env.toServiceEnv env.newService announced := by
  have hparsed : (do
      let event ← st.getDxlEvent
      checkTenantGuid settings
      env.readRegister event.getPayloadStr) = .ok announced := by
    rw [hevent]
    show (checkTenantGuid settings).bind _ = _
    rw [htenant]
    exact hread
  unfold serviceRegisterEventHandler receive
  rw [hsource]
  simp only [Bool.false_eq_true, if_false, hparsed]
  generalize st.core.registerService settings env.toServiceEnv env.newService _ = res
  obtain ⟨_ | _, core⟩ := res <;> rfl

/-! ### The broker that follows -/

/-- A registration is stored with its time to live and its time, or leaves the old one. -/
theorem findService_registerService {settings : BrokerSettings} {env : ServiceEnv}
    {core : BrokerCore} {ptr : ServicePtr} (hptr : core.services.Unused ptr)
    {reg found : ServiceRegistration}
    (h : (core.registerService settings env ptr reg).2.services.findService reg.serviceGuid =
      some found) :
    core.services.findService reg.serviceGuid = some found ∨
      found.ttlMins = reg.ttlMins ∧ found.regTime = reg.regTime := by
  cases hregister : core.registerService settings env ptr reg with
  | mk result core' =>
    rw [hregister] at h
    cases result with
    | error e =>
      rw [registerService_error hregister] at h
      -- A refused registration changes nothing.
      exact .inl h
    | ok _ =>
      obtain ⟨stored, -, hstore, rfl⟩ := registerService_cases hregister
      rw [countService_services, sendServiceRegistrationEvent, sendServiceEvent_services] at h
      replace h : stored.services.findService reg.serviceGuid = some found := by
        unfold addPrefixes at h
        split_ifs at h <;> exact h
      have hadded : ∀ {core : BrokerCore}, core.services.Unused ptr →
          (core.addService settings ptr reg).services.findService reg.serviceGuid = some found →
          found.ttlMins = reg.ttlMins ∧ found.regTime = reg.regTime := by
        intro core hptr h
        rw [addService, ServiceRegistry.findService_addService hptr, if_pos rfl,
          Option.some.injEq] at h
        rw [← h]
        exact ⟨rfl, rfl⟩
      obtain ⟨-, rfl⟩ | ⟨existing, hexisting, -, rfl⟩ := storeService_cases hstore
      · exact .inr (hadded hptr h)
      · unfold updateService at h
        simp only at h
        split_ifs at h with hignored hsame
        · exact .inl h
        · right
          change (core.services.servicesById.lookup reg.serviceGuid).map
            (Function.update core.services.regs existing _) = some found at h
          rw [hexisting, Option.map_some, Function.update_self, Option.some.injEq] at h
          rw [← h]
          exact ⟨rfl, rfl⟩
        · exact .inr (hadded (unused_unregisterService hptr reg.serviceGuid false) h)

/-- A time to live that overflows nowhere. -/
def TtlFits (settings : BrokerSettings) (ttl : UInt32) : Prop :=
  PeriodFits settings ttl ∧ ttl.toNat < 2 ^ 31

instance (settings : BrokerSettings) (ttl : UInt32) : Decidable (TtlFits settings ttl) :=
  inferInstanceAs (Decidable (_ ∧ _))

section

variable {settings settings' : BrokerSettings} {reg : ServiceRegistration}

/-- The last second in which a service has not expired. -/
def lastSecond (settings : BrokerSettings) (reg : ServiceRegistration) : ℤ :=
  reg.regTime + periodSecs settings reg.ttlMins

/-- What a broker keeps of an announced service: a period that fits, and that is over 30 seconds
after the one of the service, or a grace period after the last announcement. -/
def KeptUntil (settings : BrokerSettings) (reg : ServiceRegistration) (last : ℤ)
    (found : ServiceRegistration) : Prop :=
  PeriodFits settings found.ttlMins ∧
  (lastSecond settings found ≤ lastSecond settings reg + 30 ∨
    lastSecond settings found ≤ last + 60 * settings.ttlGracePeriodMins)

/-- An announcement has the rounded minutes that are left, and they are not less than the period of
the service allows. -/
theorem keptUntil_announcement (hfits : TtlFits settings reg.ttlMins) {now : ℤ}
    (hnow : reg.regTime ≤ now) {announced found : ServiceRegistration}
    (hsent : reg.announcement settings now = some announced)
    (httl : found.ttlMins = announced.ttlMins) (htime : found.regTime = now) :
    KeptUntil settings reg now found := by
  obtain ⟨hperiod, hsigned⟩ := hfits
  have hexpired := reg.expiryExact_iff.mpr hperiod now hnow
  unfold ServiceRegistration.announcement at hsent
  split_ifs at hsent with hnot
  rw [hexpired, not_lt] at hnot
  cases hsent
  have hmins : reg.elapsedMins now = (now - reg.regTime + 30) / 60 := rfl
  have hvalue := ServiceRegistration.toNat_getAdjustedTtlMins hnow (by
    unfold PeriodFits at hperiod
    omega)
  rw [if_pos (by omega)] at hvalue
  have hfound : found.ttlMins = reg.getAdjustedTtlMins now := httl
  unfold KeptUntil lastSecond PeriodFits
  unfold PeriodFits at hperiod
  unfold periodSecs at hperiod hnot ⊢
  -- Rounding adds at most 30 seconds; with no minutes left only the grace period counts.
  rw [hfound, htime, hvalue]
  omega

theorem Follows.regTime_le {last : ℤ} {core : BrokerCore}
    (h : Follows settings settings' reg last core) : reg.regTime ≤ last := by
  induction h with
  | start => exact le_rfl
  | announced _ _ _ _ htime _ ih => exact ih.trans htime
  | other _ _ ih => exact ih

/-- The kept registration, after any number of announcements. -/
theorem Follows.keptUntil (hfits : TtlFits settings reg.ttlMins) {last : ℤ} {core : BrokerCore}
    (h : Follows settings settings' reg last core) {found : ServiceRegistration}
    (hfound : core.services.findService reg.serviceGuid = some found) :
    KeptUntil settings reg last found := by
  induction h generalizing found with
  | start hnew =>
    rw [hnew] at hfound
    cases hfound
  | @announced last core hfollows env ptr hptr htime announced hsent ih =>
    have hguid : announced.serviceGuid = reg.serviceGuid := by
      unfold ServiceRegistration.announcement at hsent
      split_ifs at hsent
      cases hsent
      rfl
    rw [← hguid] at hfound
    rcases findService_registerService hptr hfound with hold | ⟨httl, hregTime⟩
    · obtain ⟨hperiod, hkept⟩ := ih (hguid ▸ hold)
      exact ⟨hperiod, hkept.imp_right fun h => h.trans (by omega)⟩
    · exact keptUntil_announcement hfits (hfollows.regTime_le.trans htime) hsent httl hregTime
  | other _ hkept ih => exact ih (hkept found hfound)

end

/-- **Announcements and the life of a service.**  When the broker of a service has considered it
expired for 30 seconds, and a grace period has passed since its last announcement, every broker that
follows the announcements considers it expired, if it still knows it. -/
theorem Follows.isExpired_follower {settings settings' : BrokerSettings}
    (hgrace : settings'.ttlGracePeriodMins = settings.ttlGracePeriodMins)
    {reg : ServiceRegistration} (hfits : TtlFits settings reg.ttlMins) {last : ℤ}
    {core : BrokerCore} (h : Follows settings settings' reg last core) {now : ℤ}
    (hnow : reg.isExpired settings (now - 30) = true)
    (hlast : last + 60 * settings.ttlGracePeriodMins < now) {found : ServiceRegistration}
    (hfound : core.services.findService reg.serviceGuid = some found) :
    found.isExpired settings' now = true := by
  obtain ⟨⟨hlow, hhigh⟩, hkept⟩ := h.keptUntil hfits hfound
  have hperiod : periodSecs settings' found.ttlMins = periodSecs settings found.ttlMins := by
    rw [periodSecs, hgrace, periodSecs]
  simp only [ServiceRegistration.isExpired, decide_eq_true_eq, lifetime_eq] at hnow ⊢
  rw [Int.emod_eq_of_lt hfits.1.1 hfits.1.2] at hnow
  rw [hperiod, Int.emod_eq_of_lt hlow hhigh]
  unfold lastSecond at hkept
  omega

/-- A service of `L` with one minute, and the broker `B` that follows it. -/
def briefService : ServiceRegistration := { plainService with ttlMins := 1 }

def followerSettings : BrokerSettings where
  guid := lit "B"

/-- What `B` has after an announcement at some time. -/
def followerAt (time : ℤ) : BrokerCore :=
  BrokerCore.receive followerSettings (plainEnv time) 0 (briefService.resetRegistrationTime time) {}

theorem follows_followerAt {time : ℤ} (htime : 0 ≤ time)
    (hexpired : briefService.isExpired plainSettings time = false) :
    Follows plainSettings followerSettings briefService time (followerAt time) := by
  refine .announced (.start rfl) (plainEnv time) 0 (by decide) htime ?_
  exact if_neg (Bool.eq_false_iff.mp hexpired)

/-- After half of its minute the service is announced with no minute left, and 361 seconds later `B`
considers it expired. -/
theorem followerAt_isExpired :
    ∃ found, (followerAt 30).services.findService briefService.serviceGuid = some found ∧
      found.isExpired followerSettings 391 = true :=
  ⟨_, rfl, @Follows.isExpired_follower plainSettings followerSettings rfl briefService (by decide) 30
    (followerAt 30) (follows_followerAt (by decide) (by decide)) 391 (by decide) (by decide) _ rfl⟩

/-- In its last second the service is announced once more, and `B` keeps it for another five
minutes. -/
theorem followerAt_kept :
    TtlFits plainSettings briefService.ttlMins ∧
    Follows plainSettings followerSettings briefService 360 (followerAt 360) ∧
    briefService.isExpired plainSettings (391 - 30) = true ∧
    ∃ found, (followerAt 360).services.findService briefService.serviceGuid = some found ∧
      found.isExpired followerSettings 391 = false :=
  ⟨by decide, follows_followerAt (by decide) (by decide), by decide, _, rfl, by decide⟩

end BrokerCore

end DxlBroker
