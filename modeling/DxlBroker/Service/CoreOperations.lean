import DxlBroker.Service.RegistryIndex

/-!
# What the operations on services do

One theorem for each operation of a broker on its services: the indexes stay together, only the
service that the operation is for changes, and only events on broker event topics are sent.
-/

namespace DxlBroker

open Bytes Msgpack Unordered

/-- Bytes that are read back have the property as a message. -/
def ReadAs (c : Codec) (P : DxlMessageT → Prop) (bytes : Bytes) : Prop :=
  ReadsBack c bytes → ∀ m, createDxlMessageFromBytes c bytes = .ok m → P m

/-- An event of the broker on a topic for broker events. -/
def OwnEvent (c : Codec) (p : OwnMessage) : Prop :=
  startsWith dxlBrokerEventPrefix p.1 = true ∧ ReadAs c (fun m => m.messageType = .event) p.2

namespace BrokerCore

/-- What the operations on services leave alone. -/
def others (core : BrokerCore) : BrokerRegistry × Map Bytes UInt32 × List Bytes :=
  (core.registry, core.sentBytesPerTenant, core.revokedCerts)

/-- Nothing but events was sent. -/
def Announces (c : Codec) (core core' : BrokerCore) : Prop :=
  ∃ events, core'.outbox = core.outbox ++ events ∧ ∀ p ∈ events, OwnEvent c p

theorem Announces.of_eq {c : Codec} {core core' : BrokerCore}
    (houtbox : core'.outbox = core.outbox) : Announces c core core' :=
  ⟨[], by rw [houtbox, List.append_nil], fun _ h => nomatch h⟩

theorem Announces.refl (c : Codec) (core : BrokerCore) : Announces c core core := .of_eq rfl

theorem Announces.of_eq_left {c : Codec} {core core' d : BrokerCore} (h : Announces c core' d)
    (houtbox : core'.outbox = core.outbox) : Announces c core d := by
  unfold Announces at h ⊢
  rwa [houtbox] at h

theorem Announces.trans {c : Codec} {a b d : BrokerCore} (hab : Announces c a b)
    (hbd : Announces c b d) : Announces c a d := by
  obtain ⟨e, he, hev⟩ := hab
  obtain ⟨f, hf, hfv⟩ := hbd
  refine ⟨e ++ f, by rw [hf, he, List.append_assoc], fun p hp => ?_⟩
  rcases List.mem_append.mp hp with hp | hp
  · exact hev p hp
  · exact hfv p hp

variable {settings : BrokerSettings} {env : ServiceEnv} {core : BrokerCore}

@[simp] theorem send_services (channel : Bytes) (m : DxlMessage) :
    (core.send env channel m).services = core.services := rfl

@[simp] theorem updateTenantServiceCount_services (tenantGuid : Bytes) (n : ℤ) :
    (core.updateTenantServiceCount settings env tenantGuid n).services = core.services := by
  unfold updateTenantServiceCount
  simp only
  split_ifs <;> rfl

@[simp] theorem countService_services (reg : ServiceRegistration) (n : ℤ) :
    (core.countService settings env reg n).services = core.services := by
  unfold countService
  split_ifs
  · exact updateTenantServiceCount_services _ _
  · rfl

@[simp] theorem sendServiceEvent_services (channel payload : Bytes) (reg : ServiceRegistration) :
    (core.sendServiceEvent settings env channel payload reg).services = core.services := by
  unfold sendServiceEvent
  split_ifs <;> rfl

/-! ### Events -/

/-- The channels of the events about services and tenants. -/
theorem startsWith_channels :
    startsWith dxlBrokerEventPrefix (cstr channelDxlSvcRegistryRegisterEvent) = true ∧
    startsWith dxlBrokerEventPrefix (cstr channelDxlSvcRegistryUnregisterEvent) = true ∧
    startsWith dxlBrokerEventPrefix (cstr channelDxlTenantLimitExceededEvent) = true := by
  decide

theorem send_announces {m : DxlMessage} (hm : m.Made)
    (hevent : m.msg.specificData = .eventData) {channel : Bytes}
    (hchannel : startsWith dxlBrokerEventPrefix (cstr channel) = true) :
    Announces env.codec core (core.send env channel m) := by
  obtain ⟨bytes, fields, hsend, hdecode⟩ := MessageEnv.sendMessage_spec hm channel core.outbox
  refine ⟨[(cstr channel, bytes)], hsend, fun p hp => ?_⟩
  rw [List.mem_singleton.mp hp]
  refine ⟨hchannel, fun hback m' hm' => ?_⟩
  rw [hdecode hback, Except.ok.injEq] at hm'
  rw [← hm', DxlMessageT.messageType, DxlMessageT.norm, hevent]
  rfl

theorem updateTenantServiceCount_announces (tenantGuid : Bytes) (n : ℤ) :
    Announces env.codec core (core.updateTenantServiceCount settings env tenantGuid n) := by
  unfold updateTenantServiceCount
  simp only
  split_ifs
  · exact .refl _ _
  · obtain ⟨hmade, hpayload, hevent⟩ := MessageEnv.createEvent_spec settings env.toMessageEnv
    exact (send_announces (hmade.setPayload hpayload _) hevent
      startsWith_channels.2.2).of_eq_left rfl
  · exact .of_eq rfl

theorem countService_announces (reg : ServiceRegistration) (n : ℤ) :
    Announces env.codec core (core.countService settings env reg n) := by
  unfold countService
  split_ifs
  · exact updateTenantServiceCount_announces _ _
  · exact .refl _ _

theorem sendServiceEvent_announces {channel : Bytes}
    (hchannel : startsWith dxlBrokerEventPrefix (cstr channel) = true) (payload : Bytes)
    (reg : ServiceRegistration) :
    Announces env.codec core (core.sendServiceEvent settings env channel payload reg) := by
  obtain ⟨hmade, hpayload, hevent⟩ := MessageEnv.createEvent_spec settings env.toMessageEnv
  have hmade := hmade.setPayload hpayload payload
  have hmade' : (((env.createEvent settings).setPayload payload).setDestinationTenantGuids
      [reg.clientTenantGuid]).Made := ⟨hmade.version, hmade.payload⟩
  unfold sendServiceEvent
  simp only
  split_ifs
  · exact send_announces hmade' hevent hchannel
  · exact send_announces hmade hevent hchannel
  · exact .refl _ _

/-! ### Removing services -/

theorem doUnregisterService_services (ptr : ServicePtr) (fireEvent : Bool) :
    (core.doUnregisterService settings env ptr fireEvent).services =
      core.services.doUnregisterService settings env.serviceOrder ptr := by
  unfold doUnregisterService
  simp only
  split_ifs
  · rw [sendServiceUnregistrationEvent, sendServiceEvent_services]
  · rfl

theorem doUnregisterService_announces (ptr : ServicePtr)
    (fireEvent : Bool) :
    Announces env.codec core (core.doUnregisterService settings env ptr fireEvent) := by
  unfold doUnregisterService
  simp only
  split_ifs
  · exact (sendServiceEvent_announces startsWith_channels.2.1 _ _).of_eq_left rfl
  · exact .of_eq rfl

/-- The service of a pointer is removed, and nothing else changes. -/
theorem doUnregisterService_spec (hindexed : core.services.Indexed) {guid : Bytes}
    {ptr : ServicePtr} (hptr : core.services.servicesById.lookup guid = some ptr)
    (fireEvent : Bool) :
    (core.doUnregisterService settings env ptr fireEvent).services.Indexed ∧
      ∀ g, (core.doUnregisterService settings env ptr fireEvent).services.findService g =
        if g = guid then none else core.services.findService g := by
  rw [doUnregisterService_services]
  refine ⟨hindexed.doUnregisterService (hindexed.registered hptr) _, fun g => ?_⟩
  rw [ServiceRegistry.findService_doUnregisterService, hindexed.guid hptr]

theorem unregisterService_spec (hindexed : core.services.Indexed) (serviceGuid : Bytes)
    (fireEvent : Bool) :
    (core.unregisterService settings env serviceGuid fireEvent).services.Indexed ∧
      ∀ g, (core.unregisterService settings env serviceGuid fireEvent).services.findService g =
        if g = serviceGuid then none else core.services.findService g := by
  unfold unregisterService
  cases hptr : core.services.servicesById.lookup serviceGuid with
  | none =>
    refine ⟨hindexed, fun g => ?_⟩
    split_ifs with hg
    · rw [hg, ServiceRegistry.findService, hptr]
      rfl
    · rfl
  | some ptr =>
    simp only [countService_services]
    exact doUnregisterService_spec hindexed hptr fireEvent

theorem unregisterService_announces (serviceGuid : Bytes)
    (fireEvent : Bool) :
    Announces env.codec core (core.unregisterService settings env serviceGuid fireEvent) := by
  unfold unregisterService
  split
  · exact .refl _ _
  · exact (doUnregisterService_announces _ _).trans (countService_announces _ _)

/-- The services of other clients or other tenants are the same in both states. -/
def SameForeign (clientGuid tenantGuid : Bytes) (core core' : BrokerCore) : Prop :=
  ∀ g reg, ¬ (reg.clientGuid = clientGuid ∧ reg.clientTenantGuid = tenantGuid) →
    (core'.services.findService g = some reg ↔ core.services.findService g = some reg)

/-- One service changed, and it is of this client before and after. -/
theorem SameForeign.of_one {clientGuid tenantGuid : Bytes} {core core' : BrokerCore} (guid : Bytes)
    (hother : ∀ g, g ≠ guid → core'.services.findService g = core.services.findService g)
    (hbefore : ∀ reg, core.services.findService guid = some reg →
      reg.clientGuid = clientGuid ∧ reg.clientTenantGuid = tenantGuid)
    (hafter : ∀ reg, core'.services.findService guid = some reg →
      reg.clientGuid = clientGuid ∧ reg.clientTenantGuid = tenantGuid) :
    SameForeign clientGuid tenantGuid core core' := by
  intro g reg hforeign
  by_cases hg : g = guid
  · rw [hg]
    exact ⟨fun h => absurd (hafter reg h) hforeign, fun h => absurd (hbefore reg h) hforeign⟩
  · rw [hother g hg]

/-- A client can only remove a service of its own. -/
theorem unregisterServiceOf_spec (hindexed : core.services.Indexed)
    (serviceGuid clientGuid clientTenantGuid : Bytes) (fireEvent : Bool) :
    (core.unregisterServiceOf settings env serviceGuid clientGuid clientTenantGuid
        fireEvent).services.Indexed ∧
      SameForeign clientGuid clientTenantGuid core (core.unregisterServiceOf settings env
        serviceGuid clientGuid clientTenantGuid fireEvent) := by
  unfold unregisterServiceOf
  cases hptr : core.services.servicesById.lookup serviceGuid with
  | none => exact ⟨hindexed, fun g reg _ => Iff.rfl⟩
  | some ptr =>
    simp only
    split_ifs with hown
    · obtain ⟨hindexed', hfind⟩ :=
        @doUnregisterService_spec settings env core hindexed serviceGuid ptr hptr fireEvent
      refine ⟨hindexed', .of_one serviceGuid (fun g hg => ?_) (fun reg hreg => ?_)
        fun reg hreg => ?_⟩
      · rw [hfind, if_neg hg]
      · rw [ServiceRegistry.findService, hptr, Option.map_some, Option.some.injEq] at hreg
        rw [← hreg]
        exact ⟨hown.1.symm, hown.2.symm⟩
      · rw [hfind, if_pos rfl] at hreg
        cases hreg
    · exact ⟨hindexed, fun g reg _ => Iff.rfl⟩

theorem unregisterServiceOf_announces (serviceGuid clientGuid clientTenantGuid : Bytes)
    (fireEvent : Bool) :
    Announces env.codec core (core.unregisterServiceOf settings env serviceGuid clientGuid
      clientTenantGuid fireEvent) := by
  unfold unregisterServiceOf
  split
  · exact .refl _ _
  · simp only
    split_ifs
    · exact doUnregisterService_announces _ _
    · exact .refl _ _

/-! ### Adding services -/

theorem unused_unregisterService {ptr : ServicePtr} (hptr : core.services.Unused ptr)
    (serviceGuid : Bytes) (fireEvent : Bool) :
    (core.unregisterService settings env serviceGuid fireEvent).services.Unused ptr := by
  have herase : ∀ p, ((core.services.doUnregisterService settings env.serviceOrder p)).Unused
      ptr := by
    intro p g hg
    have hlookup : (core.services.servicesById.erase (core.services.regs p).serviceGuid).lookup g =
        some ptr := by
      unfold ServiceRegistry.doUnregisterService at hg
      simp only at hg
      split_ifs at hg <;> exact hg
    exact hptr g (Map.lookup_erase_eq_some.mp hlookup).2
  unfold unregisterService
  split
  · exact hptr
  · next p hp =>
    rw [countService_services, doUnregisterService_services]
    exact herase p

theorem lookup_eq_none_of_findService {guid : Bytes}
    (h : core.services.findService guid = none) :
    core.services.servicesById.lookup guid = none :=
  Option.map_eq_none_iff.mp h

/-- An update replaces or renews the service, or does nothing. -/
theorem updateService_spec (hindexed : core.services.Indexed) {existing ptr : ServicePtr}
    (hptr : core.services.Unused ptr) {reg : ServiceRegistration}
    (hexisting : core.services.servicesById.lookup reg.serviceGuid = some existing)
    (hsame : reg.clientGuid = (core.services.regs existing).clientGuid ∧
      reg.clientTenantGuid = (core.services.regs existing).clientTenantGuid) :
    (core.updateService settings env existing ptr reg).services.Indexed ∧
      SameForeign reg.clientGuid reg.clientTenantGuid core
        (core.updateService settings env existing ptr reg) := by
  have hbefore : ∀ old, core.services.findService reg.serviceGuid = some old →
      old.clientGuid = reg.clientGuid ∧ old.clientTenantGuid = reg.clientTenantGuid := by
    intro old hold
    rw [ServiceRegistry.findService, hexisting, Option.map_some, Option.some.injEq] at hold
    rw [← hold]
    exact ⟨hsame.1.symm, hsame.2.symm⟩
  unfold updateService
  simp only
  split_ifs
  · exact ⟨hindexed, fun g reg _ => Iff.rfl⟩
  · refine ⟨hindexed.refresh reg, .of_one _ (fun g hg =>
      ServiceRegistry.findService_refresh hindexed hexisting reg hg) hbefore fun new hnew => ?_⟩
    rw [show (core.services.refresh existing reg).findService reg.serviceGuid =
      (core.services.servicesById.lookup reg.serviceGuid).map
        (core.services.refresh existing reg).regs from rfl, hexisting, Option.map_some,
      Option.some.injEq] at hnew
    rw [← hnew, hsame.1, hsame.2]
    show (Function.update core.services.regs existing _ existing).clientGuid = _ ∧
      (Function.update core.services.regs existing _ existing).clientTenantGuid = _
    rw [Function.update_self]
    exact ⟨rfl, rfl⟩
  · obtain ⟨hindexed', hfind⟩ := @unregisterService_spec settings env core hindexed
      reg.serviceGuid false
    have hnone : (core.unregisterService settings env reg.serviceGuid
        false).services.findService reg.serviceGuid = none := by
      rw [hfind, if_pos rfl]
    have hunused := @unused_unregisterService settings env core ptr hptr reg.serviceGuid false
    refine ⟨hindexed'.addService hunused (lookup_eq_none_of_findService hnone),
      .of_one _ (fun g hg => ?_) hbefore fun new hnew => ?_⟩
    · rw [addService, ServiceRegistry.findService_addService hunused, if_neg hg, hfind, if_neg hg]
    · rw [addService, ServiceRegistry.findService_addService hunused, if_pos rfl,
        Option.some.injEq] at hnew
      rw [← hnew]
      exact ⟨rfl, rfl⟩

theorem updateService_announces (existing ptr : ServicePtr)
    (reg : ServiceRegistration) :
    Announces env.codec core (core.updateService settings env existing ptr reg) := by
  unfold updateService
  simp only
  split_ifs
  · exact .refl _ _
  · exact .of_eq rfl
  · exact (unregisterService_announces _ _).trans (.of_eq rfl)

/-- A registration is stored as a new service, or as an update of one of the same client and
tenant. -/
theorem storeService_cases {ptr : ServicePtr} {reg : ServiceRegistration} {core' : BrokerCore}
    (h : core.storeService settings env ptr reg = (.ok (), core')) :
    (core.services.servicesById.lookup reg.serviceGuid = none ∧
      core' = core.addService settings ptr reg) ∨
    ∃ existing, core.services.servicesById.lookup reg.serviceGuid = some existing ∧
      (reg.clientGuid = (core.services.regs existing).clientGuid ∧
        reg.clientTenantGuid = (core.services.regs existing).clientTenantGuid) ∧
      core' = core.updateService settings env existing ptr reg := by
  unfold storeService at h
  split at h
  · next hnew =>
    cases h
    exact .inl ⟨hnew, rfl⟩
  · next existing hexisting =>
    simp only at h
    split_ifs at h with hsame
    · cases h
      exact .inr ⟨existing, hexisting, hsame, rfl⟩
    · cases h

theorem storeService_error {ptr : ServicePtr} {reg : ServiceRegistration} {core' : BrokerCore}
    {e : String} (h : core.storeService settings env ptr reg = (.error e, core')) :
    core' = core := by
  unfold storeService at h
  split at h
  · cases h
  · simp only at h
    split_ifs at h
    · cases h
    · cases h
      rfl

theorem storeService_spec (hindexed : core.services.Indexed) {ptr : ServicePtr}
    (hptr : core.services.Unused ptr) {reg : ServiceRegistration} {core' : BrokerCore}
    (h : core.storeService settings env ptr reg = (.ok (), core')) :
    core'.services.Indexed ∧ SameForeign reg.clientGuid reg.clientTenantGuid core core' := by
  obtain ⟨hnew, rfl⟩ | ⟨existing, hexisting, hsame, rfl⟩ := storeService_cases h
  · refine ⟨hindexed.addService hptr hnew, .of_one reg.serviceGuid (fun g hg => ?_)
      (fun old hold => ?_) fun new hnew => ?_⟩
    · rw [addService, ServiceRegistry.findService_addService hptr, if_neg hg]
    · rw [ServiceRegistry.findService, hnew] at hold
      cases hold
    · rw [addService, ServiceRegistry.findService_addService hptr, if_pos rfl,
        Option.some.injEq] at hnew
      rw [← hnew]
      exact ⟨rfl, rfl⟩
  · exact updateService_spec hindexed hptr hexisting hsame

theorem storeService_announces {ptr : ServicePtr}
    {reg : ServiceRegistration} {core' : BrokerCore}
    (h : core.storeService settings env ptr reg = (.ok (), core')) :
    Announces env.codec core core' := by
  obtain ⟨-, rfl⟩ | ⟨existing, -, -, rfl⟩ := storeService_cases h
  · exact .of_eq rfl
  · exact updateService_announces _ _ _

theorem addPrefixes_spec (hindexed : core.services.Indexed) (reg : ServiceRegistration) :
    (core.addPrefixes settings reg).services.Indexed ∧
      ∀ g, (core.addPrefixes settings reg).services.findService g = core.services.findService g := by
  unfold addPrefixes
  split_ifs
  · exact ⟨⟨hindexed.guid, hindexed.topic, hindexed.nodup, hindexed.zones,
      ServiceRegistry.isEventTopic_addEventToRequestPrefix reg hindexed.prefixes⟩, fun _ => rfl⟩
  · exact ⟨hindexed, fun _ => rfl⟩

theorem addPrefixes_announces (c : Codec) (reg : ServiceRegistration) :
    Announces c core (core.addPrefixes settings reg) := by
  unfold addPrefixes
  split_ifs
  · exact .of_eq rfl
  · exact .refl _ _

/-- A registration that is accepted was stored. -/
theorem registerService_cases {ptr : ServicePtr} {reg : ServiceRegistration} {core' : BrokerCore}
    (h : core.registerService settings env ptr reg = (.ok (), core')) :
    ∃ stored, reg.serviceGuid ≠ [] ∧ core.storeService settings env ptr reg = (.ok (), stored) ∧
      core' = ((stored.addPrefixes settings reg).sendServiceRegistrationEvent settings env
        reg).countService settings env reg 1 := by
  unfold registerService at h
  split_ifs at h with hguid
  · cases h
  · split at h
    · cases h
    · next stored hstore =>
      cases h
      exact ⟨stored, hguid, hstore, rfl⟩

/-- A registration that is rejected changes nothing. -/
theorem registerService_error {ptr : ServicePtr} {reg : ServiceRegistration} {core' : BrokerCore}
    {e : String} (h : core.registerService settings env ptr reg = (.error e, core')) :
    core' = core := by
  unfold registerService at h
  split_ifs at h
  · cases h
    rfl
  · split at h
    · next hstore =>
      cases h
      exact storeService_error hstore
    · cases h

/-- A registration that is accepted changes no service of another client or tenant. -/
theorem registerService_spec (hindexed : core.services.Indexed) {ptr : ServicePtr}
    (hptr : core.services.Unused ptr) {reg : ServiceRegistration} {core' : BrokerCore}
    (h : core.registerService settings env ptr reg = (.ok (), core')) :
    core'.services.Indexed ∧ SameForeign reg.clientGuid reg.clientTenantGuid core core' := by
  obtain ⟨stored, -, hstore, rfl⟩ := registerService_cases h
  obtain ⟨hindexed', hforeign⟩ := storeService_spec hindexed hptr hstore
  obtain ⟨hprefixes, hfind⟩ := @addPrefixes_spec settings stored hindexed' reg
  unfold SameForeign
  rw [countService_services, sendServiceRegistrationEvent, sendServiceEvent_services]
  refine ⟨hprefixes, fun g old hold => ?_⟩
  rw [hfind]
  exact hforeign g old hold

theorem registerService_announces {ptr : ServicePtr}
    {reg : ServiceRegistration} {core' : BrokerCore}
    (h : core.registerService settings env ptr reg = (.ok (), core')) :
    Announces env.codec core core' := by
  obtain ⟨stored, -, hstore, rfl⟩ := registerService_cases h
  exact (storeService_announces hstore).trans ((addPrefixes_announces _ _).trans
    ((sendServiceEvent_announces startsWith_channels.1 _ _).trans
      (countService_announces _ _)))

/-! ### Expired services -/

theorem removeIfExpired_spec (hindexed : core.services.Indexed) (guid : Bytes) :
    (core.removeIfExpired settings env guid).services.Indexed ∧
      ∀ g reg, (core.removeIfExpired settings env guid).services.findService g = some reg ↔
        core.services.findService g = some reg ∧
          (reg.isExpired settings env.time = false ∨ g ≠ guid) := by
  unfold removeIfExpired
  cases hfind : core.services.findService guid with
  | none =>
    refine ⟨hindexed, fun g reg => ⟨fun hg => ⟨hg, .inr ?_⟩, fun hg => hg.1⟩⟩
    rintro rfl
    rw [hfind] at hg
    cases hg
  | some found =>
    simp only
    split_ifs with hexpired
    · obtain ⟨hindexed', hafter⟩ := @unregisterService_spec settings env core hindexed guid
        true
      refine ⟨hindexed', fun g reg => ?_⟩
      rw [hafter]
      by_cases hg : g = guid
      · rw [if_pos hg, hg, hfind, Option.some.injEq]
        constructor
        · intro h
          cases h
        · rintro ⟨rfl, h | h⟩
          · rw [hexpired] at h
            cases h
          · exact absurd rfl h
      · simp [hg]
    · refine ⟨hindexed, fun g reg => ⟨fun hg => ⟨hg, ?_⟩, fun hg => hg.1⟩⟩
      by_cases he : g = guid
      · left
        rw [he, hfind, Option.some.injEq] at hg
        rw [← hg]
        simpa using hexpired
      · exact .inr he

theorem removeExpired_spec (hindexed : core.services.Indexed) (guids : List Bytes) :
    (guids.foldl (removeIfExpired settings env) core).services.Indexed ∧
      ∀ g reg, (guids.foldl (removeIfExpired settings env) core).services.findService g =
          some reg ↔
        core.services.findService g = some reg ∧
          (reg.isExpired settings env.time = false ∨ g ∉ guids) := by
  induction guids generalizing core with
  | nil => exact ⟨hindexed, fun g reg => by simp⟩
  | cons guid guids ih =>
    obtain ⟨hindexed', hafter⟩ := @removeIfExpired_spec settings env core hindexed guid
    obtain ⟨hindexed'', hafter'⟩ := ih hindexed'
    refine ⟨hindexed'', fun g reg => ?_⟩
    rw [List.foldl_cons, hafter', hafter, List.mem_cons, not_or]
    tauto

/-- A check of the times to live leaves exactly the services that have not expired. -/
theorem checkServiceTtls_spec (hindexed : core.services.Indexed) :
    (core.checkServiceTtls settings env).services.Indexed ∧
      ∀ g reg, (core.checkServiceTtls settings env).services.findService g = some reg ↔
        core.services.findService g = some reg ∧ reg.isExpired settings env.time = false := by
  obtain ⟨hindexed', hafter⟩ := @removeExpired_spec settings env core hindexed
    (env.serviceOrder.arrange core.services.servicesById.keys)
  refine ⟨hindexed', fun g reg => ?_⟩
  rw [checkServiceTtls, hafter, IterOrder.mem_arrange]
  constructor
  · rintro ⟨hg, h | h⟩
    · exact ⟨hg, h⟩
    · have hkey : g ∉ core.services.servicesById := fun hm => h (AList.mem_keys.mp hm)
      rw [ServiceRegistry.findService, AList.lookup_eq_none.mpr hkey] at hg
      cases hg
  · exact fun hg => ⟨hg.1, .inl hg.2⟩

/-- What the removal of a service keeps is kept by the check of some services. -/
theorem removeExpired_keeps {I : BrokerCore → Prop}
    (hremove : ∀ core guid, I core → I (core.unregisterService settings env guid true))
    (guids : List Bytes) (h : I core) : I (guids.foldl (removeIfExpired settings env) core) := by
  induction guids generalizing core with
  | nil => exact h
  | cons guid guids ih =>
    refine ih ?_
    unfold removeIfExpired
    split
    · split_ifs
      · exact hremove core guid h
      · exact h
    · exact h

/-- What the announcement of a service keeps is kept when all are announced again. -/
theorem sendServiceRegistrationEvents_keeps {I : BrokerCore → Prop}
    (hsend : ∀ core reg, I core → I (core.sendServiceRegistrationEvent settings env reg))
    (h : I core) : I (core.sendServiceRegistrationEvents settings env) := by
  unfold sendServiceRegistrationEvents
  generalize (env.serviceOrder.arrange core.services.servicesById.keys).filterMap
    core.services.findService = regs
  induction regs generalizing core with
  | nil => exact h
  | cons reg regs ih =>
    refine ih ?_
    beta_reduce
    split_ifs
    · exact h
    · exact hsend core _ h

theorem sendServiceRegistrationEvents_services :
    (core.sendServiceRegistrationEvents settings env).services = core.services :=
  sendServiceRegistrationEvents_keeps (I := fun c => c.services = core.services)
    (fun _ _ h => (sendServiceEvent_services _ _ _).trans h) rfl

theorem sendServiceRegistrationEvents_announces :
    Announces env.codec core (core.sendServiceRegistrationEvents settings env) :=
  sendServiceRegistrationEvents_keeps
    (fun _ _ h => h.trans (sendServiceEvent_announces startsWith_channels.1 _ _)) (.refl _ _)

/-! ### What is left alone -/

@[simp] theorem send_others (channel : Bytes) (m : DxlMessage) :
    (core.send env channel m).others = core.others := rfl

@[simp] theorem countService_others (reg : ServiceRegistration) (n : ℤ) :
    (core.countService settings env reg n).others = core.others := by
  unfold countService
  split_ifs
  · unfold updateTenantServiceCount
    simp only
    split_ifs <;> rfl
  · rfl

@[simp] theorem sendServiceEvent_others (channel payload : Bytes) (reg : ServiceRegistration) :
    (core.sendServiceEvent settings env channel payload reg).others = core.others := by
  unfold sendServiceEvent
  split_ifs <;> rfl

@[simp] theorem doUnregisterService_others (ptr : ServicePtr) (fireEvent : Bool) :
    (core.doUnregisterService settings env ptr fireEvent).others = core.others := by
  unfold doUnregisterService
  simp only
  split_ifs
  · exact sendServiceEvent_others _ _ _
  · rfl

@[simp] theorem unregisterService_others (serviceGuid : Bytes) (fireEvent : Bool) :
    (core.unregisterService settings env serviceGuid fireEvent).others = core.others := by
  unfold unregisterService
  split
  · rfl
  · rw [countService_others, doUnregisterService_others]

@[simp] theorem unregisterServiceOf_others (serviceGuid clientGuid clientTenantGuid : Bytes)
    (fireEvent : Bool) :
    (core.unregisterServiceOf settings env serviceGuid clientGuid clientTenantGuid
      fireEvent).others = core.others := by
  unfold unregisterServiceOf
  split
  · rfl
  · simp only
    split_ifs
    · exact doUnregisterService_others _ _
    · rfl

@[simp] theorem registerService_others (ptr : ServicePtr) (reg : ServiceRegistration) :
    (core.registerService settings env ptr reg).2.others = core.others := by
  cases hres : core.registerService settings env ptr reg with
  | mk res core' =>
    cases res with
    | error e => rw [registerService_error hres]
    | ok u =>
      obtain ⟨stored, -, hstore, rfl⟩ := registerService_cases hres
      have hprefixes : (stored.addPrefixes settings reg).others = stored.others := by
        unfold addPrefixes
        split_ifs <;> rfl
      rw [countService_others, sendServiceRegistrationEvent, sendServiceEvent_others, hprefixes]
      obtain ⟨-, rfl⟩ | ⟨existing, -, -, rfl⟩ := storeService_cases hstore
      · rfl
      · unfold updateService
        simp only
        split_ifs
        · rfl
        · rfl
        · exact unregisterService_others _ _

end BrokerCore

end DxlBroker
