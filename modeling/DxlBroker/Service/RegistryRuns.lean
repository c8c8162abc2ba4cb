import DxlBroker.Service.CoreOperations

/-!
# Runs of the service registry

Any sequence of registrations, updates, removals, expirations and lookups, with the clock, the
iteration orders and the routes free at each of them.  The indexes by type and by topic hold exactly
the registered services, and the counter of the local services is right.
-/

namespace DxlBroker

open Bytes Unordered

namespace ServiceRegistry

/-- The number of services with a property. -/
def numServices (r : ServiceRegistry) (p : ServiceRegistration → Bool) : ℕ :=
  r.servicesById.countVals fun ptr => p (r.regs ptr)

/-- What the index by type, the entries of the topics and the counter hold. -/
structure Complete (settings : BrokerSettings) (r : ServiceRegistry) : Prop where
  byType : ∀ e, e ∈ r.servicesByType ↔ r.Registered e.2 ∧ e.1 = (r.regs e.2).serviceType
  nodupType : r.servicesByType.Nodup
  nonempty : ∀ t ts, r.servicesByTopic.lookup t = some ts → ts.services ≠ []
  counter : r.localSvcCounter =
    UInt32.ofNat (r.numServices fun reg => reg.isLocal settings)

theorem Complete.init (settings : BrokerSettings) : Complete settings {} where
  byType e := by
    constructor
    · intro h
      cases h
    · rintro ⟨h, -⟩
      cases h
  nodupType := List.nodup_nil
  nonempty _ _ h := nomatch h
  counter := rfl

/-! ### Counting services -/

section

variable {settings : BrokerSettings} {r : ServiceRegistry} {ptr : ServicePtr}
  {p : ServiceRegistration → Bool}

/-- The pointer of an entry is that of a service. -/
theorem lookup_of_mem_entries {m : Map Bytes ServicePtr} {e : Sigma fun _ : Bytes => ServicePtr}
    (h : e ∈ m.entries) : m.lookup e.1 = some e.2 :=
  AList.mem_lookup_iff.mpr h

instance (r : ServiceRegistry) (ptr : ServicePtr) : Decidable (r.Unused ptr) :=
  decidable_of_iff (∀ e ∈ r.servicesById.entries, e.2 ≠ ptr) <| by
    constructor
    · exact fun h guid hguid => h ⟨guid, ptr⟩ (AList.mem_lookup_iff.mp hguid) rfl
    · exact fun h e he heq => h e.1 (heq ▸ lookup_of_mem_entries he)

theorem numServices_addService (hptr : r.Unused ptr) {reg : ServiceRegistration}
    (hnew : r.servicesById.lookup reg.serviceGuid = none) :
    (r.addService settings ptr reg).numServices p =
      r.numServices p + if p reg then 1 else 0 := by
  have hothers : r.servicesById.countVals (fun q => p (Function.update r.regs ptr reg q)) =
      r.numServices p := by
    refine Map.countVals_congr fun e he => ?_
    have hne : e.2 ≠ ptr := fun heq => hptr e.1 (heq ▸ lookup_of_mem_entries he)
    rw [Function.update_of_ne hne]
  show Map.countVals _ (r.servicesById.insert reg.serviceGuid ptr) = _
  rw [Map.countVals_insert hnew]
  show r.servicesById.countVals (fun q => p (Function.update r.regs ptr reg q)) +
    (if p (Function.update r.regs ptr reg ptr) then 1 else 0) = _
  rw [hothers, Function.update_self]

theorem numServices_removeFromIndexes (hptr : r.Registered ptr) :
    r.numServices p =
      (r.removeFromIndexes settings ptr).numServices p + if p (r.regs ptr) then 1 else 0 :=
  Map.countVals_erase hptr _

theorem numServices_doUnregisterService (hptr : r.Registered ptr) (order : IterOrder Bytes) :
    r.numServices p =
      (r.doUnregisterService settings order ptr).numServices p +
        if p (r.regs ptr) then 1 else 0 := by
  have h := @numServices_removeFromIndexes settings r ptr p hptr
  unfold ServiceRegistry.doUnregisterService
  simp only
  split_ifs at h ⊢ <;> exact h

theorem numServices_refresh (reg : ServiceRegistration)
    (hp : p { r.regs ptr with
        ttlMins := reg.ttlMins, metaData := reg.metaData, regTime := reg.regTime } =
      p (r.regs ptr)) : (r.refresh ptr reg).numServices p = r.numServices p := by
  refine Map.countVals_congr fun e he => ?_
  show p (Function.update r.regs ptr _ e.2) = p (r.regs e.2)
  by_cases hptr : e.2 = ptr
  · rw [hptr, Function.update_self, hp]
  · rw [Function.update_of_ne hptr]

end

/-! ### Adding and removing -/

section

variable {settings : BrokerSettings} {r : ServiceRegistry} {ptr : ServicePtr}

theorem Complete.addService (h : r.Complete settings) (hptr : r.Unused ptr)
    {reg : ServiceRegistration}
    (hnew : r.servicesById.lookup reg.serviceGuid = none) :
    (r.addService settings ptr reg).Complete settings := by
  have hunused : ¬ r.Registered ptr := hptr _
  refine ⟨fun e => ?_, ?_, fun t ts hts => ?_, ?_⟩
  · show e ∈ r.servicesByType ++ [(reg.serviceType, ptr)] ↔
      _ ∧ e.1 = (Function.update r.regs ptr reg e.2).serviceType
    rw [List.mem_append, List.mem_singleton, h.byType, registered_addService hptr hnew]
    by_cases he : e.2 = ptr
    · rw [he, Function.update_self]
      simp only [hunused, false_and, false_or, true_or, true_and]
      constructor
      · rintro rfl
        rfl
      · intro htype
        exact Prod.ext htype he
    · rw [Function.update_of_ne he]
      have hne : e ≠ (reg.serviceType, ptr) := fun heq => he (congrArg Prod.snd heq)
      simp [he, hne]
  · show (r.servicesByType ++ [(reg.serviceType, ptr)]).Nodup
    have hnot : (reg.serviceType, ptr) ∉ r.servicesByType :=
      fun hm => hunused ((h.byType _).mp hm).1
    exact List.nodup_append.mpr ⟨h.nodupType, List.nodup_singleton _, fun a ha b hb => by
      rw [List.mem_singleton.mp hb]
      exact fun e => hnot (e ▸ ha)⟩
  · rw [show (r.addService settings ptr reg).servicesByTopic =
      reg.requestChannels.foldl (addToTopic ptr) r.servicesByTopic from rfl,
      lookup_addToTopics] at hts
    split_ifs at hts
    · cases hts
      exact List.ne_nil_of_mem (mem_insertPtr.mpr (.inl rfl))
    · exact h.nonempty t ts hts
  · rw [numServices_addService hptr hnew]
    show (if reg.isLocal settings then r.localSvcCounter + 1 else r.localSvcCounter) = _
    rw [h.counter]
    split_ifs
    · rw [UInt32.ofNat_add]
      rfl
    · rfl

/-- The entries by type after a service was removed. -/
theorem mem_eraseType (h : r.Complete settings) (hptr : r.Registered ptr)
    (e : Bytes × ServicePtr) :
    e ∈ (r.removeFromIndexes settings ptr).servicesByType ↔
      e ∈ r.servicesByType ∧ e ≠ ((r.regs ptr).serviceType, ptr) := by
  have hmem : ((r.regs ptr).serviceType, ptr) ∈ r.servicesByType := (h.byType _).mpr ⟨hptr, rfl⟩
  obtain ⟨e', l₁, l₂, -, he', hl, herase⟩ := List.exists_of_eraseP
    (p := fun e : Bytes × ServicePtr =>
      e.1 == (r.regs ptr).serviceType && (r.regs e.2).serviceGuid == (r.regs ptr).serviceGuid)
    hmem (by simp)
  have hunique : e' = ((r.regs ptr).serviceType, ptr) := by
    have hregistered := ((h.byType e').mp (by rw [hl]; simp)).1
    simp only [Bool.and_eq_true, beq_iff_eq] at he'
    rw [Registered, he'.2] at hregistered
    exact Prod.ext he'.1 (Option.some.inj (hregistered.symm.trans hptr))
  have hnodup := h.nodupType
  rw [hl, List.nodup_middle, List.nodup_cons] at hnodup
  rw [show (r.removeFromIndexes settings ptr).servicesByType = l₁ ++ l₂ from herase, hl, ← hunique]
  simp only [List.mem_append, List.mem_cons]
  constructor
  · intro hm
    refine ⟨by tauto, fun heq => hnodup.1 (heq ▸ List.mem_append.mpr hm)⟩
  · rintro ⟨hm, hne⟩
    tauto

theorem Complete.removeFromIndexes (h : r.Complete settings) (hindexed : r.Indexed)
    (hptr : r.Registered ptr) : (r.removeFromIndexes settings ptr).Complete settings := by
  refine ⟨fun e => ?_, h.nodupType.eraseP _, fun t ts hts => ?_, ?_⟩
  · rw [mem_eraseType h hptr, h.byType, registered_removeFromIndexes hptr]
    show _ ↔ _ ∧ e.1 = (r.regs e.2).serviceType
    constructor
    · rintro ⟨⟨hreg, htype⟩, hne⟩
      exact ⟨⟨hreg, fun he => hne (Prod.ext (he ▸ htype) he)⟩, htype⟩
    · rintro ⟨⟨hreg, hne⟩, htype⟩
      exact ⟨⟨hreg, htype⟩, fun he => hne (congrArg Prod.snd he)⟩
  · rw [lookup_removeFromIndexes hindexed] at hts
    split_ifs at hts
    · obtain ⟨ts', -, hts⟩ := Option.bind_eq_some_iff.mp hts
      unfold withoutService at hts
      split_ifs at hts with hnil
      cases hts
      exact hnil
    · exact h.nonempty t ts hts
  · have hcount := @numServices_removeFromIndexes settings r ptr (fun reg => reg.isLocal settings) hptr
    show (if (r.regs ptr).isLocal settings then r.localSvcCounter - 1 else r.localSvcCounter) = _
    rw [h.counter, hcount]
    split_ifs
    · rw [UInt32.ofNat_add]
      exact UInt32.add_sub_cancel _ _
    · rfl

theorem Complete.doUnregisterService (h : r.Complete settings) (hindexed : r.Indexed)
    (hptr : r.Registered ptr) (order : IterOrder Bytes) :
    (r.doUnregisterService settings order ptr).Complete settings := by
  have hremoved := h.removeFromIndexes hindexed hptr
  unfold ServiceRegistry.doUnregisterService
  simp only
  split_ifs
  · exact ⟨hremoved.byType, hremoved.nodupType, hremoved.nonempty, hremoved.counter⟩
  · exact hremoved

theorem Complete.refresh (h : r.Complete settings) (reg : ServiceRegistration) :
    (r.refresh ptr reg).Complete settings where
  byType e := by
    have htype : ((r.refresh ptr reg).regs e.2).serviceType = (r.regs e.2).serviceType := by
      show (Function.update r.regs ptr _ e.2).serviceType = _
      by_cases he : e.2 = ptr
      · rw [he, Function.update_self]
      · rw [Function.update_of_ne he]
    rw [Registered, (regs_refresh reg e.2).1, htype]
    exact h.byType e
  nodupType := h.nodupType
  nonempty := h.nonempty
  counter := by
    rw [numServices_refresh]
    · exact h.counter
    · rfl

theorem Complete.clearServiceZones (h : r.Complete settings) :
    r.clearServiceZones.Complete settings := by
  refine ⟨h.byType, h.nodupType, fun t ts hts => ?_, h.counter⟩
  simp only [ServiceRegistry.clearServiceZones, Map.lookup_mapVals, Option.map_eq_some_iff] at hts
  obtain ⟨ts', hts', rfl⟩ := hts
  exact h.nonempty t ts' hts'

theorem Complete.getNextService (h : r.Complete settings) {env : ServiceEnv}
    {topic tenantGuid : Bytes} (brokers : BrokerRegistry) :
    (r.getNextService settings env topic tenantGuid brokers).2.1.Complete settings := by
  unfold ServiceRegistry.getNextService
  split
  · exact h
  · next ts hts =>
    refine ⟨h.byType, h.nodupType, fun t ts' hts' => ?_, h.counter⟩
    by_cases ht : t = topic
    · subst ht
      rw [AList.lookup_insert, Option.some.injEq] at hts'
      rw [← hts']
      exact h.nonempty t ts hts
    · rw [AList.lookup_insert_ne ht] at hts'
      exact h.nonempty t ts' hts'

end

end ServiceRegistry

/-! ### Runs -/

/-- The operations on services; a registration comes with the address of its object. -/
inductive ServiceOp
  | registerService (ptr : ServicePtr) (reg : ServiceRegistration)
  | unregisterService (serviceGuid : Bytes) (fireEvent : Bool)
  | unregisterServiceOf (serviceGuid clientGuid clientTenantGuid : Bytes) (fireEvent : Bool)
  | checkServiceTtls
  | sendServiceRegistrationEvents
  | getNextService (topic tenantGuid : Bytes)
  | setServiceZonesByNode (zonesByNode : Map Bytes (List Bytes))
  | clearServiceZones

namespace BrokerCore

/-- One operation. -/
def serviceStep (settings : BrokerSettings) (env : ServiceEnv) (core : BrokerCore) :
    ServiceOp → BrokerCore
  | .registerService ptr reg => (core.registerService settings env ptr reg).2
  | .unregisterService guid fireEvent => core.unregisterService settings env guid fireEvent
  | .unregisterServiceOf guid clientGuid clientTenantGuid fireEvent =>
      core.unregisterServiceOf settings env guid clientGuid clientTenantGuid fireEvent
  | .checkServiceTtls => core.checkServiceTtls settings env
  | .sendServiceRegistrationEvents => core.sendServiceRegistrationEvents settings env
  | .getNextService topic tenantGuid =>
      let res := core.services.getNextService settings env topic tenantGuid core.registry
      { core with services := res.2.1, registry := res.2.2 }
  | .setServiceZonesByNode zonesByNode =>
      { core with services := { core.services with zonesByNode := zonesByNode } }
  | .clearServiceZones => { core with services := core.services.clearServiceZones }

/-- A new registration is put at an address that no service has. -/
def OpOk (core : BrokerCore) : ServiceOp → Prop
  | .registerService ptr _ => core.services.Unused ptr
  | _ => True

/-- The states reached by operations on services, with anything else in between. -/
inductive Reached (settings : BrokerSettings) : BrokerCore → Prop
  | init {core : BrokerCore} (hservices : core.services = {})
      (hcounts : core.servicesPerTenant = ∅) : Reached settings core
  | step {core : BrokerCore} (h : Reached settings core) (env : ServiceEnv) (op : ServiceOp)
      (hop : core.OpOk op) : Reached settings (core.serviceStep settings env op)
  | other {core core' : BrokerCore} (h : Reached settings core)
      (hservices : core'.services = core.services)
      (hcounts : core'.servicesPerTenant = core.servicesPerTenant) : Reached settings core'

/-! ### What the operations keep -/

/-- The removal of a service keeps the property. -/
def KeptByRemoval (settings : BrokerSettings) (I : ServiceRegistry → Prop) : Prop :=
  ∀ (r : ServiceRegistry) (ptr : ServicePtr) (order : IterOrder Bytes), r.Indexed →
    r.Registered ptr → I r → I (r.doUnregisterService settings order ptr)

/-- All that changes the services, their registrations or the prefixes keeps the property. -/
structure Maintained (settings : BrokerSettings) (I : ServiceRegistry → Prop) : Prop where
  removal : KeptByRemoval settings I
  addService : ∀ {r : ServiceRegistry} {ptr : ServicePtr} {reg : ServiceRegistration}, r.Indexed →
    r.Unused ptr → r.servicesById.lookup reg.serviceGuid = none → I r →
      I (r.addService settings ptr reg)
  refresh : ∀ {r : ServiceRegistry} {existing : ServicePtr} {reg : ServiceRegistration},
    r.servicesById.lookup reg.serviceGuid = some existing → I r → I (r.refresh existing reg)
  prefixes : ∀ {r : ServiceRegistry} {prefixes : Map Bytes Bytes}, I r →
    I { r with eventToRequestPrefix := prefixes }

section

variable {settings : BrokerSettings} {env : ServiceEnv} {core : BrokerCore}

/-- What an operation on the core does to the indexes. -/
theorem unregisterService_services (serviceGuid : Bytes) (fireEvent : Bool) :
    (core.unregisterService settings env serviceGuid fireEvent).services =
      ((core.services.servicesById.lookup serviceGuid).map
        (core.services.doUnregisterService settings env.serviceOrder)).getD core.services := by
  unfold unregisterService
  cases core.services.servicesById.lookup serviceGuid with
  | none => rfl
  | some ptr =>
    simp only [countService_services, doUnregisterService_services]
    rfl

/-- A property of the registry that the removal of a service keeps is kept by all that removes
services. -/
theorem KeptByRemoval.unregisterService {I : ServiceRegistry → Prop} (hI : KeptByRemoval settings I)
    (hindexed : core.services.Indexed) (h : I core.services) (serviceGuid : Bytes)
    (fireEvent : Bool) :
    I (core.unregisterService settings env serviceGuid fireEvent).services := by
  rw [unregisterService_services]
  cases hptr : core.services.servicesById.lookup serviceGuid with
  | none => exact h
  | some ptr => exact hI _ _ env.serviceOrder hindexed (hindexed.registered hptr) h

theorem KeptByRemoval.unregisterServiceOf {I : ServiceRegistry → Prop} (hI : KeptByRemoval settings I)
    (hindexed : core.services.Indexed) (h : I core.services)
    (serviceGuid clientGuid clientTenantGuid : Bytes) (fireEvent : Bool) :
    I (core.unregisterServiceOf settings env serviceGuid clientGuid clientTenantGuid
      fireEvent).services := by
  unfold BrokerCore.unregisterServiceOf
  cases hptr : core.services.servicesById.lookup serviceGuid with
  | none => exact h
  | some ptr =>
    simp only
    split_ifs
    · rw [doUnregisterService_services]
      exact hI _ _ env.serviceOrder hindexed (hindexed.registered hptr) h
    · exact h

theorem KeptByRemoval.removeExpired {I : ServiceRegistry → Prop} (hI : KeptByRemoval settings I)
    (guids : List Bytes) (hindexed : core.services.Indexed) (h : I core.services) :
    I (guids.foldl (removeIfExpired settings env) core).services :=
  (removeExpired_keeps (I := fun c => c.services.Indexed ∧ I c.services)
    (fun _ guid h => ⟨(unregisterService_spec h.1 guid true).1,
      hI.unregisterService h.1 h.2 guid true⟩) guids ⟨hindexed, h⟩).2

/-- A registration that was stored adds its prefixes to the registry. -/
theorem registerService_services {ptr : ServicePtr} {reg : ServiceRegistration}
    {stored : BrokerCore} (hguid : reg.serviceGuid ≠ [])
    (hstore : core.storeService settings env ptr reg = (.ok (), stored)) :
    (core.registerService settings env ptr reg).2.services =
      (stored.addPrefixes settings reg).services := by
  rw [registerService, if_neg hguid, hstore]
  show (BrokerCore.countService settings env reg 1 _).services = _
  rw [countService_services, sendServiceRegistrationEvent, sendServiceEvent_services]

/-- What adding, renewing and removing services keep is kept by registrations. -/
theorem Maintained.storeService {I : ServiceRegistry → Prop} (hI : Maintained settings I)
    (hindexed : core.services.Indexed) (h : I core.services) {ptr : ServicePtr}
    (hptr : core.services.Unused ptr) {reg : ServiceRegistration} {core' : BrokerCore}
    (hstore : core.storeService settings env ptr reg = (.ok (), core')) : I core'.services := by
  obtain ⟨hnew, rfl⟩ | ⟨existing, hexisting, -, rfl⟩ := storeService_cases hstore
  · exact hI.addService hindexed hptr hnew h
  · unfold updateService
    simp only
    split_ifs
    · exact h
    · exact hI.refresh hexisting h
    · obtain ⟨hindexed', hfind⟩ :=
        @unregisterService_spec settings env core hindexed reg.serviceGuid false
      refine hI.addService hindexed' (unused_unregisterService hptr _ _)
        (lookup_eq_none_of_findService ?_)
        (hI.removal.unregisterService hindexed h reg.serviceGuid false)
      rw [hfind, if_pos rfl]

theorem Maintained.registerService {I : ServiceRegistry → Prop} (hI : Maintained settings I)
    (hindexed : core.services.Indexed) (h : I core.services) {ptr : ServicePtr}
    (hptr : core.services.Unused ptr) (reg : ServiceRegistration) :
    I (core.registerService settings env ptr reg).2.services := by
  cases hres : core.registerService settings env ptr reg with
  | mk res core' =>
    cases res with
    | error e =>
      rw [registerService_error hres]
      exact h
    | ok u =>
      obtain ⟨stored, -, hstore, rfl⟩ := registerService_cases hres
      have hstored := hI.storeService hindexed h hptr hstore
      simp only
      rw [countService_services, sendServiceRegistrationEvent, sendServiceEvent_services]
      unfold addPrefixes
      split_ifs
      · exact hI.prefixes hstored
      · exact hstored

theorem maintained_complete : Maintained settings (ServiceRegistry.Complete settings) where
  removal _ _ order hindexed hptr h := h.doUnregisterService hindexed hptr order
  addService _ hptr hnew h := h.addService hptr hnew
  refresh _ h := h.refresh _
  prefixes h := ⟨h.byType, h.nodupType, h.nonempty, h.counter⟩

/-- One operation keeps the indexes together. -/
theorem serviceStep_indexed (hindexed : core.services.Indexed)
    (h : core.services.Complete settings) (env : ServiceEnv) {op : ServiceOp}
    (hop : core.OpOk op) :
    (core.serviceStep settings env op).services.Indexed ∧
      (core.serviceStep settings env op).services.Complete settings := by
  have hkept := @maintained_complete settings
  cases op with
  | registerService ptr reg =>
    refine ⟨?_, hkept.registerService hindexed h hop reg⟩
    simp only [serviceStep]
    cases hres : core.registerService settings env ptr reg with
    | mk res core' =>
      cases res with
      | error e =>
        rw [registerService_error hres]
        exact hindexed
      | ok u => exact (registerService_spec hindexed hop hres).1
  | unregisterService guid fireEvent =>
    exact ⟨(unregisterService_spec hindexed guid fireEvent).1,
      hkept.removal.unregisterService hindexed h guid fireEvent⟩
  | unregisterServiceOf guid clientGuid clientTenantGuid fireEvent =>
    exact ⟨(unregisterServiceOf_spec hindexed guid clientGuid clientTenantGuid fireEvent).1,
      hkept.removal.unregisterServiceOf hindexed h guid clientGuid clientTenantGuid fireEvent⟩
  | checkServiceTtls =>
    exact ⟨(checkServiceTtls_spec hindexed).1, hkept.removal.removeExpired _ hindexed h⟩
  | sendServiceRegistrationEvents =>
    simp only [serviceStep, sendServiceRegistrationEvents_services]
    exact ⟨hindexed, h⟩
  | getNextService topic tenantGuid =>
    exact ⟨hindexed.getNextService _, h.getNextService _⟩
  | setServiceZonesByNode zonesByNode =>
    exact ⟨⟨hindexed.guid, hindexed.topic, hindexed.nodup, hindexed.zones, hindexed.prefixes⟩,
      ⟨h.byType, h.nodupType, h.nonempty, h.counter⟩⟩
  | clearServiceZones => exact ⟨hindexed.clearServiceZones, h.clearServiceZones⟩

/-- Every operation keeps the indexes together, so they are in every state that is reached. -/
theorem Reached.indexed (h : Reached settings core) :
    core.services.Indexed ∧ core.services.Complete settings := by
  induction h with
  | init hservices _ =>
    rw [hservices]
    exact ⟨.init, .init settings⟩
  | step h env op hop ih => exact serviceStep_indexed ih.1 ih.2 env hop
  | other h hservices _ ih =>
    rw [hservices]
    exact ih

end

end BrokerCore

/-! ### A small registry -/

/-- A JSON object whose members are written already. -/
def jsonObject (members : List (String × Bytes)) : Bytes :=
  lit "\x7b" ++ (lit ",").intercalate (members.map fun m => lit "\"" ++ lit m.1 ++ lit "\":" ++ m.2)
    ++ lit "\x7d\n"

/-- A JSON string without characters that are escaped. -/
def jsonString (b : Bytes) : Bytes := lit "\"" ++ b ++ lit "\""

/-- A JSON array of strings. -/
def jsonStrings (bs : List Bytes) : Bytes :=
  lit "[" ++ (lit ",").intercalate (bs.map jsonString) ++ lit "]"

/-- Registrations without meta-data, written as the broker does, and nothing that can be read. -/
def plainJson : ServiceJson where
  writeRegister reg := jsonObject [
    ("brokerGuid", jsonString reg.brokerGuid),
    ("certificates", jsonStrings reg.certificates),
    ("clientGuid", jsonString reg.clientGuid),
    ("clientInstanceGuid", jsonString reg.getClientInstanceGuid),
    ("managed", lit (toString reg.managedClient)),
    ("metaData", lit "\x7b\x7d"),
    ("registrationTime", lit (toString reg.regTime)),
    ("requestChannels", jsonStrings reg.requestChannels),
    ("serviceGuid", jsonString reg.serviceGuid),
    ("serviceType", jsonString reg.serviceType),
    ("ttlMins", lit (toString reg.ttlMins.toNat))]
  writeUnregister guid := jsonObject [("serviceGuid", jsonString guid)]
  writeTenantLimit tenantGuid := jsonObject [
    ("clientTenantGuid", jsonString tenantGuid), ("limitType", jsonString (lit "services"))]
  readRegister _ := .error "Error parsing JSON"
  readUnregister _ := .error "Error parsing JSON"

/-- An operation at some time, clients that may subscribe to everything, and every loop in the order
of its list. -/
def plainEnv (time : ℤ) : ServiceEnv where
  codec := Msgpack.msgpackC
  fieldOrder := .asListed _
  newMessageId := lit "m"
  toServiceJson := plainJson
  registryEnv :=
    { now := 0, cacheEnabled := true, clearDelay := 0, iter := .asListed _, time := time,
      order := fun _ => .asListed _ }
  isAuthorizedToSubscribe _ _ := true
  serviceOrder := .asListed _
  infoEnabled := true

/-- The settings of a broker `L` without tenants. -/
def plainSettings : BrokerSettings where
  guid := lit "L"

/-- A service of a client of `L`. -/
def plainService : ServiceRegistration where
  serviceType := lit "/s"
  serviceGuid := lit "S"
  clientGuid := lit "C"
  brokerGuid := lit "L"
  ttlMins := 60
  requestChannels := [lit "/s/a", lit "/s/b"]

namespace BrokerCore

/-- The service of a client is registered. -/
def plainCore : BrokerCore :=
  serviceStep plainSettings (plainEnv 0) {} (.registerService 0 plainService)

end BrokerCore

end DxlBroker
