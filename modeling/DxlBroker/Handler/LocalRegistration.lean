import DxlBroker.Handler.TopicHandlers
import DxlBroker.Service.RegistryRuns

/-!
# Registrations of local clients

A local client that registers a service gets a response as soon as `registerService` returns.  The
registration is then in the registry, unless the service is registered at another broker and has
more time left there than the client asks for: such a registration is accepted and ignored.
-/

namespace DxlBroker

open Bytes Unordered

/-- The service is found with the fields of a registration. -/
def TakesEffect (reg : ServiceRegistration) (r : ServiceRegistry) : Prop :=
  ∃ found, r.findService reg.serviceGuid = some found ∧
    found.brokerGuid = reg.brokerGuid ∧
    found.clientGuid = reg.clientGuid ∧
    found.getClientInstanceGuid = reg.getClientInstanceGuid ∧
    found.requestChannels.toFinset = reg.requestChannels.toFinset ∧
    found.ttlMins = reg.ttlMins

/-- The service is registered at another broker and has more minutes left than it would get. -/
def OutlivedElsewhere (now : ℤ) (reg : ServiceRegistration) (r : ServiceRegistry) : Prop :=
  ∃ old, r.findService reg.serviceGuid = some old ∧ old.brokerGuid ≠ reg.brokerGuid ∧
    reg.ttlMins < old.getAdjustedTtlMins now

instance (reg : ServiceRegistration) (r : ServiceRegistry) : Decidable (TakesEffect reg r) :=
  decidable_of_iff ((r.findService reg.serviceGuid).any fun found =>
      found.brokerGuid == reg.brokerGuid && found.clientGuid == reg.clientGuid &&
      found.getClientInstanceGuid == reg.getClientInstanceGuid &&
      found.requestChannels.toFinset == reg.requestChannels.toFinset &&
      found.ttlMins == reg.ttlMins) <| by
    simp only [TakesEffect, Option.any_eq_true, Bool.and_eq_true, beq_iff_eq, and_assoc]

instance (now : ℤ) (reg : ServiceRegistration) (r : ServiceRegistry) :
    Decidable (OutlivedElsewhere now reg r) :=
  decidable_of_iff ((r.findService reg.serviceGuid).any fun old =>
      old.brokerGuid != reg.brokerGuid && decide (reg.ttlMins < old.getAdjustedTtlMins now)) <| by
    simp only [OutlivedElsewhere, Option.any_eq_true, Bool.and_eq_true, bne_iff_ne,
      decide_eq_true_eq]

theorem TakesEffect.of_found {reg : ServiceRegistration} {r : ServiceRegistry}
    (h : r.findService reg.serviceGuid = some reg) : TakesEffect reg r :=
  ⟨reg, h, rfl, rfl, rfl, rfl, rfl⟩

namespace BrokerCore

variable {settings : BrokerSettings} {env : ServiceEnv} {core : BrokerCore}

/-- An update takes effect unless it is ignored. -/
theorem updateService_takesEffect_iff {existing ptr : ServicePtr}
    (hptr : core.services.Unused ptr) {reg : ServiceRegistration}
    (hexisting : core.services.servicesById.lookup reg.serviceGuid = some existing) :
    TakesEffect reg (core.updateService settings env existing ptr reg).services ↔
      ¬ OutlivedElsewhere env.time reg core.services := by
  have hfind : core.services.findService reg.serviceGuid = some (core.services.regs existing) := by
    rw [ServiceRegistry.findService, hexisting]
    rfl
  have houtlived : OutlivedElsewhere env.time reg core.services ↔
      (core.services.regs existing).brokerGuid ≠ reg.brokerGuid ∧
        reg.ttlMins < (core.services.regs existing).getAdjustedTtlMins env.time := by
    constructor
    · rintro ⟨old, hold, h⟩
      rw [hfind, Option.some.injEq] at hold
      rwa [hold]
    · exact fun h => ⟨_, hfind, h⟩
  rw [houtlived]
  unfold updateService
  simp only
  split_ifs with hignored hsame
  · -- The old registration stays, and it names another broker.
    refine ⟨?_, fun h => absurd hignored h⟩
    rintro ⟨found, hfound, hbroker, -⟩
    rw [hfind, Option.some.injEq] at hfound
    exact absurd (hfound ▸ hbroker) hignored.1
  · refine ⟨fun _ => hignored, fun _ => ?_⟩
    simp only [ServiceRegistration.sameData, Bool.and_eq_true, beq_iff_eq] at hsame
    obtain ⟨⟨⟨⟨⟨⟨⟨⟨hchannels, hbroker⟩, hclient⟩, hinstance⟩, -⟩, -⟩, -⟩, -⟩, -⟩ := hsame
    refine ⟨{ core.services.regs existing with
      ttlMins := reg.ttlMins, metaData := reg.metaData, regTime := reg.regTime }, ?_, hbroker,
      hclient, hinstance, hchannels, rfl⟩
    show (core.services.servicesById.lookup reg.serviceGuid).map
      (Function.update core.services.regs existing _) = _
    rw [hexisting, Option.map_some, Function.update_self]
  · refine ⟨fun _ => hignored, fun _ => .of_found ?_⟩
    rw [addService, ServiceRegistry.findService_addService
      (unused_unregisterService hptr reg.serviceGuid false), if_pos rfl]

theorem storeService_takesEffect_iff {ptr : ServicePtr} (hptr : core.services.Unused ptr)
    {reg : ServiceRegistration} {core' : BrokerCore}
    (h : core.storeService settings env ptr reg = (.ok (), core')) :
    TakesEffect reg core'.services ↔ ¬ OutlivedElsewhere env.time reg core.services := by
  obtain ⟨hnew, rfl⟩ | ⟨existing, hexisting, -, rfl⟩ := storeService_cases h
  · refine ⟨fun _ => ?_, fun _ => .of_found ?_⟩
    · rintro ⟨old, hold, -⟩
      rw [ServiceRegistry.findService, hnew] at hold
      cases hold
    · rw [addService, ServiceRegistry.findService_addService hptr, if_pos rfl]
  · exact updateService_takesEffect_iff hptr hexisting

end BrokerCore

/-- **Accepted registrations of local clients.**  Whatever a local client asks for, and whatever is
registered: a registration that is accepted takes effect exactly when the service has not more time
left at another broker. -/
theorem registration_takesEffect_iff (settings : BrokerSettings) (env : HandlerEnv)
    {core core' : BrokerCore} (hptr : core.services.Unused env.newService)
    (ctx : CoreMessageContext) (request : DxlMessage) (payload : ServiceRegistration)
    (h : core.registerService settings env.toServiceEnv env.newService
      (registrationOf settings env ctx request payload) = (.ok (), core')) :
    TakesEffect (registrationOf settings env ctx request payload) core'.services ↔
      ¬ OutlivedElsewhere env.time (registrationOf settings env ctx request payload)
        core.services := by
  obtain ⟨stored, -, hstore, rfl⟩ := BrokerCore.registerService_cases h
  rw [BrokerCore.countService_services, BrokerCore.sendServiceRegistrationEvent,
    BrokerCore.sendServiceEvent_services]
  have hiff := BrokerCore.storeService_takesEffect_iff hptr hstore
  have hsame : TakesEffect (registrationOf settings env ctx request payload)
      (stored.addPrefixes settings (registrationOf settings env ctx request payload)).services ↔
      TakesEffect (registrationOf settings env ctx request payload) stored.services := by
    unfold BrokerCore.addPrefixes
    split_ifs <;> exact Iff.rfl
  rw [hsame]
  exact hiff

/-- The handlers of `plainEnv`: no query is answered, and no event can be read. -/
def plainHandlerEnv (time : ℤ) (newService : ServicePtr) : HandlerEnv where
  toServiceEnv := plainEnv time
  reader := ⟨fun _ => .error "Error parsing JSON", fun _ => .error "Error parsing JSON",
    fun _ => .error "Error parsing JSON"⟩
  readTenantExceedsLimit _ := .error "Error parsing JSON"
  readClientConnect _ := .error "Error parsing JSON"
  answer _ _ _ := .ok none
  brokerStatePayload _ := []
  brokerTopicsPayloads _ := []
  newService := newService
  certHashes := []

/-- The client `C` of `L`, that is managed. -/
def plainContext : CoreMessageContext where
  sourceId := lit "C"
  canonicalSourceId := lit "C"
  isSourceBridge := false
  contextFlags := dxlFlagManaged
  topic := dxlBrokerRequestPrefix ++ lit "svcregistry/register"

/-- The service of `plainService`, registered by the same client at another broker `A` for so many
minutes. -/
def elsewhere (ttlMins : UInt32) : BrokerCore :=
  BrokerCore.serviceStep plainSettings (plainEnv 0) {}
    (.registerService 0 { plainService with brokerGuid := lit "A", ttlMins := ttlMins })

/-- The registration that the client then asks for at `L`, an hour later. -/
def plainRegistration : ServiceRegistration :=
  registrationOf plainSettings (plainHandlerEnv 3600 1) plainContext ⟨serviceRequest, false, none,
    false⟩ plainService

/-- The time left at the other broker is not longer than the new one. -/
theorem registration_takesEffect_moved :
    TakesEffect plainRegistration ((elsewhere 120).registerService plainSettings
      (plainEnv 3600) 1 plainRegistration).2.services := by
  have hunused : (elsewhere 120).services.Unused (plainHandlerEnv 3600 1).newService := by decide
  refine (registration_takesEffect_iff plainSettings (plainHandlerEnv 3600 1) hunused plainContext
    ⟨serviceRequest, false, none, false⟩ plainService rfl).mpr ?_
  decide

/-- The client asks for one hour where the other broker has two left: the registration is accepted,
and the service stays at the other broker. -/
theorem registration_ignored :
    (elsewhere 180).Reached plainSettings ∧
    ∃ core', (elsewhere 180).registerService plainSettings (plainEnv 3600) 1
      plainRegistration = (.ok (), core') ∧ ¬ TakesEffect plainRegistration core'.services :=
  ⟨.step (.init rfl rfl) _ _ (fun _ h => nomatch h), _, rfl, by decide⟩

end DxlBroker
