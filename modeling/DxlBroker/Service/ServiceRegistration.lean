import DxlBroker.Core.Settings
import DxlBroker.Lib.Unordered
import Mathlib.Algebra.Group.Int.Defs
import Mathlib.Data.List.Sort
import Mathlib.Logic.Function.Basic

/-!
# Service registrations

`ServiceRegistration` is what a broker knows of a service: who registered it, on which topics it
takes requests, how long it lives, and in multi-tenant mode which tenants may use it.  Registrations
are objects that several indexes point to, so the services of a topic are sets of addresses.
-/

namespace DxlBroker

open Bytes Unordered

/-- `ServiceRegistration`.  The hash sets are lists in the order of their iteration. -/
structure ServiceRegistration where
  serviceType : Bytes := []
  serviceGuid : Bytes := []
  clientGuid : Bytes := []
  clientInstanceGuid : Bytes := []
  brokerGuid : Bytes := []
  ttlMins : UInt32 := 0
  requestChannels : List Bytes := []
  metaData : Map Bytes Bytes := ∅
  regTime : ℤ := 0
  brokerService : Bool := false
  clientTenantGuid : Bytes := []
  targetTenantGuids : List Bytes := []
  certificates : List Bytes := []
  managedClient : Bool := true

namespace ServiceRegistration

/-- `getClientInstanceGuid`: the client itself when there is no instance. -/
def getClientInstanceGuid (reg : ServiceRegistration) : Bytes :=
  if reg.clientInstanceGuid = [] then reg.clientGuid else reg.clientInstanceGuid

section

variable (settings : BrokerSettings) (reg : ServiceRegistration)

/-- `isLocal`, which `setBrokerGuid` keeps up to date. -/
def isLocal : Bool := reg.brokerGuid == cstr settings.guid

/-- `isOps`, which `setClientTenantGuid` keeps up to date. -/
def isOps : Bool :=
  settings.multiTenantModeEnabled && reg.clientTenantGuid == cstr settings.tenantGuid

/-- `isServiceAvailable`: a service of the ops tenant is available to its target tenants, or to all
when it has none, another one to its own tenant. -/
def isServiceAvailable (tenantGuid : Bytes) : Bool :=
  if !settings.multiTenantModeEnabled then true
  else if reg.isOps settings then
    reg.targetTenantGuids.isEmpty || reg.targetTenantGuids.any fun guid => guid == cstr tenantGuid
  else reg.clientTenantGuid == cstr tenantGuid

/-- The period until the service expires, an unsigned product of 32 bits. -/
def lifetime : ℤ := (reg.ttlMins.toNat + settings.ttlGracePeriodMins) * 60 % 2 ^ 32

/-- `isExpired` -/
def isExpired (now : ℤ) : Bool := decide (now - reg.regTime > reg.lifetime settings)

end

/-- `getAdjustedTtlMins`: the minutes that are left, rounded. -/
def getAdjustedTtlMins (reg : ServiceRegistration) (now : ℤ) : UInt32 :=
  let minDiff := Int32.ofInt ((now - reg.regTime + 30).tdiv 60)
  let ttlDiff := (reg.ttlMins - minDiff.toUInt32).toInt32
  if 0 < ttlDiff then ttlDiff.toUInt32 else 0

/-- `resetRegistrationTime` -/
def resetRegistrationTime (reg : ServiceRegistration) (now : ℤ) : ServiceRegistration :=
  { reg with ttlMins := reg.getAdjustedTtlMins now, regTime := now }

/-- The comparison of `updateService`: all that is compared besides the client and the service. -/
def sameData (a b : ServiceRegistration) : Bool :=
  a.requestChannels.toFinset == b.requestChannels.toFinset &&
  a.brokerGuid == b.brokerGuid &&
  a.clientGuid == b.clientGuid &&
  a.getClientInstanceGuid == b.getClientInstanceGuid &&
  a.serviceType == b.serviceType &&
  a.metaData.pairs.toFinset == b.metaData.pairs.toFinset &&
  a.targetTenantGuids.toFinset == b.targetTenantGuids.toFinset &&
  a.managedClient == b.managedClient &&
  a.certificates.toFinset == b.certificates.toFinset

end ServiceRegistration

/-! ### The services of a topic -/

/-- `serviceRegistrationPtr_t`: the address of a registration. -/
abbrev ServicePtr := ℕ

/-- `std::set::insert` of a pointer: the set is ordered by address. -/
def insertPtr (ptr : ServicePtr) (services : List ServicePtr) : List ServicePtr :=
  if services.any fun p => p == ptr then services else services.orderedInsert (· ≤ ·) ptr

@[simp] theorem mem_insertPtr {ptr p : ServicePtr} {services : List ServicePtr} :
    p ∈ insertPtr ptr services ↔ p = ptr ∨ p ∈ services := by
  unfold insertPtr
  split_ifs with h
  · obtain ⟨q, hq, rfl⟩ : ∃ q ∈ services, q = ptr := by simpa using h
    constructor
    · exact Or.inr
    · rintro (rfl | hp)
      · exact hq
      · exact hp
  · rw [List.mem_orderedInsert]

/-- `ZoneServices`: the services of a zone, and the position of the iterator to the next one. -/
structure ZoneServices where
  zone : Bytes
  services : List ServicePtr
  nextService : ℕ

/-- A zone with these services; the iterator is at the end. -/
def ZoneServices.ofServices (zone : Bytes) (services : List ServicePtr) : ZoneServices :=
  ⟨zone, services, services.length⟩

/-- `getServicesSize` -/
def ZoneServices.getServicesSize (z : ZoneServices) : UInt32 := UInt32.ofNat z.services.length

/-- How often `getNextService` tries: the size as an `int`, and not at all when that is negative. -/
def ZoneServices.tries (z : ZoneServices) : ℕ := (Int32.ofNat z.services.length).toInt.toNat

/-- `TopicServices`: the services of a topic, and the zones, once they were calculated. -/
structure TopicServices where
  services : List ServicePtr := []
  servicesByZone : Option (List ZoneServices) := none

namespace TopicServices

/-- `addService` -/
def addService (ptr : ServicePtr) (t : TopicServices) : TopicServices where
  services := insertPtr ptr t.services

/-- `removeService` -/
def removeService (ptr : ServicePtr) (t : TopicServices) : TopicServices where
  services := t.services.erase ptr

/-- `clearServiceZones` -/
def clearServiceZones (t : TopicServices) : TopicServices := { t with servicesByZone := none }

end TopicServices

end DxlBroker
