import DxlBroker.Message.MessageService
import DxlBroker.Registry.BrokerRegistry
import DxlBroker.Service.ServiceRegistration

/-!
# The service registry

`ServiceRegistry` holds the services of the whole fabric, indexed by service, by service type and by
topic, and the prefixes that turn events into requests.  Its operations also count the services of
each tenant and send events to the other brokers.
-/

namespace DxlBroker

open Bytes Unordered

structure ServiceRegistry where
  /-- The registrations that the pointers of the indexes lead to. -/
  regs : ServicePtr → ServiceRegistration := fun _ => {}
  servicesById : Map Bytes ServicePtr := ∅
  servicesByType : List (Bytes × ServicePtr) := []
  servicesByTopic : Map Bytes TopicServices := ∅
  zonesByNode : Map Bytes (List Bytes) := ∅
  eventToRequestPrefix : Map Bytes Bytes := ∅
  localSvcCounter : UInt32 := 0

def eventToRequestTopicProp : Bytes := lit "eventToRequestTopic"

def eventToRequestPrefixProp : Bytes := lit "eventToRequestPrefix"

def channelDxlSvcRegistryRegisterEvent : Bytes := dxlBrokerEventPrefix ++ lit "svcregistry/register"

def channelDxlSvcRegistryUnregisterEvent : Bytes :=
  dxlBrokerEventPrefix ++ lit "svcregistry/unregister"

def channelDxlTenantLimitExceededEvent : Bytes :=
  dxlBrokerEventPrefix ++ lit "tenant/limit/exceeded"

/-- The JSON payloads about services, written and read. -/
structure ServiceJson where
  writeRegister : ServiceRegistration → Bytes
  writeUnregister : Bytes → Bytes
  writeTenantLimit : Bytes → Bytes
  readRegister : Bytes → Except String ServiceRegistration
  readUnregister : Bytes → Except String Bytes

/-- What the operations read from outside.  `isAuthorizedToSubscribe` is the answer of the topic
authorization service for the client of a service and a topic. -/
structure ServiceEnv extends MessageEnv, ServiceJson where
  registryEnv : RegistryEnv
  isAuthorizedToSubscribe : ServiceRegistration → Bytes → Bool
  serviceOrder : IterOrder Bytes
  infoEnabled : Bool

/-- The time of an operation. -/
def ServiceEnv.time (env : ServiceEnv) : ℤ := env.registryEnv.time

namespace ServiceRegistry

/-! ### The indexes -/

/-- The services of a topic get one more, and a topic without services gets an entry. -/
def addToTopic (ptr : ServicePtr) (byTopic : Map Bytes TopicServices) (topic : Bytes) :
    Map Bytes TopicServices :=
  byTopic.insert topic (((byTopic.lookup topic).getD {}).addService ptr)

/-- A service is removed from a topic, and the topic when it was the last one. -/
def removeFromTopic (ptr : ServicePtr) (byTopic : Map Bytes TopicServices) (topic : Bytes) :
    Map Bytes TopicServices :=
  match byTopic.lookup topic with
  | none => byTopic
  | some t =>
      if (t.removeService ptr).services = [] then byTopic.erase topic
      else byTopic.insert topic (t.removeService ptr)

/-- The topics that `addEventToRequestPrefix` accepts. -/
def isEventTopic (topic : Bytes) : Bool :=
  !topic.isEmpty && topic.all (fun c => c != 0x23 && c != 0x2b) &&
    !startsWith dxlBrokerEventPrefix topic

/-- The loop of `addEventToRequestPrefix`. -/
def addEventTopic (requestTopic : Bytes) (prefixes : Map Bytes Bytes) (entry : Bytes × Bytes) :
    Map Bytes Bytes :=
  if startsWith eventToRequestTopicProp entry.1 && isEventTopic entry.2 then
    prefixes.insert entry.2 requestTopic
  else prefixes

section

variable (settings : BrokerSettings) (r : ServiceRegistry)

/-- `addEventToRequestPrefix` -/
def addEventToRequestPrefix (prefixes : Map Bytes Bytes) (reg : ServiceRegistration) :
    Map Bytes Bytes :=
  if !reg.isOps settings && !reg.managedClient then prefixes
  else
    match reg.metaData.lookup eventToRequestPrefixProp with
    | none => prefixes
    | some requestTopic => reg.metaData.pairs.foldl (addEventTopic requestTopic) prefixes

/-- The services whose events may become requests. -/
def mayTranslateEvents (reg : ServiceRegistration) : Bool :=
  (!settings.multiTenantModeEnabled || reg.isOps settings) &&
    (reg.isOps settings || reg.managedClient)

/-- `findService`: the registration that the pointer leads to. -/
def findService (serviceGuid : Bytes) : Option ServiceRegistration :=
  (r.servicesById.lookup serviceGuid).map r.regs

/-- `findService` for a tenant. -/
def findServiceFor (serviceGuid tenantGuid : Bytes) : Option ServiceRegistration :=
  (r.findService serviceGuid).filter fun reg => reg.isServiceAvailable settings tenantGuid

/-- `rebuildEventToRequestPrefixMap` -/
def rebuildEventToRequestPrefixMap (order : IterOrder Bytes) : ServiceRegistry :=
  { r with
    eventToRequestPrefix := ((order.arrange r.servicesById.keys).filterMap r.findService).foldl
      (fun prefixes reg => if mayTranslateEvents settings reg then
        addEventToRequestPrefix settings prefixes reg else prefixes) ∅ }

/-- `addService` -/
def addService (ptr : ServicePtr) (reg : ServiceRegistration) : ServiceRegistry :=
  { r with
    regs := Function.update r.regs ptr reg
    servicesById := r.servicesById.insert reg.serviceGuid ptr
    servicesByType := r.servicesByType ++ [(reg.serviceType, ptr)]
    servicesByTopic := reg.requestChannels.foldl (addToTopic ptr) r.servicesByTopic
    localSvcCounter := if reg.isLocal settings then r.localSvcCounter + 1 else r.localSvcCounter }

/-- The removal of a service from the three indexes and the counter. -/
def removeFromIndexes (ptr : ServicePtr) : ServiceRegistry :=
  let reg := r.regs ptr
  { r with
    servicesById := r.servicesById.erase reg.serviceGuid
    servicesByType := r.servicesByType.eraseP fun e =>
      e.1 == reg.serviceType && (r.regs e.2).serviceGuid == reg.serviceGuid
    servicesByTopic := reg.requestChannels.foldl (removeFromTopic ptr) r.servicesByTopic
    localSvcCounter := if reg.isLocal settings then r.localSvcCounter - 1 else r.localSvcCounter }

/-- `doUnregisterService` without its event. -/
def doUnregisterService (order : IterOrder Bytes) (ptr : ServicePtr) : ServiceRegistry :=
  let reg := r.regs ptr
  let r := r.removeFromIndexes settings ptr
  if (!settings.multiTenantModeEnabled || reg.isOps settings) &&
      (reg.metaData.lookup eventToRequestPrefixProp).isSome then
    r.rebuildEventToRequestPrefixMap settings order
  else r

/-- The time to live, the meta-data and the registration time are copied into a registration. -/
def refresh (ptr : ServicePtr) (reg : ServiceRegistration) : ServiceRegistry :=
  { r with
    regs := Function.update r.regs ptr
      { r.regs ptr with ttlMins := reg.ttlMins, metaData := reg.metaData, regTime := reg.regTime } }

end

/-! ### The next service for a topic -/

section

variable (settings : BrokerSettings) (env : ServiceEnv) (topic tenantGuid : Bytes)

/-- Whether a service can take a request: its broker can be reached, it has not expired, its client
is authorized, and it is available to the tenant. -/
def isEligible (reg : ServiceRegistration) (brokers : BrokerRegistry) : Bool × BrokerRegistry :=
  let res := if reg.isLocal settings then (true, brokers) else
    let next := brokers.getNextBroker env.registryEnv (cstr settings.guid) reg.brokerGuid
    (!next.1.isEmpty, next.2)
  (res.1 && !reg.isExpired settings env.time && env.isAuthorizedToSubscribe reg topic &&
    reg.isServiceAvailable settings tenantGuid, res.2)

/-- The loop of `ZoneServices::getNextService`: at most so many services are tried, each from the
position after the one before, and from the start after the last. -/
def nextInZone (regs : ServicePtr → ServiceRegistration) (z : ZoneServices) :
    ℕ → ℕ → BrokerRegistry → Option ServicePtr × ℕ × BrokerRegistry
  | 0, position, brokers => (none, position, brokers)
  | tries + 1, position, brokers =>
      let position := if position = z.services.length then 0 else position
      match z.services[position]? with
      | none => (none, position, brokers)
      | some ptr =>
          let res := isEligible settings env topic tenantGuid (regs ptr) brokers
          if res.1 then (some ptr, position + 1, res.2)
          else nextInZone regs z tries (position + 1) res.2

/-- `TopicServices::getNextService`: the first zone with a service for the tenant. -/
def nextInZones (regs : ServicePtr → ServiceRegistration) :
    List ZoneServices → BrokerRegistry → Option ServicePtr × List ZoneServices × BrokerRegistry
  | [], brokers => (none, [], brokers)
  | z :: zones, brokers =>
      let res := nextInZone settings env topic tenantGuid regs z z.tries z.nextService brokers
      let z := { z with nextService := res.2.1 }
      if res.1.isSome then (res.1, z :: zones, res.2.2)
      else
        let rest := nextInZones regs zones res.2.2
        (rest.1, z :: rest.2.1, rest.2.2)

end

/-- The services of a node whose zones include the given one. -/
def inZone (zonesByNode : Map Bytes (List Bytes)) (regs : ServicePtr → ServiceRegistration)
    (zone : Bytes) (ptr : ServicePtr) : Bool :=
  ((zonesByNode.lookup (regs ptr).brokerGuid).getD []).any fun z => z == zone

/-- The next zone of the local broker takes its services from those that remain. -/
def takeZone (zonesByNode : Map Bytes (List Bytes)) (regs : ServicePtr → ServiceRegistration)
    (acc : List ZoneServices × List ServicePtr) (zone : Bytes) :
    List ZoneServices × List ServicePtr :=
  let found := acc.2.filter (inZone zonesByNode regs zone)
  (if found = [] then acc.1 else acc.1 ++ [.ofServices zone found],
    acc.2.filter fun ptr => !inZone zonesByNode regs zone ptr)

/-- The zone of the services of the broker itself. -/
def localZone (regs : ServicePtr → ServiceRegistration) (services : List ServicePtr) :
    List ZoneServices :=
  let own := .ofServices (lit "(local)") (services.filter fun ptr => (regs ptr).brokerService)
  if own.getServicesSize = 0 then [] else [own]

/-- `calculateServiceZones`: first the broker's own services, then zone by zone those of the local
broker's zones, then all others. -/
def calculateServiceZones (guid : Bytes) (zonesByNode : Map Bytes (List Bytes))
    (regs : ServicePtr → ServiceRegistration) (services : List ServicePtr) : List ZoneServices :=
  let res := ((zonesByNode.lookup guid).getD []).foldl (takeZone zonesByNode regs)
    (localZone regs services, services.filter fun ptr => !(regs ptr).brokerService)
  if res.2 = [] then res.1 else res.1 ++ [.ofServices [] res.2]

/-- `getNextService` -/
def getNextService (settings : BrokerSettings) (env : ServiceEnv) (topic tenantGuid : Bytes)
    (r : ServiceRegistry) (brokers : BrokerRegistry) :
    Option ServiceRegistration × ServiceRegistry × BrokerRegistry :=
  match r.servicesByTopic.lookup topic with
  | none => (none, r, brokers)
  | some t =>
      let zones := t.servicesByZone.getD
        (calculateServiceZones (cstr settings.guid) r.zonesByNode r.regs t.services)
      let res := nextInZones settings env topic tenantGuid r.regs zones brokers
      (res.1.map r.regs,
        { r with servicesByTopic :=
            r.servicesByTopic.insert topic { t with servicesByZone := some res.2.1 } },
        res.2.2)

/-- `clearServiceZones` of all topics. -/
def clearServiceZones (r : ServiceRegistry) : ServiceRegistry :=
  { r with servicesByTopic := r.servicesByTopic.mapVals fun _ t => t.clearServiceZones }

/-- `getRequestPrefixForEvent` -/
def getRequestPrefixForEvent (r : ServiceRegistry) (eventTopic : Bytes) : Bytes :=
  (r.eventToRequestPrefix.lookup eventTopic).getD []

/-- `isEventToRequestEnabled` -/
def isEventToRequestEnabled (r : ServiceRegistry) : Bool := 0 < r.eventToRequestPrefix.keys.length

end ServiceRegistry

/-! ### The operations of a broker -/

/-- What the handlers of a broker work on: the registries, the counts of the tenants' services and
bytes, the revoked certificates, and the messages that the broker is about to send. -/
structure BrokerCore where
  services : ServiceRegistry := {}
  servicesPerTenant : Map Bytes ℤ := ∅
  registry : BrokerRegistry := {}
  sentBytesPerTenant : Map Bytes UInt32 := ∅
  revokedCerts : List Bytes := []
  outbox : List OwnMessage := []

namespace BrokerCore

variable (settings : BrokerSettings) (env : ServiceEnv)

/-- The messages of an operation are put into the queue. -/
def send (channel : Bytes) (m : DxlMessage) (core : BrokerCore) : BrokerCore :=
  { core with outbox := env.sendMessage channel m core.outbox }

/-- A count is kept between zero and the limit. -/
def clampCount (limit n : ℤ) : ℤ := if n < 0 then 0 else if n > limit then limit else n

/-- `updateTenantServiceCount`: a tenant that reaches its limit is announced. -/
def updateTenantServiceCount (tenantGuid : Bytes) (adjCount : ℤ) (core : BrokerCore) : BrokerCore :=
  let limit := settings.tenantServiceLimit.toInt32.toInt
  if limit = 0 then core
  else
    let old := (core.servicesPerTenant.lookup (cstr tenantGuid)).getD 0
    let count := clampCount limit (old + adjCount)
    let core := { core with
      servicesPerTenant := core.servicesPerTenant.insert (cstr tenantGuid) count }
    if old ≠ count ∧ count ≥ limit ∧ env.infoEnabled then
      core.send env channelDxlTenantLimitExceededEvent
        ((env.createEvent settings).setPayload (env.writeTenantLimit (cstr tenantGuid)))
    else core

/-- `isServiceRegistrationAllowed` -/
def isServiceRegistrationAllowed (tenantGuid : Bytes) (core : BrokerCore) : Bool :=
  let limit := settings.tenantServiceLimit.toInt32.toInt
  limit == 0 || (core.servicesPerTenant.lookup (cstr tenantGuid)).elim true fun n => n < limit

/-- An event about a local service; in multi-tenant mode it goes to the tenant of the service. -/
def sendServiceEvent (channel : Bytes) (payload : Bytes) (reg : ServiceRegistration)
    (core : BrokerCore) : BrokerCore :=
  if reg.isLocal settings then
    let event := (env.createEvent settings).setPayload payload
    core.send env channel (if settings.multiTenantModeEnabled && !reg.isOps settings then
      event.setDestinationTenantGuids [reg.clientTenantGuid] else event)
  else core

/-- `sendServiceRegistrationEvent` -/
def sendServiceRegistrationEvent (reg : ServiceRegistration) (core : BrokerCore) : BrokerCore :=
  core.sendServiceEvent settings env channelDxlSvcRegistryRegisterEvent (env.writeRegister reg) reg

/-- `sendServiceUnregistrationEvent` -/
def sendServiceUnregistrationEvent (reg : ServiceRegistration) (core : BrokerCore) : BrokerCore :=
  core.sendServiceEvent settings env channelDxlSvcRegistryUnregisterEvent
    (env.writeUnregister reg.serviceGuid) reg

/-- `sendServiceRegistrationEvents`: the services that have not expired are announced again. -/
def sendServiceRegistrationEvents (core : BrokerCore) : BrokerCore :=
  ((env.serviceOrder.arrange core.services.servicesById.keys).filterMap
    core.services.findService).foldl
    (fun core reg => if reg.isExpired settings env.time then core
      else core.sendServiceRegistrationEvent settings env (reg.resetRegistrationTime env.time)) core

/-- The tenant of a service has one service more or less. -/
def countService (reg : ServiceRegistration) (adjCount : ℤ) (core : BrokerCore) : BrokerCore :=
  if settings.multiTenantModeEnabled && !reg.isOps settings then
    core.updateTenantServiceCount settings env reg.clientTenantGuid adjCount
  else core

/-- `doUnregisterService` -/
def doUnregisterService (ptr : ServicePtr) (fireEvent : Bool) (core : BrokerCore) : BrokerCore :=
  let reg := core.services.regs ptr
  let core := { core with
    services := core.services.doUnregisterService settings env.serviceOrder ptr }
  if fireEvent then core.sendServiceUnregistrationEvent settings env reg else core

/-- `unregisterService` -/
def unregisterService (serviceGuid : Bytes) (fireEvent : Bool) (core : BrokerCore) : BrokerCore :=
  match core.services.servicesById.lookup serviceGuid with
  | none => core
  | some ptr =>
      (core.doUnregisterService settings env ptr fireEvent).countService settings env
        (core.services.regs ptr) (-1)

/-- `unregisterService` for a client: the client and its tenant must be those of the service. -/
def unregisterServiceOf (serviceGuid clientGuid clientTenantGuid : Bytes) (fireEvent : Bool)
    (core : BrokerCore) : BrokerCore :=
  match core.services.servicesById.lookup serviceGuid with
  | none => core
  | some ptr =>
      let reg := core.services.regs ptr
      if clientGuid = reg.clientGuid ∧ clientTenantGuid = reg.clientTenantGuid then
        core.doUnregisterService settings env ptr fireEvent
      else core

/-- `addService` -/
def addService (ptr : ServicePtr) (reg : ServiceRegistration) (core : BrokerCore) : BrokerCore :=
  { core with services := core.services.addService settings ptr reg }

/-- `updateService`: a shorter registration at another broker is ignored, the same data is renewed in
place, and anything else replaces the service. -/
def updateService (existing ptr : ServicePtr) (reg : ServiceRegistration) (core : BrokerCore) :
    BrokerCore :=
  let old := core.services.regs existing
  if old.brokerGuid ≠ reg.brokerGuid ∧ reg.ttlMins < old.getAdjustedTtlMins env.time then core
  else if old.sameData reg then { core with services := core.services.refresh existing reg }
  else (core.unregisterService settings env reg.serviceGuid false).addService settings ptr reg

/-- What `registerService` does to the indexes.  `ptr` is the address of the new registration. -/
def storeService (ptr : ServicePtr) (reg : ServiceRegistration) (core : BrokerCore) :
    Except String Unit × BrokerCore :=
  match core.services.servicesById.lookup reg.serviceGuid with
  | none => (.ok (), core.addService settings ptr reg)
  | some existing =>
      let old := core.services.regs existing
      if reg.clientGuid = old.clientGuid ∧ reg.clientTenantGuid = old.clientTenantGuid then
        (.ok (), core.updateService settings env existing ptr reg)
      else (.error "Service registration client/tenant GUID mismatch", core)

/-- The prefixes of a new registration. -/
def addPrefixes (reg : ServiceRegistration) (core : BrokerCore) : BrokerCore :=
  if ServiceRegistry.mayTranslateEvents settings reg then
    { core with services := { core.services with
        eventToRequestPrefix := ServiceRegistry.addEventToRequestPrefix settings
          core.services.eventToRequestPrefix reg } }
  else core

/-- `registerService`; a registration may be rejected with an exception. -/
def registerService (ptr : ServicePtr) (reg : ServiceRegistration) (core : BrokerCore) :
    Except String Unit × BrokerCore :=
  if reg.serviceGuid = [] then (.error "Empty service GUID", core)
  else
    match core.storeService settings env ptr reg with
    | (.error e, core) => (.error e, core)
    | (.ok _, core) =>
        (.ok (), ((core.addPrefixes settings reg).sendServiceRegistrationEvent settings env
          reg).countService settings env reg 1)

/-- One service is removed if it has expired. -/
def removeIfExpired (core : BrokerCore) (serviceGuid : Bytes) : BrokerCore :=
  match core.services.findService serviceGuid with
  | some reg => if reg.isExpired settings env.time then
      core.unregisterService settings env serviceGuid true else core
  | none => core

/-- `checkServiceTtls` -/
def checkServiceTtls (core : BrokerCore) : BrokerCore :=
  (env.serviceOrder.arrange core.services.servicesById.keys).foldl (removeIfExpired settings env) core

end BrokerCore

end DxlBroker
