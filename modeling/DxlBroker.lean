import DxlBroker.Lib.Bytes
import DxlBroker.Lib.Msgpack
import DxlBroker.Lib.Unordered
import DxlBroker.Lib.DepthFirst
import DxlBroker.Lib.TreeRoute
import DxlBroker.Lib.PointerForest
import DxlBroker.Lib.PointerLists
import DxlBroker.Lib.Selection
import DxlBroker.Lib.WorkQueue
import DxlBroker.Lib.Transducer
import DxlBroker.Lib.Base64
import DxlBroker.Lib.Items
import DxlBroker.Lib.RefCount
import DxlBroker.Util.Base64Util
import DxlBroker.Core.Settings
import DxlBroker.Core.CoreUtil
import DxlBroker.Core.WildcardBuffer
import DxlBroker.Core.BridgeConfiguration
import DxlBroker.Core.ServiceZoneLists
import DxlBroker.Message.Wire
import DxlBroker.Message.DxlMessage
import DxlBroker.Core.MessageFields
import DxlBroker.Message.MessageService
import DxlBroker.Message.PayloadBuffer
import DxlBroker.Mqtt.Topic
import DxlBroker.Mqtt.Subs
import DxlBroker.Mqtt.SubsTree
import DxlBroker.Mqtt.SubsOperations
import DxlBroker.Mqtt.Delivery
import DxlBroker.Mqtt.SubsRepresentation
import DxlBroker.Mqtt.TopicNotices
import DxlBroker.Mqtt.PathReconstruction
import DxlBroker.Mqtt.SubscriptionCount
import DxlBroker.Mqtt.MessageQueue
import DxlBroker.Mqtt.QueueRuns
import DxlBroker.Mqtt.MessageStore
import DxlBroker.Registry.BrokerState
import DxlBroker.Registry.Hierarchy
import DxlBroker.Registry.TopicMatch
import DxlBroker.Registry.TopicCache
import DxlBroker.Registry.BrokerRegistry
import DxlBroker.Registry.CacheCoherence
import DxlBroker.Registry.CacheRuns
import DxlBroker.Registry.WildcardShortcut
import DxlBroker.Registry.NextHop
import DxlBroker.Registry.CycleCheck
import DxlBroker.Registry.EventHandlers
import DxlBroker.Registry.LocalEntry
import DxlBroker.Registry.BrokerRemoval
import DxlBroker.Registry.TopicEvents
import DxlBroker.Registry.TopicBatches
import DxlBroker.Registry.TopicSync
import DxlBroker.Service.ServiceRegistration
import DxlBroker.Service.ExpiryPeriod
import DxlBroker.Service.ServiceRegistry
import DxlBroker.Service.RegistryIndex
import DxlBroker.Service.CoreOperations
import DxlBroker.Service.RegistryRuns
import DxlBroker.Service.EventToRequest
import DxlBroker.Service.ServiceZones
import DxlBroker.Service.ServiceSelection
import DxlBroker.Service.ServiceRotation
import DxlBroker.Service.TenantCount
import DxlBroker.Handler.MessageRouting
import DxlBroker.Handler.TreeRouting
import DxlBroker.Handler.ServiceLookup
import DxlBroker.Handler.TopicHandlers
import DxlBroker.Core.StoreMessage
import DxlBroker.Core.TopicAuthorization
import DxlBroker.Handler.LocalRegistration
import DxlBroker.Handler.StoreEffects
import DxlBroker.Handler.RequestOutcome
import DxlBroker.Handler.ClientPayload
import DxlBroker.Handler.SentMessages
import DxlBroker.Handler.TenantIsolation
import DxlBroker.Handler.TenantByteLimit
import DxlBroker.Handler.Reannouncement
import DxlBroker.Handler.ServiceRemoval
import DxlBroker.Connection.Contexts
import DxlBroker.Connection.BridgeIds
import DxlBroker.Connection.BrokerLoop
import DxlBroker.Connection.AddressRotation
import DxlBroker.Connection.BridgeRecords
import DxlBroker.Connection.BridgePairing
import DxlBroker.Connection.TenantLimit
import DxlBroker.Connection.PacketRead
import DxlBroker.Connection.ReaderAgreement
import DxlBroker.Connection.PacketWrite
import DxlBroker.Connection.SentPackets
import DxlBroker.Connection.PacketLink
import DxlBroker.Connection.Revocation
import DxlBroker.Lib.HashIter
import DxlBroker.Connection.MainLoop
import DxlBroker.Connection.LoopMemory
import DxlBroker.Connection.LoopRuns
import DxlBroker.Connection.MessageChannel
