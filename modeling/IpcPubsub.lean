import IpcPubsub.HubTenure
import IpcPubsub.FirstOccurrences
import IpcPubsub.WholeLog
import IpcPubsub.Recounting
import IpcPubsub.ListedTopics
import IpcPubsub.Addressing
import IpcPubsub.WireNet
import IpcPubsub.Recipients
import IpcPubsub.SharedFiles
import IpcPubsub.DataDeadlock
import IpcPubsub.DataPlane
import IpcPubsub.TopologyWire
import IpcPubsub.Backpressure
import IpcPubsub.Deadlock
import IpcPubsub.Agreement
import IpcPubsub.Election
import IpcPubsub.SettlingRuns
import IpcPubsub.LowerBound
import IpcPubsub.FiniteMap
import IpcPubsub.WordOrder
import IpcPubsub.GuardedRuns
import IpcPubsub.CursorLog
import IpcPubsub.WireFormat
import IpcPubsub.Messages
import IpcPubsub.TopologyServer
import IpcPubsub.LastWrite
import IpcPubsub.TopologyManager
import IpcPubsub.ReferenceTopology
import IpcPubsub.Pruning
import IpcPubsub.HubRuns
import IpcPubsub.Reconnect
import IpcPubsub.HistoryOrder
import IpcPubsub.Delivery
import IpcPubsub.Departures
import IpcPubsub.EarlyLate
import IpcPubsub.FaithfulLog
import IpcPubsub.HubTransfer
import IpcPubsub.MergeSurvivors
import IpcPubsub.Visibility
import IpcPubsub.Membership
import IpcPubsub.StoredOrder
import IpcPubsub.GhostNodes
import IpcPubsub.SocketServer
import IpcPubsub.RoutingTable
import IpcPubsub.ManagerThreads
import IpcPubsub.CallOrder
import IpcPubsub.ClientLifetime
import IpcPubsub.RankedLocks
import IpcPubsub.LockDiscipline
import IpcPubsub.Failover
import IpcPubsub.HubMemory
import IpcPubsub.LostChanges
import IpcPubsub.UpdateRuns
import IpcPubsub.DepartedMessages
import IpcPubsub.Reintroduction
import IpcPubsub.SequenceNumbers
import IpcPubsub.Datagrams
import IpcPubsub.NodeAddress
import IpcPubsub.MalformedPackets
import IpcPubsub.SocketQueues
import IpcPubsub.AcceptedSockets
import IpcPubsub.SharedMessages
