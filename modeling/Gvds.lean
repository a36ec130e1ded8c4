import Gvds.Lib.Machine
import Gvds.Lib.ByteFile
import Gvds.Lib.SparseFile
import Gvds.IoProxy.FileHandler
import Gvds.IoProxy.ReplicaMgr
import Gvds.Proofs.ReplicaSteps
import Gvds.Proofs.ReplicaRetention
import Gvds.Proofs.ReplicaFetch
import Gvds.Proofs.ReplicaConsistency
import Gvds.Lib.WriteLog
import Gvds.Lib.Replay
import Gvds.Lib.FileNames
import Gvds.Client.Queue
import Gvds.Proofs.WriteBehind
import Gvds.Lib.Lru
import Gvds.Lib.SlotTable
import Gvds.Lib.FileTree
import Gvds.IoProxy.Kernel
import Gvds.IoProxy.FdMgr
import Gvds.IoProxy.ProxyOp
import Gvds.Common.OpProto
import Gvds.Client.FuseCalls
import Gvds.IoProxy.Dispatch
import Gvds.Proofs.RequestAgreement
import Gvds.Proofs.FdCache
import Gvds.Proofs.FdCoherence
import Gvds.Proofs.WriteOffset
import Gvds.Proofs.HandlerOwnership
import Gvds.Lib.StampedMemory
import Gvds.Client.ReadAhead
import Gvds.Proofs.ReadAheadBuffers
import Gvds.Proofs.ReadMoves
import Gvds.Proofs.StaleReads
import Gvds.Proofs.FastRead
import Gvds.Lib.DecimalText
import Gvds.Lib.FrameReader
import Gvds.Common.Ipc
import Gvds.Proofs.IpcFraming
import Gvds.Client.QueueThreads
import Gvds.Proofs.QueueShutdown
import Gvds.Client.QueueChannels
import Gvds.Proofs.QueueAccounting
import Gvds.Client.AsyncCalls
import Gvds.Proofs.ReadOwnWrites
import Gvds.IoProxy.ReplicaQueue
import Gvds.IoProxy.CenterNet
import Gvds.IoProxy.CenterIds
import Gvds.Proofs.CenterIdCodec
import Gvds.Proofs.ReplicationStorm
import Gvds.Proofs.ReplicaDelivery
import Gvds.IoProxy.SpaceWorkers
import Gvds.Proofs.NamespaceReplay
import Gvds.IoProxy.FdWorkers
import Gvds.Proofs.DescriptorUse
import Gvds.Lib.Program
import Gvds.Manager.Documents
import Gvds.Lib.Table
import Gvds.Client.ZoneMod
import Gvds.Proofs.MountedZones
import Gvds.Manager.Mconf
import Gvds.Proofs.CenterRegistry
import Gvds.Manager.SpaceServer
import Gvds.Manager.ZoneServer
import Gvds.Client.ClientSession
import Gvds.Proofs.Callbacks
import Gvds.Client.OptNode
import Gvds.Proofs.KnownManagers
import Gvds.Manager.IoProxyMgr
import Gvds.Proofs.ProxyList
import Gvds.Lib.Holders
import Gvds.Lib.Listing
import Gvds.Lib.Naming
import Gvds.Lib.Ledger
import Gvds.IoProxy.Workers
import Gvds.Proofs.WorkerLifecycle
import Gvds.Proofs.OneReply
import Gvds.Lib.Cliques
import Gvds.Proofs.ReplicaGroups
import Gvds.Proofs.SpaceOperations
import Gvds.Proofs.FailedOperations
import Gvds.Proofs.SpaceAttributes
import Gvds.Proofs.ZoneOperations
import Gvds.Proofs.DocumentKeys
import Gvds.Proofs.ZoneLinks
import Gvds.Proofs.CapacityAccounting
import Gvds.Proofs.SpaceNames
import Gvds.Proofs.ZoneNames
import Gvds.Lib.Serial
import Gvds.Proofs.ConcurrentRequests
import Gvds.Manager.UserModelServer
import Gvds.Lib.Directory
import Gvds.Proofs.AccountNames
import Gvds.Proofs.Registrations
import Gvds.Proofs.SessionTokens
import Gvds.Proofs.DataDirectory
import Gvds.Proofs.CacheTransparency
import Gvds.Lib.Rounds
import Gvds.Proofs.ProxySurvival
import Gvds.Lib.MaximalRuns
import Gvds.IoProxy.RangeScan
import Gvds.Proofs.RangeScans
import Gvds.IoProxy.FileSync
import Gvds.Proofs.SyncReplies
import Gvds.Proofs.SyncFrame
import Gvds.IoProxy.ReplicaIndex
import Gvds.Proofs.BlockIndex
import Gvds.Client.BufferMerge
import Gvds.Proofs.MergedWrites
import Gvds.Proofs.ReceivedSectors
import Gvds.Client.QueueMarkers
import Gvds.Proofs.QueuePlaces
import Gvds.Proofs.QueueBarrier
import Gvds.Lib.StackScan
import Gvds.Lib.LinkTree
import Gvds.IoProxy.SpaceScan
import Gvds.Proofs.SpaceScans
import Gvds.IoProxy.SpaceReplay
import Gvds.Proofs.SpaceEntries
import Gvds.Proofs.EntryRounds
import Gvds.Proofs.SpaceReplays
import Gvds.IoProxy.SpaceCreation
import Gvds.Proofs.SpaceCreations
import Gvds.Lib.IndexedList
import Gvds.Lib.MapFill
import Gvds.Proofs.StorageChoices
import Gvds.Manager.SpaceUsage
import Gvds.Proofs.UsageLines
import Gvds.Manager.CapacityCalls
import Gvds.Proofs.CapacityBounds
import Gvds.Proofs.StatMap
import Gvds.Common.LruCache
import Gvds.Proofs.RecencyCache
import Gvds.Proofs.BackPressure
import Gvds.Proofs.SessionBarriers
import Gvds.Proofs.PrefetchEpochs
import Gvds.Proofs.FutureTables
import Gvds.Proofs.SectorWaiters
import Gvds.Proofs.KeptPrefetches
import Gvds.IoProxy.Descriptors
import Gvds.Proofs.DescriptorsHeld
import Gvds.Proofs.SizeChanges
import Gvds.Manager.JsonDocuments
import Gvds.Manager.ZoneQueries
import Gvds.Proofs.ZoneListings
import Gvds.Proofs.ZoneSharing
import Gvds.Proofs.FailedRegistrations
import Gvds.Proofs.AccountCancellation
import Gvds.Manager.MconfCalls
import Gvds.Proofs.RegistryFailures
import Gvds.Lib.Ranking
import Gvds.Proofs.ReachableCenters
import Gvds.Lib.SharedMutex
import Gvds.Client.GraphMod
import Gvds.Proofs.GraphLock
import Gvds.Proofs.KnownProxies
import Gvds.Proofs.SubsetTest
import Gvds.IoProxy.HolePunch
import Gvds.Proofs.OperationIds
import Gvds.Client.PathLookups
import Gvds.Proofs.PathLookups
import Gvds.Proofs.PathMapping
import Gvds.IoProxy.OpOutcomes
import Gvds.Proofs.FaithfulReplies
import Gvds.Lib.JsonText
import Gvds.Lib.SortedMap
import Gvds.Common.JsonSerializer
import Gvds.Proofs.JsonRoundTrip
import Gvds.Common.Log
import Gvds.Proofs.LogLines
import Gvds.Lib.BlockHash
import Gvds.Manager.Md5
import Gvds.Proofs.Md5Stream
import Gvds.Lib.SettingsTree
import Gvds.Common.ConfigureSettings
import Gvds.Proofs.ConfigDefaults
import Gvds.Lib.StreamParser
import Gvds.IoProxy.UdtServer
import Gvds.Proofs.UdtSessions
import Gvds.IoProxy.UdtTransport
import Gvds.Proofs.UdtTransport
import Gvds.IoProxy.SyncIo
import Gvds.IoProxy.PlainProxy
import Gvds.Proofs.PlainProxy
import Gvds.Client.UdtCalls
import Gvds.Proofs.UdtCalls
import Gvds.Common.IpcDialogue
import Gvds.Proofs.IpcDialogue
import Gvds.Client.FuseMount
import Gvds.Proofs.FuseMount
