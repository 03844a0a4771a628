import Octar.Lib.GoMap
import Octar.Lib.GoHeap
import Octar.Queue.Message
import Octar.Queue.Config
import Octar.Queue.Group
import Octar.Queue.Queue
import Octar.Queue.GroupLaws
import Octar.Lib.Run
import Octar.Queue.Live
import Octar.Queue.LiveLaws
import Octar.Queue.Conservation
import Octar.Broker.Recovery
import Octar.Queue.Phase
import Octar.Broker.RecoveryLaws
import Octar.Broker.Replay
import Octar.Broker.Unacked
import Octar.Broker.LoggedRun
import Octar.Broker.Simulation
import Octar.Broker.RestoreLaws
import Octar.Storage.Export
import Octar.Broker.Backlog
import Octar.Broker.SnapshotRace
import Octar.Storage.WAL
import Octar.Lib.Decimal
import Octar.Storage.Directory
import Octar.Storage.Sequence
import Octar.Broker.Operational
import Octar.Storage.Replay
import Octar.Storage.Suffix
import Octar.Lib.Reader
import Octar.Storage.Record
import Octar.Storage.TornWrite
import Octar.Storage.Segment
import Octar.Storage.SnapshotFile
import Octar.Broker.SnapshotCrash
import Octar.Broker.ExportImport
import Octar.Broker.DepthLimit
import Octar.Storage.Rotation
import Octar.Storage.WriterLoop
import Octar.Lib.Lease
import Octar.Queue.Lifecycle
import Octar.Queue.Redelivery
import Octar.Broker.ReplayMoves
import Octar.Storage.Contents
import Octar.Broker.Publish
import Octar.Broker.RejectedPublish
import Octar.Queue.Acts
import Octar.Queue.Ordering
import Octar.Queue.Sequential
import Octar.Lib.Window
import Octar.Queue.Limits
import Octar.Broker.Registry
import Octar.Broker.Runtime
import Octar.Broker.RuntimeLaws
import Octar.Broker.Placement
import Octar.Broker.Programs
import Octar.Broker.Activation
import Octar.Broker.PhantomLeases
import Octar.Broker.Credit
import Octar.Broker.Quota
import Octar.Broker.RegistryRace
import Octar.Protocol.Streams
import Octar.Auth.Refresh
import Octar.Broker.Deployment
import Octar.Broker.RestoredConfig
import Octar.Broker.Deletion
import Octar.Broker.Deliveries
import Octar.Broker.Tenants
import Octar.Broker.MessageCount
import Octar.Broker.DeadLetters
import Octar.Auth.Store
import Octar.Auth.Identity
import Octar.Auth.Login
import Octar.Auth.Accounts
import Octar.Broker.Permissions
import Octar.Queue.DrainRound
import Octar.Queue.Permits
import Octar.Queue.Propagation
import Octar.Broker.WaitingLine
import Octar.Broker.AfterReplay
import Octar.Lib.HeapOrder
import Octar.Queue.Promotion
import Octar.Queue.LeaseSweep
import Octar.Lib.Carousel
import Octar.Scheduler.TimingWheel
import Octar.Broker.GroupPages
import Octar.Queue.ConfigTable
import Octar.Queue.ConfigPages
import Octar.Broker.Globs
import Octar.Queue.RetryTimes
import Octar.Lib.Bits
import Octar.Queue.MessageIDs
import Octar.Lib.Spin
import Octar.Broker.Admission
import Octar.Scheduler.Wakeups
import Octar.Lib.BufferedWriter
import Octar.Server.Outbound
import Octar.Queue.Progress
