import Tachyon.Library.ByteFile
import Tachyon.Library.Resumption
import Tachyon.Library.EventRuns
import Tachyon.Core.Types
import Tachyon.Engine.Planner
import Tachyon.Engine.PlanPartition
import Tachyon.Engine.Fragment
import Tachyon.Engine.Requests
import Tachyon.Engine.SingleFragment
import Tachyon.Engine.FragmentContract
import Tachyon.Engine.Acceptance
import Tachyon.Engine.Fragmented
import Tachyon.Engine.FragmentedIntegrity
import Tachyon.Engine.FullDownload
import Tachyon.Engine.FullIntegrity
import Tachyon.Engine.DownloadTask
import Tachyon.Engine.OutputFile
import Tachyon.Engine.Resume
import Tachyon.App.TaskStore
import Tachyon.App.TaskFn
import Tachyon.App.Checkpoints
import Tachyon.App.LostUpdates
import Tachyon.App.ResumeVersions
import Tachyon.App.Durability
import Tachyon.Protocol.RangeResponse
import Tachyon.Protocol.ProbeNames
import Tachyon.Core.IpAddr
import Tachyon.Core.UrlSafety
import Tachyon.Protocol.UrlChecks
import Tachyon.Library.MaxHeap
import Tachyon.Scheduler.Scheduler
import Tachyon.Scheduler.LiveEntries
import Tachyon.Scheduler.Refinement
import Tachyon.Library.Inevitable
import Tachyon.Engine.CalmFragmented
import Tachyon.Engine.Completion
import Tachyon.Engine.ResumeCompletion
import Tachyon.Library.Simulation
import Tachyon.Library.Utf8
import Tachyon.Store.FileStore
import Tachyon.Store.Refinement
import Tachyon.Core.Paths
import Tachyon.Core.SavePath
import Tachyon.App.DownloadDir
import Tachyon.App.TaskRun
import Tachyon.App.Commands
import Tachyon.App.SingleMap
import Tachyon.App.FinalStatuses
import Tachyon.App.ProgressDelivery
import Tachyon.App.ProgressFraction
import Tachyon.App.RunnerInvariant
import Tachyon.App.UserCommands
import Tachyon.App.OutputFiles
import Tachyon.App.Recovery
import Tachyon.Dht.Node
import Tachyon.Library.Selection
import Tachyon.Dht.KBucket
import Tachyon.Dht.Buckets
import Tachyon.Dht.FindClosest
import Tachyon.Dht.Kademlia
import Tachyon.Dht.BucketSteps
import Tachyon.Dht.UniqueNodes
import Tachyon.Dht.NodeLimit
import Tachyon.Dht.Subnets
import Tachyon.Dht.Inbound
import Tachyon.Dht.Authentication
import Tachyon.Dht.Correlation
import Tachyon.Dht.Lookup
import Tachyon.Dht.StoredValues
import Tachyon.Dht.PendingCalls
import Tachyon.Dht.Wire
import Tachyon.Dht.SignedMessages
import Tachyon.Dht.HostileDatagrams
import Tachyon.Engine.ConnectionPool
import Tachyon.Engine.PoolBlocking
import Tachyon.Io.Uring
import Tachyon.Engine.WriteContract
import Tachyon.App.ActiveCap
import Tachyon.Io.Iocp
import Tachyon.App.TaskOrigins
import Tachyon.App.DuplicateUrls
import Tachyon.App.StoredUrls
import Tachyon.Engine.StateChanges
import Tachyon.Core.RateLimit
import Tachyon.Library.DisjointIntervals
import Tachyon.Core.RateWindow
import Tachyon.Engine.Mirror
import Tachyon.Library.ShortReads
import Tachyon.Protocol.Ftp
import Tachyon.Protocol.FtpRange
import Tachyon.Protocol.FtpSharing
import Tachyon.Engine.Progress
import Tachyon.App.ProgressTotals
import Tachyon.Library.MergeStack
import Tachyon.Crypto.Blake3
import Tachyon.Crypto.Execution
import Tachyon.Crypto.Gpu
import Tachyon.Crypto.GpuDigests
import Tachyon.Library.MergeTree
import Tachyon.Crypto.TreeReduce
import Tachyon.Engine.CircuitBreaker
import Tachyon.Engine.RetryLaw
import Tachyon.App.Sniffer
import Tachyon.App.HubCommands
import Tachyon.Library.RecentDistinct
import Tachyon.Library.PercentEncoding
import Tachyon.Library.UrlSyntax
import Tachyon.Frontend.Downloads
import Tachyon.Frontend.History
import Tachyon.Core.CleanNames
import Tachyon.Core.RateChange
import Tachyon.Dht.BucketOrder
import Tachyon.Io.AlignedWrite
import Tachyon.Engine.HalfOpen
import Tachyon.Engine.Verification
import Tachyon.Library.DisjointWrites
import Tachyon.Io.Pipeline
import Tachyon.Io.BufferPool
import Tachyon.Protocol.ContentDisposition
import Tachyon.Library.Simulations
import Tachyon.Scheduler.Versions
import Tachyon.Scheduler.SameResults
import Tachyon.Scheduler.Requeue
import Tachyon.Engine.Backoff
import Tachyon.Library.Calendar
import Tachyon.Protocol.DayCount
import Tachyon.Protocol.RetryAfter
import Tachyon.Dht.RefreshIds
import Tachyon.Library.Unfold
import Tachyon.Protocol.Http3Body
import Tachyon.Library.Replacement
import Tachyon.App.MirrorUrls
import Tachyon.Protocol.Numbers
import Tachyon.Hub.LfsPointer
import Tachyon.App.StoredProgress
import Tachyon.Library.MissingDirs
import Tachyon.Core.SavePathTrace
import Tachyon.App.RejectedCreation
import Tachyon.Library.WatchChannel
import Tachyon.Engine.Control
import Tachyon.Engine.Cancellation
import Tachyon.App.ControlLatch
import Tachyon.Io.IocpTeardown
import Tachyon.Protocol.Redirects
import Tachyon.Library.ExpiringCache
import Tachyon.Protocol.QuicSessions
import Tachyon.Library.RollingWindow
import Tachyon.Frontend.SpeedHistory
import Tachyon.Io.UringStorage
import Tachyon.Library.XorMetric
import Tachyon.Dht.Convergence
import Tachyon.Dht.SharedValues
import Tachyon.Library.TrueWrites
import Tachyon.Engine.TrueTransfer
import Tachyon.App.ResumedFile
import Tachyon.App.Configuration
import Tachyon.App.CaptureSession
