import YellowZone.Machine.SharedMemory
import YellowZone.Machine.Execution
import YellowZone.Machine.Routine
import YellowZone.Machine.Raising
import YellowZone.Machine.BitMask
import YellowZone.Machine.Tenure
import YellowZone.Machine.Barrier
import YellowZone.Machine.ChainedMap
import YellowZone.Machine.CString
import YellowZone.Machine.StructFormat
import YellowZone.Machine.Utf8
import YellowZone.Machine.SlotTable
import YellowZone.Machine.ByteStream
import YellowZone.Machine.Lines
import YellowZone.Machine.BitArea
import YellowZone.Machine.Threads
import YellowZone.Machine.RingBuffer
import YellowZone.PairSched.Basic
import YellowZone.PairSched.Layout
import YellowZone.PairSched.Routines
import YellowZone.PairSched.Forward
import YellowZone.PairSched.Lifecycle
import YellowZone.PairSched.Coordinator
import YellowZone.PairSched.System
import YellowZone.PairSched.Transitions
import YellowZone.PairSched.Inversion
import YellowZone.PairSched.Writers
import YellowZone.PairSched.Footprint
import YellowZone.PairSched.Calls
import YellowZone.PairSched.FailClosed
import YellowZone.PairSched.Valid
import YellowZone.PairSched.MutualExclusion
import YellowZone.PairSched.Stages
import YellowZone.PairSched.Closing
import YellowZone.PairSched.Restart
import YellowZone.PairSched.Rounds
import YellowZone.PairSched.Orderly
import YellowZone.PairSched.Agreement
import YellowZone.PairSched.Waiting
import YellowZone.PairSched.CoordinatorDeath
import YellowZone.PairSched.Monitoring
import YellowZone.PairSched.Snapshot
import YellowZone.PairSched.FailedOpen
import YellowZone.PairSched.CleanClose
import YellowZone.PairSched.Registration
import YellowZone.WorkerGate.Closures
import YellowZone.WorkerGate.Bracket
import YellowZone.WorkerGate.SharedMemoryGate
import YellowZone.WorkerGate.NativeContract
import YellowZone.WorkerGate.SilentHold
import YellowZone.CoreLimiter.HashMap
import YellowZone.CoreLimiter.NodeMap
import YellowZone.CoreLimiter.Streams
import YellowZone.CoreLimiter.Cache
import YellowZone.CoreLimiter.Accounting
import YellowZone.CoreLimiter.Capture
import YellowZone.CoreLimiter.Scheduler
import YellowZone.CoreLimiter.SliceExclusion
import YellowZone.CoreLimiter.Balance
import YellowZone.CoreLimiter.SharedInit
import YellowZone.PairDirectory.Lifecycle
import YellowZone.PairDirectory.Publishing
import YellowZone.NpuConfig.Loader
import YellowZone.NpuConfig.SingleDevice
import YellowZone.NpuConfig.RoundTrip
import YellowZone.NpuManager.Devices
import YellowZone.NpuManager.InitDevices
import YellowZone.NpuManager.SetDevice
import YellowZone.DeadlockTrace.Layout
import YellowZone.DeadlockTrace.RawDecoder
import YellowZone.DeadlockTrace.GdbDecoder
import YellowZone.DeadlockTrace.Registry
import YellowZone.DeadlockTrace.KernelNames
import YellowZone.DeadlockTrace.Ring
import YellowZone.DeadlockTrace.RingDecoded
import YellowZone.DeadlockTrace.QwenStates
import YellowZone.EnpuLog.Shutdown
import YellowZone.OvsServer.Connection
import YellowZone.OvsServer.Framing
import YellowZone.OvsServer.EventLoop
import YellowZone.OvsServer.ThreadPool
import YellowZone.OvsServer.Codec
import YellowZone.OvsClient.ConnPool
import YellowZone.ControlPlane.Json
import YellowZone.ControlPlane.JsonPeer
import YellowZone.ControlPlane.Handshake
import YellowZone.ClusterSched.Bitset
import YellowZone.ClusterSched.Scheduler
import YellowZone.ClusterSched.Books
import YellowZone.ClusterSched.Operations
import YellowZone.ClusterSched.Calls
import YellowZone.ClusterSched.CpuRanges
import YellowZone.ClusterSched.NumaChoice
import YellowZone.ClusterSched.Daemon
import YellowZone.ClusterSched.CpuList
import YellowZone.ClusterSched.Commands
import YellowZone.ClusterSched.Rollback
import YellowZone.ClusterSched.Orphans
