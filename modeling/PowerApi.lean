import PowerApi.Lib.Binary64
import PowerApi.Lib.SortedList
import PowerApi.Lib.HashTable
import PowerApi.Lib.Execution
import PowerApi.Types
import PowerApi.Common.Gov
import PowerApi.Daemon.ControlFile
import PowerApi.Daemon.State
import PowerApi.Daemon.Set
import PowerApi.Daemon.Socket
import PowerApi.Daemon.Worker
import PowerApi.Daemon.Request
import PowerApi.Daemon.Balance
import PowerApi.Daemon.WorkerSpec
import PowerApi.Daemon.Store
import PowerApi.Daemon.WorkerInvariant
import PowerApi.Daemon.Rollback
import PowerApi.Daemon.RequestSpec
import PowerApi.Daemon.Serial
import PowerApi.Daemon.Numeric
import PowerApi.Daemon.StoreRuns
import PowerApi.Daemon.Files
import PowerApi.Daemon.Disconnect
import PowerApi.Daemon.HeadRuns
import PowerApi.Daemon.Governor
import PowerApi.Daemon.Threads
import PowerApi.Daemon.Answers
import PowerApi.Daemon.MainLoop
import PowerApi.Ipc.Descriptors
import PowerApi.Ipc.Stream
import PowerApi.Common.Permissions
import PowerApi.Common.UidSet
import PowerApi.Api.HandleTable
import PowerApi.Api.Library
import PowerApi.Lib.SortedMerge
import PowerApi.Api.Group
import PowerApi.Api.GroupCalls
import PowerApi.Api.GroupSpec
import PowerApi.Api.GroupSets
import PowerApi.Api.Statistics
import PowerApi.Api.StatLists
import PowerApi.Api.StatRuns
import PowerApi.Api.Navigation
import PowerApi.Api.NavigationRuns
import PowerApi.Api.Forward
import PowerApi.Lib.CyclicBuffer
import PowerApi.Log.Ring
import PowerApi.Lib.BoundedQueue
import PowerApi.Log.RingSpec
import PowerApi.Log.RingRuns
import PowerApi.Log.Buffers
import PowerApi.Log.Context
import PowerApi.Log.Ownership
import PowerApi.Log.BufferSpec
import PowerApi.Log.Sound
import PowerApi.Log.Termination
import PowerApi.Log.Delivery
import PowerApi.Log.Rotation
import PowerApi.Log.SharedParams
import PowerApi.Common.Processes
import PowerApi.Common.SharedUids
import PowerApi.Common.Undisturbed
import PowerApi.Common.Alone
import PowerApi.Daemon.Priority
import PowerApi.X86.Cstates
import PowerApi.Daemon.Authorised
import PowerApi.Daemon.Failure
import PowerApi.Api.Sysfiles
import PowerApi.X86.Paths
import PowerApi.Api.Contexts
import PowerApi.Api.HintNesting
import PowerApi.Lib.NaryTree
import PowerApi.X86.Hierarchy
import PowerApi.X86.HierarchyTree
import PowerApi.X86.Metadata
import PowerApi.X86.MetadataRuns
import PowerApi.Api.AppHints
import PowerApi.Api.HintTables
import PowerApi.Api.HintRuns
import PowerApi.Log.Contention
import PowerApi.Log.ContentionRuns
import PowerApi.Api.Sampling
import PowerApi.Api.SamplingRuns
import PowerApi.Api.Reduce
import PowerApi.Api.AttrBatchRuns
import PowerApi.Log.Format
import PowerApi.Log.RingLinks
import PowerApi.Log.RingSize
import PowerApi.Log.Setup
import PowerApi.Log.SetupFailures
import PowerApi.Lib.Directory
import PowerApi.Log.RotationFaults
import PowerApi.X86.Bitmask
import PowerApi.X86.CpuList
import PowerApi.X86.CpuGrammar
import PowerApi.X86.CpuReading
import PowerApi.X86.CpuInfo
import PowerApi.X86.CpuListFaults
import PowerApi.Api.AttrLists
import PowerApi.Api.Catalog
import PowerApi.Api.ForwardStatus
import PowerApi.X86.Threads
import PowerApi.Cpudev.StateTables
import PowerApi.Cpudev.Loading
import PowerApi.Cpudev.AppStates
import PowerApi.Api.FormatSpecs
import PowerApi.Cpudev.StateBounds
import PowerApi.Lib.Calendar
import PowerApi.Lib.Scanf
import PowerApi.Log.Lines
import PowerApi.Api.TempGroups
import PowerApi.Api.Timer
import PowerApi.Cnctl.FindObject
import PowerApi.Cnctl.SetAttrVal
import PowerApi.Lib.GrowingArray
import PowerApi.X86.BitmaskSets
import PowerApi.X86.HierarchyInserts
import PowerApi.X86.ValueLists
import PowerApi.Cson.Accepts
import PowerApi.Cson.Legible
import PowerApi.Cson.Safety
import PowerApi.Cson.Containers
import PowerApi.Pwrcmd.DocumentMembers
import PowerApi.Pwrcmd.DocumentMemory
import PowerApi.Pwrcmd.DocumentRuns
import PowerApi.Pwrcmd.DocumentSafety
import PowerApi.Pwrcmd.DocumentParse
import PowerApi.Pwrcmd.Traverse
import PowerApi.Pwrcmd.Hierarchy
import PowerApi.Pwrcmd.Names
