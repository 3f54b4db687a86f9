import OsStuff.Library.ByteMemory
import OsStuff.Library.LinkRing
import OsStuff.Library.NodeMemory
import OsStuff.Library.DyadicTree
import OsStuff.Library.PackedFields
import OsStuff.Library.Run
import OsStuff.Library.Steps
import OsStuff.Library.ShortItems
import OsStuff.BuddyAlloc.Heap
import OsStuff.BuddyAlloc.Common
import OsStuff.BuddyAlloc.Malloc1
import OsStuff.BuddyAlloc.Malloc2
import OsStuff.BuddyAlloc.Client
import OsStuff.BuddyAlloc.FreeLists
import OsStuff.BuddyAlloc.Nodes
import OsStuff.BuddyAlloc.Arena
import OsStuff.BuddyAlloc.ArenaSearch
import OsStuff.BuddyAlloc.Simulation
import OsStuff.BuddyAlloc.Growth
import OsStuff.BuddyAlloc.Bookkeeping
import OsStuff.BuddyAlloc.SplitBits
import OsStuff.BuddyAlloc.StatusCounts
import OsStuff.BuddyAlloc.Tenancy
import OsStuff.BuddyAlloc.Refinement
import OsStuff.BuddyAlloc.Blocks
import OsStuff.BuddyAlloc.Malloc1Runs
import OsStuff.BuddyAlloc.NodeNumbering
import OsStuff.BuddyAlloc.Malloc1Canonical
import OsStuff.BuddyAlloc.Malloc1Search
import OsStuff.BuddyAlloc.Malloc2Runs
import OsStuff.BuddyAlloc.Malloc2Checked
import OsStuff.BuddyAlloc.Bare
import OsStuff.BuddyAlloc.Malloc2Bounds
import OsStuff.BuddyAlloc.PrintedBlocks
import OsStuff.BuddyAlloc.Malloc1Sizes
import OsStuff.BuddyAlloc.Agreement
import OsStuff.Library.Semaphores
import OsStuff.Library.Processes
import OsStuff.MutualExclusion.LinReadersWriters
import OsStuff.MutualExclusion.LinReadersWritersSafety
import OsStuff.MutualExclusion.LinReadersWritersWaiting
import OsStuff.MutualExclusion.LinReadersWritersShutdown
import OsStuff.MutualExclusion.LinConsumersProducers
import OsStuff.MutualExclusion.LinConsumersProducersDelivery
import OsStuff.Library.Interleaving
import OsStuff.MutualExclusion.WinReadersWriters
import OsStuff.MutualExclusion.WinReadersWritersExclusion
import OsStuff.MutualExclusion.WinReadersWritersProgress
import OsStuff.MutualExclusion.WinReadersWritersDeadlock
import OsStuff.TabletDriver.Wacom
import OsStuff.TabletDriver.TouchHandler
import OsStuff.TabletDriver.PenHandler
import OsStuff.TabletDriver.TouchHistory
import OsStuff.TabletDriver.PointerMotion
import OsStuff.TabletDriver.MouseButtons
import OsStuff.TabletDriver.PenRange
import OsStuff.TabletDriver.WorkIrq
import OsStuff.TabletDriver.Isolation
import OsStuff.TabletDriver.TouchTabletMain
import OsStuff.TabletDriver.PacketOwner
import OsStuff.TabletDriver.Lifetime
import OsStuff.TabletDriver.TouchTabletInit
import OsStuff.TabletDriver.HidParse
import OsStuff.TabletDriver.HidItems
import OsStuff.Library.Ledger
import OsStuff.TabletDriver.InputDevice
import OsStuff.TabletDriver.Probe
import OsStuff.TabletDriver.DeclaredEvents
import OsStuff.Proc.Pagemap
import OsStuff.Proc.PagemapRows
import OsStuff.Proc.PagemapReader
import OsStuff.Proc.PagemapLines
import OsStuff.ProtectedMode.Interrupts
import OsStuff.ProtectedMode.LineEditor
import OsStuff.ProtectedMode.ScreenBounds
import OsStuff.ProtectedMode.MemoryProgram
import OsStuff.ProtectedMode.Transparency
import OsStuff.ProtectedMode.InterruptedRuns
import OsStuff.ProtectedMode.MemoryAmount
import OsStuff.BuddyAlloc.IntrusiveList
import OsStuff.BuddyAlloc.IntrusiveListRuns
import OsStuff.Proc.CopyFile
import OsStuff.Proc.StatFields
import OsStuff.Sockets.InetServer
import OsStuff.Sockets.ClientTable
import OsStuff.Library.Trace
import OsStuff.Sockets.UnixServer
import OsStuff.Sockets.UnixEcho
import OsStuff.Sockets.UnixEchoOnce
import OsStuff.Sockets.UnixEchoDelivery
import OsStuff.Sockets.ReceivedMessages
import OsStuff.BottomHalves.AsciiMap
import OsStuff.BottomHalves.Tasklet
import OsStuff.BottomHalves.WorkQueue
import OsStuff.BottomHalves.WorkQueueLoading
import OsStuff.BottomHalves.KeyDelivery
import OsStuff.FileTree.Walk
import OsStuff.FileTree.CleanUp
import OsStuff.FileTree.Preorder
import OsStuff.BuddyAlloc.Malloc2Watched
import OsStuff.BuddyAlloc.Malloc2Counters
import OsStuff.BuddyAlloc.ForeignBreak
import OsStuff.Library.OpenFiles
import OsStuff.BufferedIO.SharedDescriptor
import OsStuff.BufferedIO.OwnDescriptors
import OsStuff.BufferedIO.OutputFiles
import OsStuff.Daemon.SingleInstance
import OsStuff.Vfs.Myfs
import OsStuff.ForkExec.Pipe
import OsStuff.ForkExec.PipeOutputs
