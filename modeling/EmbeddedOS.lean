import EmbeddedOS.Base.Loop
import EmbeddedOS.Base.Flow
import EmbeddedOS.Base.MachineInt
import EmbeddedOS.Base.ByteMem
import EmbeddedOS.Base.Runs
import EmbeddedOS.Base.Taking
import EmbeddedOS.Base.Descent
import EmbeddedOS.Base.Spans
import EmbeddedOS.Base.Tiling
import EmbeddedOS.Base.Sorting
import EmbeddedOS.Stdlib.StringOps
import EmbeddedOS.Stdlib.Strings
import EmbeddedOS.Queue.Framing
import EmbeddedOS.Queue.Stack
import EmbeddedOS.Queue.TriggerTable
import EmbeddedOS.Queue.TriggerSlots
import EmbeddedOS.Queue.WorkingCopy
import EmbeddedOS.Queue.Discipline
import EmbeddedOS.Queue.ModuleCopy
import EmbeddedOS.Queue.Conservation
import EmbeddedOS.Drivers.SdWrite
import EmbeddedOS.Fs.Tree
import EmbeddedOS.Fs.PathLookup
import EmbeddedOS.Fs.LookupComplete
import EmbeddedOS.Fs.DirEntry
import EmbeddedOS.Fs.CreateEntry
import EmbeddedOS.Fs.DirWalk
import EmbeddedOS.Fs.MountMirror
import EmbeddedOS.Fs.MountEnds
import EmbeddedOS.Fs.Populate
import EmbeddedOS.Fs.File
import EmbeddedOS.Fs.DiskBlocks
import EmbeddedOS.Fs.GroupDescriptors
import EmbeddedOS.Fs.BlockBitmap
import EmbeddedOS.Fs.AllocRuns
import EmbeddedOS.Fs.BitmapFree
import EmbeddedOS.Fs.InodeTable
import EmbeddedOS.Fs.InodeNumbers
import EmbeddedOS.Fs.BlockMap
import EmbeddedOS.Fs.FileData
import EmbeddedOS.Fs.FileRead
import EmbeddedOS.Fs.BlockMapSet
import EmbeddedOS.Fs.WriteFrame
import EmbeddedOS.Fs.FileCursor
import EmbeddedOS.Fs.FileBuffer
import EmbeddedOS.Memory.HardwareReserve
import EmbeddedOS.Memory.PageBitmap
import EmbeddedOS.Memory.PageRuns
import EmbeddedOS.Memory.Reservations
import EmbeddedOS.Memory.FirstFit
import EmbeddedOS.Memory.PageOwner
import EmbeddedOS.Memory.Malloc
import EmbeddedOS.Memory.RegionLayout
import EmbeddedOS.Memory.RegionAccess
import EmbeddedOS.Memory.RegionMerge
import EmbeddedOS.Memory.RegionCull
import EmbeddedOS.Memory.RegionCarve
import EmbeddedOS.Memory.RegionTiling
import EmbeddedOS.Memory.RegionInit
import EmbeddedOS.Memory.HeapLayout
import EmbeddedOS.Memory.HeapSearch
import EmbeddedOS.Memory.HeapListing
import EmbeddedOS.Memory.HeapGrowth
import EmbeddedOS.Memory.HeapInvariant
import EmbeddedOS.Memory.HeapCalls
import EmbeddedOS.Memory.HeapShape
import EmbeddedOS.Memory.HeapRuns
import EmbeddedOS.Memory.CarvedBytes
import EmbeddedOS.Memory.AllocGrowth
import EmbeddedOS.Memory.Reallocation
import EmbeddedOS.Memory.SizeAccounting
import EmbeddedOS.Memory.StalePointers
import EmbeddedOS.Memory.Coalescing
import EmbeddedOS.Memory.UnusedPages
import EmbeddedOS.Memory.FullKernel
import EmbeddedOS.Memory.KernelGrowth
import EmbeddedOS.Memory.HeapSurvival
import EmbeddedOS.Fs.Gets
import EmbeddedOS.Fs.Trace
import EmbeddedOS.Fs.TraceBalance
import EmbeddedOS.Base.ByteText
import EmbeddedOS.Base.Numeral
import EmbeddedOS.Drivers.SdRead
import EmbeddedOS.Memory.IdentityMap
import EmbeddedOS.Stdlib.StrSplit
import EmbeddedOS.Stdlib.Itoa
import EmbeddedOS.Stdlib.Prints
import EmbeddedOS.Stdlib.Printk
import EmbeddedOS.Base.Chains
import EmbeddedOS.Stdlib.LinkedList
import EmbeddedOS.Stdlib.LineInput
import EmbeddedOS.Stdlib.Shell
import EmbeddedOS.Perf.Events
import EmbeddedOS.Perf.Lookup
import EmbeddedOS.Perf.Sessions
import EmbeddedOS.Perf.SessionRuns
import EmbeddedOS.Base.IndexTree
import EmbeddedOS.Fs.BlockMapTree
import EmbeddedOS.Fs.BlockMapUpdate
import EmbeddedOS.Fat32.Codecs
import EmbeddedOS.Base.LinkTable
import EmbeddedOS.Fat32.ClusterChains
import EmbeddedOS.Queue.NodeMap
import EmbeddedOS.Queue.Storage
import EmbeddedOS.Queue.Capacity
import EmbeddedOS.Drivers.Emmc
import EmbeddedOS.Drivers.EmmcProtocol
import EmbeddedOS.Drivers.Font
import EmbeddedOS.Drivers.TraceConsole
import EmbeddedOS.Base.RedBlack
import EmbeddedOS.Base.SearchTree
import EmbeddedOS.Stdlib.Rbtree
import EmbeddedOS.Stdlib.RbtreeShape
import EmbeddedOS.Stdlib.RbtreeInsert
import EmbeddedOS.Stdlib.RbtreeErase
import EmbeddedOS.Stdlib.RbtreeRemove
import EmbeddedOS.Stdlib.RbtreeCalls
import EmbeddedOS.Stdlib.RbtreeWalk
import EmbeddedOS.Stdlib.RbtreeRuns
import EmbeddedOS.Base.Cuts
import EmbeddedOS.Stdlib.Qsort
import EmbeddedOS.Stdlib.QsortPartition
import EmbeddedOS.Stdlib.QsortStack
import EmbeddedOS.Stdlib.QsortSorts
import EmbeddedOS.Stdlib.ShellRun
import EmbeddedOS.Stdlib.StrSearch
import EmbeddedOS.Drivers.Raster
