import NTux.Lib.ChainWalk
import NTux.Lib.Packed
import NTux.Lib.Runs
import NTux.Lib.Keyed
import NTux.Lib.Alternating
import NTux.Sys.UserDb
import NTux.Sys.UserDbText
import NTux.Sys.UserDbShadow
import NTux.Sys.UserDbRun
import NTux.Lib.LinkedList
import NTux.Lib.IntrusiveQueue
import NTux.Lib.NamedTree
import NTux.Lib.Regions
import NTux.Lib.Bytes
import NTux.Lib.BitPool
import NTux.Mm.Kmalloc
import NTux.Mm.HeapLayout
import NTux.Mm.FreeList
import NTux.Mm.Allocation
import NTux.Mm.HeapRun
import NTux.Mm.Pmm
import NTux.Mm.PmmRun
import NTux.Mm.PmmInit
import NTux.Mm.Umalloc
import NTux.Mm.UmallocSafe
import NTux.Mm.UserSpaces
import NTux.Ext.Volume
import NTux.Ext.Consistent
import NTux.Ext.Allocator
import NTux.Ext.AllocatorRun
import NTux.Ext.FileData
import NTux.Ext.FileBlocks
import NTux.Ext.InodeTable
import NTux.Ext.FileClear
import NTux.Ext.FileFill
import NTux.Ext.FileInode
import NTux.Ext.FileRoundTrip
import NTux.Ext.Ext4Overwrite
import NTux.Ext.WriteFailure
import NTux.Ext.Directory
import NTux.Ext.DirTiling
import NTux.Ext.DirEntries
import NTux.Ext.DirRun
import NTux.Sched.Thread
import NTux.Sched.Machine
import NTux.Sched.QueueInv
import NTux.Sched.ReadyQueue
import NTux.Sched.StackUse
import NTux.Sched.StackRun
import NTux.Sched.Retired
import NTux.Sched.SleepBooks
import NTux.Sched.SavedContext
import NTux.Sched.InterruptLocks
import NTux.Sched.Slots
import NTux.Sched.Acknowledge
import NTux.Sched.LaunchRoot
import NTux.Ext.PathFiles
import NTux.Ext.Format
import NTux.Ext.Formatted
import NTux.Ext.FormatFiles
import NTux.Fs.Vfs
import NTux.Fs.Ramfs
import NTux.Fs.RamfsTree
import NTux.Fs.RamfsRename
import NTux.Fs.VfsLayer
import NTux.Fs.VfsUnion
import NTux.Fs.VfsUnionRemoval
import NTux.Fs.VfsMounts
import NTux.Fs.FsCalls
import NTux.Fs.Partitions
import NTux.Fs.MountTable
import NTux.Fs.Devfs
import NTux.Fs.UnionListing
import NTux.Fs.ListCount
import NTux.Fs.PartitionScheme
import NTux.Fs.GptEntries
import NTux.Fs.Persist
import NTux.Fs.RamfsAttr
import NTux.Fs.RamfsPerm
import NTux.Fs.RamfsPool
import NTux.Fs.RamfsAtomic
import NTux.Sys.Int80
import NTux.Sys.Privilege
import NTux.Sys.FdModel
import NTux.Fat.LongNames
import NTux.Fat.Walks
import NTux.Fat.FileBytes
import NTux.Fat.Corrupted
import NTux.Fat.FileRange
import NTux.Fat.Payload
import NTux.Fat.Rollback
import NTux.Fat.Table
import NTux.Fat.Names
import NTux.Fat.Directory
import NTux.Fat.Slots
import NTux.Fat.CreateRemove
import NTux.Fat.Rename
import NTux.Fat.Layout
import NTux.Fat.LayoutSound
import NTux.Fat.MountGeometry
import NTux.Fat.Confined
import NTux.Fat.Format
import NTux.Fat.Formatted
import NTux.Elf.Loader
import NTux.Elf.LoaderExact
import NTux.Elf.PageTables
import NTux.Elf.TableTree
import NTux.Elf.MapTree
import NTux.Elf.Launch
import NTux.Elf.LaunchSafe
import NTux.Elf.Teardown
import NTux.Elf.LaunchConserves
import NTux.Lib.KeyedLists
import NTux.Sys.UserDbNames
import NTux.Sys.AccountTools
import NTux.Sys.Accounts
import NTux.Fs.PathComponents
import NTux.Lib.RingBuffer
import NTux.Desk.Ring
import NTux.Desk.Terminal
import NTux.Desk.Batch
import NTux.Mm.LibcHeap
import NTux.Mm.LibcHeapSafe
import NTux.Net.Http
import NTux.Net.HttpAgree
import NTux.Net.HttpHeader
import NTux.Elf.Asm
import NTux.Elf.AsmPasses
import NTux.Elf.AsmCorrect
import NTux.Elf.AsmText
import NTux.Lib.Touches
import NTux.Sys.UserPointers
import NTux.Sys.Int80Memory
import NTux.Sys.Int80Within
import NTux.Sys.LinuxMemory
import NTux.Install.Gpt
import NTux.Install.GptReadBack
import NTux.Install.GptLayouts
import NTux.Install.CopyTree
import NTux.Install.CopyComplete
import NTux.Drivers.Nvme
import NTux.Drivers.NvmeRuns
import NTux.Drivers.PitTicks
import NTux.Ext.DirScans
import NTux.Ext.DirBounds
import NTux.Ext.ExtentLookup
import NTux.Ext.MountSound
import NTux.Lib.Gather
import NTux.Fs.IsoRead
import NTux.Fs.IsoDir
import NTux.Elf.Rebase
import NTux.Elf.RebaseExact
import NTux.Mm.VmmRollback
import NTux.Mm.FreeListOrder
import NTux.Net.Ipv4
import NTux.Libc.Paths
import NTux.Libc.Format
import NTux.Libc.Scan
import NTux.Libc.Resolve
import NTux.Net.Chunked
import NTux.Libc.Qsort
import NTux.Libc.Strtol
import NTux.Libc.Stream
import NTux.Libc.Utf8
import NTux.Install.LimineConf
import NTux.Desk.DiskCommands
import NTux.Drivers.Keyboard
import NTux.Desk.Editor
import NTux.Sys.AccountFiles
import NTux.Libc.Ttf
import NTux.Libc.Outline
import NTux.Lib.Countdown
import NTux.Sched.Fairness
import NTux.Lib.WrapCounter
import NTux.Net.VirtioTx
import NTux.Net.TcpStream
