import LoafOs.Lib.Links
import LoafOs.Lib.ByteMemory
import LoafOs.Fs.Disk
import LoafOs.Fs.FatTable
import LoafOs.Fs.FatVolume
import LoafOs.Fs.FatDirectory
import LoafOs.Fs.FatFile
import LoafOs.Fs.FatTree
import LoafOs.Fs.FatChange
import LoafOs.Fs.FatScan
import LoafOs.Fs.FatLookup
import LoafOs.Fs.FatResolve
import LoafOs.Fs.FatRead
import LoafOs.Fs.FatBuild
import LoafOs.Fs.FatEntry
import LoafOs.Fs.FatFill
import LoafOs.Fs.FatWriteFile
import LoafOs.Fs.FatSplice
import LoafOs.Fs.FatWriteAt
import LoafOs.Fs.FatRemove
import LoafOs.Fs.FatRun
import LoafOs.Fs.FatFrame
import LoafOs.Fs.FatInPlace
import LoafOs.Fs.File
import LoafOs.Fs.FatAnyWrite
import LoafOs.Fs.FatEditing
import LoafOs.Fs.FatAtomic
import LoafOs.Mm.Pmm
import LoafOs.Lib.Arena
import LoafOs.Mm.Heap
import LoafOs.Mm.HeapBlocks
import LoafOs.Mm.HeapRun
import LoafOs.Mm.PmmInit
import LoafOs.Mm.Paging
import LoafOs.Mm.PmmSafety
import LoafOs.Multi.Process
import LoafOs.Mm.AddressSpace
import LoafOs.Multi.ProcessFailure
import LoafOs.Mm.PagingMap
import LoafOs.Mm.SpaceMap
import LoafOs.Mm.SpaceRun
import LoafOs.Mm.SpaceLife
import LoafOs.Userspace.ExeMap
import LoafOs.Userspace.ExeCopy
import LoafOs.Userspace.ExeSegment
import LoafOs.Userspace.ExeImage
import LoafOs.Fs.FileBuffer
import LoafOs.Userspace.ExeLoad
import LoafOs.Userspace.ExeSafety
import LoafOs.Lib.Ring
import LoafOs.Multi.Scheduler
import LoafOs.Multi.RoundRobin
import LoafOs.Devices.Keyboard
import LoafOs.Multi.Machine
import LoafOs.Multi.TaskList
import LoafOs.Multi.MachineInvariant
import LoafOs.Multi.MachineChange
import LoafOs.Multi.MachineStep
import LoafOs.Multi.ProcessStates
import LoafOs.Multi.Execute
import LoafOs.Multi.StepFrames
import LoafOs.Multi.WaitCodes
import LoafOs.Multi.MachineRun
import LoafOs.Multi.WaitRun
import LoafOs.Multi.InputWaits
import LoafOs.Multi.InputRun
import LoafOs.Fs.FileTable
import LoafOs.Multi.OpenFiles
import LoafOs.Multi.OpenFilesRun
import LoafOs.Userspace.Malloc
import LoafOs.Userspace.MallocRun
import LoafOs.Userspace.Sbrk
import LoafOs.Userspace.SbrkRun
import LoafOs.Userspace.SbrkRoom
import LoafOs.Lib.I386
import LoafOs.Multi.ContextSwitch
import LoafOs.Multi.SwitchRun
import LoafOs.Lib.Interrupts
import LoafOs.Multi.InterruptFlag
import LoafOs.Fs.DirectoryCalls
import LoafOs.Multi.OpenDirectories
import LoafOs.Fs.FileReads
import LoafOs.Devices.Rtc
import LoafOs.Devices.Terminal
import LoafOs.Libc.Stdio
import LoafOs.Userspace.Print
import LoafOs.Fs.FatUnset
import LoafOs.Fs.FatGap
import LoafOs.Fs.ChainWalks
import LoafOs.Fs.FatAliases
import LoafOs.Lib.Logged
import LoafOs.Userspace.UserCalls
import LoafOs.Userspace.UserReads
import LoafOs.Userspace.UserPaths
import LoafOs.Fs.ReadBuffers
import LoafOs.Userspace.UserWrites
import LoafOs.Multi.Disposal
import LoafOs.Userspace.CallErrors
import LoafOs.Mm.FirstFit
import LoafOs.Mm.HeapRestore
import LoafOs.Userspace.HugeRequests
import LoafOs.Mm.PagingAgree
import LoafOs.Multi.UserArgs
import LoafOs.Userspace.ExeReads
import LoafOs.Fs.FatListing
import LoafOs.Multi.DirectoryScan
import LoafOs.Fs.FatOrder
import LoafOs.Fs.FileStream
import LoafOs.Fs.ShortNames
import LoafOs.Lib.Spans
import LoafOs.Devices.Calendar
import LoafOs.Lib.CircularSlice
import LoafOs.Devices.KeyQueue
import LoafOs.Multi.IdleProcess
import LoafOs.Multi.SleepTime
import LoafOs.Devices.TextLayout
import LoafOs.Libc.Path
import LoafOs.Lib.Numerals
import LoafOs.Libc.NumberText
import LoafOs.Libc.Specifiers
import LoafOs.Libc.FormatBounds
import LoafOs.Libc.ReadNumbers
import LoafOs.Libc.FormattedIntegers
import LoafOs.Lib.Cells
import LoafOs.Lib.Clearing
import LoafOs.Fs.FatCells
import LoafOs.Fs.DriveSectors
import LoafOs.Mm.PmmBounds
import LoafOs.Boot.Load
import LoafOs.Boot.LoadAgree
import LoafOs.Tools.Mkexe
import LoafOs.Tools.MkexeAgree
import LoafOs.Fs.TreeEntries
import LoafOs.Fs.TreeFrame
import LoafOs.Lib.FileTrees
import LoafOs.Fs.TreeView
import LoafOs.Fs.TreeCalls
import LoafOs.Fs.TreeRun
import LoafOs.Fs.FatFront
import LoafOs.Fs.Remount
import LoafOs.Boot.KernelFile
import LoafOs.Lib.Deliver
import LoafOs.Multi.InterruptFrames
import LoafOs.Multi.Traps
import LoafOs.Multi.InterruptRun
import LoafOs.Lib.CStrings
import LoafOs.Libc.Strings
import LoafOs.Libc.ResolveCwd
import LoafOs.Userspace.Shell
import LoafOs.Userspace.ShellRun
import LoafOs.Devices.AtaPorts
import LoafOs.Devices.AtaRun
