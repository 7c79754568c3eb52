import OSExt.Lib.Ring
import OSExt.Lib.Arm
import OSExt.Lib.Call
import OSExt.Lib.Chain
import OSExt.Memory.PhysicalMM
import OSExt.Memory.PageOwnership
import OSExt.Memory.Kernel
import OSExt.Memory.Slab
import OSExt.Memory.VirtualMM
import OSExt.Memory.GrowCache
import OSExt.Memory.SlabLayout
import OSExt.Memory.SlabLists
import OSExt.Memory.SlabInvariant
import OSExt.Memory.SlabFrame
import OSExt.Memory.SlabSteps
import OSExt.Memory.SlabFreeing
import OSExt.Memory.OneCache
import OSExt.Memory.SlabAllocating
import OSExt.Memory.KernelPages
import OSExt.Memory.SlabGrowth
import OSExt.Memory.SlabBoot
import OSExt.Memory.SlabStart
import OSExt.Memory.SlabRuns
import OSExt.Memory.CacheRuns
import OSExt.Lib.Gregorian
import OSExt.Lib.Countdown
import OSExt.Drivers.Calendar
import OSExt.Drivers.Systime
import OSExt.Scheduling.Scheduler
import OSExt.Scheduling.Loops
import OSExt.Scheduling.Ticks
import OSExt.Exceptions.Fiq
import OSExt.Scheduling.Preemption
import OSExt.Scheduling.RoundRobin
import OSExt.Scheduling.Sleep
import OSExt.Scheduling.Selection
import OSExt.Scheduling.SleepLength
import OSExt.Scheduling.Threads
import OSExt.Scheduling.ThreadLoops
import OSExt.Scheduling.ThreadEnd
import OSExt.Scheduling.ThreadRuns
import OSExt.Lib.TwoLevel
import OSExt.Memory.AddressSpaces
import OSExt.Memory.SharedMappings
import OSExt.Memory.PageLookup
import OSExt.Memory.PageTableLists
import OSExt.Memory.BootMapping
import OSExt.Exceptions.SwiWrapper
import OSExt.Lib.Nesting
import OSExt.Exceptions.Delegation
import OSExt.Exceptions.SyscallDepth
import OSExt.Exceptions.WaitReturn
import OSExt.Libk.Strings
import OSExt.Libk.Sprintf
import OSExt.Lib.Bytes
import OSExt.Memory.PageRanges
import OSExt.Elf.Loading
import OSExt.Elf.LoadBounds
import OSExt.Elf.FixGot
import OSExt.Elf.Image
import OSExt.Memory.PageMarks
import OSExt.Elf.LoadPages
import OSExt.Modules.Registry
import OSExt.Modules.Stages
import OSExt.Modules.RegistryRuns
import OSExt.Modules.FailedInstalls
import OSExt.Memory.Descriptors
import OSExt.Memory.SlabFreeTest
import OSExt.Memory.FreshSlabs
import OSExt.Memory.FreeUndoing
import OSExt.Memory.ObjectAlignment
import OSExt.Drivers.Usb
import OSExt.Memory.PageSearch
import OSExt.Memory.SpaceSwitching
import OSExt.Memory.SpaceTeardown
import OSExt.Scheduling.Processes
import OSExt.Lib.Numerals
import OSExt.Drivers.Uart
import OSExt.Libk.SprintfText
import OSExt.Libk.Modes
import OSExt.Lib.Table
import OSExt.Modules.OsHooks
import OSExt.Scheduling.DeferredActions
import OSExt.Memory.SlabFlags
import OSExt.Scheduling.CriticalSections
import OSExt.Modules.Bmp
import OSExt.Elf.CopySection
import OSExt.Libk.Digits
import OSExt.Vfs.Paths
import OSExt.Lib.Fields
import OSExt.Drivers.UsbFields
import OSExt.Lib.BitStream
import OSExt.Charset.Font
import OSExt.Memory.PointerLists
import OSExt.Lib.Buffers
import OSExt.Modules.BmpBounds
import OSExt.Modules.Drawing
import OSExt.Modules.BackgroundRuns
import OSExt.Memory.SlabPaths
import OSExt.Memory.HeapPages
import OSExt.Memory.HeapGrowth
import OSExt.Lib.Picture
import OSExt.Drivers.Lcd
import OSExt.Gui.DebugShell
import OSExt.Gui.ShellRuns
import OSExt.Exceptions.Aborts
import OSExt.Lib.Detour
import OSExt.Hooks.Install
import OSExt.Hooks.Transparency
import OSExt.Hooks.Frame
import OSExt.Modules.TimeDialog
import OSExt.Modules.Clock
import OSExt.Lib.Rebase
import OSExt.Boot.ZehnLoader
import OSExt.Boot.ZehnRelocs
import OSExt.Boot.ZehnLoading
import OSExt.Boot.Relocation
import OSExt.Boot.RelocatedKernel
import OSExt.Boot.Recovery
import OSExt.Drivers.Keypad
import OSExt.Modules.ModuleManager
