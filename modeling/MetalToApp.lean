import MetalToApp.Library.ByteMemory
import MetalToApp.Library.Paging
import MetalToApp.Library.Radix
import MetalToApp.Library.Chain
import MetalToApp.Library.X86
import MetalToApp.Library.VirtualMemory
import MetalToApp.Syscall
import MetalToApp.SyscallDispatch
import MetalToApp.SyscallAbi
import MetalToApp.Library.Traced
import MetalToApp.Library.Transducer
import MetalToApp.Library.CircularBuffer
import MetalToApp.Memory
import MetalToApp.Klib
import MetalToApp.Frame
import MetalToApp.FrameRuns
import MetalToApp.Scheduler
import MetalToApp.SchedulerRuns
import MetalToApp.Reschedule
import MetalToApp.RescheduleRuns
import MetalToApp.AddressSpace
import MetalToApp.PageTables
import MetalToApp.Mapping
import MetalToApp.KernelSpace
import MetalToApp.Walk
import MetalToApp.AddressSpaceRuns
import MetalToApp.SharedHalf
import MetalToApp.KernelWindows
import MetalToApp.DynamicFault
import MetalToApp.Elf
import MetalToApp.Reading
import MetalToApp.Loading
import MetalToApp.ElfImage
import MetalToApp.SectionLayout
import MetalToApp.FileReads
import MetalToApp.FileBounds
import MetalToApp.KernelHalf
import MetalToApp.Userspace
import MetalToApp.CommandLine
import MetalToApp.Isolation
import MetalToApp.Teardown
import MetalToApp.Scancodes
import MetalToApp.Keyboard
import MetalToApp.KeyboardLoop
import MetalToApp.KeyboardStreams
import MetalToApp.ScancodeBuffer
import MetalToApp.CommandQueue
import MetalToApp.Multiboot
import MetalToApp.FrameEnd
import MetalToApp.Boot
import MetalToApp.BootRuns
import MetalToApp.BootSurvival
import MetalToApp.BootWrites
import MetalToApp.Library.BitFields
import MetalToApp.Descriptors
import MetalToApp.Console
import MetalToApp.ConsoleRuns
import MetalToApp.SyscallWrite
import MetalToApp.Library.TurnQueue
import MetalToApp.DispatchOrder
import MetalToApp.DispatchRuns
import MetalToApp.Bootstrap
import MetalToApp.Segments
import MetalToApp.Interrupts
import MetalToApp.Rings
import MetalToApp.Exceptions
import MetalToApp.Library.TimeSharing
import MetalToApp.SharedMachine
import MetalToApp.ProcessStart
import MetalToApp.BootSharing
import MetalToApp.LaunchRuns
import MetalToApp.ConsoleLog
import MetalToApp.BootLog
import MetalToApp.Greeting
import MetalToApp.SystemCalls
