import KessOS.Demand
import KessOS.Mapping
import KessOS.InitVmm
import KessOS.OutOfFrames
import KessOS.CStruct
import KessOS.Tss
import KessOS.Acpi
import KessOS.KernelInit
import KessOS.FrameBuffer
import KessOS.Syscall
import KessOS.Elf
import KessOS.Rsdp
import KessOS.Allocator
import KessOS.Console
import KessOS.Pci
import KessOS.Threads
import KessOS.Glyphs
import KessOS.BootMenu
import KessOS.BootPaths
import KessOS.MapBound
import KessOS.Dispatch
import KessOS.MemSize
import KessOS.Pixels
import KessOS.ClearScreen
import KessOS.Columns
import KessOS.Numerals
import KessOS.Strings
import KessOS.StackDump
import KessOS.MemCopy
import KessOS.PciLayout
import KessOS.Timer
import KessOS.Idt
import KessOS.ThreadBounds
import KessOS.TssLayout
import KessOS.FadtSearch
import KessOS.Keyboard
import KessOS.SyscallGate
import KessOS.PhdrReads
import KessOS.StringCompare
import KessOS.Transition
import KessOS.Lock
import KessOS.Pic
import KessOS.Interrupts
import KessOS.Boot
import KessOS.Legible
import KessOS.Panic
import KessOS.Painter
import KessOS.Ring3
import KessOS.Userspace
import KessOS.Access
import KessOS.PciReport
import KessOS.Sound
import KessOS.Footprint
import KessOS.InMemory
import KessOS.ConsoleInMemory
import KessOS.LogInMemory
import KessOS.ConsoleCalls
import KessOS.PanicInMemory
