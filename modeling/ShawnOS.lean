import ShawnOS.MemFacts
import ShawnOS.HeapLeak
import ShawnOS.HeapHint
import ShawnOS.PagingMap
import ShawnOS.Lib.Holders
import ShawnOS.MemFrames
import ShawnOS.MemPlace
import ShawnOS.PagingBoot
import ShawnOS.PagingFrames
import ShawnOS.PagingAnswers
import ShawnOS.PagingIdentity
import ShawnOS.PagingFlags
import ShawnOS.PagingStale
import ShawnOS.AsaCalls
import ShawnOS.HeapCounters
import ShawnOS.HeapAligned
import ShawnOS.HeapCapacity
import ShawnOS.HeapFree
import ShawnOS.Lib.Traces
import ShawnOS.Pckbd
import ShawnOS.Vfs
import ShawnOS.Pit
import ShawnOS.OrderedArray
import ShawnOS.Textmode
import ShawnOS.KernelTerminal
import ShawnOS.Lib.Cells
import ShawnOS.Printf
import ShawnOS.HeapRollback
import ShawnOS.HeapServed
import ShawnOS.KmallocPhys
import ShawnOS.Lib.Touched
import ShawnOS.MemReserved
import ShawnOS.OrderedArrayBounds
import ShawnOS.OrderedArrayPointers
import ShawnOS.VfsMount
import ShawnOS.PitSlots
import ShawnOS.PitWait
import ShawnOS.PrintfNumbers
import ShawnOS.PrintfCount
import ShawnOS.BitsetFacts
import ShawnOS.Itoa
import ShawnOS.Memmove
import ShawnOS.Strcmp
import ShawnOS.Pci
import ShawnOS.HeapLayout
import ShawnOS.Lib.Lanes
import ShawnOS.PagingMemory
import ShawnOS.HeapMemory
import ShawnOS.KernelMain
import ShawnOS.Descriptors
import ShawnOS.Irq
import ShawnOS.VfsLock
import ShawnOS.Console
import ShawnOS.KernelStdio
import ShawnOS.TerminalPaper
import ShawnOS.Multiboot
import ShawnOS.KernelEarly
import ShawnOS.TerminalTimer
import ShawnOS.Interrupts
