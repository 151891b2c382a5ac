/-
Physical memory on i386 (`arch/i386/mem.c`): what multiboot tells of it, the
early placement allocator, and the bitset of used frames.

The memory map is the list of its entries, in the order the walk over
`mmap_length` bytes visits them; an entry's `size` only leads to the next.
The ELF section headers are a function of their index, since
`_i386_elf_sections_read` counts on `num - 1` headers after the first.
-/
import ShawnOS.Alloc
import ShawnOS.Bitset

namespace ShawnOS

open Word32

/-- `multiboot_memory_map_t`: 64-bit address and length, and a type. -/
structure MmapEntry where
  addr : Nat
  len : Nat
  type : Nat
deriving DecidableEq

/-- `MULTIBOOT_MEMORY_AVAILABLE`. -/
def multibootMemoryAvailable : Nat := 1

/-- `MULTIBOOT_MEMORY_RESERVED`. -/
def multibootMemoryReserved : Nat := 2

/-- A table of section headers; `num` counts the one at index 0 too. -/
structure ElfTable where
  num : Nat
  shAddr : Nat → Nat

/-- The section headers of the kernel's own image. It is linked from 1 MiB
up, so none of the sections that are read lies in the upper half of the
address space. -/
structure ElfSections extends ElfTable where
  low : ∀ i, 1 ≤ i → i ≤ sub32 num 1 → shAddr i < 2 ^ 31

/-- What the kernel reads of `multiboot_info_t`, and where it lies. -/
structure MultibootInfo where
  addr : Nat
  flags : Nat
  memLower : Nat
  memUpper : Nat
  mmap : List MmapEntry
  elfSec : ElfSections

/-- `sizeof(multiboot_info_t)`. -/
def sizeofMultibootInfo : Nat := 88

/-- `EARLY_HEAP_MAXSIZE`. -/
def earlyHeapMaxsize : Nat := 0x50000

/-- `i386_mem_info_t`. -/
structure MemInfo where
  mmap : List MmapEntry
  kernelReservedStart : Nat
  kernelReservedEnd : Nat
  multibootReservedStart : Nat
  multibootReservedEnd : Nat
  kernelHeapStart : Nat
  kernelHeapCurpos : Nat
  memLower : Nat
  memUpper : Nat
  highestFreeAddress : Nat

/-- `mem_states_t`. -/
inductive MemState where
  | reserved
  | free
  | nonexistant
deriving DecidableEq, Repr

/-! ## Reserved memory -/

/-- The end of an entry as the walk sees it: a 32-bit word. -/
def MmapEntry.end32 (e : MmapEntry) : Nat := u32 (e.addr + e.len)

/-- `_i386_mmap_check_reserved`. -/
def i386MmapCheckReserved (addr : Nat) : List MmapEntry → MemState
  | [] => .nonexistant
  | e :: rest =>
    if addr ≥ e.addr ∧ addr ≤ e.end32 then
      if e.type = multibootMemoryReserved then .reserved
      else if u32 (addr + pageSize) > e.end32 then .reserved
      else .free
    else i386MmapCheckReserved addr rest

/-- `i386_mem_check_reserved`. -/
def i386MemCheckReserved (m : MemInfo) (addr : Nat) : MemState :=
  let addrEnd := u32 (addr + pageSize)
  if addrEnd ≤ 0x1000 then .reserved
  else if (addr ≥ m.kernelReservedStart ∧ addr ≤ m.kernelReservedEnd) ∨
      (addrEnd ≥ m.kernelReservedStart ∧ addrEnd ≤ m.kernelReservedEnd) then .reserved
  else if (addr ≥ m.multibootReservedStart ∧ addr ≤ m.multibootReservedEnd) ∨
      (addrEnd ≥ m.multibootReservedStart ∧ addrEnd ≤ m.multibootReservedEnd) then .reserved
  else i386MmapCheckReserved addr m.mmap

/-- The loop of `_i386_mem_init_bitset`, from the address `i` on. -/
def i386MemInitBitsetLoop (m : MemInfo) : (fuel i : Nat) → Bitset → Except Halt Bitset
  | 0, _, _ => .error .hang
  | fuel + 1, i, b =>
    if u32 (i + pageSize) < m.highestFreeAddress then
      if i386MemCheckReserved m i = .reserved then do
        let b ← bitsetSetBit b (i / pageSize)
        i386MemInitBitsetLoop m fuel (u32 (i + pageSize)) b
      else i386MemInitBitsetLoop m fuel (u32 (i + pageSize)) b
    else .ok b

/-- `_i386_mem_init_bitset`. There are `2^20` pages of 32-bit addresses, so
a loop that ends makes fewer rounds. -/
def i386MemInitBitset (m : MemInfo) (b : Bitset) : Except Halt Bitset := i386MemInitBitsetLoop m (2 ^ 20 + 1) 0 b

/-! ## Frames -/

/-- The inner loop of `i386_mem_get_next_free_frame`, over the bits of one
word, from `j` on. -/
def freeBitFrom (w : Word) : (rem j : Nat) → Option Nat
  | 0, _ => none
  | rem + 1, j => if w &&& 1#32 <<< j = 0 then some j else freeBitFrom w rem (j + 1)

/-- The outer loop, with `rem` words left from `i` on; `0` is "out of
memory". -/
def i386MemGetNextFreeFrameLoop (b : Bitset) : (rem i : Nat) → Nat
  | 0, _ => 0
  | rem + 1, i =>
    if b.words i = 0xFFFFFFFF then i386MemGetNextFreeFrameLoop b rem (i + 1)
    else
      match freeBitFrom (b.words i) 32 0 with
      | some j => i * 32 + j
      | none => i386MemGetNextFreeFrameLoop b rem (i + 1)

/-- `i386_mem_get_next_free_frame`. -/
def i386MemGetNextFreeFrame (m : MemInfo) (b : Bitset) : Nat :=
  i386MemGetNextFreeFrameLoop b (m.highestFreeAddress / pageSize / 32) 0

/-- `i386_mem_allocate_frame`. -/
def i386MemAllocateFrame (m : MemInfo) (b : Bitset) : Option (Nat × Bitset) := do
  let nextFreeFrame := i386MemGetNextFreeFrame m b
  if nextFreeFrame ≠ 0 then
    let b ← bitsetSetBit b nextFreeFrame
    pure (nextFreeFrame, b)
  else pure (0, b)

/-- `i386_mem_free_frame`. -/
def i386MemFreeFrame (b : Bitset) (frame : Nat) : Option Bitset := bitsetClearBit b frame

/-! ## The placement allocator -/

/-- `i386_mem_kmalloc_real`. -/
def i386MemKmallocReal (size flags : Nat) (m : MemInfo) : (Nat × Option Nat) × MemInfo :=
  if flags &&& kallocCritical = 0 then ((0, none), m)
  else if u32 (size + m.kernelHeapCurpos + pageSize) > u32 (m.kernelHeapStart + earlyHeapMaxsize) then ((0, none), m)
  else
    let curpos :=
      if flags &&& kallocPageAlign ≠ 0 ∧ m.kernelHeapCurpos % pageSize ≠ 0 then
        u32 ((m.kernelHeapCurpos &&& 0xFFFFF000) + pageSize)
      else if flags &&& kallocPageAlign = 0 ∧ m.kernelHeapCurpos % 8 ≠ 0 then
        u32 (m.kernelHeapCurpos + (8 - m.kernelHeapCurpos % 8))
      else m.kernelHeapCurpos
    ((curpos, some curpos), { m with kernelHeapCurpos := u32 (curpos + size) })

/-- The provider `i386_mem_init` installs. -/
def i386MemKalloc : KallocInterface MemInfo where
  kallocMallocReal size flags m := some (i386MemKmallocReal size flags m)

/-! ## Initialisation -/

/-- The loop of `_i386_elf_sections_read`, with `rem` headers left from the
`i`-th on. -/
def i386ElfSectionsEnd (elf : ElfTable) : (rem i reservedEnd : Nat) → Nat
  | 0, _, reservedEnd => reservedEnd
  | rem + 1, i, reservedEnd =>
    i386ElfSectionsEnd elf rem (i + 1) (if elf.shAddr i > reservedEnd then elf.shAddr i else reservedEnd)

/-- `_i386_elf_sections_read`: the start and the end of the kernel. -/
def i386ElfSectionsRead (elf : ElfTable) : Nat × Nat :=
  let kernelReservedEnd := i386ElfSectionsEnd elf (sub32 elf.num 1) 1 0
  (elf.shAddr 1, u32 (kernelReservedEnd + kernelReservedEnd % 0x1000))

/-- `i386_mem_init`, where `mem` is what memory holds. -/
def i386MemInit (mboot : MultibootInfo) (mem : Nat → Nat) : Except Halt (MemInfo × Bitset) := do
  kassert (mboot.flags &&& 1 <<< 6 ≠ 0)
  kassert (mboot.flags &&& 1 <<< 5 ≠ 0)
  let (kernelReservedStart, kernelReservedEnd) := i386ElfSectionsRead mboot.elfSec.toElfTable
  let highestFreeAddress := u32 (mboot.memUpper * 1024)
  let kernelHeapStart := u32 (kernelReservedEnd + 0x1000) &&& 0xFFFFF000
  let m : MemInfo :=
    { mmap := mboot.mmap, kernelReservedStart, kernelReservedEnd,
      multibootReservedStart := mboot.addr
      multibootReservedEnd := u32 (mboot.addr + sizeofMultibootInfo * sizeofMultibootInfo)
      kernelHeapStart, kernelHeapCurpos := kernelHeapStart,
      memLower := mboot.memLower, memUpper := mboot.memUpper, highestFreeAddress }
  let bitsetLength := highestFreeAddress / 0x1000
  let bitsetSize := u32 (divRoundUp bitsetLength 32 * sizeofU32)
  let ((bitsetStart, _), m) := i386MemKmallocReal bitsetSize kallocCritical m
  let b := bitsetInit (fun i => BitVec.ofNat 32 (mem (bitsetStart + 4 * i))) bitsetStart bitsetLength
  let b ← i386MemInitBitset m b
  pure (m, b)

end ShawnOS
