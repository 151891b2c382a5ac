/-
The kernel heap (`mm/heap.c`).

A heap is a list of blocks, newest first. A block is cut into sections; one
bitset marks the sections in use and one the last section of each
allocation. `kheap_malloc` takes the first block whose scan finds enough
consecutive free sections and expands the heap when none does; `kheap_free`
finds the end of an allocation by scanning for its delimiter.

The block headers and bitsets are kept as records and not as bytes: they
are what `KheapBlock.metadata` says they are, and no caller may write there.
The paging system is the interface `kpaging_data` holds, over a state `σ`.
-/
import ShawnOS.Asa

namespace ShawnOS

open Word32

/-- `kheap_block_t`. A block lies at its own `start`; `next` is the list's. -/
structure KheapBlock where
  blockSize : Nat
  sectionSize : Nat
  firstFreeSection : Nat
  freeSections : Nat
  start : Nat
  usedSections : Bitset
  delimiters : Bitset

/-- `kheap_t`, with its blocks from `first` on. -/
structure Kheap where
  blocks : List KheapBlock
  defaultSectionSize : Nat
  minBlockSize : Nat
  flags : Nat
  effectiveSize : Nat
  totalFreeSections : Nat

/-- `sizeof(kheap_block_t)`: six words and two bitsets. -/
def sizeofKheapBlock : Nat := 40

/-- `SECTION_SIZE_DEFAULT`. -/
def sectionSizeDefault : Nat := 0x10

/-- `MIN_BLOCK_SIZE_DEFAULT`. -/
def minBlockSizeDefault : Nat := 0x100000

/-- `KHEAP_AUTO_EXPAND`. -/
def kheapAutoExpand : Nat := 1

/-- `KPAGE_PRESENT | KPAGE_RW`. -/
def kpagePresentRw : Nat := 3

/-- What the heap uses of `kpaging_interface_t`, and the word a virtual
address holds under the current mapping. -/
structure KpagingInterface (σ : Type) where
  kpageAllocate : (addr flags : Nat) → σ → Option (KReturn × σ)
  kpageFree : (addr : Nat) → σ → Option (KReturn × σ)
  memory : σ → Nat → Word

/-- The default heap, the address space allocator and the paging state. -/
structure HeapState (σ : Type) where
  heap : Kheap
  asa : Asa
  paging : σ

/-- `kheap_init`. -/
def kheapInit (defaultSectionSize minBlockSize flags : Nat) : Kheap where
  blocks := []
  defaultSectionSize
  minBlockSize
  flags
  effectiveSize := 0
  totalFreeSections := 0

/-- The heap `kheap_kalloc_install` sets up. -/
def kheapKallocInstall : Kheap := kheapInit sectionSizeDefault minBlockSizeDefault kheapAutoExpand

/-! ## Expanding -/

/-- The bytes of one bitset over `blockSize` bytes in sections of
`sectionSize`. -/
def bitsetSizeFor (blockSize sectionSize : Nat) : Nat :=
  u32 (divRoundUp blockSize (u32 (sectionSize * 32)) * sizeofU32)

/-- The `while` loop of `kheap_expand`. The bitset size it tests against is
that of the page count before the increment. -/
def kheapExpandPages (size : Nat) : (fuel pagesRequired bitsetSize : Nat) → Except Halt Nat
  | 0, _, _ => .error .hang
  | fuel + 1, pagesRequired, bitsetSize =>
    if sub32 (sub32 (u32 (pagesRequired * pageSize)) sizeofKheapBlock) (u32 (bitsetSize * 2)) < size then
      let blockSize := u32 (pagesRequired * pageSize)
      let bitsetSize := bitsetSizeFor blockSize sectionSizeDefault
      kheapExpandPages size fuel (u32 (pagesRequired + 1)) bitsetSize
    else .ok pagesRequired

/-- The pages `kheap_expand` asks for. -/
def expandPages (size : Nat) : Except Halt Nat :=
  let pagesRequired := divRoundUp size pageSize
  let bitsetSize := bitsetSizeFor (u32 (pagesRequired * pageSize)) sectionSizeDefault
  kheapExpandPages size (2 ^ 32) pagesRequired bitsetSize

/-- `kheap_add_block`, on the memory `mem`. -/
def kheapAddBlock (mem : Nat → Word) (heap : Kheap) (addr blockSize sectionSize : Nat) : Option Kheap := do
  kassert (addr % 0x1000 = 0)
  kassert (sectionSize ≥ 4)
  -- `bytes_per_int`: the processor stops at a division by zero.
  kassert (u32 (sectionSize * 32) ≠ 0)
  let bitsetSize := bitsetSizeFor blockSize sectionSize
  let bitsetLength := divRoundUp blockSize sectionSize
  let usedBitsetStart := u32 (addr + sizeofKheapBlock)
  let delimiterBitsetStart := u32 (addr + sizeofKheapBlock + bitsetSize)
  kassert (blockSize > u32 (sizeofKheapBlock + bitsetSize * 2))
  let usedSections := bitsetInit (fun i => mem (usedBitsetStart + 4 * i)) usedBitsetStart bitsetLength
  let delimiters :=
    bitsetInit (fun i => mem (delimiterBitsetStart + 4 * i)) delimiterBitsetStart bitsetLength
  -- Header, used bitset and delimiter bitset.
  let reserved := divRoundUp (u32 (sizeofKheapBlock + bitsetSize * 2)) sectionSize
  let usedSections ← bitsetSetBits usedSections 0 reserved
  let block : KheapBlock :=
    { blockSize, sectionSize, firstFreeSection := reserved,
      freeSections := sub32 bitsetLength reserved, start := addr, usedSections, delimiters }
  pure { heap with
    totalFreeSections := u32 (heap.totalFreeSections + sub32 bitsetLength reserved)
    effectiveSize := u32 (heap.effectiveSize + sub32 blockSize sizeofKheapBlock + bitsetSize * 2)
    blocks := block :: heap.blocks }

section
variable {σ : Type} (kp : KpagingInterface σ)

/-- The mapping loop of `kheap_expand`, with `rem` pages left from `i` on;
the answer is the page that could not be mapped. -/
def kheapMapPages (blockLocation : Nat) : (rem i : Nat) → σ → Option (Option Nat × σ)
  | 0, _, p => some (none, p)
  | rem + 1, i, p => do
    let (ret, p) ← kp.kpageAllocate (u32 (blockLocation + i * pageSize)) kpagePresentRw p
    if ret.failed then pure (some i, p) else kheapMapPages blockLocation rem (i + 1) p

/-- `while (i-- > 0) kpage_free(...)`. -/
def kheapUnmapPages (blockLocation : Nat) : (i : Nat) → σ → Option σ
  | 0, p => some p
  | i + 1, p => do
    let (_, p) ← kp.kpageFree (u32 (blockLocation + i * pageSize)) p
    kheapUnmapPages blockLocation i p

/-- `kheap_expand` from `asa_alloc` on. -/
def kheapExpandBy (s : HeapState σ) (pagesRequired : Nat) : Option (KReturn × HeapState σ) := do
  let blockSize := u32 (pagesRequired * pageSize)
  let (blockLocation, asa) ← asaAlloc s.asa pagesRequired
  if blockLocation = 0 then
    pure (.oom, { s with asa })
  else
    let (unmapped, paging) ← kheapMapPages kp blockLocation pagesRequired 0 s.paging
    match unmapped with
    | some i =>
      let (_, asa) ← asaFree asa blockLocation pagesRequired
      let paging ← kheapUnmapPages kp blockLocation i paging
      pure (.oom, { s with asa, paging })
    | none =>
      let heap ← kheapAddBlock (kp.memory paging) s.heap blockLocation blockSize s.heap.defaultSectionSize
      pure (.success, { heap, asa, paging })

/-- `kheap_expand`. -/
def kheapExpand (s : HeapState σ) (size : Nat) : Except Halt (KReturn × HeapState σ) := do
  let pagesRequired ← expandPages size
  kheapExpandBy kp s pagesRequired

end

/-! ## Allocating -/

/-- The section scan of `kheap_malloc`: `rem` sections left, from the `k`-th
after the hint on. -/
def kheapScan (cur : KheapBlock) (nSec : Nat) :
    (rem k firstFree continuousPages : Nat) → Option (Option Nat)
  | 0, _, _, _ => some none
  | rem + 1, k, firstFree, continuousPages => do
    let i := u32 (cur.firstFreeSection + k) % cur.usedSections.length
    let bit ← bitsetGetBit cur.usedSections i
    if bit = 0 then
      -- "Wrapped around": the count starts again, the run's start does not.
      let continuous := if i < firstFree then 0 else continuousPages
      let first := if ¬ i < firstFree ∧ continuousPages = 0 then i else firstFree
      if u32 (continuous + 1) = nSec then pure (some first)
      else kheapScan cur nSec rem (k + 1) first (u32 (continuous + 1))
    else kheapScan cur nSec rem (k + 1) firstFree 0

/-- The marking loop: whole words where it can, else single bits. `fuel` is
the number of sections, each round marks at least one; where it does not end
by then there is no result. -/
def kheapMark (stop : Nat) : (fuel j : Nat) → Bitset → Option Bitset
  | 0, j, b => if j < stop then none else some b
  | fuel + 1, j, b =>
    if j < stop then
      if j % 32 = 0 ∧ u32 (j + 32) < stop then
        kheapMark stop fuel (u32 (j + 32)) (b.store (j / 32) 0xFFFFFFFF)
      else do
        let b ← bitsetSetBit b j
        kheapMark stop fuel (j + 1) b
    else some b

/-- Taking the run of `nSec` sections from `firstFree` on: the block after
it and the address returned. -/
def kheapCommit (cur : KheapBlock) (nSec firstFree align : Nat) (manualAlign : Bool) :
    Option (KheapBlock × Nat) := do
  let sectionStart := u32 (cur.start + firstFree * cur.sectionSize)
  let stop := u32 (firstFree + nSec)
  let usedSections ← kheapMark stop nSec firstFree cur.usedSections
  let delimiters ← bitsetSetBit cur.delimiters (sub32 stop 1)
  let sectionStart :=
    if manualAlign ∧ sectionStart % align > 0 then
      u32 (sectionStart + (align - sectionStart % align))
    else sectionStart
  let cur := { cur with
    usedSections, delimiters, freeSections := sub32 cur.freeSections nSec, firstFreeSection := stop }
  pure (cur, sectionStart)

/-- The most a block could serve, by its size. -/
def maxFreeSpace (cur : KheapBlock) : Nat :=
  sub32 (sub32 (sub32 cur.blockSize sizeofKheapBlock) (u32 (cur.delimiters.length / 32 * 4)))
    (u32 (cur.usedSections.length / 32 * 4))

/-- One round of the block loop: the block after the allocation, the address
and the number of sections, or nothing when the block is skipped. -/
def kheapMallocBlock (cur : KheapBlock) (size align : Nat) (manualAlign : Bool) :
    Option (Option (KheapBlock × Nat × Nat)) := do
  let nSec := divRoundUp size cur.sectionSize
  if size > maxFreeSpace cur ∨ nSec > cur.freeSections then
    pure none
  else
    match ← kheapScan cur nSec cur.usedSections.length 0 0 0 with
    | none => pure none
    | some firstFree =>
      let (cur, out) ← kheapCommit cur nSec firstFree align manualAlign
      pure (some (cur, out, nSec))

/-- One pass over the blocks from `first` on. -/
def kheapMallocPass (size align : Nat) (manualAlign : Bool) :
    List KheapBlock → Option (Option (List KheapBlock × Nat × Nat))
  | [] => some none
  | cur :: next => do
    match ← kheapMallocBlock cur size align manualAlign with
    | some (cur, out, nSec) => pure (some (cur :: next, out, nSec))
    | none =>
      match ← kheapMallocPass size align manualAlign next with
      | some (next, out, nSec) => pure (some (cur :: next, out, nSec))
      | none => pure none

section
variable {σ : Type} (kp : KpagingInterface σ)

/-- The block loop of `kheap_malloc`: it starts again at `first` after each
expansion. `fuel` bounds the expansions. -/
def kheapMallocLoop (size align : Nat) (manualAlign : Bool) :
    (fuel : Nat) → HeapState σ → Except Halt (KReturn × Option Nat × HeapState σ)
  | 0, _ => .error .hang
  | fuel + 1, s => do
    if s.heap.blocks.isEmpty then
      pure (.oom, none, s)
    else
      match ← kheapMallocPass size align manualAlign s.heap.blocks with
      | some (blocks, out, nSec) =>
        let totalFreeSections := sub32 s.heap.totalFreeSections nSec
        pure (.success, some out, { s with heap := { s.heap with blocks, totalFreeSections } })
      | none =>
        let (ret, s) ← kheapExpand kp s (max s.heap.minBlockSize size)
        if ret.failed then pure (ret, none, s)
        else kheapMallocLoop size align manualAlign fuel s

/-- Whether `kheap_malloc` aligns by hand. -/
def manualAlign (heap : Kheap) (align : Nat) : Bool := align > 0 ∧ heap.defaultSectionSize ≠ align

/-- The size `kheap_malloc` works with: padded when it aligns by hand. -/
def paddedSize (heap : Kheap) (size align : Nat) : Nat :=
  if manualAlign heap align then u32 (size + align) else size

/-- `kheap_malloc`. Each expansion takes a page of address space at least, so
as many rounds as there are pages are enough. -/
def kheapMalloc (s : HeapState σ) (size align : Nat) :
    Except Halt (KReturn × Option Nat × HeapState σ) := do
  let manual := manualAlign s.heap align
  let size := paddedSize s.heap size align
  let fuel := s.asa.pages.length + 2
  if s.heap.blocks.isEmpty then
    let (ret, s) ← kheapExpand kp s (max s.heap.minBlockSize size)
    if ret.failed then pure (ret, none, s)
    else kheapMallocLoop kp size align manual fuel s
  else kheapMallocLoop kp size align manual fuel s

end

/-! ## Freeing -/

/-- The search for the delimiter, with `rem` sections left from `i` on. -/
def kheapFindDelimiter (delimiters : Bitset) : (rem i : Nat) → Option (Option Nat)
  | 0, _ => some none
  | rem + 1, i => do
    let bit ← bitsetGetBit delimiters i
    if bit = 0 then kheapFindDelimiter delimiters rem (i + 1) else pure (some i)

/-- The body of `kheap_free` for the block that contains `addr`: the block
after it and the number of sections freed. -/
def kheapFreeBlock (cur : KheapBlock) (addr : Nat) : Option (KheapBlock × Nat) := do
  let sectNum := (addr - cur.start) / cur.sectionSize
  let bit ← bitsetGetBit cur.usedSections sectNum
  kassert (bit ≠ 0)
  let found ← kheapFindDelimiter cur.delimiters (cur.delimiters.length - sectNum) sectNum
  let lastSection := found.getD 0
  kassert (lastSection ≠ 0)
  let delimiters ← bitsetClearBit cur.delimiters lastSection
  let usedSections ← bitsetClearBits cur.usedSections sectNum (lastSection + 1 - sectNum)
  let nFreed := u32 (sub32 lastSection sectNum + 1)
  let cur := { cur with
    usedSections, delimiters, firstFreeSection := sectNum, freeSections := u32 (cur.freeSections + nFreed) }
  pure (cur, nFreed)

/-- The walk of `kheap_free` to the block that contains `addr`. -/
def kheapFreeBlocks (addr : Nat) : List KheapBlock → Option (Option (List KheapBlock × Nat))
  | [] => some none
  | cur :: next => do
    if addr > cur.start ∧ addr < u32 (cur.start + cur.blockSize) then
      let (cur, nFreed) ← kheapFreeBlock cur addr
      pure (some (cur :: next, nFreed))
    else
      match ← kheapFreeBlocks addr next with
      | some (next, nFreed) => pure (some (cur :: next, nFreed))
      | none => pure none

/-- `kheap_free`. -/
def kheapFree (heap : Kheap) (addr : Nat) : Option (Bool × Kheap) := do
  match ← kheapFreeBlocks addr heap.blocks with
  | some (blocks, nFreed) =>
    pure (true, { heap with blocks, totalFreeSections := u32 (heap.totalFreeSections + nFreed) })
  | none => pure (false, heap)

/-- The bytes of a block's own data: its header and the words of its two
bitsets. -/
def KheapBlock.metadata (b : KheapBlock) (x : Nat) : Prop :=
  (b.start ≤ x ∧ x < b.start + sizeofKheapBlock) ∨
  (b.usedSections.start ≤ x ∧ x < b.usedSections.start + 4 * divRoundUp b.usedSections.length 32) ∨
  (b.delimiters.start ≤ x ∧ x < b.delimiters.start + 4 * divRoundUp b.delimiters.length 32)

end ShawnOS
