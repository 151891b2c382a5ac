/-
Paging on i386 (`arch/i386/paging.c`), for the kernel's own page directory.

Physical memory is a word for each 4-aligned physical address. Once paging
is on every access of the source goes through `translate`, the two-level
walk of the MMU, and an access to an unmapped page ends in `abort()`. The
page directory is reached by the identity mapping of low memory where the
source uses its address as a pointer, and by the window page elsewhere.
Only the frame bitset is kept as a record: it lies in the early heap, in
memory that no paging structure shares.

The state also keeps a log of the stores and of the `invlpg`s, in order,
which is all a TLB can tell of a call.
-/
import ShawnOS.Asa
import ShawnOS.Mem

namespace ShawnOS

open Word32

/-- `PT_PRESENT` and `PD_PRESENT`. -/
def ptPresent : Nat := 1

/-- `PT_RW` and `PD_RW`. -/
def ptRw : Nat := 2

/-- What a TLB sees of a call. -/
inductive MmuOp where
  | store (a x : Nat)
  | invlpg (v : Nat)
deriving DecidableEq

/-- The machine and the globals of `paging.c` and `mem.c`. -/
structure PagingState where
  phys : Nat → Nat
  /-- The page directory in force, once paging is enabled. -/
  cr3 : Option Nat
  /-- `i386_kernel_mmu_data.page_directory`. -/
  pageDirectory : Nat
  windowPage : Nat
  earlyInitDone : Bool
  meminfo : MemInfo
  frames : Bitset
  log : List MmuOp

/-! ## The MMU -/

/-- The physical address of a virtual one. -/
def PagingState.translate (s : PagingState) (v : Nat) : Option Nat :=
  match s.cr3 with
  | none => some v
  | some dir =>
    let pde := s.phys (dir + 4 * (v / 4096 / 1024))
    if pde &&& ptPresent = 0 then none
    else
      let pte := s.phys ((pde &&& 0xFFFFF000) + 4 * (v / 4096 % 1024))
      if pte &&& ptPresent = 0 then none else some ((pte &&& 0xFFFFF000) + v % 4096)

/-- `*v`. -/
def PagingState.read (s : PagingState) (v : Nat) : Option Nat := do
  let a ← s.translate v
  pure (s.phys a)

/-- `*v = x`. -/
def PagingState.write (s : PagingState) (v x : Nat) : Option PagingState := do
  let a ← s.translate v
  pure { s with phys := Function.update s.phys a x, log := s.log ++ [.store a x] }

/-- `invlpg`. -/
def PagingState.invlpg (s : PagingState) (v : Nat) : PagingState := { s with log := s.log ++ [.invlpg v] }

/-- `ptr[i]`, as a virtual address. -/
def index32 (ptr i : Nat) : Nat := u32 (ptr + 4 * i)

/-- `TABLE_IN_DIR`. -/
def tableInDir (s : PagingState) (table dir : Nat) : Option Nat := do
  let entry ← s.read (index32 dir table)
  pure (entry &&& 0xFFFFF000)

/-- `memset32`, with `rem` words left from the `i`-th on. -/
def memset32 (buf value : Nat) : (rem i : Nat) → PagingState → Option PagingState
  | 0, _, s => some s
  | rem + 1, i, s => do
    let s ← s.write (index32 buf i) value
    memset32 buf value rem (i + 1) s

/-! ## The window -/

/-- `get_virt_ptr`. -/
def getVirtPtr (s : PagingState) (physAddr : Nat) : Option (Nat × PagingState) := do
  kassert (physAddr % 0x1000 = 0)
  if ¬ s.earlyInitDone then
    pure (physAddr, s)
  else
    let pageIndex := s.windowPage / pageSize
    let tableIndex := pageIndex / 1024
    let pageIndexInTable := pageIndex % 1024
    let table ← tableInDir s tableIndex s.pageDirectory
    let s ← s.write (index32 table pageIndexInTable) (physAddr ||| ptPresent ||| ptRw)
    pure (s.windowPage, s.invlpg s.windowPage)

/-- `allocate_page_table`: the address of the new table, on success. -/
def allocatePageTable (s : PagingState) : Option ((KReturn × Nat) × PagingState) := do
  if s.earlyInitDone then
    let (frame, frames) ← i386MemAllocateFrame s.meminfo s.frames
    let s := { s with frames }
    if frame = 0 then
      pure ((.oom, 0), s)
    else
      let phys := u32 (frame * pageSize)
      let (virt, s) ← getVirtPtr s phys
      let s ← memset32 virt ptRw 1024 0 s
      pure ((.success, phys), s)
  else
    let ((virt, phys), meminfo) ← kmallocAp i386MemKalloc pageSize kallocCritical s.meminfo
    let s := { s with meminfo }
    if virt = 0 then
      pure ((.oom, 0), s)
    else
      let s ← memset32 virt ptRw 1024 0 s
      pure ((.success, phys.getD 0), s)

/-! ## Pages -/

/-- `i386_page_get_phys`. -/
def i386PageGetPhys (s : PagingState) (address : Nat) : Option (Nat × PagingState) := do
  let pageIndex := address / pageSize
  let tableIndex := pageIndex / 1024
  let pageIndexInTable := pageIndex % 1024
  let (pdVirt, s) ← getVirtPtr s s.pageDirectory
  let entry ← s.read (index32 pdVirt tableIndex)
  if entry &&& ptPresent = 0 then
    pure (0, s)
  else
    -- By the directory's own address, and not by the window.
    let table ← tableInDir s tableIndex s.pageDirectory
    let (ptVirt, s) ← getVirtPtr s table
    let page ← s.read (index32 ptVirt pageIndexInTable)
    if page &&& ptPresent = 0 then pure (0, s) else pure (page &&& 0xFFFFF000, s)

/-- The end of `i386_allocate_page`, from the pointer to the page table on. -/
def allocatePageEntry (s : PagingState) (pdVirt tableIndex pageIndexInTable frame ptFlags : Nat) :
    Option ((KReturn × Nat) × PagingState) := do
  let table ← tableInDir s tableIndex pdVirt
  let (ptVirt, s) ← getVirtPtr s table
  let page := u32 (frame * pageSize) ||| ptFlags
  let s ← s.write (index32 ptVirt pageIndexInTable) page
  pure ((.success, page &&& 0xFFFFF000), s)

/-- `i386_allocate_page`: the return code, and what it stores at `out`. -/
def i386AllocatePage (s : PagingState) (address ptFlags pdFlags : Nat) :
    Option ((KReturn × Nat) × PagingState) := do
  kassert (address % pageSize = 0)
  let pageIndex := address / pageSize
  let tableIndex := pageIndex / 1024
  let pageIndexInTable := pageIndex % 1024
  let (frame, frames) ← i386MemAllocateFrame s.meminfo s.frames
  let s := { s with frames }
  if frame = 0 then
    pure ((.oom, 0), s)
  else
    let (pdVirt, s) ← getVirtPtr s s.pageDirectory
    let entry ← s.read (index32 pdVirt tableIndex)
    if entry &&& ptPresent = 0 then
      let ((ret, ptPhys), s) ← allocatePageTable s
      if ret.failed then
        let frames ← i386MemFreeFrame s.frames frame
        pure ((ret, 0), { s with frames })
      else
        let (pdVirt, s) ← getVirtPtr s s.pageDirectory
        let s ← s.write (index32 pdVirt tableIndex) (ptPhys ||| pdFlags)
        allocatePageEntry s pdVirt tableIndex pageIndexInTable frame ptFlags
    else allocatePageEntry s pdVirt tableIndex pageIndexInTable frame ptFlags

/-- `i386_free_page`. -/
def i386FreePage (s : PagingState) (address : Nat) : Option (KReturn × PagingState) := do
  kassert (address % pageSize = 0)
  let pageIndex := address / pageSize
  let tableIndex := pageIndex / 1024
  let pageIndexInTable := pageIndex % 1024
  let (pdVirt, s) ← getVirtPtr s s.pageDirectory
  let entry ← s.read (index32 pdVirt tableIndex)
  if entry &&& ptPresent = 0 then
    pure (.invalop, s)
  else
    let table ← tableInDir s tableIndex pdVirt
    let (ptVirt, s) ← getVirtPtr s table
    let page ← s.read (index32 ptVirt pageIndexInTable)
    let physAddrIndex := page / pageSize
    let s ← s.write (index32 ptVirt pageIndexInTable) ptRw
    let frames ← bitsetClearBit s.frames physAddrIndex
    pure (.success, { s with frames }.invlpg address)

/-- The end of `i386_identity_map_page`, from the pointer to the page table
on. -/
def identityMapEntry (s : PagingState) (pdVirt tableIndex pageIndexInTable pageIndex ptFlags : Nat) :
    Option (Nat × PagingState) := do
  let table ← tableInDir s tableIndex pdVirt
  let (ptVirt, s) ← getVirtPtr s table
  let page := u32 (pageIndex * pageSize) ||| ptFlags
  let s ← s.write (index32 ptVirt pageIndexInTable) page
  let frames ← bitsetSetBit s.frames pageIndex
  pure (page, { s with frames })

/-- `i386_identity_map_page`: the entry made, or the code of a failure. -/
def i386IdentityMapPage (s : PagingState) (address ptFlags pdFlags : Nat) : Option (Nat × PagingState) := do
  kassert (address % pageSize = 0)
  let pageIndex := address / pageSize
  let tableIndex := pageIndex / 1024
  let pageIndexInTable := pageIndex % 1024
  let (pdVirt, s) ← getVirtPtr s s.pageDirectory
  let entry ← s.read (index32 pdVirt tableIndex)
  if entry &&& ptPresent = 0 then
    let ((ret, ptPhys), s) ← allocatePageTable s
    if ret.failed then
      pure (ret.code, s)
    else
      let (pdVirt, s) ← getVirtPtr s s.pageDirectory
      let s ← s.write (index32 pdVirt tableIndex) (ptPhys ||| pdFlags)
      identityMapEntry s pdVirt tableIndex pageIndexInTable pageIndex ptFlags
  else identityMapEntry s pdVirt tableIndex pageIndexInTable pageIndex ptFlags

/-! ## What paging installs as the kernel's interface -/

/-- `__i386_kpage_allocate`. -/
def i386KpageAllocate (addr flags : Nat) (s : PagingState) : Option (KReturn × PagingState) := do
  let ((ret, _), s) ← i386AllocatePage s addr flags flags
  pure (ret, s)

/-- `__i386_kpage_free`. -/
def i386KpageFree (addr : Nat) (s : PagingState) : Option (KReturn × PagingState) := i386FreePage s addr

/-- `__i386_kpage_identity_map`. -/
def i386KpageIdentityMap (addr flags : Nat) (s : PagingState) : Option (KReturn × PagingState) := do
  let (tmp, s) ← i386IdentityMapPage s addr flags flags
  if tmp ≠ 0 then pure (.success, s) else pure (.oom, s)

/-- `__i386_kpage_get_phys`. -/
def i386KpageGetPhys (addr : Nat) (s : PagingState) : Option (Nat × PagingState) := i386PageGetPhys s addr

/-! ## Initialisation -/

/-- `i386_mmu_data_init`, of the kernel's data. -/
def i386MmuDataInit (s : PagingState) : Option (KReturn × PagingState) := do
  let (tmp, meminfo) ← kmallocA i386MemKalloc (sizeofU32 * 1024) kallocCritical s.meminfo
  let s := { s with meminfo }
  if tmp = 0 then
    pure (.oom, s)
  else
    let s ← memset32 tmp ptRw 1024 0 { s with pageDirectory := tmp }
    pure (.success, s)

/-- The identity mapping loop of `i386_paging_init`, with `rem` pages left
from the `i`-th on. -/
def identityMapPages : (rem i : Nat) → PagingState → Option PagingState
  | 0, _, s => some s
  | rem + 1, i, s => do
    let (_, s) ← i386IdentityMapPage s (i * 0x1000) (ptPresent ||| ptRw) (ptPresent ||| ptRw)
    identityMapPages rem (i + 1) s

/-- `i386_paging_init`. -/
def i386PagingInit (s : PagingState) : Option PagingState := do
  let (ret, s) ← i386MmuDataInit s
  kassert (ret = .success)
  let s ← identityMapPages (kvirtReserved / 0x1000) 0 s
  let s := { s with cr3 := some s.pageDirectory }
  let highestPage := u32 (s.meminfo.kernelHeapStart + earlyHeapMaxsize)
  kassert (u32 (highestPage + pageSize) ≤ kvirtReserved)
  pure { s with windowPage := u32 (highestPage + pageSize), earlyInitDone := true }

/-- `kernel_early` up to `i386_paging_init`, on physical memory `mem`. -/
def kernelEarly (mboot : MultibootInfo) (mem : Nat → Nat) : Except Halt (PagingState × Asa) := do
  let (meminfo, frames) ← i386MemInit mboot mem
  let ((ret, asa), meminfo) ←
    asaInit i386MemKalloc (fun a => BitVec.ofNat 32 (mem a)) ⟨⟨0, 0, fun _ => 0⟩, 0⟩ pageSize meminfo
  kassert (ret = .success)
  let s ← i386PagingInit
    { phys := mem, cr3 := none, pageDirectory := 0, windowPage := 0, earlyInitDone := false, meminfo, frames, log := [] }
  pure (s, asa)

end ShawnOS
