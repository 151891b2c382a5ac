/-
The kernel address space allocator (`mm/asa.c`): a bitset with one bit for
each page of the kernel's virtual address space.
-/
import ShawnOS.Alloc
import ShawnOS.Bitset

namespace ShawnOS

open Word32

/-- `kasa_data_t`. -/
structure Asa where
  pages : Bitset
  pageSize : Nat

/-- `asa_init`, where `mem` is what each word of memory holds. -/
def asaInit {σ : Type} (ki : KallocInterface σ) (mem : Nat → Word) (a : Asa) (pageSize : Nat) (s : σ) :
    Option ((KReturn × Asa) × σ) := do
  let a := { a with pageSize }
  let nEntries := kvirtMax / a.pageSize
  let size := u32 (divRoundUp nEntries 32 * sizeofU32)
  let (bitsetStart, s) ← kmalloc ki size kallocCritical s
  if bitsetStart = 0 then
    pure ((.oom, a), s)
  else
    let pages := bitsetInit (fun i => mem (bitsetStart + 4 * i)) bitsetStart nEntries
    -- All pages below `KVIRT_RESERVED` are used.
    let pages ← bitsetSetBits pages 0 (kvirtReserved / a.pageSize)
    pure ((.success, { a with pages }), s)

/-- The loop of `asa_alloc`, with `rem` pages left from `i` on. -/
def asaAllocLoop (a : Asa) (nPages : Nat) : (rem i firstFree continuousPages : Nat) → Option (Nat × Asa)
  | 0, _, _, _ => some (0, a)
  | rem + 1, i, firstFree, continuousPages => do
    let bit ← bitsetGetBit a.pages i
    if bit = 0 then
      let firstFree := if continuousPages = 0 then i else firstFree
      let continuousPages := u32 (continuousPages + 1)
      if continuousPages = nPages then
        let pages ← bitsetSetBits a.pages firstFree continuousPages
        pure (u32 (firstFree * a.pageSize), { a with pages })
      else asaAllocLoop a nPages rem (i + 1) firstFree continuousPages
    else asaAllocLoop a nPages rem (i + 1) firstFree 0

/-- `asa_alloc`, with `0` for `NULL`. -/
def asaAlloc (a : Asa) (nPages : Nat) : Option (Nat × Asa) :=
  asaAllocLoop a nPages a.pages.length 0 0 0

/-- `asa_free`: its loop starts at the range's first page and stops at the
page of index `n_pages`. -/
def asaFree (a : Asa) (addr nPages : Nat) : Option (KReturn × Asa) := do
  let start := addr / a.pageSize
  let pages ← bitsetClearBits a.pages start (nPages - start)
  pure (.success, { a with pages })

end ShawnOS
