/-
The kernel's allocation interface (`mm/alloc.c`): `kmalloc` and its variants
call the provider installed in `kalloc_data`, the early placement allocator
first and the heap afterwards. A provider works on a state `σ` of its own.
-/
import ShawnOS.Kernel

namespace ShawnOS

/-- `KALLOC_CRITICAL`. -/
def kallocCritical : Nat := 1

/-- `KALLOC_PAGE_ALIGN`. -/
def kallocPageAlign : Nat := 4

/-- The installed provider: the address it returns for a size and flags, and
what it stores at `phys` when that is not `NULL`. -/
structure KallocInterface (σ : Type) where
  kallocMallocReal : (size flags : Nat) → σ → Option ((Nat × Option Nat) × σ)

section
variable {σ : Type} (ki : KallocInterface σ)

/-- `kmalloc`. -/
def kmalloc (size flags : Nat) (s : σ) : Option (Nat × σ) := do
  let ((addr, _), s) ← ki.kallocMallocReal size flags s
  pure (addr, s)

/-- `kmalloc_a`. -/
def kmallocA (size flags : Nat) (s : σ) : Option (Nat × σ) := do
  let ((addr, _), s) ← ki.kallocMallocReal size (flags ||| kallocPageAlign) s
  pure (addr, s)

/-- `kmalloc_p`. -/
def kmallocP (size flags : Nat) (s : σ) : Option ((Nat × Option Nat) × σ) := ki.kallocMallocReal size flags s

/-- `kmalloc_ap`. -/
def kmallocAp (size flags : Nat) (s : σ) : Option ((Nat × Option Nat) × σ) :=
  ki.kallocMallocReal size (flags ||| kallocPageAlign) s

end

end ShawnOS
