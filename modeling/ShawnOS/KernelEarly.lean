/-
Where `kernel_early` returns (`kernel/kernel.c`, `arch/i386/mem.c`,
`arch/i386/paging.c`).

Up to `i386_paging_init` the boot checks the loader's flags, marks frames in a
bitset and maps the first pages, each with its own assertions. Which machines
pass them all is told from the information structure alone, and so is the
memory that the boot then leaves.
-/
import ShawnOS.MemReserved
import ShawnOS.PagingBoot

namespace ShawnOS

open Word32 Holders

variable {mboot : MultibootInfo} {mem : Nat → Nat}

/-- The machines the kernel boots on: there is a memory map and a section
table, memory reaches past `KVIRT_RESERVED` and not into the last page, and
the window page behind the early heap lies at `KVIRT_RESERVED` at most. -/
structure Bootable (mboot : MultibootInfo) : Prop where
  mmap : mboot.flags &&& 1 <<< 6 ≠ 0
  elf : mboot.flags &&& 1 <<< 5 ≠ 0
  reserved_le : kvirtReserved ≤ u32 (mboot.memUpper * 1024)
  highest_le : u32 (mboot.memUpper * 1024) ≤ 2 ^ 32 - 4096
  heap : mboot.elfSec.heapStart + earlyHeapMaxsize + pageSize ≤ kvirtReserved

/-- What the boot leaves of the machine: the pages below `KVIRT_RESERVED`
mapped to themselves and no others, and of their frames and of the reserved
ones above them the bit set. -/
structure BootLeaves (mboot : MultibootInfo) (s : PagingState) (asa : Asa) : Prop where
  translate : ∀ v < 2 ^ 32, s.translate v = if v < kvirtReserved then some v else none
  length : s.frames.length = u32 (mboot.memUpper * 1024) / pageSize
  bit : ∀ f < s.frames.length, s.frames.bit f = decide (f < kvirtReserved / pageSize ∨
    pageSize * (f + 1) < u32 (mboot.memUpper * 1024) ∧ i386MemCheckReserved mboot.memInfo (pageSize * f) = .reserved)
  heap : s.meminfo.kernelHeapStart = mboot.elfSec.heapStart
  window : s.windowPage = mboot.elfSec.heapStart + earlyHeapMaxsize + pageSize
  asa : AsaUpTo asa (kvirtReserved / pageSize)

/-- The early heap's position does not matter to what is reserved. -/
theorem i386MemCheckReserved_curpos (m : MemInfo) (curpos a : Nat) :
    i386MemCheckReserved { m with kernelHeapCurpos := curpos } a = i386MemCheckReserved m a := by
  rw [i386MemCheckReserved, i386MemCheckReserved]

/-- A booted machine was bootable. -/
theorem Booted.bootable {s : PagingState} {asa : Asa} {L : Layout} {curpos : Nat}
    (h6 : mboot.flags &&& 1 <<< 6 ≠ 0) (h5 : mboot.flags &&& 1 <<< 5 ≠ 0)
    (h : kernelEarly mboot mem = .ok (s, asa)) (hb : Booted L s)
    (hm : s.meminfo = { mboot.memInfo with kernelHeapCurpos := curpos }) : Bootable mboot := by
  have hhighest : s.meminfo.highestFreeAddress = u32 (mboot.memUpper * 1024) := by rw [hm]; rfl
  have hstart : s.meminfo.kernelHeapStart = mboot.elfSec.heapStart := by rw [hm]; rfl
  have hlen := hb.length
  have hge := hb.length_ge
  have hwin := hb.window
  have hpage := hb.tables.window
  have hle := L.window_le
  have hreserved : kvirtReserved = 0x17c000 := rfl
  refine ⟨h6, h5, by omega, ?_, by rw [earlyHeapMaxsize, pageSize]; omega⟩
  rcases i386MemInit_spec mboot mem h6 h5 with ⟨hhigh, -⟩ | ⟨-, he⟩
  · exact hhigh
  · rw [kernelEarly, he] at h
    cases h

theorem Booted.leaves {s : PagingState} {asa : Asa} {L : Layout} {curpos : Nat} (hb : Booted L s) (ha : AsaUpTo asa 380)
    (hm : s.meminfo = { mboot.memInfo with kernelHeapCurpos := curpos }) : BootLeaves mboot s asa := by
  have hhighest : s.meminfo.highestFreeAddress = u32 (mboot.memUpper * 1024) := by rw [hm]; rfl
  have hstart : s.meminfo.kernelHeapStart = mboot.elfSec.heapStart := by rw [hm]; rfl
  have hreserved : kvirtReserved = 0x17c000 := rfl
  have h380 : kvirtReserved / pageSize = 380 := by decide
  refine ⟨fun v hv => ?_, by rw [hb.length, hhighest, pageSize], fun f hf => ?_, hstart, ?_, by rw [h380]; exact ha⟩
  · rw [hb.tables.translate hv]
    by_cases hlow : v < kvirtReserved
    · rw [hb.low _ (by omega), if_pos (by omega), if_pos hlow]
      congr 1
      omega
    · rw [hb.high _ (by omega) (by omega), if_neg (by decide), if_neg hlow]
  · have hcheck : i386MemCheckReserved s.meminfo (pageSize * f) = i386MemCheckReserved mboot.memInfo (pageSize * f) := by
      rw [hm, i386MemCheckReserved_curpos]
    rw [h380]
    by_cases hlow : f < 380
    · rw [hb.used f hlow, decide_eq_true (.inl hlow)]
    · rw [hb.bit f (by omega) hf, ← hhighest, ← hcheck, pageSize]
      exact decide_eq_decide.mpr (by rw [or_iff_right hlow])
  · rw [hb.window, hstart, earlyHeapMaxsize, pageSize]

/-- **`kernel_early` returns exactly on the machines that are bootable**, with
memory as it should be, and aborts on every other. The kernel's sections lie
in the lower half of the address space, and the memory map stays as the loader
left it. -/
theorem kernel_early_boots_iff (mboot : MultibootInfo) (mem : Nat → Nat) :
    (Bootable mboot → ∃ s asa, kernelEarly mboot mem = .ok (s, asa) ∧ BootLeaves mboot s asa) ∧
      (¬ Bootable mboot → kernelEarly mboot mem = .error .abort) := by
  by_cases h6 : mboot.flags &&& 1 <<< 6 ≠ 0
  · by_cases h5 : mboot.flags &&& 1 <<< 5 ≠ 0
    · rcases kernelEarly_spec mboot mem h6 h5 with ⟨L, s, asa, curpos, h, hb, ha, -, hm⟩ | ⟨h, hwhy⟩
      · exact ⟨fun _ => ⟨s, asa, h, hb.leaves ha hm⟩, fun hn => absurd (hb.bootable h6 h5 h hm) hn⟩
      · refine ⟨fun hboot => absurd hwhy ?_, fun _ => h⟩
        have hhighest : mboot.memInfo.highestFreeAddress = u32 (mboot.memUpper * 1024) := rfl
        have hstart : mboot.memInfo.kernelHeapStart = mboot.elfSec.heapStart := rfl
        have hreserved : kvirtReserved = 0x17c000 := rfl
        have h1 := hboot.reserved_le; have h2 := hboot.highest_le; have h3 := hboot.heap
        rw [earlyHeapMaxsize, pageSize] at h3
        omega
    · refine ⟨fun hboot => absurd hboot.elf h5, fun _ => ?_⟩
      rw [kernelEarly, i386MemInit, kassert_of h6, kassert, if_neg h5]
      rfl
  · refine ⟨fun hboot => absurd hboot.mmap h6, fun _ => ?_⟩
    rw [kernelEarly, i386MemInit, kassert, if_neg h6]
    rfl

end ShawnOS
