/-
The early placement allocator (`i386_mem_kmalloc_real`).

The limit check comes before the alignment and leaves a page for it, so an
aligned range still ends in the early heap, as long as the 32-bit sum of the
check does not wrap. The size is the caller's; where the sum wraps, a range
may be handed out that no memory stands for.
-/
import ShawnOS.Mem
import Mathlib.Logic.Relation
import Mathlib.Order.CompletePartialOrder
import Mathlib.Order.Interval.Set.Disjoint

namespace ShawnOS

open Word32

variable {m m' : MemInfo}

/-- Where the next range starts. -/
def placeAt (flags curpos : Nat) : Nat :=
  if flags &&& kallocPageAlign ≠ 0 then (curpos + 4095) / 4096 * 4096 else (curpos + 7) / 8 * 8

theorem placeAt_bounds (flags curpos : Nat) : curpos ≤ placeAt flags curpos ∧ placeAt flags curpos < curpos + 4096 := by
  unfold placeAt
  split <;> omega

theorem placeAt_pageAligned {flags : Nat} (h : flags &&& kallocPageAlign ≠ 0) (curpos : Nat) :
    placeAt flags curpos % 4096 = 0 := by
  rw [placeAt, if_pos h]
  omega

theorem placeAt_aligned (flags curpos : Nat) : placeAt flags curpos % 8 = 0 := by
  unfold placeAt
  split <;> omega

/-- The sum of the limit check fits a word. -/
def NoWrap (m : MemInfo) (size : Nat) : Prop := size + m.kernelHeapCurpos + 4096 < 2 ^ 32

/-- The position after the two ways to align it. -/
theorem curpos_eq (flags : Nat) {curpos : Nat} (h : curpos + 4096 < 2 ^ 32) :
    (if flags &&& kallocPageAlign ≠ 0 ∧ curpos % pageSize ≠ 0 then u32 ((curpos &&& 0xFFFFF000) + pageSize)
      else if flags &&& kallocPageAlign = 0 ∧ curpos % 8 ≠ 0 then u32 (curpos + (8 - curpos % 8))
      else curpos) = placeAt flags curpos := by
  have hup : u32 ((curpos &&& 0xFFFFF000) + 4096) = 4096 * (curpos / 4096) + 4096 := by
    rw [and_page (by omega), u32_of_lt (by omega)]
  have hup8 : u32 (curpos + (8 - curpos % 8)) = curpos + (8 - curpos % 8) := u32_of_lt (by omega)
  unfold pageSize placeAt
  rw [hup, hup8]
  by_cases ha : flags &&& kallocPageAlign = 0
  · simp only [ha, ne_eq, not_true_eq_false, false_and, true_and, if_false]
    split <;> omega
  · simp only [ha, ne_eq, not_false_eq_true, false_and, true_and, if_false, if_true]
    split <;> omega

/-- **`i386_mem_kmalloc_real`** where the check does not wrap. -/
theorem i386MemKmallocReal_eq {size flags : Nat} (hw : NoWrap m size) :
    i386MemKmallocReal size flags m =
      if flags &&& kallocCritical = 0 ∨ size + m.kernelHeapCurpos + 4096 > u32 (m.kernelHeapStart + earlyHeapMaxsize) then
        ((0, none), m)
      else ((placeAt flags m.kernelHeapCurpos, some (placeAt flags m.kernelHeapCurpos)),
        { m with kernelHeapCurpos := placeAt flags m.kernelHeapCurpos + size }) := by
  unfold NoWrap at hw
  have hb := placeAt_bounds flags m.kernelHeapCurpos
  have hsum : u32 (size + m.kernelHeapCurpos + pageSize) = size + m.kernelHeapCurpos + 4096 := u32_of_lt hw
  rw [i386MemKmallocReal, hsum]
  by_cases hc : flags &&& kallocCritical = 0
  · rw [if_pos hc, if_pos (.inl hc)]
  rw [if_neg hc]
  by_cases hl : size + m.kernelHeapCurpos + 4096 > u32 (m.kernelHeapStart + earlyHeapMaxsize)
  · rw [if_pos hl, if_pos (.inr hl)]
  rw [if_neg hl, if_neg (not_or.mpr ⟨hc, hl⟩)]
  have hp := curpos_eq flags (show m.kernelHeapCurpos + 4096 < 2 ^ 32 by omega)
  simp only [hp]
  rw [u32_of_lt (by omega)]

/-! ## Runs -/

/-- A range handed out: its start, its size and the flags it was asked with. -/
structure Placed where
  addr : Nat
  size : Nat
  flags : Nat

/-- The bytes of a range. -/
def Placed.bytes (r : Placed) : Set Nat := Set.Ico r.addr (r.addr + r.size)

/-- One call, with the ranges handed out so far. -/
inductive PlaceStep (ok : MemInfo → Nat → Nat → Prop) : MemInfo × List Placed → MemInfo × List Placed → Prop
  | placed {m m' : MemInfo} {ranges : List Placed} {size flags p : Nat} {phys : Option Nat} : size < 2 ^ 32 →
      ok m size flags → i386MemKmallocReal size flags m = ((p, phys), m') → p ≠ 0 →
      PlaceStep ok (m, ranges) (m', ⟨p, size, flags⟩ :: ranges)
  | failed {m m' : MemInfo} {ranges : List Placed} {size flags : Nat} {phys : Option Nat} : size < 2 ^ 32 →
      ok m size flags → i386MemKmallocReal size flags m = ((0, phys), m') → PlaceStep ok (m, ranges) (m', ranges)

/-- The calls whose check does not wrap. -/
def Unwrapped (m : MemInfo) (size flags : Nat) : Prop := flags &&& kallocCritical = 0 ∨ NoWrap m size

/-- The invariant: the ranges lie below the position, in order of time. -/
structure PlaceInv (start : Nat) (m : MemInfo) (ranges : List Placed) : Prop where
  origin : m.kernelHeapStart = start
  ge : start ≤ m.kernelHeapCurpos
  below : ∀ r ∈ ranges, start ≤ r.addr ∧ r.addr + r.size ≤ m.kernelHeapCurpos
  inside : ∀ r ∈ ranges, r.addr + r.size ≤ start + earlyHeapMaxsize
  aligned : ∀ r ∈ ranges, r.addr % 8 = 0 ∧ (r.flags &&& kallocPageAlign ≠ 0 → r.addr % 4096 = 0)
  apart : ranges.Pairwise fun r t => t.addr + t.size ≤ r.addr

/-- One call, where it does not wrap: nothing, or the next range. -/
theorem i386MemKmallocReal_cases {size flags : Nat} (hok : Unwrapped m size flags) :
    i386MemKmallocReal size flags m = ((0, none), m) ∨
      size + m.kernelHeapCurpos + 4096 ≤ u32 (m.kernelHeapStart + earlyHeapMaxsize) ∧
      i386MemKmallocReal size flags m = ((placeAt flags m.kernelHeapCurpos, some (placeAt flags m.kernelHeapCurpos)),
        { m with kernelHeapCurpos := placeAt flags m.kernelHeapCurpos + size }) := by
  rcases hok with hc | hw
  · refine .inl ?_
    rw [i386MemKmallocReal, if_pos hc]
  · rw [i386MemKmallocReal_eq hw]
    split
    · exact .inl rfl
    · next hn => exact .inr ⟨by omega, rfl⟩

theorem PlaceInv.step {start : Nat} {t t' : MemInfo × List Placed} (h : PlaceInv start t.1 t.2) (h0 : start ≠ 0)
    (hs : PlaceStep Unwrapped t t') : PlaceInv start t'.1 t'.2 := by
  cases hs with
  | @placed m m' ranges size flags p phys _ hok he hp =>
    rcases i386MemKmallocReal_cases hok with he' | ⟨hle, he'⟩
    · rw [he] at he'
      cases he'
      exact absurd rfl hp
    · rw [he] at he'
      cases he'
      have hb := placeAt_bounds flags m.kernelHeapCurpos
      have hge := h.ge
      have hstart : m.kernelHeapStart = start := h.origin
      have hlim : u32 (m.kernelHeapStart + earlyHeapMaxsize) ≤ start + earlyHeapMaxsize := by
        rw [hstart]
        exact Nat.mod_le _ _
      simp only at hge
      refine ⟨h.origin, by simp only; omega, fun r hr => ?_, fun r hr => ?_, fun r hr => ?_, ?_⟩
      · rcases List.mem_cons.mp hr with rfl | hr
        · simp only
          omega
        · have hr' := h.below r hr
          simp only at hr' ⊢
          omega
      · rcases List.mem_cons.mp hr with rfl | hr
        · simp only
          omega
        · exact h.inside r hr
      · rcases List.mem_cons.mp hr with rfl | hr
        · exact ⟨placeAt_aligned _ _, fun ha => placeAt_pageAligned ha _⟩
        · exact h.aligned r hr
      · refine List.pairwise_cons.mpr ⟨fun r hr => ?_, h.apart⟩
        have hr' := h.below r hr
        simp only at hr' ⊢
        omega
  | @failed m m' ranges size flags phys _ hok he =>
    rcases i386MemKmallocReal_cases hok with he' | ⟨hle, he'⟩
    · rw [he] at he'
      cases he'
      exact h
    · -- A range is never at address 0, which lies below the early heap.
      have hb := placeAt_bounds flags m.kernelHeapCurpos
      have hge := h.ge
      rw [he] at he'
      simp only [Prod.mk.injEq] at he' hge
      omega

theorem PlaceInv.reach {m₀ : MemInfo} (h0 : m₀.kernelHeapStart ≠ 0) (hcur : m₀.kernelHeapCurpos = m₀.kernelHeapStart)
    {t : MemInfo × List Placed} (hrun : Relation.ReflTransGen (PlaceStep Unwrapped) (m₀, []) t) :
    PlaceInv m₀.kernelHeapStart t.1 t.2 := by
  induction hrun with
  | refl => exact ⟨rfl, by simp only; omega, by simp, by simp, by simp, List.Pairwise.nil⟩
  | tail _ hs ih => exact ih.step h0 hs

/-- **The early heap is exclusive where the limit check does not wrap.** In
every run of such calls from the start of the heap, the ranges handed out are
pairwise disjoint, lie in the early heap and are aligned as asked; and a call
that returns 0 leaves the position. -/
theorem early_ranges_exclusive (m₀ : MemInfo) (h0 : m₀.kernelHeapStart ≠ 0)
    (hcur : m₀.kernelHeapCurpos = m₀.kernelHeapStart) (m : MemInfo) (ranges : List Placed)
    (hrun : Relation.ReflTransGen (PlaceStep Unwrapped) (m₀, []) (m, ranges)) :
    ranges.Pairwise (fun r t => Disjoint r.bytes t.bytes) ∧
    (∀ r ∈ ranges, r.bytes ⊆ Set.Ico m₀.kernelHeapStart (m₀.kernelHeapStart + earlyHeapMaxsize)) ∧
    (∀ r ∈ ranges, if r.flags &&& kallocPageAlign ≠ 0 then r.addr % 4096 = 0 else r.addr % 8 = 0) ∧
    ∀ size flags phys m', size < 2 ^ 32 → Unwrapped m size flags → i386MemKmallocReal size flags m = ((0, phys), m') →
      m'.kernelHeapCurpos = m.kernelHeapCurpos := by
  have h := PlaceInv.reach h0 hcur hrun
  refine ⟨?_, fun r hr => ?_, fun r hr => ?_, fun size flags phys m' _ hok he => ?_⟩
  · refine h.apart.imp fun {r t} hap => Set.disjoint_left.mpr fun x hx hx' => ?_
    simp only [Placed.bytes, Set.mem_Ico] at hx hx'
    omega
  · have h1 := h.below r hr; have h2 := h.inside r hr
    intro x hx
    simp only [Placed.bytes, Set.mem_Ico] at hx ⊢
    omega
  · have ha := h.aligned r hr
    split
    · next hp => exact ha.2 hp
    · exact ha.1
  · rcases i386MemKmallocReal_cases hok with he' | ⟨hle, he'⟩
    · rw [he] at he'
      cases he'
      rfl
    · have hb := placeAt_bounds flags m.kernelHeapCurpos
      have hge := h.ge
      rw [he] at he'
      simp only [Prod.mk.injEq] at he' hge
      omega

/-- A kernel that ends at `0x12a000`, before its first allocation. -/
def memAt12b000 : MemInfo where
  mmap := []
  kernelReservedStart := 0x100000
  kernelReservedEnd := 0x12a000
  multibootReservedStart := 0x10000
  multibootReservedEnd := 0x11e40
  kernelHeapStart := 0x12b000
  kernelHeapCurpos := 0x12b000
  memLower := 639
  memUpper := 129920
  highestFreeAddress := 133038080

/-- A hundred bytes, then a page. -/
theorem early_ranges_exclusive_two :
    Relation.ReflTransGen (PlaceStep Unwrapped) (memAt12b000, [])
      ({ memAt12b000 with kernelHeapCurpos := 0x12d000 }, [⟨0x12c000, 4096, 5⟩, ⟨0x12b000, 100, 1⟩]) ∧
    Disjoint (Placed.bytes ⟨0x12c000, 4096, 5⟩) (Placed.bytes ⟨0x12b000, 100, 1⟩) := by
  have h1 : i386MemKmallocReal 100 1 memAt12b000 =
      ((0x12b000, some 0x12b000), { memAt12b000 with kernelHeapCurpos := 0x12b064 }) := by
    simp [i386MemKmallocReal, memAt12b000, u32, kallocCritical, kallocPageAlign, pageSize, earlyHeapMaxsize]
  have h2 : i386MemKmallocReal 4096 5 { memAt12b000 with kernelHeapCurpos := 0x12b064 } =
      ((0x12c000, some 0x12c000), { memAt12b000 with kernelHeapCurpos := 0x12d000 }) := by
    simp [i386MemKmallocReal, memAt12b000, u32, kallocCritical, kallocPageAlign, pageSize, earlyHeapMaxsize]
  have hw1 : Unwrapped memAt12b000 100 1 := .inr (by simp [NoWrap, memAt12b000])
  have hw2 : Unwrapped { memAt12b000 with kernelHeapCurpos := 0x12b064 } 4096 5 := .inr (by simp [NoWrap])
  have hrun : Relation.ReflTransGen (PlaceStep Unwrapped) (memAt12b000, [])
      ({ memAt12b000 with kernelHeapCurpos := 0x12d000 }, [⟨0x12c000, 4096, 5⟩, ⟨0x12b000, 100, 1⟩]) :=
    (Relation.ReflTransGen.single (.placed (by decide) hw1 h1 (by decide))).tail
      (.placed (by decide) hw2 h2 (by decide))
  have hall := early_ranges_exclusive memAt12b000 (by decide) rfl _ _ hrun
  exact ⟨hrun, (List.pairwise_cons.mp hall.1).1 _ (by simp)⟩

/-- A size that makes the check wrap gets a range of almost 4 GiB. -/
theorem early_range_outside : ∃ m ranges,
    Relation.ReflTransGen (PlaceStep fun _ _ _ => True) (memAt12b000, []) (m, ranges) ∧
    ∃ r ∈ ranges, ¬ r.bytes ⊆ Set.Ico memAt12b000.kernelHeapStart (memAt12b000.kernelHeapStart + earlyHeapMaxsize) := by
  have h1 : i386MemKmallocReal 0xFFED4000 1 memAt12b000 =
      ((0x12b000, some 0x12b000), { memAt12b000 with kernelHeapCurpos := 0xFFFFF000 }) := by
    simp [i386MemKmallocReal, memAt12b000, u32, kallocCritical, kallocPageAlign, pageSize, earlyHeapMaxsize]
  refine ⟨_, _, Relation.ReflTransGen.single (.placed (by decide) trivial h1 (by decide)), _, List.mem_cons_self,
    fun hsub => ?_⟩
  have hin : 0x200000 ∈ Placed.bytes ⟨0x12b000, 0xFFED4000, 1⟩ := by
    simp only [Placed.bytes, Set.mem_Ico]
    omega
  have hout := hsub hin
  simp only [memAt12b000, earlyHeapMaxsize, Set.mem_Ico] at hout
  omega

end ShawnOS
