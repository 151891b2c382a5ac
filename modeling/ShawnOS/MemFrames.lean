/-
The frame allocator of `arch/i386/mem.c`: `i386_mem_get_next_free_frame`
finds the lowest clear bit of the whole words of the bitset, and answers `0`
when there is none.
-/
import ShawnOS.Mem

namespace ShawnOS

open Word32

/-- `r` is the lowest clear bit from `lo` up to `hi`. -/
structure FirstClear (b : Bitset) (lo hi r : Nat) : Prop where
  ge : lo ≤ r
  lt : r < hi
  clear : b.bit r = false
  before : ∀ f, lo ≤ f → f < r → b.bit f = true

theorem freeBitFrom_some {w : Word} : ∀ {rem j k : Nat}, j + rem ≤ 32 → freeBitFrom w rem j = some k →
    j ≤ k ∧ k < j + rem ∧ w.getLsbD k = false ∧ ∀ i, j ≤ i → i < k → w.getLsbD i = true
  | 0, _, _, _, h => by cases h
  | rem + 1, j, k, hle, h => by
    rw [freeBitFrom] at h
    split at h
    · next hz =>
      cases h
      exact ⟨Nat.le_refl j, by omega, (and_mask_eq_zero (by omega)).mp hz, fun i h1 h2 => by omega⟩
    · next hz =>
      obtain ⟨h1, h2, h3, h4⟩ := freeBitFrom_some (by omega) h
      refine ⟨by omega, by omega, h3, fun i hi hk => ?_⟩
      by_cases he : i = j
      · rw [he]
        rw [and_mask_eq_zero (by omega)] at hz
        simpa using hz
      · exact h4 i (by omega) hk

theorem freeBitFrom_none {w : Word} : ∀ {rem j : Nat}, j + rem ≤ 32 → freeBitFrom w rem j = none →
    ∀ i, j ≤ i → i < j + rem → w.getLsbD i = true
  | 0, _, _, _, i, h1, h2 => by omega
  | rem + 1, j, hle, h, i, h1, h2 => by
    rw [freeBitFrom] at h
    split at h
    · cases h
    · next hz =>
      by_cases he : i = j
      · rw [he]
        rw [and_mask_eq_zero (by omega)] at hz
        simpa using hz
      · exact freeBitFrom_none (by omega) h i (by omega) (by omega)

theorem full_word {b : Bitset} {i : Nat} (h : b.words i = 0xFFFFFFFF) {f : Nat} (hf : f / 32 = i) : b.bit f = true := by
  have hm : f % 32 < 32 := Nat.mod_lt _ (by decide)
  have hall : (0xFFFFFFFF : Word) = BitVec.allOnes 32 := by decide
  rw [Bitset.bit, hf, h, hall, BitVec.getLsbD_allOnes]
  exact decide_eq_true hm

theorem i386MemGetNextFreeFrameLoop_spec {b : Bitset} : ∀ {rem i : Nat},
    (i386MemGetNextFreeFrameLoop b rem i = 0 ∧ ∀ f, 32 * i ≤ f → f < 32 * (i + rem) → b.bit f = true) ∨
      FirstClear b (32 * i) (32 * (i + rem)) (i386MemGetNextFreeFrameLoop b rem i)
  | 0, i => .inl ⟨rfl, fun f h1 h2 => by omega⟩
  | rem + 1, i => by
    -- A full word is passed over, whichever of the two tests finds it full.
    have skip (hfull : ∀ f, f / 32 = i → b.bit f = true) :
        (i386MemGetNextFreeFrameLoop b rem (i + 1) = 0 ∧
            ∀ f, 32 * i ≤ f → f < 32 * (i + (rem + 1)) → b.bit f = true) ∨
          FirstClear b (32 * i) (32 * (i + (rem + 1))) (i386MemGetNextFreeFrameLoop b rem (i + 1)) := by
      have hword : ∀ f, 32 * i ≤ f → ¬ 32 * (i + 1) ≤ f → b.bit f = true := fun f h1 h2 => hfull f (by omega)
      rcases @i386MemGetNextFreeFrameLoop_spec b rem (i + 1) with ⟨h0, hall⟩ | ⟨h1, h2, h3, h4⟩
      · refine .inl ⟨h0, fun f hlo hhi => ?_⟩
        by_cases hf : 32 * (i + 1) ≤ f
        · exact hall f hf (by omega)
        · exact hword f hlo hf
      · refine .inr ⟨by omega, by omega, h3, fun f hlo hhi => ?_⟩
        by_cases hf : 32 * (i + 1) ≤ f
        · exact h4 f hf hhi
        · exact hword f hlo hf
    rw [i386MemGetNextFreeFrameLoop]
    split
    · next hw => exact skip fun f hf => full_word hw hf
    · cases hfree : freeBitFrom (b.words i) 32 0 with
      | none =>
        refine skip fun f hf => ?_
        rw [Bitset.bit, hf]
        exact freeBitFrom_none (by decide) hfree _ (Nat.zero_le _) (by omega)
      | some j =>
        obtain ⟨-, hj, hclear, hbefore⟩ := freeBitFrom_some (by decide) hfree
        refine .inr (show FirstClear b _ _ (i * 32 + j) from ⟨by omega, by omega, ?_, fun f hlo hhi => ?_⟩)
        · rw [Bitset.bit, show (i * 32 + j) / 32 = i by omega, show (i * 32 + j) % 32 = j by omega]
          exact hclear
        · rw [Bitset.bit, show f / 32 = i by omega]
          exact hbefore _ (Nat.zero_le _) (by omega)

/-- **`i386_mem_get_next_free_frame`.** -/
theorem i386MemGetNextFreeFrame_spec (m : MemInfo) (b : Bitset) :
    (i386MemGetNextFreeFrame m b = 0 ∧ ∀ f < 32 * (m.highestFreeAddress / 4096 / 32), b.bit f = true) ∨
      FirstClear b 0 (32 * (m.highestFreeAddress / 4096 / 32)) (i386MemGetNextFreeFrame m b) := by
  have h := @i386MemGetNextFreeFrameLoop_spec b (m.highestFreeAddress / pageSize / 32) 0
  rw [Nat.mul_zero, Nat.zero_add] at h
  rcases h with ⟨h0, hall⟩ | h
  · exact .inl ⟨h0, fun f hf => hall f (Nat.zero_le f) hf⟩
  · exact .inr h

theorem i386MemGetNextFreeFrame_eq {m : MemInfo} {b : Bitset} {f : Nat} (hlt : f < 32 * (m.highestFreeAddress / 4096 / 32))
    (hclear : b.bit f = false) (hbefore : ∀ g < f, b.bit g = true) : i386MemGetNextFreeFrame m b = f := by
  rcases i386MemGetNextFreeFrame_spec m b with ⟨-, hall⟩ | h
  · rw [hall f hlt] at hclear
    cases hclear
  · by_contra hne
    rcases Nat.lt_or_gt_of_ne hne with hlt' | hgt
    · have hc := h.clear
      rw [hbefore _ hlt'] at hc
      cases hc
    · rw [h.before f (Nat.zero_le f) hgt] at hclear
      cases hclear

/-- **`i386_mem_allocate_frame`** marks the frame it returns, or returns `0`
and changes nothing. -/
theorem i386MemAllocateFrame_spec {m : MemInfo} {b : Bitset} (hlen : b.length = m.highestFreeAddress / 4096) :
    (i386MemGetNextFreeFrame m b = 0 ∧ i386MemAllocateFrame m b = some (0, b)) ∨
      ∃ f b', i386MemGetNextFreeFrame m b = f ∧ f ≠ 0 ∧ f < b.length ∧ b.bit f = false ∧
        i386MemAllocateFrame m b = some (f, b') ∧ b.Filled b' f 1 := by
  by_cases h0 : i386MemGetNextFreeFrame m b = 0
  · refine .inl ⟨h0, ?_⟩
    simp [i386MemAllocateFrame, h0]
  · refine .inr ?_
    rcases i386MemGetNextFreeFrame_spec m b with ⟨h, -⟩ | h
    · exact absurd h h0
    · have hlt : i386MemGetNextFreeFrame m b < b.length := by
        have := h.lt
        omega
      obtain ⟨b', hb'⟩ := bitsetSetBit_ok hlt
      refine ⟨_, b', rfl, h0, hlt, h.clear, ?_, (bitsetSetBit_filled hb').2⟩
      simp [i386MemAllocateFrame, h0, hb']

/-! ## The last word -/

/-- The search is complete: it finds the lowest clear bit below `length`,
answers `0` only when there is none, and `i386_mem_allocate_frame` sets the
bit found. -/
structure CompleteSearch (m : MemInfo) (b : Bitset) : Prop where
  smallest : (∃ f < b.length, b.bit f = false) → FirstClear b 0 b.length (i386MemGetNextFreeFrame m b)
  zero : i386MemGetNextFreeFrame m b = 0 ↔ ∀ f < b.length, b.bit f = true
  allocate : ∃ b', i386MemAllocateFrame m b = some (i386MemGetNextFreeFrame m b, b') ∧
    (i386MemGetNextFreeFrame m b = 0 → b' = b) ∧
    (i386MemGetNextFreeFrame m b ≠ 0 → b.Filled b' (i386MemGetNextFreeFrame m b) 1)

/-- `i386_mem_allocate_frame` passes `bitset_set_bit`'s assertion. -/
theorem i386MemAllocateFrame_sets {m : MemInfo} {b : Bitset} (hlen : b.length = m.highestFreeAddress / 4096) :
    ∃ b', i386MemAllocateFrame m b = some (i386MemGetNextFreeFrame m b, b') ∧
      (i386MemGetNextFreeFrame m b = 0 → b' = b) ∧
      (i386MemGetNextFreeFrame m b ≠ 0 → b.Filled b' (i386MemGetNextFreeFrame m b) 1) := by
  rcases i386MemAllocateFrame_spec hlen with ⟨h0, ha⟩ | ⟨f, b', hf, hne, -, -, ha, hfill⟩
  · rw [h0]
    exact ⟨b, ha, fun _ => rfl, fun hne => absurd rfl hne⟩
  · rw [hf]
    exact ⟨b', ha, fun h0 => absurd h0 hne, fun _ => hfill⟩

/-- **The frame search** goes over `length / 32` words. It is complete exactly
when no clear bit is left to the bits behind them alone. -/
theorem completeSearch_iff {m : MemInfo} {b : Bitset} (hlen : b.length = m.highestFreeAddress / 4096)
    (hzero : b.bit 0 = true) :
    CompleteSearch m b ↔ (∃ f < 32 * (b.length / 32), b.bit f = false) ∨ ∀ f < b.length, b.bit f = true := by
  have hspec := i386MemGetNextFreeFrame_spec m b
  rw [← hlen] at hspec
  constructor
  · intro h
    rcases hspec with ⟨h0, -⟩ | hfirst
    · exact .inr (h.zero.mp h0)
    · exact .inl ⟨_, hfirst.lt, hfirst.clear⟩
  · intro hcond
    rcases hspec with ⟨h0, hwords⟩ | hfirst
    · have hall : ∀ f < b.length, b.bit f = true :=
        hcond.resolve_left fun ⟨f, hf, hclear⟩ => Bool.false_ne_true (hclear.symm.trans (hwords f hf))
      exact ⟨fun ⟨f, hf, hclear⟩ => absurd (hclear.symm.trans (hall f hf)) Bool.false_ne_true,
        iff_of_true h0 hall, i386MemAllocateFrame_sets hlen⟩
    · have hlt : i386MemGetNextFreeFrame m b < b.length := by
        have := hfirst.lt
        omega
      have hne : i386MemGetNextFreeFrame m b ≠ 0 := fun h0 =>
        Bool.false_ne_true (hfirst.clear.symm.trans (h0 ▸ hzero))
      have hnot : ¬ ∀ f < b.length, b.bit f = true := fun hall =>
        Bool.false_ne_true (hfirst.clear.symm.trans (hall _ hlt))
      exact ⟨fun _ => ⟨hfirst.ge, hlt, hfirst.clear, hfirst.before⟩, iff_of_false hne hnot, i386MemAllocateFrame_sets hlen⟩

/-- Memory of `n` frames. -/
def memOfFrames (n : Nat) : MemInfo where
  mmap := []
  kernelReservedStart := 0
  kernelReservedEnd := 0
  multibootReservedStart := 0
  multibootReservedEnd := 0
  kernelHeapStart := 0
  kernelHeapCurpos := 0
  memLower := 0
  memUpper := 0
  highestFreeAddress := 4096 * n

/-- A bitset of 33 frames with only the last clear. -/
def lastFrameClear : Bitset := ⟨33, 0, fun i => if i = 0 then 0xFFFFFFFF else 0⟩

/-- With frame 31 clear too, the search is complete. -/
theorem completeSearch_31 : CompleteSearch (memOfFrames 33) ⟨33, 0, fun i => if i = 0 then 0x7FFFFFFF else 0⟩ :=
  (completeSearch_iff rfl (by decide)).mpr (.inl ⟨31, by decide, by decide⟩)

/-- The last frame of 33 is never found. -/
theorem lastFrame_not_found : lastFrameClear.length = (memOfFrames 33).highestFreeAddress / 4096 ∧
    lastFrameClear.bit 0 = true ∧ lastFrameClear.bit 32 = false ∧
    i386MemGetNextFreeFrame (memOfFrames 33) lastFrameClear = 0 ∧ ¬ CompleteSearch (memOfFrames 33) lastFrameClear := by
  refine ⟨by decide, by decide, by decide, by decide, fun h => ?_⟩
  have hall := h.zero.mp (by decide)
  exact absurd (hall 32 (by decide)) (by decide)

end ShawnOS
