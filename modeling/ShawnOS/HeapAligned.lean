/-
What `kheap_malloc` returns is as large and as aligned as asked for, unless
`size + align` wraps.

The sections a call takes are told by the two states (`Marked`): those used
after it that were free before, or that lie past the own sections of a block
it added. Where the padded size wraps, fewer sections are taken than the
request has bytes, or the aligned address lies beyond the address space.
-/
import ShawnOS.HeapGrowth

namespace ShawnOS

open Word32 Runs

variable {σ : Type} {kp : KpagingInterface σ} {s s' s₁ : HeapState σ}

/-- The byte `x` lies in a section that the call from `s` to `s'` marked
used: clear before, or in a new block past the block's own sections. -/
def Marked (s s' : HeapState σ) (x : Nat) : Prop :=
  ∃ b' ∈ s'.heap.blocks, ∃ j, j < b'.usedSections.length ∧ b'.usedSections.bit j = true ∧
    b'.start + b'.sectionSize * j ≤ x ∧ x < b'.start + b'.sectionSize * (j + 1) ∧
    (∀ b ∈ s.heap.blocks, b.start = b'.start → b.usedSections.bit j = false) ∧
    ((∀ b ∈ s.heap.blocks, b.start ≠ b'.start) → reservedSections (b'.blockSize / 4096) ≤ j)

/-- `out` is aligned as asked, and the `size` bytes behind it lie in the
sections the call marked. -/
def SizedAligned (s s' : HeapState σ) (size align out : Nat) : Prop :=
  (align = 0 ∨ out % align = 0) ∧ ∀ x, out ≤ x → x < out + size → Marked s s' x

/-! ## The sections a call marks -/

/-- After expansions a block is an old one, or new and fresh. -/
theorem HeapOk.expands_block (h : HeapOk s) (he : Expands s s₁) :
    (∀ c ∈ s.heap.blocks, c ∈ s₁.heap.blocks) ∧ ∀ b ∈ s₁.heap.blocks, b ∈ s.heap.blocks ∨
      (BlockFresh b (b.blockSize / 4096) ∧ ∀ c ∈ s.heap.blocks, c.start ≠ b.start) := by
  induction he with
  | refl => exact ⟨fun c hc => hc, fun b hb => .inl hb⟩
  | @tail t u ht hs ih =>
    have hok := h.expands ht
    rcases hs with ⟨hh, -⟩ | ⟨b₀, p, hadd⟩
    · rw [hh]
      exact ih
    · rw [hadd.blocks]
      refine ⟨fun c hc => List.mem_cons_of_mem _ (ih.1 c hc), fun b hb => ?_⟩
      rcases List.mem_cons.mp hb with rfl | hb
      · exact .inr ⟨by rw [hadd.fresh.pages_eq]; exact hadd.fresh, fun c hc => hadd.start_ne hok (ih.1 c hc)⟩
      · exact ih.2 b hb

/-- A served call marks the bytes of the sections it takes and no others. -/
theorem HeapOk.marked_iff (h : HeapOk s) (he : Expands s s₁) {l₁ l₂ : List KheapBlock} {b b' : KheapBlock}
    {size f : Nat} (hl : s₁.heap.blocks = l₁ ++ b :: l₂) (ht : Taken size b b' f) (x : Nat) :
    Marked s (s₁.commit (l₁ ++ b' :: l₂) (divRoundUp size 16)) x ↔
      b.start + 16 * f ≤ x ∧ x < b.start + 16 * (f + divRoundUp size 16) := by
  have h₁ := h.expands he
  have hbm : b ∈ s₁.heap.blocks := by rw [hl]; exact mem_middle.mpr (.inl rfl)
  have hshape := h₁.shape b hbm
  have hin := ht.fit.le (by rw [hshape.usedLength]; exact h₁.hint b hbm)
  obtain ⟨hkept, hold⟩ := h.expands_block he
  -- What `Marked` says of a block that the call leaves alone.
  have hother : ∀ c ∈ s₁.heap.blocks, ∀ j, j < c.usedSections.length →
      (∀ d ∈ s.heap.blocks, d.start = c.start → d.usedSections.bit j = false) →
      ((∀ d ∈ s.heap.blocks, d.start ≠ c.start) → reservedSections (c.blockSize / 4096) ≤ j) →
      c.usedSections.bit j = false := by
    intro c hc j hj hclear hres
    rcases hold c hc with hc' | ⟨hfresh, hnew⟩
    · exact hclear c hc' rfl
    · rw [hfresh.usedLength] at hj
      rw [hfresh.used j hj]
      exact decide_eq_false (Nat.not_lt.mpr (hres hnew))
  have hstart := ht.commit.start; have hsect := ht.commit.sectSize.trans hshape.sectSize
  constructor
  · rintro ⟨c, hc, j, hj, hbit, h1, h2, hclear, hres⟩
    rcases mem_middle.mp (show c ∈ l₁ ++ b' :: l₂ from hc) with rfl | hc
    · rw [hstart] at h1 h2 hclear hres
      rw [hsect] at h1 h2
      rw [ht.commit.size] at hres
      have hb := hother b hbm j (by rw [← ht.commit.used.length]; exact hj) hclear hres
      rw [ht.commit.used.bit, hb, Bool.false_or, decide_eq_true_eq] at hbit
      omega
    · have hno := hother c (by rw [hl]; exact mem_middle.mpr (.inr hc)) j hj hclear hres
      rw [hno] at hbit
      cases hbit
  · rintro ⟨h1, h2⟩
    obtain ⟨j, hj⟩ : ∃ j, j = (x - b.start) / 16 := ⟨_, rfl⟩
    have hfj : f ≤ j ∧ j < f + divRoundUp size 16 := by omega
    refine ⟨b', mem_middle.mpr (.inl rfl), j, by rw [ht.commit.used.length]; omega,
      ht.commit.used.inside hfj.1 hfj.2, by rw [hstart, hsect]; omega, by rw [hstart, hsect]; omega, ?_, ?_⟩
    · intro d hd hds
      cases h₁.block_unique hbm (hkept d hd) (hds.trans hstart)
      exact ht.fit.clear j hfj.1 hfj.2
    · intro hnew
      rw [ht.commit.size]
      rcases hold b hbm with hb | ⟨hfresh, -⟩
      · exact absurd hstart.symm (hnew b hb)
      · have hbit := hfresh.used j (by rw [← hfresh.usedLength]; omega)
        rw [ht.fit.clear j hfj.1 hfj.2] at hbit
        exact Nat.not_lt.mp (of_decide_eq_false hbit.symm)

/-! ## The address returned -/

theorem alignOut_mod {start align : Nat} (ha : 0 < align) (h : start + align ≤ 2 ^ 32) :
    alignOut start align true % align = 0 := by
  have hlt := Nat.mod_lt start ha
  simp only [alignOut, true_and]
  split
  · -- `start` is rounded up to the next multiple.
    by_cases hw : start + (align - start % align) < 2 ^ 32
    · rw [u32_of_lt hw]
      have hdiv := Nat.div_add_mod start align
      rw [show start + (align - start % align) = align * (start / align) + align by omega,
        Nat.mul_add_mod_self_left, Nat.mod_self]
    · omega
  · omega

/-- Where the padded size wraps, the address and the bytes behind it do not
lie in the sections taken. -/
theorem alignOut_wraps {start size align n : Nat} (hstart : 0 < start) (hs : size < 2 ^ 32) (ha : align < 2 ^ 32)
    (hwrap : 2 ^ 32 ≤ size + align) (hn : n = divRoundUp (u32 (size + align)) 16) (hend : start + 16 * n ≤ 2 ^ 30) :
    ¬ (start ≤ alignOut start align true ∧ alignOut start align true + size ≤ start + 16 * n) := by
  have hpad : u32 (size + align) = size + align - 2 ^ 32 := by unfold u32; omega
  rw [hpad] at hn
  rintro ⟨h1, h2⟩
  rcases nSec_cases (show size + align - 2 ^ 32 < 2 ^ 32 by omega) with ⟨-, hz⟩ | ⟨-, hz⟩
  · omega
  by_cases hbig : 2 ^ 31 < align
  · -- The address is `align` itself.
    have hout : alignOut start align true = align := by
      rw [alignOut, Nat.mod_eq_of_lt (by omega), if_pos ⟨rfl, hstart⟩, u32_of_lt (by omega)]
      omega
    omega
  · omega

/-! ## The claim about every call -/

theorem manualAlign_iff (h : HeapOk s) (align : Nat) : manualAlign s.heap align = true ↔ align ≠ 0 ∧ align ≠ 16 := by
  rw [manualAlign, h.sectSize, decide_eq_true_eq]
  omega

theorem HeapOk.sizedAligned_iff (h : HeapOk s) {size align out : Nat} (hs : size < 2 ^ 32) (ha : align < 2 ^ 32)
    (hm : kheapMalloc kp s size align = .ok (.success, some out, s')) :
    SizedAligned s s' size align out ↔ align = 0 ∨ align = 16 ∨ size + align < 2 ^ 32 := by
  obtain ⟨s₁, hexp, hend⟩ := kheapMalloc_ok h hs hm
  have hpad := paddedSize_lt s.heap align hs
  have h₁ := h.expands hexp
  cases hend with
  | @served l₁ b l₂ b' f hl _ ht =>
    have hbm : b ∈ s₁.heap.blocks := by rw [hl]; exact mem_middle.mpr (.inl rfl)
    have hshape := h₁.shape b hbm
    have hlow := (h₁.asa.isLive _ (List.mem_map_of_mem hbm)).low
    have hin := ht.fit.le (by rw [hshape.usedLength]; exact h₁.hint b hbm)
    have hfits := hshape.fits; have haligned := hshape.aligned
    rw [hshape.usedLength] at hin
    have hpos := nSec_pos hpad
    rw [blockPages] at hlow
    have hmanual := manualAlign_iff h align
    unfold SizedAligned
    simp only [h.marked_iff hexp hl ht]
    cases hman : manualAlign s.heap align with
    | false =>
      have hal : align = 0 ∨ align = 16 := by
        rw [hman] at hmanual
        simp at hmanual
        omega
      have hn : paddedSize s.heap size align = size := by rw [paddedSize, hman, if_neg (by simp)]
      simp only [hn, Bool.false_eq_true, alignOut, false_and, ite_false]
      refine iff_of_true ⟨?_, fun x hx1 hx2 => ⟨hx1, ?_⟩⟩ (by omega)
      · rcases hal with rfl | rfl
        · exact .inl rfl
        · exact .inr (by omega)
      · rcases nSec_cases hs with ⟨h0, -⟩ | ⟨-, hz⟩
        · omega
        · rw [hz]
          omega
    | true =>
      have hal := hmanual.mp hman
      have hn : divRoundUp (paddedSize s.heap size align) 16 = divRoundUp (u32 (size + align)) 16 := by
        rw [paddedSize, hman, if_pos rfl]
      generalize divRoundUp (paddedSize s.heap size align) 16 = n at *
      by_cases hwrap : size + align < 2 ^ 32
      · rw [u32_of_lt hwrap, divRoundUp_of_pos (by omega) hwrap] at hn
        have hb := alignOut_bounds (show 0 < align by omega) (show b.start + 16 * f + align ≤ 2 ^ 32 by omega)
        exact iff_of_true ⟨.inr (alignOut_mod (by omega) (by omega)), fun x hx1 hx2 => by omega⟩ (by omega)
      · refine iff_of_false ?_ (by omega)
        rintro ⟨-, hall⟩
        have h0 := hall (alignOut (b.start + 16 * f) align true) (by omega) (by omega)
        have hlast := hall (alignOut (b.start + 16 * f) align true + (size - 1)) (by omega) (by omega)
        exact alignOut_wraps (show 0 < b.start + 16 * f by omega) hs ha (by omega) hn (by omega)
          ⟨h0.1, by omega⟩

/-- **When an allocation is as large and as aligned as asked for.** After any
calls, a call that succeeds returns an aligned address with `size` bytes of
its own behind it exactly when no padding wraps. -/
theorem heap_malloc_as_asked_iff (kp : KpagingInterface σ) (s s' : HeapState σ) (hreach : HeapReachable kp s)
    (size align out : Nat) (hs : size < 2 ^ 32) (ha : align < 2 ^ 32)
    (hm : kheapMalloc kp s size align = .ok (.success, some out, s')) :
    SizedAligned s s' size align out ↔ align = 0 ∨ align = 16 ∨ size + align < 2 ^ 32 :=
  hreach.ok.sizedAligned_iff hs ha hm

/-- A hundred bytes on a page boundary. -/
theorem heap_malloc_as_asked_page : ∃ (a₀ : Asa) (s' : HeapState Unit) (out : Nat),
    HeapReachable mapAll (⟨kheapKallocInstall, a₀, ()⟩ : HeapState Unit) ∧
    kheapMalloc mapAll ⟨kheapKallocInstall, a₀, ()⟩ 100 4096 = .ok (.success, some out, s') ∧
    SizedAligned ⟨kheapKallocInstall, a₀, ()⟩ s' 100 4096 out := by
  obtain ⟨a₀, hinit⟩ := asaInit_placeAt12b000
  obtain ⟨s₁, b, b', -, -, hm⟩ := kheapMalloc_first (asaInit_upTo hinit) () mapAll_maps
    (show 0 < paddedSize kheapKallocInstall 100 4096 by decide) (by decide)
  have hreach := heapReachable_start hinit
  exact ⟨a₀, _, _, hreach, hm,
    (heap_malloc_as_asked_iff mapAll _ _ hreach 100 4096 _ (by decide) (by decide) hm).mpr (by decide)⟩

/-- With `0xFFFFF064` bytes on a page boundary the padded size is 100, and
the call succeeds with seven sections. -/
theorem heap_malloc_wraps : ∃ (a₀ : Asa) (s' : HeapState Unit) (out : Nat),
    HeapReachable mapAll (⟨kheapKallocInstall, a₀, ()⟩ : HeapState Unit) ∧
    kheapMalloc mapAll ⟨kheapKallocInstall, a₀, ()⟩ 0xFFFFF064 4096 = .ok (.success, some out, s') ∧
    ¬ SizedAligned ⟨kheapKallocInstall, a₀, ()⟩ s' 0xFFFFF064 4096 out := by
  obtain ⟨a₀, hinit⟩ := asaInit_placeAt12b000
  obtain ⟨s₁, b, b', -, -, hm⟩ := kheapMalloc_first (asaInit_upTo hinit) () mapAll_maps
    (show 0 < paddedSize kheapKallocInstall 0xFFFFF064 4096 by decide) (by decide)
  have hreach := heapReachable_start hinit
  refine ⟨a₀, _, _, hreach, hm, fun h => ?_⟩
  exact absurd ((hreach.ok.sizedAligned_iff (by decide) (by decide) hm).mp h) (by decide)

end ShawnOS
