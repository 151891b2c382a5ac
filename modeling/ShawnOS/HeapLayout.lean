/-
Where `kheap_add_block` puts a block's own data, for every block size and
section size its `ASSERT`s let through, and what it adds to the heap's
`effective_size`.

The bitset's bytes, its length and the reserved sections are rounded up
independently, and agree. The sections do not: the last one may reach past
the block's end. A section size of `2^27`, or a multiple, makes the divisor
`bytes_per_int` zero.
-/
import ShawnOS.HeapFacts
import ShawnOS.Lib.Traces
import Mathlib.Algebra.Ring.Int.Defs
import Mathlib.Data.Set.Disjoint
import Mathlib.Order.CompletePartialOrder

namespace ShawnOS

open Word32 Traces

/-! ## Layout -/

/-- The bytes of the header. -/
def KheapBlock.header (b : KheapBlock) : Set Nat := Set.Ico b.start (b.start + sizeofKheapBlock)

/-- The bytes that `bitset_init` clears. -/
def Bitset.bytes (b : Bitset) : Set Nat := Set.Ico b.start (b.start + 4 * divRoundUp b.length 32)

/-- The bytes of a section. -/
def KheapBlock.section (b : KheapBlock) (i : Nat) : Set Nat :=
  Set.Ico (b.start + i * b.sectionSize) (b.start + (i + 1) * b.sectionSize)

/-- The block's data are apart and in its reserved sections, each bitset in
the bytes set aside for it, and every other section inside the block. -/
structure LaidOut (b : KheapBlock) (bitsetSize : Nat) : Prop where
  headerUsed : Disjoint b.header b.usedSections.bytes
  headerDelimiters : Disjoint b.header b.delimiters.bytes
  bitsets : Disjoint b.usedSections.bytes b.delimiters.bytes
  reserved : b.header ∪ b.usedSections.bytes ∪ b.delimiters.bytes ⊆
    Set.Ico b.start (b.start + b.firstFreeSection * b.sectionSize)
  usedOwn : b.usedSections.bytes ⊆ Set.Ico b.usedSections.start (b.usedSections.start + bitsetSize)
  delimitersOwn : b.delimiters.bytes ⊆ Set.Ico b.delimiters.start (b.delimiters.start + bitsetSize)
  sections : ∀ i, b.firstFreeSection ≤ i → i < b.usedSections.length →
    b.section i ⊆ Set.Ico b.start (b.start + b.blockSize)

/-- The call divides by no zero and lays its block out. -/
structure LayoutRight (mem : Nat → Word) (heap : Kheap) (addr blockSize sectionSize : Nat) : Prop where
  noZeroDivision : u32 (sectionSize * 32) ≠ 0 ∧ sectionSize ≠ 0
  laidOut : ∃ heap' b, kheapAddBlock mem heap addr blockSize sectionSize = some heap' ∧
    BlockMade heap heap' b addr blockSize sectionSize ∧ LaidOut b (bitsetSizeFor blockSize sectionSize)

theorem disjoint_Ico {a b c d : Nat} (h : b ≤ c) : Disjoint (Set.Ico a b) (Set.Ico c d) :=
  Set.disjoint_left.mpr fun x h1 h2 => by
    rw [Set.mem_Ico] at h1 h2
    omega

/-- The last section ends inside the block exactly when it is reserved or the
sections divide the block. -/
theorem BlockSizes.sections_iff {blockSize sectionSize n : Nat} (h : BlockSizes blockSize sectionSize n)
    (hpos : 0 < sectionSize) :
    (∀ i, reservedFor blockSize sectionSize ≤ i → i < divRoundUp blockSize sectionSize →
      (i + 1) * sectionSize ≤ blockSize) ↔
      sectionSize ∣ blockSize ∨ reservedFor blockSize sectionSize = divRoundUp blockSize sectionSize := by
  have hle := h.reserved_le
  have hlength := h.length
  have hdata := h.data
  obtain ⟨q, hq⟩ : ∃ q, q = (blockSize - 1) / sectionSize := ⟨_, rfl⟩
  rw [← hq] at hlength
  -- The block ends in the section of index `q`.
  have hlo : q * sectionSize ≤ blockSize - 1 := hq ▸ Nat.div_mul_le_self _ _
  have hhi : blockSize - 1 < (q + 1) * sectionSize := by
    rw [Nat.mul_comm, hq]
    exact Nat.lt_mul_div_succ _ hpos
  rw [hlength] at hle ⊢
  constructor
  · intro hall
    by_cases heq : reservedFor blockSize sectionSize = q + 1
    · exact .inr heq
    · have hlast := hall q (by omega) (Nat.lt_succ_self q)
      exact .inl ⟨q + 1, by rw [Nat.mul_comm]; omega⟩
  · rintro (⟨k, hk⟩ | heq) i hi hlt
    · rw [Nat.mul_comm] at hk
      have hqk : q < k := by
        by_contra hge
        have hmul := Nat.mul_le_mul_right sectionSize (Nat.not_lt.mp hge)
        omega
      calc (i + 1) * sectionSize ≤ k * sectionSize := Nat.mul_le_mul_right _ (by omega)
        _ = blockSize := hk.symm
    · omega

/-- Everything but the sections behind the reserved ones is laid out. -/
theorem BlockMade.laidOut_iff {heap heap' : Kheap} {b : KheapBlock} {addr blockSize sectionSize n : Nat}
    (h : BlockMade heap heap' b addr blockSize sectionSize) (hn : BlockSizes blockSize sectionSize n)
    (hpos : 0 < sectionSize) (hend : addr + blockSize < 2 ^ 32) :
    LaidOut b (bitsetSizeFor blockSize sectionSize) ↔
      sectionSize ∣ blockSize ∨ reservedFor blockSize sectionSize = divRoundUp blockSize sectionSize := by
  have hdata := hn.data; have hwords := hn.words
  have hheader : b.header = Set.Ico addr (addr + sizeofKheapBlock) := by rw [KheapBlock.header, h.start]
  have hused : b.usedSections.start = addr + sizeofKheapBlock := by
    rw [h.usedStart, u32_of_lt (by omega)]
  have hdelim : b.delimiters.start = addr + sizeofKheapBlock + 4 * n := by
    rw [h.delimStart, hn.bitset, u32_of_lt (by omega)]
  have hreserved : sizeofKheapBlock + 8 * n ≤ b.firstFreeSection * b.sectionSize := by
    have hlt := Nat.lt_mul_div_succ (39 + 8 * n) hpos
    rw [Nat.mul_comm sectionSize] at hlt
    rw [h.hint, h.sectSize, hn.reserved, sizeofKheapBlock]
    omega
  rw [← hn.sections_iff hpos]
  constructor
  · intro hl i hi hlt
    have hsub := hl.sections i (by rw [h.hint]; exact hi) (by rw [h.usedLength]; exact hlt)
    have hsect : i * sectionSize + sectionSize = (i + 1) * sectionSize := (Nat.succ_mul i sectionSize).symm
    rw [KheapBlock.section, h.start, h.size, h.sectSize] at hsub
    have hlast := (Set.Ico_subset_Ico_iff (show addr + i * sectionSize < addr + (i + 1) * sectionSize by omega)).mp hsub
    omega
  · intro hall
    refine ⟨?_, ?_, ?_, ?_, ?_, ?_, fun i hi hlt => ?_⟩
    · rw [hheader, Bitset.bytes, hused]
      exact disjoint_Ico (Nat.le_refl _)
    · rw [hheader, Bitset.bytes, hdelim]
      exact disjoint_Ico (Nat.le_add_right _ _)
    · rw [Bitset.bytes, Bitset.bytes, hused, hdelim, h.usedLength]
      exact disjoint_Ico (by omega)
    · rw [hheader, Bitset.bytes, Bitset.bytes, hused, hdelim, h.usedLength, h.delimLength, h.start]
      refine Set.union_subset (Set.union_subset ?_ ?_) ?_
      · exact Set.Ico_subset_Ico (Nat.le_refl _) (by omega)
      · exact Set.Ico_subset_Ico (by omega) (by omega)
      · exact Set.Ico_subset_Ico (by omega) (by omega)
    · rw [Bitset.bytes, h.usedLength, hn.bitset]
      exact Set.Ico_subset_Ico (Nat.le_refl _) (by omega)
    · rw [Bitset.bytes, h.delimLength, hn.bitset]
      exact Set.Ico_subset_Ico (Nat.le_refl _) (by omega)
    · rw [h.hint] at hi
      rw [h.usedLength] at hlt
      have hin := hall i hi hlt
      rw [KheapBlock.section, h.start, h.size, h.sectSize]
      exact Set.Ico_subset_Ico (Nat.le_add_right _ _) (by omega)

theorem u32_sections_eq_zero (sectionSize : Nat) : u32 (sectionSize * 32) = 0 ↔ sectionSize % 2 ^ 27 = 0 := by
  unfold u32
  omega

/-- **The layout** of a block is right exactly when the section size is no
multiple of `2^27` and divides the block, unless every section is reserved. -/
theorem layoutRight_iff (mem : Nat → Word) (heap : Kheap) {addr blockSize sectionSize : Nat}
    (h : AddAsserts addr blockSize sectionSize) (hb : blockSize < 2 ^ 32) (hend : addr + blockSize < 2 ^ 32) :
    LayoutRight mem heap addr blockSize sectionSize ↔ sectionSize % 2 ^ 27 ≠ 0 ∧
      (sectionSize ∣ blockSize ∨ reservedFor blockSize sectionSize = divRoundUp blockSize sectionSize) := by
  have hpos : 0 < sectionSize := Nat.lt_of_lt_of_le (by decide) h.fourBytes
  rw [Ne, ← u32_sections_eq_zero]
  constructor
  · rintro ⟨⟨hz, -⟩, heap', b, -, hmade, hlaid⟩
    obtain ⟨n, hn⟩ := h.sizes hz hb
    exact ⟨hz, (hmade.laidOut_iff hn hpos hend).mp hlaid⟩
  · rintro ⟨hz, hdivides⟩
    obtain ⟨n, hn⟩ := h.sizes hz hb
    obtain ⟨heap', b, hadd, hmade⟩ := kheapAddBlock_made mem heap h hz hb
    exact ⟨⟨hz, by omega⟩, heap', b, hadd, hmade, (hmade.laidOut_iff hn hpos hend).mpr hdivides⟩

/-- A page in sections of 16 bytes. -/
theorem layoutRight_page : AddAsserts 0x17c000 0x1000 16 ∧
    LayoutRight (fun _ => 0) kheapKallocInstall 0x17c000 0x1000 16 := by
  have h : AddAsserts 0x17c000 0x1000 16 := ⟨by decide, by decide, by decide⟩
  exact ⟨h, (layoutRight_iff _ _ h (by decide) (by decide)).mpr ⟨by decide, .inl (by decide)⟩⟩

/-- A page in sections of 24 bytes: the last one reaches past its end. In
sections of `2^27` bytes there is a division by zero. -/
theorem layout_past_end : AddAsserts 0x17c000 0x1000 24 ∧
    ¬ LayoutRight (fun _ => 0) kheapKallocInstall 0x17c000 0x1000 24 ∧
    AddAsserts 0x17c000 0x1000 (2 ^ 27) ∧ ¬ LayoutRight (fun _ => 0) kheapKallocInstall 0x17c000 0x1000 (2 ^ 27) := by
  have h : AddAsserts 0x17c000 0x1000 24 := ⟨by decide, by decide, by decide⟩
  refine ⟨h, fun ⟨⟨hz, _⟩, heap', b, _, hmade, hlaid⟩ => ?_, ⟨by decide, by decide, by decide⟩,
    fun hright => hright.noZeroDivision.1 (by decide)⟩
  obtain ⟨n, hn⟩ := h.sizes hz (by decide)
  exact absurd ((hmade.laidOut_iff hn (by decide) (by decide)).mp hlaid) (by decide)

/-! ## The effective size -/

/-- The bytes of a block less its header and bitsets. -/
def KheapBlock.netSize (b : KheapBlock) : Int :=
  b.blockSize - sizeofKheapBlock - (4 * divRoundUp b.usedSections.length 32 + 4 * divRoundUp b.delimiters.length 32 : Nat)

/-- `effective_size` is what the blocks have besides their own data, and
covers the free sections. -/
structure EffectiveRight (heap : Kheap) : Prop where
  sum : (heap.effectiveSize : Int) = (heap.blocks.map (·.netSize)).sum
  free : (∀ b ∈ heap.blocks, b.sectionSize = 16) → 16 * heap.totalFreeSections ≤ heap.effectiveSize

section
variable {σ : Type} (kp : KpagingInterface σ)

/-- A call that may add a block, and what else happens in between. -/
inductive BlockCall (σ : Type) where
  | addBlock (addr blockSize sectionSize : BitVec 32)
  | expand (size : BitVec 32)
  | other (asa : Asa) (paging : σ)

/-- One call, where it returns. -/
def blockStep (s : HeapState σ) : BlockCall σ → Option (HeapState σ)
  | .addBlock addr blockSize sectionSize => do
    let heap ← kheapAddBlock (kp.memory s.paging) s.heap addr.toNat blockSize.toNat sectionSize.toNat
    some { s with heap }
  | .expand size => (kheapExpand kp s size.toNat).toOption.map (·.2)
  | .other asa paging => some { s with asa, paging }

/-- The address, size and section size of the block that `kheap_expand` goes
on to add, when there is address space for its pages and they can be mapped. -/
def expandBlock (s : HeapState σ) (pagesRequired : Nat) : Option (Nat × Nat × Nat) := do
  let (blockLocation, _) ← asaAlloc s.asa pagesRequired
  if blockLocation = 0 then none
  else
    match ← kheapMapPages kp blockLocation pagesRequired 0 s.paging with
    | (some _, _) => none
    | (none, _) => some (blockLocation, u32 (pagesRequired * pageSize), s.heap.defaultSectionSize)

/-- Those of the block a call goes on to add. -/
def BlockCall.block (s : HeapState σ) : BlockCall σ → Option (Nat × Nat × Nat)
  | .addBlock addr blockSize sectionSize => some (addr.toNat, blockSize.toNat, sectionSize.toNat)
  | .expand size => (expandPages size.toNat).toOption.bind (expandBlock kp s)
  | .other _ _ => none

/-- The call adds no block: it gets to none, or fails the `ASSERT`s of
`kheap_add_block` or its division. -/
def AddsNone (s : HeapState σ) (c : BlockCall σ) : Prop :=
  ∀ addr blockSize sectionSize, c.block kp s = some (addr, blockSize, sectionSize) →
    ¬ (AddAsserts addr blockSize sectionSize ∧ u32 (sectionSize * 32) ≠ 0)

end

variable {σ : Type} {kp : KpagingInterface σ} {s s' : HeapState σ}

theorem kheapAddBlock_asserts {mem : Nat → Word} {heap heap' : Kheap} {addr blockSize sectionSize : Nat}
    (h : kheapAddBlock mem heap addr blockSize sectionSize = some heap') :
    AddAsserts addr blockSize sectionSize ∧ u32 (sectionSize * 32) ≠ 0 := by
  simp only [kheapAddBlock, bind, Option.bind_eq_some_iff, kassert_eq_some] at h
  obtain ⟨-, haligned, -, hfour, -, hz, -, hroomy, -⟩ := h
  exact ⟨⟨haligned, hfour, fun _ => hroomy⟩, hz⟩

/-- `kheap_expand` ends in `kheap_add_block`, or leaves the heap. -/
theorem kheapExpandBy_block (p : Nat) :
    (∃ addr blockSize sectionSize mem, expandBlock kp s p = some (addr, blockSize, sectionSize) ∧ blockSize < 2 ^ 32 ∧
      (kheapExpandBy kp s p).map (·.2.heap) = kheapAddBlock mem s.heap addr blockSize sectionSize) ∨
    (expandBlock kp s p = none ∧ ∀ r s', kheapExpandBy kp s p = some (r, s') → s'.heap = s.heap) := by
  cases ha : asaAlloc s.asa p with
  | none => exact .inr (by simp [expandBlock, kheapExpandBy, ha])
  | some r =>
    obtain ⟨loc, asa⟩ := r
    by_cases h0 : loc = 0
    · refine .inr ⟨by simp [expandBlock, ha, h0], fun r s' he => ?_⟩
      simp only [kheapExpandBy, ha, h0, bind, Option.bind_some, ite_true, pure, Option.some.injEq, Prod.mk.injEq] at he
      obtain ⟨-, rfl⟩ := he
      rfl
    cases hm : kheapMapPages kp loc p 0 s.paging with
    | none => exact .inr (by simp [expandBlock, kheapExpandBy, ha, h0, hm])
    | some r =>
      obtain ⟨unmapped, q⟩ := r
      cases unmapped with
      | none =>
        refine .inl ⟨loc, u32 (p * pageSize), s.heap.defaultSectionSize, kp.memory q, by simp [expandBlock, ha, h0, hm],
          u32_lt _, ?_⟩
        cases hadd : kheapAddBlock (kp.memory q) s.heap loc (u32 (p * pageSize)) s.heap.defaultSectionSize with
        | none => simp [kheapExpandBy, ha, h0, hm, hadd]
        | some heap => simp [kheapExpandBy, ha, h0, hm, hadd]
      | some i =>
        refine .inr ⟨by simp [expandBlock, ha, h0, hm], fun r s' he => ?_⟩
        simp only [kheapExpandBy, ha, h0, hm, bind, Option.bind_some, ite_false, Option.bind_eq_some_iff, pure,
          Option.some.injEq, Prod.mk.injEq] at he
        obtain ⟨a, -, q', -, -, rfl⟩ := he
        rfl

theorem kheapExpand_eq (s : HeapState σ) (size : Nat) :
    kheapExpand kp s size = expandPages size >>= fun p => liftM (kheapExpandBy kp s p) := rfl

/-- **What a call does to the heap**: it ends in `kheap_add_block`, or leaves
the heap. -/
theorem blockStep_block (c : BlockCall σ) :
    (∃ addr blockSize sectionSize mem, c.block kp s = some (addr, blockSize, sectionSize) ∧ blockSize < 2 ^ 32 ∧
      (blockStep kp s c).map (·.heap) = kheapAddBlock mem s.heap addr blockSize sectionSize) ∨
    (c.block kp s = none ∧ ∀ s', blockStep kp s c = some s' → s'.heap = s.heap) := by
  cases c with
  | addBlock addr blockSize sectionSize =>
    refine .inl ⟨_, _, _, kp.memory s.paging, rfl, blockSize.isLt, ?_⟩
    cases hadd : kheapAddBlock (kp.memory s.paging) s.heap addr.toNat blockSize.toNat sectionSize.toNat with
    | none => simp [blockStep, hadd]
    | some heap => simp [blockStep, hadd]
  | expand size =>
    rw [BlockCall.block, blockStep, kheapExpand_eq]
    cases expandPages size.toNat with
    | error e => exact .inr ⟨rfl, fun s' he => by cases he⟩
    | ok p =>
      rw [ok_bind]
      rcases @kheapExpandBy_block σ kp s p with ⟨addr, bs, ss, mem, hblock, hlt, hadd⟩ | ⟨hblock, hheap⟩
      · refine .inl ⟨addr, bs, ss, mem, hblock, hlt, ?_⟩
        rw [← hadd]
        cases kheapExpandBy kp s p with
        | none => rfl
        | some r => rfl
      · refine .inr ⟨hblock, fun s' he => ?_⟩
        cases hby : kheapExpandBy kp s p with
        | none =>
          rw [hby] at he
          cases he
        | some r =>
          rw [hby] at he
          cases he
          exact hheap r.1 r.2 hby
  | other asa paging =>
    refine .inr ⟨rfl, fun s' he => ?_⟩
    cases he
    rfl

/-- The first block's data are added where they should be taken away. -/
theorem BlockMade.not_effective {heap heap' : Kheap} {b : KheapBlock} {addr blockSize sectionSize n : Nat}
    (h : BlockMade heap heap' b addr blockSize sectionSize) (hn : BlockSizes blockSize sectionSize n)
    (hb : blockSize < 2 ^ 32) (hempty : heap.blocks = []) (hzero : heap.effectiveSize = 0) : ¬ EffectiveRight heap' := by
  intro hright
  have hsum := hright.sum
  have hdata := hn.data; have hpos := hn.pos; have hle := hn.le; have hwords := hn.words
  have hsub : sub32 blockSize sizeofKheapBlock = blockSize - sizeofKheapBlock := sub32_of_le hb (by omega)
  have hblocks : heap'.blocks = [b] := by rw [h.heap, hempty]
  have heffective : heap'.effectiveSize = u32 (blockSize - sizeofKheapBlock + 4 * n * 2) := by
    rw [h.heap]
    dsimp only
    rw [hzero, hsub, hn.bitset, Nat.zero_add]
  rw [hblocks, List.map_singleton, List.sum_singleton, KheapBlock.netSize, h.size, h.usedLength, h.delimLength,
    heffective] at hsum
  unfold u32 at hsum
  omega

/-- **Where `effective_size` is right**: over every run of calls on a fresh
heap, it holds after each exactly when none adds a block. -/
theorem effective_size_right_iff (kp : KpagingInterface σ) (defaultSectionSize minBlockSize flags : Nat) (asa : Asa)
    (paging : σ) (calls : List (BlockCall σ)) :
    EachStep (blockStep kp) (fun s c => ∀ s', blockStep kp s c = some s' → EffectiveRight s'.heap)
        ⟨kheapInit defaultSectionSize minBlockSize flags, asa, paging⟩ calls ↔
      EachStep (blockStep kp) (AddsNone kp) ⟨kheapInit defaultSectionSize minBlockSize flags, asa, paging⟩ calls := by
  refine eachStep_iff (I := fun s => s.heap.blocks = [] ∧ s.heap.effectiveSize = 0 ∧ s.heap.totalFreeSections = 0)
    (fun s c ⟨hempty, hzero, hfree⟩ _ => ?_) ⟨rfl, rfl, rfl⟩ eachStep_true
  rcases @blockStep_block σ kp s c with ⟨addr, bs, ss, mem, hblock, hlt, hadd⟩ | ⟨hblock, hheap⟩
  · have hiff : AddsNone kp s c ↔ ¬ (AddAsserts addr bs ss ∧ u32 (ss * 32) ≠ 0) := by
      constructor
      · intro hnone
        exact hnone addr bs ss hblock
      · intro hnot addr' bs' ss' hblock'
        rw [hblock] at hblock'
        cases hblock'
        exact hnot
    rw [hiff]
    by_cases hpass : AddAsserts addr bs ss ∧ u32 (ss * 32) ≠ 0
    · obtain ⟨n, hn⟩ := hpass.1.sizes hpass.2 hlt
      obtain ⟨heap', b, hheap', hmade⟩ := kheapAddBlock_made mem s.heap hpass.1 hpass.2 hlt
      rw [hheap'] at hadd
      obtain ⟨s', hs', rfl⟩ := Option.map_eq_some_iff.mp hadd
      have hbad : ¬ ∀ s', blockStep kp s c = some s' → EffectiveRight s'.heap := fun hall =>
        hmade.not_effective hn hlt hempty hzero (hall s' hs')
      exact ⟨iff_of_false hbad (not_not.mpr hpass), fun hall => absurd hall hbad⟩
    · have hnone : ∀ s', blockStep kp s c ≠ some s' := by
        intro s' hs'
        rw [hs', Option.map_some] at hadd
        exact hpass (kheapAddBlock_asserts hadd.symm)
      exact ⟨iff_of_true (fun s' hs' => absurd hs' (hnone s')) hpass, fun _ s' hs' => absurd hs' (hnone s')⟩
  · have hright : ∀ s', blockStep kp s c = some s' → EffectiveRight s'.heap := by
      intro s' hs'
      rw [hheap s' hs']
      exact ⟨by rw [hempty, hzero]; rfl, fun _ => by omega⟩
    refine ⟨iff_of_true hright fun _ _ _ hblock' => ?_, fun _ s' hs' => ?_⟩
    · rw [hblock] at hblock'
      cases hblock'
    · rw [hheap s' hs']
      exact ⟨hempty, hzero, hfree⟩

/-- A page added to the default heap. -/
def addPage : BlockCall Unit := .addBlock 0x17c000 0x1000 16

/-- `effective_size` is 4120, of the page's 4096 bytes. -/
theorem effective_size_of_page :
    (blockStep mapAll ⟨kheapKallocInstall, ⟨bitsetInit (fun _ => 0) 0 0, 4096⟩, ()⟩ addPage).map (·.heap.effectiveSize) =
      some 4120 ∧
    ¬ EachStep (blockStep mapAll) (fun s c => ∀ s', blockStep mapAll s c = some s' → EffectiveRight s'.heap)
      ⟨kheapKallocInstall, ⟨bitsetInit (fun _ => 0) 0 0, 4096⟩, ()⟩ [addPage] := by
  have hasserts : AddAsserts 0x17c000 0x1000 16 := ⟨by decide, by decide, by decide⟩
  obtain ⟨n, hn⟩ := hasserts.sizes (by decide) (by decide)
  refine ⟨by decide, fun hall => ?_⟩
  obtain ⟨heap', b, hadd, hmade⟩ :=
    kheapAddBlock_made (mapAll.memory ()) kheapKallocInstall hasserts (by decide) (by decide)
  refine hmade.not_effective hn (by decide) rfl rfl (hall.1 ⟨heap', ⟨bitsetInit (fun _ => 0) 0 0, 4096⟩, ()⟩ ?_)
  simp [addPage, blockStep, hadd]

end ShawnOS
