/-
One block of the default heap: its layout, the invariant of its bitsets and
counters, and what allocating and freeing in it do.

A block of `p` pages has `256 * p` sections of 16 bytes; the first
`4 * p + 3` hold its header and its two bitsets of `32 * p` bytes. Every
other section is free, in an allocation, or lost: `kheap_free` starts at the
section of the address it is given, which after alignment need not be the
first of the allocation.
-/
import ShawnOS.AsaFacts
import ShawnOS.HeapScan

namespace ShawnOS

open Word32 Runs

/-! ## Layout -/

/-- The layout of a block of `p` pages. -/
structure BlockShape (b : KheapBlock) (p : Nat) : Prop where
  pages : 0 < p
  aligned : b.start % 4096 = 0
  fits : b.start + 4096 * p ≤ 4096 * 0x3FFFF
  size : b.blockSize = 4096 * p
  sectSize : b.sectionSize = 16
  usedLength : b.usedSections.length = 256 * p
  delimLength : b.delimiters.length = 256 * p
  usedStart : b.usedSections.start = b.start + 40
  delimStart : b.delimiters.start = b.start + 40 + 32 * p

/-- The sections a block of `p` pages keeps for its own data. -/
def reservedSections (p : Nat) : Nat := 4 * p + 3

/-- A block as `kheap_add_block` leaves it. -/
structure BlockFresh (b : KheapBlock) (p : Nat) : Prop extends BlockShape b p where
  used : ∀ j, j < 256 * p → b.usedSections.bit j = decide (j < reservedSections p)
  delim : ∀ j, j < 256 * p → b.delimiters.bit j = false
  hint : b.firstFreeSection = reservedSections p
  free : b.freeSections = 252 * p - 3

theorem bitsetSizeFor_pages {p : Nat} (h : 0 < p) (h' : p < 2 ^ 20) : bitsetSizeFor (4096 * p) 16 = 32 * p := by
  have e : u32 (16 * 32) = 512 := by decide
  rw [bitsetSizeFor, e, divRoundUp_of_pos (by omega) (by omega), sizeofU32, u32_of_lt (by omega)]
  omega

/-! ## Adding a block -/

/-- The `ASSERT`s of `kheap_add_block`. The last comes behind the division by
`bytes_per_int`. -/
structure AddAsserts (addr blockSize sectionSize : Nat) : Prop where
  aligned : addr % 0x1000 = 0
  fourBytes : 4 ≤ sectionSize
  roomy : u32 (sectionSize * 32) ≠ 0 → u32 (sizeofKheapBlock + bitsetSizeFor blockSize sectionSize * 2) < blockSize

/-- `reserved`: the sections of a block's own data. -/
def reservedFor (blockSize sectionSize : Nat) : Nat :=
  divRoundUp (u32 (sizeofKheapBlock + bitsetSizeFor blockSize sectionSize * 2)) sectionSize

/-- The sizes of a block, as `n` words for each bitset. -/
structure BlockSizes (blockSize sectionSize n : Nat) : Prop where
  bitset : bitsetSizeFor blockSize sectionSize = 4 * n
  pos : 1 ≤ n
  le : n ≤ 2 ^ 27
  length : divRoundUp blockSize sectionSize = (blockSize - 1) / sectionSize + 1
  words : divRoundUp (divRoundUp blockSize sectionSize) 32 ≤ n
  data : sizeofKheapBlock + 4 * n * 2 < blockSize
  reserved : reservedFor blockSize sectionSize = (39 + 8 * n) / sectionSize + 1
  reserved_le : reservedFor blockSize sectionSize ≤ divRoundUp blockSize sectionSize

theorem AddAsserts.sizes {addr blockSize sectionSize : Nat} (h : AddAsserts addr blockSize sectionSize)
    (hz : u32 (sectionSize * 32) ≠ 0) (hb : blockSize < 2 ^ 32) : ∃ n, BlockSizes blockSize sectionSize n := by
  have hroomy := h.roomy hz
  have hfour := h.fourBytes
  have hper : 32 ≤ u32 (sectionSize * 32) ∧ u32 (sectionSize * 32) ≤ sectionSize * 32 := by
    unfold u32 at hz ⊢
    omega
  obtain ⟨n, hn⟩ : ∃ n, n = (blockSize - 1) / u32 (sectionSize * 32) + 1 := ⟨_, rfl⟩
  have hpos : 1 ≤ n := hn ▸ Nat.le_add_left 1 _
  have hle : n ≤ 2 ^ 27 := by
    have hdiv : (blockSize - 1) / u32 (sectionSize * 32) ≤ (blockSize - 1) / 32 := Nat.div_le_div_left hper.1 (by decide)
    omega
  have hbitset : bitsetSizeFor blockSize sectionSize = 4 * n := by
    rw [bitsetSizeFor, divRoundUp_of_pos (by omega) hb, ← hn, sizeofU32, u32_of_lt (by omega), Nat.mul_comm]
  have hdata : u32 (sizeofKheapBlock + 4 * n * 2) = sizeofKheapBlock + 4 * n * 2 := by
    rw [sizeofKheapBlock]
    exact u32_of_lt (by omega)
  rw [hbitset, hdata] at hroomy
  have hlength : divRoundUp blockSize sectionSize = (blockSize - 1) / sectionSize + 1 := divRoundUp_of_pos (by omega) hb
  have hlt : (blockSize - 1) / sectionSize ≤ blockSize - 1 := Nat.div_le_self _ _
  have hreserved : reservedFor blockSize sectionSize = (39 + 8 * n) / sectionSize + 1 := by
    have hsub : 40 + 4 * n * 2 - 1 = 39 + 8 * n := by omega
    rw [reservedFor, hbitset, hdata, sizeofKheapBlock, divRoundUp_of_pos (by omega) (by omega), hsub]
  refine ⟨n, hbitset, hpos, hle, hlength, ?_, hroomy, hreserved, ?_⟩
  · rw [hlength, divRoundUp_of_pos (Nat.le_add_left 1 _) (by omega), Nat.add_sub_cancel, Nat.div_div_eq_div_mul, hn]
    exact Nat.succ_le_succ (Nat.div_le_div_left hper.2 (by omega))
  · rw [hreserved, hlength]
    rw [sizeofKheapBlock] at hroomy
    exact Nat.succ_le_succ (Nat.div_le_div_right (by omega))

/-- The block `b` that `kheap_add_block` puts in front of the heap. -/
structure BlockMade (heap heap' : Kheap) (b : KheapBlock) (addr blockSize sectionSize : Nat) : Prop where
  start : b.start = addr
  size : b.blockSize = blockSize
  sectSize : b.sectionSize = sectionSize
  hint : b.firstFreeSection = reservedFor blockSize sectionSize
  free : b.freeSections = divRoundUp blockSize sectionSize - reservedFor blockSize sectionSize
  usedStart : b.usedSections.start = u32 (addr + sizeofKheapBlock)
  usedLength : b.usedSections.length = divRoundUp blockSize sectionSize
  used : ∀ j, j < divRoundUp blockSize sectionSize →
    b.usedSections.bit j = decide (j < reservedFor blockSize sectionSize)
  delimStart : b.delimiters.start = u32 (addr + sizeofKheapBlock + bitsetSizeFor blockSize sectionSize)
  delimLength : b.delimiters.length = divRoundUp blockSize sectionSize
  delim : ∀ j, j < divRoundUp blockSize sectionSize → b.delimiters.bit j = false
  heap : heap' = { heap with
    totalFreeSections := u32 (heap.totalFreeSections + b.freeSections)
    effectiveSize :=
      u32 (heap.effectiveSize + sub32 blockSize sizeofKheapBlock + bitsetSizeFor blockSize sectionSize * 2)
    blocks := b :: heap.blocks }

/-- **What `kheap_add_block` does** once its `ASSERT`s are passed. -/
theorem kheapAddBlock_made (mem : Nat → Word) (heap : Kheap) {addr blockSize sectionSize : Nat}
    (h : AddAsserts addr blockSize sectionSize) (hz : u32 (sectionSize * 32) ≠ 0) (hb : blockSize < 2 ^ 32) :
    ∃ heap' b, kheapAddBlock mem heap addr blockSize sectionSize = some heap' ∧
      BlockMade heap heap' b addr blockSize sectionSize := by
  obtain ⟨n, hn⟩ := h.sizes hz hb
  have hle := hn.reserved_le
  have hlen : divRoundUp blockSize sectionSize < 2 ^ 32 := u32_lt _
  have hfree : sub32 (divRoundUp blockSize sectionSize) (reservedFor blockSize sectionSize) =
      divRoundUp blockSize sectionSize - reservedFor blockSize sectionSize := sub32_of_le hlen hle
  obtain ⟨used, hu⟩ := @bitsetSetBits_ok (reservedFor blockSize sectionSize)
    (bitsetInit (fun i => mem (u32 (addr + sizeofKheapBlock) + 4 * i)) (u32 (addr + sizeofKheapBlock))
      (divRoundUp blockSize sectionSize)) 0 (by simpa [bitsetInit] using hle)
  have hfill := bitsetSetBits_filled hu
  refine ⟨_, ⟨blockSize, sectionSize, reservedFor blockSize sectionSize,
    divRoundUp blockSize sectionSize - reservedFor blockSize sectionSize, addr, used, bitsetInit
      (fun i => mem (u32 (addr + sizeofKheapBlock + bitsetSizeFor blockSize sectionSize) + 4 * i))
      (u32 (addr + sizeofKheapBlock + bitsetSizeFor blockSize sectionSize)) (divRoundUp blockSize sectionSize)⟩,
    ?_, rfl, rfl, rfl, rfl, rfl, hfill.start, hfill.length, fun j hj => ?_, rfl, rfl,
    fun j hj => bitsetInit_bit hlen hj, rfl⟩
  · rw [reservedFor] at hu hfree
    simp only [kheapAddBlock, kassert_of h.aligned, kassert_of h.fourBytes, kassert_of hz, kassert_of (h.roomy hz),
      hu, hfree, bind, Option.bind_some, pure, reservedFor]
  · rw [hfill.bit, bitsetInit_bit hlen hj, Bool.false_or]
    exact decide_eq_decide.mpr (by omega)

/-- Where the source puts a block, it is laid out as `BlockShape` says. -/
theorem kheapAddBlock_fresh (mem : Nat → Word) (heap : Kheap) {addr p : Nat} (hp : 0 < p)
    (ha : addr % 4096 = 0) (hf : addr + 4096 * p ≤ 4096 * 0x3FFFF) :
    ∃ b, kheapAddBlock mem heap addr (4096 * p) 16 = some { heap with
        totalFreeSections := u32 (heap.totalFreeSections + (252 * p - 3))
        effectiveSize := u32 (heap.effectiveSize + (4096 * p - 40) + 32 * p * 2)
        blocks := b :: heap.blocks } ∧ b.start = addr ∧ BlockFresh b p := by
  have hbitset := @bitsetSizeFor_pages p hp (by omega)
  have hroomy : u32 (sizeofKheapBlock + bitsetSizeFor (4096 * p) 16 * 2) = 40 + 64 * p := by
    rw [hbitset, sizeofKheapBlock, u32_of_lt (by omega)]
    omega
  have hasserts : AddAsserts addr (4096 * p) 16 := ⟨ha, by decide, fun _ => by omega⟩
  obtain ⟨heap', b, hadd, hb⟩ := kheapAddBlock_made mem heap hasserts (by decide) (by omega)
  have hlen : divRoundUp (4096 * p) 16 = 256 * p := by
    rw [divRoundUp_of_pos (by omega) (by omega)]; omega
  have hres : reservedFor (4096 * p) 16 = reservedSections p := by
    rw [reservedFor, hroomy, divRoundUp_of_pos (by omega) (by omega), reservedSections]; omega
  have hfree : b.freeSections = 252 * p - 3 := by
    rw [hb.free, hlen, hres, reservedSections]; omega
  have hsize : sub32 (4096 * p) sizeofKheapBlock = 4096 * p - 40 := sub32_of_le (by omega) (by unfold sizeofKheapBlock; omega)
  refine ⟨b, ?_, hb.start, ⟨hp, hb.start ▸ ha, hb.start ▸ hf, hb.size, hb.sectSize, hlen ▸ hb.usedLength,
    hlen ▸ hb.delimLength, ?_, ?_⟩, ?_, ?_, hres ▸ hb.hint, hfree⟩
  · rw [hadd, hb.heap, hfree, hsize, hbitset]
  · rw [hb.usedStart, hb.start, sizeofKheapBlock]
    exact u32_of_lt (by omega)
  · rw [hb.delimStart, hb.start, hbitset, sizeofKheapBlock]
    exact u32_of_lt (by omega)
  · intro j hj
    rw [hb.used j (by omega), hres]
  · intro j hj
    exact hb.delim j (by omega)

/-! ## The invariant -/

/-- What a block keeps through allocations and frees. -/
structure BlockInv (b : KheapBlock) (p : Nat) : Prop extends BlockShape b p where
  reserved : ∀ j, j < reservedSections p → b.usedSections.bit j = true
  hint : b.firstFreeSection ≤ 256 * p
  free : b.freeSections = clearCount b.usedSections.bit (256 * p)

theorem BlockShape.pages_le {b : KheapBlock} {p : Nat} (h : BlockShape b p) : p ≤ 0x3FFFF := by
  have := h.fits
  omega

theorem BlockFresh.inv {b : KheapBlock} {p : Nat} (h : BlockFresh b p) : BlockInv b p := by
  have hp := h.pages
  refine ⟨h.toBlockShape, fun j hj => ?_, ?_, ?_⟩
  · rw [h.used j (by unfold reservedSections at hj; omega)]
    exact decide_eq_true hj
  · rw [h.hint, reservedSections]; omega
  · rw [clearCount_upTo h.used, h.free, reservedSections]; omega

/-- The sections of a run the scan may find. -/
theorem BlockInv.fit {b : KheapBlock} {p n f : Nat} (h : BlockInv b p) (hn : 0 < n)
    (hf : HintFit b.usedSections.bit b.firstFreeSection b.usedSections.length n f) :
    reservedSections p ≤ f ∧ f + n ≤ 256 * p := by
  have hle := hf.le (by rw [h.usedLength]; exact h.hint)
  rw [h.usedLength] at hle
  have hpos : 0 < reservedSections p := by
    unfold reservedSections
    omega
  have hapart := hf.clear.apart (fun j _ hj => h.reserved j hj) hn hpos
  omega

/-! ## Allocating -/

/-- The address returned for a run that starts at `start`. -/
def alignOut (start align : Nat) (manual : Bool) : Nat :=
  if manual ∧ start % align > 0 then u32 (start + (align - start % align)) else start

/-- `b'` is `b` with the `n` sections from `f` on allocated. -/
structure Committed (b b' : KheapBlock) (f n : Nat) : Prop where
  start : b'.start = b.start
  size : b'.blockSize = b.blockSize
  sectSize : b'.sectionSize = b.sectionSize
  used : b.usedSections.Filled b'.usedSections f n
  delim : b.delimiters.Filled b'.delimiters (f + n - 1) 1
  hint : b'.firstFreeSection = f + n
  free : b'.freeSections = sub32 b.freeSections n

/-- The number of sections of a request. -/
theorem nSec_cases {size : Nat} (h : size < 2 ^ 32) :
    (size = 0 ∧ divRoundUp size 16 = 2 ^ 28) ∨
    (0 < size ∧ divRoundUp size 16 = (size - 1) / 16 + 1) := by
  rcases Nat.eq_zero_or_pos size with rfl | hpos
  · exact .inl ⟨rfl, by decide⟩
  · exact .inr ⟨hpos, divRoundUp_of_pos hpos h⟩

theorem nSec_pos {size : Nat} (h : size < 2 ^ 32) : 0 < divRoundUp size 16 := by
  rcases nSec_cases h with ⟨-, h⟩ | ⟨-, h⟩ <;> omega

theorem maxFreeSpace_eq {b : KheapBlock} {p : Nat} (h : BlockShape b p) : maxFreeSpace b = 4032 * p - 40 := by
  have hp := h.pages; have hple := h.pages_le
  have e : 256 * p / 32 * 4 = 32 * p := by omega
  rw [maxFreeSpace, h.size, h.delimLength, h.usedLength, e, sizeofKheapBlock, u32_of_lt (by omega)]
  unfold sub32
  omega

theorem kheapCommit_spec {b : KheapBlock} {p n f : Nat} (h : BlockShape b p) (hn : 0 < n)
    (hle : f + n ≤ 256 * p) (align : Nat) (manual : Bool) :
    ∃ b', kheapCommit b n f align manual = some (b', alignOut (b.start + 16 * f) align manual) ∧
      Committed b b' f n := by
  have hple := h.pages_le; have hfits := h.fits
  have hstop : u32 (f + n) = f + n := u32_of_lt (by omega)
  have hlast : sub32 (f + n) 1 = f + n - 1 := sub32_of_le (by omega) (by omega)
  have hstart : u32 (b.start + f * 16) = b.start + 16 * f := by rw [u32_of_lt (by omega)]; omega
  have hin : f + n ≤ b.usedSections.length := by rw [h.usedLength]; exact hle
  obtain ⟨used, hu, hfill⟩ := @kheapMark_filled (f + n) n f b.usedSections (by omega) (by omega) hin (by omega)
  obtain ⟨delim, hd⟩ := bitsetSetBit_ok (b := b.delimiters) (n := f + n - 1) (by rw [h.delimLength]; omega)
  rw [show f + n - f = n by omega] at hfill
  refine ⟨{ b with
    usedSections := used, delimiters := delim, firstFreeSection := f + n, freeSections := sub32 b.freeSections n },
    ?_, rfl, rfl, rfl, hfill, (bitsetSetBit_filled hd).2, rfl, rfl⟩
  unfold kheapCommit
  dsimp only
  rw [hstop, hu, hlast, Option.bind_eq_bind, Option.bind_some, hd, Option.bind_some, h.sectSize, hstart]
  rfl

/-- A block whose scan is reached and finds a run serves from it. -/
theorem kheapMallocBlock_take {b : KheapBlock} {p size f : Nat} (h : BlockShape b p)
    (hskip : ¬ (size > maxFreeSpace b ∨ divRoundUp size 16 > b.freeSections)) (hn : 0 < divRoundUp size 16)
    (hr : kheapScan b (divRoundUp size 16) b.usedSections.length 0 0 0 = some (some f))
    (hle : f + divRoundUp size 16 ≤ 256 * p) (align : Nat) (manual : Bool) :
    ∃ b', kheapMallocBlock b size align manual =
        some (some (b', alignOut (b.start + 16 * f) align manual, divRoundUp size 16)) ∧
      Committed b b' f (divRoundUp size 16) := by
  obtain ⟨b', h1, h2⟩ := kheapCommit_spec h hn hle align manual
  refine ⟨b', ?_, h2⟩
  unfold kheapMallocBlock
  rw [h.sectSize]
  generalize divRoundUp size 16 = n at *
  dsimp only
  rw [if_neg hskip, hr, Option.bind_eq_bind, Option.bind_some]
  dsimp only
  rw [h1, Option.bind_eq_bind, Option.bind_some]
  rfl

/-- **One block, one request**: the block is skipped, by one of the two early
tests or because its scan finds nothing, or the run found is taken. -/
theorem kheapMallocBlock_cases {b : KheapBlock} {p size : Nat} (h : BlockShape b p)
    (hh : b.firstFreeSection ≤ 256 * p) (hs : size < 2 ^ 32) (align : Nat) (manual : Bool) :
    (kheapMallocBlock b size align manual = some none ∧
      ((size > maxFreeSpace b ∨ divRoundUp size 16 > b.freeSections) ∨
        ∀ f, ¬ HintFit b.usedSections.bit b.firstFreeSection b.usedSections.length (divRoundUp size 16) f)) ∨
    ∃ b' f, kheapMallocBlock b size align manual =
        some (some (b', alignOut (b.start + 16 * f) align manual, divRoundUp size 16)) ∧
      ¬ (size > maxFreeSpace b ∨ divRoundUp size 16 > b.freeSections) ∧
      HintFit b.usedSections.bit b.firstFreeSection b.usedSections.length (divRoundUp size 16) f ∧
      Committed b b' f (divRoundUp size 16) := by
  have hple := h.pages_le
  have hn := nSec_pos hs
  have hhint : b.firstFreeSection ≤ b.usedSections.length := by rw [h.usedLength]; exact hh
  obtain ⟨r, hr, hiff⟩ := kheapScan_spec hn hhint (by rw [h.usedLength]; omega)
  by_cases hskip : size > maxFreeSpace b ∨ divRoundUp size 16 > b.freeSections
  · refine .inl ⟨?_, .inl hskip⟩
    unfold kheapMallocBlock
    rw [h.sectSize]
    exact if_pos hskip
  cases r with
  | none =>
    refine .inl ⟨?_, .inr fun f hf => by cases (hiff f).mpr hf⟩
    unfold kheapMallocBlock
    rw [h.sectSize]
    generalize divRoundUp size 16 = n at *
    dsimp only
    rw [if_neg hskip, hr, Option.bind_eq_bind, Option.bind_some]
    rfl
  | some f =>
    have hf := (hiff f).mp rfl
    have hle := hf.le hhint
    rw [h.usedLength] at hle
    obtain ⟨b', h1, h2⟩ := kheapMallocBlock_take h hskip hn hr hle align manual
    exact .inr ⟨b', f, h1, hskip, hf, h2⟩

/-- While its counter is right, a block is skipped exactly when its scan
finds nothing: the two early tests skip no block that has a run. -/
theorem kheapMallocBlock_none_iff {b : KheapBlock} {p size : Nat} (h : BlockInv b p) (hs : size < 2 ^ 32)
    (align : Nat) (manual : Bool) :
    kheapMallocBlock b size align manual = some none ↔
      ∀ f, ¬ HintFit b.usedSections.bit b.firstFreeSection b.usedSections.length (divRoundUp size 16) f := by
  rcases kheapMallocBlock_cases h.toBlockShape h.hint hs align manual with ⟨he, hwhy⟩ | ⟨b', f, he, -, hf, -⟩
  · refine iff_of_true he fun f hf => ?_
    obtain ⟨h1, h2⟩ := h.fit (nSec_pos hs) hf
    have hcount := hf.clear.le_clearCount h2
    rw [← h.free] at hcount
    rw [maxFreeSpace_eq h.toBlockShape] at hwhy
    unfold reservedSections at h1
    rcases hwhy with hwhy | hwhy
    · rcases nSec_cases hs with ⟨h0, hz⟩ | ⟨h0, hz⟩
      · omega
      · omega
    · exact hwhy f hf
  · refine iff_of_false (fun h0 => ?_) fun hno => hno f hf
    rw [he] at h0
    cases h0

theorem Committed.shape {b b' : KheapBlock} {p f n : Nat} (hc : Committed b b' f n) (h : BlockShape b p) :
    BlockShape b' p := by
  refine ⟨h.pages, hc.start ▸ h.aligned, hc.start ▸ h.fits, hc.size.trans h.size, hc.sectSize.trans h.sectSize,
    hc.used.length.trans h.usedLength, hc.delim.length.trans h.delimLength, ?_, ?_⟩
  · rw [hc.used.start, hc.start]; exact h.usedStart
  · rw [hc.delim.start, hc.start]; exact h.delimStart

theorem Committed.free_add {b b' : KheapBlock} {p f n : Nat} (hc : Committed b b' f n) (h : BlockInv b p)
    (hr : ClearRun b.usedSections.bit f n) (hle : f + n ≤ 256 * p) : b'.freeSections + n = b.freeSections := by
  have hcount := hr.le_clearCount hle
  have hbound := clearCount_le b.usedSections.bit (256 * p)
  have hple := h.pages_le
  rw [← h.free] at hcount hbound
  rw [hc.free, sub32_of_le (by omega) hcount]
  omega

theorem Committed.inv {b b' : KheapBlock} {p f n : Nat} (hc : Committed b b' f n) (h : BlockInv b p)
    (hr : ClearRun b.usedSections.bit f n) (hle : f + n ≤ 256 * p) : BlockInv b' p := by
  refine ⟨hc.shape h.toBlockShape, fun j hj => hc.used.mono (h.reserved j hj), ?_, ?_⟩
  · rw [hc.hint]; exact hle
  · have h1 := clearCount_fill hc.used.bit hr hle
    have h2 := hc.free_add h hr hle
    have h3 := h.free
    omega

/-! ## Freeing -/

/-- `b'` is `b` with the `n` sections from `k` on freed, the last of which
was a delimiter. -/
structure Freed (b b' : KheapBlock) (k n : Nat) : Prop where
  start : b'.start = b.start
  size : b'.blockSize = b.blockSize
  sectSize : b'.sectionSize = b.sectionSize
  used : b.usedSections.Wiped b'.usedSections k n
  delim : b.delimiters.Wiped b'.delimiters (k + n - 1) 1
  hint : b'.firstFreeSection = k
  free : b'.freeSections = b.freeSections + n

theorem kheapFindDelimiter_eq {d : Bitset} {last : Nat} (hd : d.bit last = true) (hl : last < d.length) :
    ∀ {rem i : Nat}, i ≤ last → i + rem = d.length → (∀ j, i ≤ j → j < last → d.bit j = false) →
      kheapFindDelimiter d rem i = some (some last) := by
  intro rem
  induction rem with
  | zero => intro i h1 h2; omega
  | succ rem ih =>
    intro i h1 h2 hno
    have hi : i < d.length := by omega
    have hz := (bitsetGetBit_zero (bitsetGetBit_eq hi)).2
    simp only [kheapFindDelimiter, bitsetGetBit_eq hi, bind, Option.bind_some, hz]
    by_cases he : i = last
    · subst he
      rw [if_neg (by simp [hd])]
      rfl
    · rw [if_pos (hno i (Nat.le_refl i) (by omega))]
      exact ih (by omega) (by omega) fun j h3 h4 => hno j (by omega) h4

/-- **Freeing an allocation** of which section `k` is one: it ends at the
next delimiter. -/
theorem kheapFreeBlock_spec {b : KheapBlock} {p last : Nat} (addr : Nat) (h : BlockInv b p) (h0 : last ≠ 0)
    (hk : (addr - b.start) / 16 ≤ last) (hl : last < 256 * p)
    (hused : ∀ j, (addr - b.start) / 16 ≤ j → j ≤ last → b.usedSections.bit j = true)
    (hd : b.delimiters.bit last = true)
    (hno : ∀ j, (addr - b.start) / 16 ≤ j → j < last → b.delimiters.bit j = false) :
    ∃ b', kheapFreeBlock b addr = some (b', last + 1 - (addr - b.start) / 16) ∧
      Freed b b' ((addr - b.start) / 16) (last + 1 - (addr - b.start) / 16) := by
  have hple := h.pages_le
  generalize hke : (addr - b.start) / 16 = k at *
  have hki : k < b.usedSections.length := by rw [h.usedLength]; omega
  have hbit := bitsetGetBit_eq hki
  have hz : ¬ (b.usedSections.words (k / 32) &&& 1#32 <<< (k % 32) = 0) := by
    rw [(bitsetGetBit_zero hbit).2, hused k (Nat.le_refl k) hk]
    decide
  have hfind : kheapFindDelimiter b.delimiters (b.delimiters.length - k) k = some (some last) :=
    kheapFindDelimiter_eq hd (by rw [h.delimLength]; exact hl) hk (by rw [h.delimLength]; omega) hno
  obtain ⟨delim, hdel⟩ := bitsetClearBit_ok (b := b.delimiters) (n := last) (by rw [h.delimLength]; exact hl)
  obtain ⟨used, hu⟩ := bitsetClearBits_ok (b := b.usedSections) (i := k) (n := last + 1 - k)
    (by rw [h.usedLength]; omega)
  have hcount : u32 (sub32 last k + 1) = last + 1 - k := by
    rw [sub32_of_le (by omega) hk, u32_of_lt (by omega)]; omega
  have hbound := clearCount_le b.usedSections.bit (256 * p)
  rw [← h.free] at hbound
  refine ⟨{ b with
    usedSections := used, delimiters := delim, firstFreeSection := k,
    freeSections := u32 (b.freeSections + (last + 1 - k)) }, ?_, ?_⟩
  · simp only [kheapFreeBlock, h.sectSize, hke, hbit, bind, Option.bind_some, kassert_of hz, hfind,
      Option.getD_some, kassert_of h0, hdel, hu, hcount]
    rfl
  · refine ⟨rfl, rfl, rfl, bitsetClearBits_wiped hu, ?_, rfl, u32_of_lt (by omega)⟩
    rw [show k + (last + 1 - k) - 1 = last by omega]
    exact (bitsetClearBit_wiped hdel).2

/-- Whatever address it is given, `kheap_free` keeps a block's layout. -/
theorem kheapFreeBlock_keeps {b b' : KheapBlock} {p addr n : Nat} (h : BlockShape b p)
    (hf : kheapFreeBlock b addr = some (b', n)) :
    BlockShape b' p ∧ b'.start = b.start ∧ b'.blockSize = b.blockSize ∧ b'.firstFreeSection ≤ 256 * p := by
  simp only [kheapFreeBlock, bind, Option.bind_eq_some_iff] at hf
  obtain ⟨bit, hbit, _, _, found, _, _, _, delim, hd, used, hu, hf⟩ := hf
  have hk := (bitsetGetBit_zero hbit).1
  have hd := (bitsetClearBit_wiped hd).2
  have hu := bitsetClearBits_wiped hu
  rw [h.usedLength] at hk
  cases hf
  refine ⟨⟨h.pages, h.aligned, h.fits, h.size, h.sectSize, hu.length.trans h.usedLength,
    hd.length.trans h.delimLength, hu.start.trans h.usedStart, hd.start.trans h.delimStart⟩, rfl, rfl, ?_⟩
  exact Nat.le_of_lt hk

theorem Freed.shape {b b' : KheapBlock} {p k n : Nat} (hf : Freed b b' k n) (h : BlockShape b p) :
    BlockShape b' p := by
  refine ⟨h.pages, hf.start ▸ h.aligned, hf.start ▸ h.fits, hf.size.trans h.size, hf.sectSize.trans h.sectSize,
    hf.used.length.trans h.usedLength, hf.delim.length.trans h.delimLength, ?_, ?_⟩
  · rw [hf.used.start, hf.start]; exact h.usedStart
  · rw [hf.delim.start, hf.start]; exact h.delimStart

theorem Freed.inv {b b' : KheapBlock} {p k n : Nat} (hf : Freed b b' k n) (h : BlockInv b p)
    (hused : ∀ j, k ≤ j → j < k + n → b.usedSections.bit j = true) (hlo : reservedSections p ≤ k)
    (hle : k + n ≤ 256 * p) : BlockInv b' p := by
  refine ⟨hf.shape h.toBlockShape, fun j hj => ?_, by rw [hf.hint]; omega, ?_⟩
  · rw [hf.used.outside (by omega)]
    exact h.reserved j hj
  · -- Filling the freed sections again gives back the old bits.
    have hback : ∀ j, b.usedSections.bit j = (b'.usedSections.bit j || decide (k ≤ j ∧ j < k + n)) := by
      intro j
      by_cases hj : k ≤ j ∧ j < k + n
      · rw [hused j hj.1 hj.2, decide_eq_true hj, Bool.or_true]
      · rw [hf.used.outside (by omega), decide_eq_false hj, Bool.or_false]
    have h1 := clearCount_fill hback (fun j h1 h2 => hf.used.inside h1 h2) hle
    have h2 := hf.free
    have h3 := h.free
    omega

end ShawnOS
