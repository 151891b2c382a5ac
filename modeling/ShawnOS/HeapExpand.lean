/-
`kheap_expand`: how many pages it asks for, and what it leaves.

The sizing loop compares the request with the space of `p` pages less the
bitsets of `p - 1`: the bitset size lags one round behind (`Lag`). So the
block it settles on can be too small for the request by up to 72 bytes, and
above 4227862488 bytes no page count ever passes the test.
-/
import ShawnOS.HeapInvariant

namespace ShawnOS

open Word32 Runs

/-! ## The sizing loop -/

/-- The space the loop's test sees. -/
def spaceFor (pagesRequired bitsetSize : Nat) : Nat :=
  sub32 (sub32 (u32 (pagesRequired * pageSize)) sizeofKheapBlock) (u32 (bitsetSize * 2))

/-- After a round: the page count is one past `r`, modulo the 32-bit
address space, and the bitset size is still that of `r` pages. -/
structure Lag (r p bs : Nat) : Prop where
  lt : r < 2 ^ 20
  pages : u32 (p * pageSize) = 4096 * ((r + 1) % 2 ^ 20)
  bits : bs = bitsetSizeFor (4096 * r) sectionSizeDefault

/-- The space seen one past `r` pages. At the ends the subtraction or the
rounding wraps. -/
def lagSpace (r : Nat) : Nat :=
  if r = 0 then 4227862488 else if r + 1 = 2 ^ 20 then 4227858456 else 4032 * (r + 1) + 24

theorem bitsetSizeFor_zero : bitsetSizeFor 0 16 = 2 ^ 25 := by decide

theorem Lag.space {r p bs : Nat} (h : Lag r p bs) : spaceFor p bs = lagSpace r := by
  have hr := h.lt
  rw [spaceFor, h.pages, h.bits, sizeofKheapBlock, sectionSizeDefault, lagSpace]
  by_cases h0 : r = 0
  · subst h0
    rw [Nat.mul_zero, bitsetSizeFor_zero, if_pos rfl]
    decide
  rw [if_neg h0, bitsetSizeFor_pages (by omega) hr, u32_of_lt (by omega)]
  unfold sub32
  split
  · omega
  · omega

theorem u32_pages (p : Nat) : u32 (p * pageSize) = 4096 * (p % 2 ^ 20) := by
  unfold u32 pageSize
  omega

theorem Lag.next {r p bs : Nat} (h : Lag r p bs) :
    Lag ((r + 1) % 2 ^ 20) (u32 (p + 1)) (bitsetSizeFor (u32 (p * pageSize)) sectionSizeDefault) := by
  have hp := h.pages
  refine ⟨by omega, ?_, by rw [hp]⟩
  rw [u32_pages] at hp ⊢
  have h1 : p % 2 ^ 20 = (r + 1) % 2 ^ 20 := by omega
  have h2 : u32 (p + 1) % 2 ^ 20 = (p + 1) % 2 ^ 20 := by unfold u32; omega
  rw [h2]
  omega

theorem kheapExpandPages_next {size fuel p bs : Nat} (h : spaceFor p bs < size) :
    kheapExpandPages size (fuel + 1) p bs =
      kheapExpandPages size fuel (u32 (p + 1)) (bitsetSizeFor (u32 (p * pageSize)) sectionSizeDefault) := by
  rw [kheapExpandPages]
  exact if_pos h

theorem kheapExpandPages_stop {size fuel p bs : Nat} (h : ¬ spaceFor p bs < size) :
    kheapExpandPages size (fuel + 1) p bs = .ok p := by
  rw [kheapExpandPages]
  exact if_neg h

/-- No page count passes the test of a request above `4227862488`. -/
theorem kheapExpandPages_hang {size : Nat} (hs : 4227862488 < size) :
    ∀ {fuel r p bs : Nat}, Lag r p bs → kheapExpandPages size fuel p bs = .error .hang := by
  intro fuel
  induction fuel with
  | zero => intros; rfl
  | succ fuel ih =>
    intro r p bs h
    have hlt : spaceFor p bs < size := by
      have hr := h.lt
      rw [h.space, lagSpace]
      split
      · exact hs
      · split <;> omega
    rw [kheapExpandPages_next hlt]
    exact ih h.next

/-- `k` rounds whose tests all fail. -/
theorem kheapExpandPages_skip {size fuel : Nat} :
    ∀ {k r p bs : Nat}, Lag r p bs → p + k < 2 ^ 32 → (∀ i, i < k → lagSpace ((r + i) % 2 ^ 20) < size) →
      ∃ bs', Lag ((r + k) % 2 ^ 20) (p + k) bs' ∧
        kheapExpandPages size (fuel + k) p bs = kheapExpandPages size fuel (p + k) bs' := by
  intro k
  induction k with
  | zero =>
    intro r p bs h _ _
    have hr := h.lt
    exact ⟨bs, by rw [Nat.add_zero, Nat.mod_eq_of_lt hr]; exact h, rfl⟩
  | succ k ih =>
    intro r p bs h hp hall
    have h0 := hall 0 (by omega)
    have hr := h.lt
    rw [Nat.add_zero, Nat.mod_eq_of_lt hr, ← h.space] at h0
    have hnext := h.next
    rw [u32_of_lt (by omega)] at hnext
    obtain ⟨bs', h1, h2⟩ := ih hnext (by omega) fun i hi => by
      have := hall (i + 1) (by omega)
      rw [show (r + (i + 1)) % 2 ^ 20 = ((r + 1) % 2 ^ 20 + i) % 2 ^ 20 by omega] at this
      exact this
    refine ⟨bs', ?_, ?_⟩
    · rw [show (r + (k + 1)) % 2 ^ 20 = ((r + 1) % 2 ^ 20 + k) % 2 ^ 20 by omega,
        show p + (k + 1) = p + 1 + k by omega]
      exact h1
    · rw [show fuel + (k + 1) = fuel + k + 1 by omega, kheapExpandPages_next h0, u32_of_lt (by omega), h2,
        show p + (k + 1) = p + 1 + k by omega]

/-- The pages `kheap_expand` settles on for a request of `size` bytes, where
it settles. -/
def pagesFor (size : Nat) : Nat :=
  if size ≤ 4227854424 then (size + 4007) / 4032 else if size ≤ 4227858456 then 2 ^ 20 else 2 ^ 20 + 1

/-- The first test fails for a request of at least `min_block_size`. -/
theorem spaceFor_first {size : Nat} (hlo : 2 ^ 20 ≤ size) (hhi : size < 2 ^ 32) :
    spaceFor (divRoundUp size pageSize)
      (bitsetSizeFor (u32 (divRoundUp size pageSize * pageSize)) sectionSizeDefault) < size := by
  have hp : divRoundUp size pageSize = (size - 1) / 4096 + 1 := divRoundUp_of_pos (by omega) hhi
  obtain ⟨r, hr⟩ : ∃ r, r = (size - 1) / 4096 + 1 := ⟨_, rfl⟩
  rw [hp, ← hr, spaceFor, u32_pages, sizeofKheapBlock, sectionSizeDefault]
  by_cases he : r = 2 ^ 20
  · rw [show r % 2 ^ 20 = 0 by omega, Nat.mul_zero, bitsetSizeFor_zero]
    have hwrap : sub32 (sub32 0 40) (u32 (2 ^ 25 * 2)) = 4227858392 := by decide
    omega
  · have hsub : sub32 (4096 * r) 40 = 4096 * r - 40 := sub32_of_le (by omega) (by omega)
    rw [Nat.mod_eq_of_lt (by omega), bitsetSizeFor_pages (by omega) (by omega), u32_of_lt (by omega), hsub,
      sub32_of_le (by omega) (by omega)]
    omega

/-- The bitset size lags behind from the first round on. -/
theorem Lag.first (p : Nat) : Lag (p % 2 ^ 20) (u32 (p + 1)) (bitsetSizeFor (u32 (p * pageSize)) sectionSizeDefault) := by
  refine ⟨by omega, ?_, by rw [u32_pages]⟩
  have hmod : u32 (p + 1) % 2 ^ 20 = (p + 1) % 2 ^ 20 := by unfold u32; omega
  rw [u32_pages, hmod]
  omega

theorem expandPages_start {size : Nat} (hlo : 2 ^ 20 ≤ size) (hhi : size < 2 ^ 32) :
    ∃ r p bs fuel, expandPages size = kheapExpandPages size fuel p bs ∧ fuel + 1 = 2 ^ 32 ∧
      Lag (r % 2 ^ 20) p bs ∧ p = r + 1 ∧ r = (size - 1) / 4096 + 1 := by
  have hp : divRoundUp size pageSize = (size - 1) / 4096 + 1 := divRoundUp_of_pos (by omega) hhi
  have hspace := spaceFor_first hlo hhi
  have hlag := Lag.first (divRoundUp size pageSize)
  obtain ⟨fuel, hfuel⟩ : ∃ fuel, 2 ^ 32 = fuel + 1 := ⟨2 ^ 32 - 1, by omega⟩
  have hnext : u32 (divRoundUp size pageSize + 1) = divRoundUp size pageSize + 1 := u32_of_lt (by omega)
  rw [hnext] at hlag
  refine ⟨divRoundUp size pageSize, _, _, fuel, ?_, hfuel.symm, hlag, rfl, hp⟩
  unfold expandPages
  dsimp only
  rw [hfuel, kheapExpandPages_next hspace, hnext]

/-- **What the sizing loop settles on**, and that it does up to
`4227862488` bytes. -/
theorem expandPages_ok {size : Nat} (hlo : 2 ^ 20 ≤ size) (hhi : size ≤ 4227862488) :
    expandPages size = .ok (pagesFor size) := by
  obtain ⟨r, p, bs, fuel, he, hfuel, hlag, hp, hr⟩ := expandPages_start hlo (by omega)
  rw [Nat.mod_eq_of_lt (by omega)] at hlag
  have hpages : pagesFor size = p + (pagesFor size - p) ∧ pagesFor size ≤ 2 ^ 20 + 1 := by
    unfold pagesFor
    split
    · omega
    · split <;> omega
  obtain ⟨bs', h1, h2⟩ := @kheapExpandPages_skip size (fuel - (pagesFor size - p)) (pagesFor size - p) r p bs
    hlag (by omega) fun i hi => by
      unfold pagesFor at hi
      unfold lagSpace
      split at hi
      · rw [Nat.mod_eq_of_lt (by omega), if_neg (by omega), if_neg (by omega)]
        omega
      · rw [Nat.mod_eq_of_lt (by split at hi <;> omega), if_neg (by omega)]
        split
        · split at hi <;> omega
        · split at hi <;> omega
  rw [Nat.sub_add_cancel (by omega), ← hpages.1] at h2
  rw [he, h2, show fuel - (pagesFor size - p) = fuel - (pagesFor size - p) - 1 + 1 by omega]
  refine kheapExpandPages_stop ?_
  rw [← hpages.1] at h1
  rw [h1.space]
  unfold pagesFor lagSpace
  split
  · rw [Nat.mod_eq_of_lt (by omega), if_neg (by omega)]
    split <;> omega
  · split
    · rw [show (r + (2 ^ 20 - p)) % 2 ^ 20 = 2 ^ 20 - 1 by omega, if_neg (by decide), if_pos (by decide)]
      omega
    · rw [show (r + (2 ^ 20 + 1 - p)) % 2 ^ 20 = 0 by omega, if_pos rfl]
      omega

theorem expandPages_hang {size : Nat} (hlo : 4227862488 < size) (hhi : size < 2 ^ 32) :
    expandPages size = .error .hang := by
  obtain ⟨r, p, bs, fuel, he, -, hlag, -, -⟩ := expandPages_start (by omega) hhi
  rw [he]
  exact kheapExpandPages_hang hlo hlag

/-- The sizing loop ends, after some number of rounds. -/
def SizingEnds (size : Nat) : Prop :=
  ∃ rounds pages, kheapExpandPages size rounds (divRoundUp size pageSize)
    (bitsetSizeFor (u32 (divRoundUp size pageSize * pageSize)) sectionSizeDefault) = .ok pages

/-- Before the page count wraps to none, the test is passed: there the space
seen is largest. -/
theorem Lag.ends {size : Nat} (hs : size ≤ 4227862488) : ∀ {k r p bs : Nat}, r + k = 2 ^ 20 → Lag r p bs →
    ∃ rounds pages, kheapExpandPages size rounds p bs = .ok pages
  | 0, r, p, bs, hk, h => absurd h.lt (by omega)
  | k + 1, r, p, bs, hk, h => by
    by_cases hspace : spaceFor p bs < size
    · have hnext : ∃ rounds pages, kheapExpandPages size rounds (u32 (p + 1))
          (bitsetSizeFor (u32 (p * pageSize)) sectionSizeDefault) = .ok pages := by
        by_cases hlast : r + 1 = 2 ^ 20
        · have h0 := h.next
          rw [hlast, Nat.mod_self] at h0
          refine ⟨0 + 1, _, kheapExpandPages_stop ?_⟩
          rw [h0.space, lagSpace, if_pos rfl]
          omega
        · have hr := h.next
          rw [Nat.mod_eq_of_lt (by have := h.lt; omega)] at hr
          exact @Lag.ends size hs k (r + 1) _ _ (by omega) hr
      obtain ⟨rounds, pages, hok⟩ := hnext
      exact ⟨rounds + 1, pages, by rw [kheapExpandPages_next hspace, hok]⟩
    · exact ⟨0 + 1, p, kheapExpandPages_stop hspace⟩

/-- **When the sizing loop of `kheap_expand` ends.** -/
theorem sizing_ends_iff {size : Nat} (hs : size < 2 ^ 32) : SizingEnds size ↔ size ≤ 4227862488 := by
  have hlag := Lag.first (divRoundUp size pageSize)
  constructor
  · rintro ⟨rounds, pages, hok⟩
    by_contra hlo
    cases rounds with
    | zero => cases hok
    | succ rounds =>
      rw [kheapExpandPages_next (spaceFor_first (by omega) hs), kheapExpandPages_hang (by omega) hlag] at hok
      cases hok
  · intro hle
    by_cases hspace : spaceFor (divRoundUp size pageSize)
        (bitsetSizeFor (u32 (divRoundUp size pageSize * pageSize)) sectionSizeDefault) < size
    · obtain ⟨rounds, pages, hok⟩ := @Lag.ends size hle (2 ^ 20 - divRoundUp size pageSize % 2 ^ 20) _ _ _ (by omega) hlag
      exact ⟨rounds + 1, pages, by rw [kheapExpandPages_next hspace, hok]⟩
    · exact ⟨0 + 1, _, kheapExpandPages_stop hspace⟩

theorem sizing_ends_mebibyte : 2 ^ 20 < 2 ^ 32 ∧ SizingEnds (2 ^ 20) :=
  ⟨by decide, (sizing_ends_iff (by decide)).mpr (by decide)⟩

/-- The largest request is never sized. -/
theorem sizing_never_ends : ¬ SizingEnds 0xFFFFFFFF := by
  rintro ⟨rounds, pages, hok⟩
  cases rounds with
  | zero => cases hok
  | succ rounds =>
    rw [kheapExpandPages_next (spaceFor_first (by decide) (by decide)),
      kheapExpandPages_hang (by decide) (Lag.first _)] at hok
    cases hok

/-! ## One expansion -/

variable {σ : Type} {kp : KpagingInterface σ} {s s' : HeapState σ}

/-- Every page can be mapped. -/
def KpagingInterface.Maps (kp : KpagingInterface σ) : Prop :=
  ∀ addr flags q, ∃ q', kp.kpageAllocate addr flags q = some (.success, q')

theorem kheapMapPages_maps (h : kp.Maps) (loc : Nat) :
    ∀ (rem i : Nat) (q : σ), ∃ q', kheapMapPages kp loc rem i q = some (none, q') := by
  intro rem
  induction rem with
  | zero => intro i q; exact ⟨q, rfl⟩
  | succ rem ih =>
    intro i q
    obtain ⟨q₁, h1⟩ := h (u32 (loc + i * pageSize)) kpagePresentRw q
    obtain ⟨q₂, h2⟩ := ih (i + 1) q₁
    exact ⟨q₂, by simp [kheapMapPages, h1, h2]⟩

/-- How `kheap_expand` ends behind its sizing loop: no address space is left,
a page cannot be mapped, or the block is added. -/
inductive ExpandEnd (kp : KpagingInterface σ) (s : HeapState σ) (p : Nat) : KReturn → HeapState σ → Prop
  | full {asa : Asa} (halloc : asaAlloc s.asa p = some (0, asa)) : ExpandEnd kp s p .oom { s with asa }
  | unmapped {loc i : Nat} {asa asa' : Asa} {r : KReturn} {q q' : σ} (halloc : asaAlloc s.asa p = some (loc, asa))
      (hne : loc ≠ 0) (hmap : kheapMapPages kp loc p 0 s.paging = some (some i, q))
      (hfree : asaFree asa loc p = some (r, asa')) (hunmap : kheapUnmapPages kp loc i q = some q') :
      ExpandEnd kp s p .oom { s with asa := asa', paging := q' }
  | added {loc : Nat} {asa : Asa} {q : σ} {heap : Kheap} (halloc : asaAlloc s.asa p = some (loc, asa)) (hne : loc ≠ 0)
      (hmap : kheapMapPages kp loc p 0 s.paging = some (none, q))
      (hadd : kheapAddBlock (kp.memory q) s.heap loc (u32 (p * pageSize)) s.heap.defaultSectionSize = some heap) :
      ExpandEnd kp s p .success ⟨heap, asa, q⟩

theorem kheapExpandBy_end {p : Nat} {r : KReturn} (he : kheapExpandBy kp s p = some (r, s')) : ExpandEnd kp s p r s' := by
  unfold kheapExpandBy at he
  obtain ⟨⟨loc, asa⟩, halloc, he⟩ := Option.bind_eq_some_iff.mp he
  dsimp only at he
  by_cases h0 : loc = 0
  · rw [if_pos h0] at he
    cases he
    rw [h0] at halloc
    exact .full halloc
  rw [if_neg h0] at he
  obtain ⟨⟨unmapped, q⟩, hmap, he⟩ := Option.bind_eq_some_iff.mp he
  cases unmapped with
  | some i =>
    obtain ⟨⟨ret, asa'⟩, hfree, he⟩ := Option.bind_eq_some_iff.mp he
    obtain ⟨q', hunmap, he⟩ := Option.bind_eq_some_iff.mp he
    cases he
    exact .unmapped halloc h0 hmap hfree hunmap
  | none =>
    obtain ⟨heap, hadd, he⟩ := Option.bind_eq_some_iff.mp he
    cases he
    exact .added halloc h0 hmap hadd

/-- The heap with a new block of `p` pages in front. -/
def Kheap.push (heap : Kheap) (b : KheapBlock) (p : Nat) : Kheap :=
  { heap with
    totalFreeSections := u32 (heap.totalFreeSections + (252 * p - 3))
    effectiveSize := u32 (heap.effectiveSize + (4096 * p - 40) + 32 * p * 2)
    blocks := b :: heap.blocks }

/-- An expansion that failed: the address space taken was given back. -/
structure Refused (s s' : HeapState σ) : Prop where
  heap : s'.heap = s.heap
  asa : AsaInv s'.asa (s.heap.blocks.map blockPages)

/-- An expansion that added the block `b`. -/
structure Added (s s' : HeapState σ) (b : KheapBlock) (p : Nat) : Prop where
  fresh : BlockFresh b p
  heap : s'.heap = s.heap.push b p
  asa : AsaInv s'.asa (blockPages b :: s.heap.blocks.map blockPages)

theorem kheapMapPages_not_maps {loc rem i : Nat} {q : σ} {r : Option (Option Nat × σ)}
    (hm : kheapMapPages kp loc rem i q = r) (hr : ∀ q', r ≠ some (none, q')) : ¬ kp.Maps := by
  intro h
  obtain ⟨q', hq⟩ := kheapMapPages_maps h loc rem i q
  exact hr q' (hm ▸ hq)

/-- Where the pages can be mapped, the block is added. -/
theorem HeapOk.expandBy_mapped (h : HeapOk s) {p f : Nat} {q : σ} (hpos : 0 < p)
    (hf : FirstFit s.asa.pages.bit 0 s.asa.pages.length p f)
    (hm : kheapMapPages kp (f * 4096) p 0 s.paging = some (none, q)) :
    ∃ s' b, kheapExpandBy kp s p = some (.success, s') ∧ s'.paging = q ∧ b.start = f * 4096 ∧ Added s s' b p := by
  obtain ⟨pages, h1, hfill⟩ := asaAlloc_of_firstFit h.asa.length_lt hpos hf
  obtain ⟨hlow, haddr⟩ := h.asa.firstFit hpos hf
  have hle := hf.le_hi
  rw [h.asa.length] at hle
  obtain ⟨b, hb, hstart, hfresh⟩ := kheapAddBlock_fresh (kp.memory q) s.heap hpos
    (show f * 4096 % 4096 = 0 by omega) (by omega)
  have hsize : u32 (p * pageSize) = 4096 * p := by rw [u32_pages]; omega
  have hbp : blockPages b = (f * 4096, p) := by rw [blockPages, hstart, hfresh.inv.pages_eq]
  refine ⟨⟨s.heap.push b p, { s.asa with pages }, q⟩, b, ?_, rfl, hstart, hfresh, rfl, hbp ▸ h.asa.alloc hpos hf hfill⟩
  unfold kheapExpandBy
  dsimp only
  rw [h1, haddr, Option.bind_eq_bind, Option.bind_some]
  dsimp only
  rw [if_neg (by omega), hm, Option.bind_eq_bind, Option.bind_some]
  dsimp only
  rw [hsize, h.sectSize, hb]
  rfl

/-- What follows the sizing loop. -/
theorem kheapExpandBy_cases (h : HeapOk s) (p : Nat) :
    (kheapExpandBy kp s p = none ∧ ¬ kp.Maps) ∨
    (∃ s', kheapExpandBy kp s p = some (.oom, s') ∧ Refused s s' ∧ (kp.Maps → 0 < p → ∀ g,
      g + p ≤ s.asa.pages.length → ¬ ClearRun s.asa.pages.bit g p)) ∨
    ∃ s' b, kheapExpandBy kp s p = some (.success, s') ∧ Added s s' b p := by
  rcases asaAlloc_cases h.asa.length_lt (n := p) with ⟨h0, hno⟩ | ⟨f, pages, hpos, hf, hfill, h1⟩
  · refine .inr (.inl ⟨s, ?_, ⟨rfl, h.asa⟩, fun _ hpos g hg => hno g hpos hg⟩)
    unfold kheapExpandBy
    dsimp only
    rw [h0]
    rfl
  obtain ⟨hlow, haddr⟩ := h.asa.firstFit hpos hf
  have hle := hf.le_hi
  rw [h.asa.length] at hle
  have hasa := h.asa.alloc hpos hf hfill
  obtain ⟨r, hm⟩ : ∃ r, kheapMapPages kp (f * 4096) p 0 s.paging = r := ⟨_, rfl⟩
  by_cases hmapped : ∃ q, r = some (none, q)
  · obtain ⟨q, rfl⟩ := hmapped
    obtain ⟨s', b, he, -, -, hadd⟩ := h.expandBy_mapped hpos hf hm
    exact .inr (.inr ⟨s', b, he, hadd⟩)
  have hnot := kheapMapPages_not_maps hm fun q hq => hmapped ⟨q, hq⟩
  unfold kheapExpandBy
  dsimp only
  rw [h1, haddr, Option.bind_eq_bind, Option.bind_some]
  dsimp only
  rw [if_neg (by omega), hm]
  cases r with
  | none => exact .inl ⟨rfl, hnot⟩
  | some r =>
    obtain ⟨unmapped, paging⟩ := r
    cases unmapped with
    | none => exact absurd ⟨_, rfl⟩ hmapped
    | some i =>
      -- A page could not be mapped: the address space goes back.
      obtain ⟨a', ha'⟩ := @asaFree_ok ⟨pages, s.asa.pageSize⟩ (f * 4096) p
        (by show f * 4096 / s.asa.pageSize + p ≤ pages.length
            rw [h.asa.pageSize, hfill.length, h.asa.length]
            omega)
      have hback := hasa.free List.mem_cons_self ha'
      rw [List.erase_cons_head] at hback
      rw [Option.bind_eq_bind, Option.bind_some]
      dsimp only
      rw [ha', Option.bind_eq_bind, Option.bind_some]
      cases kheapUnmapPages kp (f * 4096) i paging with
      | none => exact .inl ⟨rfl, hnot⟩
      | some q =>
        exact .inr (.inl ⟨{ s with asa := a', paging := q }, rfl, ⟨rfl, hback⟩, fun hmaps => absurd hmaps hnot⟩)

/-- **What `kheap_expand` does**: its sizing loop may not end; else it fails
and leaves the blocks as they were, or adds a fresh block. -/
theorem kheapExpand_cases (h : HeapOk s) {size p : Nat} (hp : expandPages size = .ok p) :
    (kheapExpand kp s size = .error .abort ∧ ¬ kp.Maps) ∨
    (∃ s', kheapExpand kp s size = .ok (.oom, s') ∧ Refused s s' ∧ (kp.Maps → 0 < p → ∀ g,
      g + p ≤ s.asa.pages.length → ¬ ClearRun s.asa.pages.bit g p)) ∨
    ∃ s' b, kheapExpand kp s size = .ok (.success, s') ∧ Added s s' b p := by
  unfold kheapExpand
  rw [hp, ok_bind]
  rcases @kheapExpandBy_cases σ kp s h p with ⟨h1, h2⟩ | ⟨s', h1, h2⟩ | ⟨s', b, h1, h2⟩
  · exact .inl ⟨by rw [h1]; rfl, h2⟩
  · exact .inr (.inl ⟨s', by rw [h1]; rfl, h2⟩)
  · exact .inr (.inr ⟨s', b, by rw [h1]; rfl, h2⟩)

/-! ## What an expansion keeps -/

/-- One expansion, refused or not. -/
def Expansion (s s' : HeapState σ) : Prop := Refused s s' ∨ ∃ b p, Added s s' b p

/-- Any number of expansions. -/
def Expands (s s' : HeapState σ) : Prop := Relation.ReflTransGen Expansion s s'

theorem BlockFresh.pages_eq {b : KheapBlock} {p : Nat} (h : BlockFresh b p) : b.blockSize / 4096 = p :=
  h.inv.pages_eq

theorem Added.blocks {b : KheapBlock} {p : Nat} (h : Added s s' b p) : s'.heap.blocks = b :: s.heap.blocks := by
  rw [h.heap]
  rfl

theorem HeapOk.expansion (h : HeapOk s) (he : Expansion s s') : HeapOk s' := by
  rcases he with ⟨hh, ha⟩ | ⟨b, p, hadd⟩
  · refine ⟨?_, ?_, ?_, ?_, ?_⟩ <;> rw [hh]
    · exact h.sectSize
    · exact h.minSize
    · exact ha
    · exact h.shape
    · exact h.hint
  · have hf := hadd.fresh.inv
    rw [← hf.pages_eq] at hf
    refine ⟨by rw [hadd.heap]; exact h.sectSize, by rw [hadd.heap]; exact h.minSize,
      by rw [hadd.blocks]; exact hadd.asa, fun c hc => ?_, fun c hc => ?_⟩
    · rw [hadd.blocks] at hc
      rcases List.mem_cons.mp hc with rfl | hc
      · exact hf.toBlockShape
      · exact h.shape c hc
    · rw [hadd.blocks] at hc
      rcases List.mem_cons.mp hc with rfl | hc
      · exact hf.hint
      · exact h.hint c hc

variable {live : List (Nat × Nat)} {run : Nat → Run}

/-- The new block lies apart from the others. -/
theorem Added.start_ne {b c : KheapBlock} {p : Nat} (h : Added s s' b p) (hs : HeapOk s)
    (hc : c ∈ s.heap.blocks) : c.start ≠ b.start := by
  have hap := (List.pairwise_cons.mp h.asa.apart).1 _ (List.mem_map_of_mem hc)
  have h1 := (hs.shape c hc).pages
  have h2 := h.fresh.pages; have h3 := h.fresh.pages_eq
  simp only [PagesApart, blockPages] at hap
  intro he
  omega

theorem HeapInv.expansion (h : HeapInv s live run) (he : Expansion s s') : HeapInv s' live run := by
  have hok := h.ok.expansion he
  rcases he with ⟨hh, ha⟩ | ⟨b, p, hadd⟩
  · refine ⟨hok.sectSize, hok.minSize, hok.asa, ?_, ?_, h.apart, ?_, ?_⟩ <;> rw [hh]
    · exact h.block
    · exact h.owned
    · exact h.delim
    · exact h.total
  · have hf := hadd.fresh.inv
    rw [← hf.pages_eq] at hf
    refine ⟨hok.sectSize, hok.minSize, hok.asa, fun c hc => ?_, fun x hx => ?_, h.apart, fun c hc j hj => ?_, ?_⟩
    · rw [hadd.blocks] at hc
      rcases List.mem_cons.mp hc with rfl | hc
      · exact hf
      · exact h.block c hc
    · obtain ⟨c, hc, hl⟩ := h.owned x hx
      exact ⟨c, by rw [hadd.blocks]; exact List.mem_cons_of_mem _ hc, hl⟩
    · rw [hadd.blocks] at hc
      rcases List.mem_cons.mp hc with rfl | hc
      · -- The new block has no delimiter and no live run.
        rw [hadd.fresh.delimLength] at hj
        rw [hadd.fresh.delim j hj]
        refine ⟨(fun h0 => by cases h0), fun ⟨x, hx, hx', _⟩ => ?_⟩
        obtain ⟨d, hd, hl⟩ := h.owned x hx
        exact absurd (hl.base.symm.trans hx') (hadd.start_ne h.ok hd)
      · exact h.delim c hc j hj
    · rw [hadd.heap]
      show u32 (s.heap.totalFreeSections + (252 * p - 3)) = u32 (freeSum (b :: s.heap.blocks))
      have hsum : freeSum (b :: s.heap.blocks) = freeSum s.heap.blocks + (252 * p - 3) := by
        rw [← hadd.fresh.free]
        exact freeSum_middle [] s.heap.blocks b
      rw [hsum, h.total]
      unfold u32
      omega

theorem HeapOk.expands (h : HeapOk s) (he : Expands s s') : HeapOk s' := by
  induction he with
  | refl => exact h
  | tail _ hs ih => exact ih.expansion hs

theorem HeapInv.expands (h : HeapInv s live run) (he : Expands s s') : HeapInv s' live run := by
  induction he with
  | refl => exact h
  | tail _ hs ih => exact ih.expansion hs

end ShawnOS
