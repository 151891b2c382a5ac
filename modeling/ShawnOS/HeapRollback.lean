/-
What `kheap_expand` leaves behind when a page cannot be mapped.

The pages mapped so far borrow their frames, and the page tables made on the
way keep theirs (`Borrowed`): freeing the pages again leaves the bitset with
the tables' frames only. So it is where the window is not one of the pages,
and there the ASSERT of `i386_paging_init` is off by one page. The calls
before (`KernelCall`) leave the paging structures, the kernel's own pages and
the heap's blocks alone.
-/
import ShawnOS.AsaCalls
import ShawnOS.HeapMalloc
import ShawnOS.PagingFrames

namespace ShawnOS

open Word32 Holders

variable {s s' : HeapState PagingState} {q q' base : PagingState} {L : Layout}

/-- `kpaging_data`, once paging is up. -/
def i386Paging : KpagingInterface PagingState where
  kpageAllocate := i386KpageAllocate
  kpageFree := i386KpageFree
  memory q v := BitVec.ofNat 32 ((q.read v).getD 0)

/-- The pages of a range. -/
def pageRange (lo n : Nat) : Set Nat := Set.Ico lo (lo + n)

/-- The pages of the heap's blocks. -/
def heapPages (heap : Kheap) : Set Nat := {p | ∃ r ∈ heap.blocks.map blockPages, p ∈ pageRange (r.1 / 4096) r.2}

/-- A call of the address space allocator that frees nothing below
`KVIRT_RESERVED` and none of the pages of `R`. -/
inductive AsaOffCall (R : Set Nat) : Asa → Asa → Prop
  | alloc {a a' : Asa} {n addr : Nat} : asaAlloc a n = some (addr, a') → AsaOffCall R a a'
  | free {a a' : Asa} {addr n : Nat} {r : KReturn} : kvirtReserved ≤ addr → (∀ p ∈ R, p < addr / a.pageSize ∨ n ≤ p) →
      asaFree a addr n = some (r, a') → AsaOffCall R a a'

theorem AsaOffCall.high {R : Set Nat} {a a' : Asa} (h : AsaOffCall R a a') : AsaHighCall a a' := by
  cases h with
  | alloc he => exact .alloc he
  | free hge _ he => exact .free hge he

/-- A call of the heap, of the paging code or of the address space
allocator. Those of the paging code keep off the pages it works through, the
kernel's own and the heap's, and identity map to what `FreeFrame` allows; no
address space of a block, or below `KVIRT_RESERVED`, is freed. -/
inductive KernelCall : HeapState PagingState → HeapState PagingState → Prop
  | expand {s s' : HeapState PagingState} {size : Nat} {r : KReturn} :
      kheapExpand i386Paging s size = .ok (r, s') → KernelCall s s'
  | malloc {s s' : HeapState PagingState} {size align : Nat} {r : KReturn} {out : Option Nat} :
      kheapMalloc i386Paging s size align = .ok (r, out, s') → KernelCall s s'
  | free {s : HeapState PagingState} {addr : Nat} {r : Bool} {heap : Kheap} :
      kheapFree s.heap addr = some (r, heap) → KernelCall s { s with heap }
  | page {s : HeapState PagingState} {c : PageCall} {r : KReturn × Nat} {paging : PagingState} :
      KeepsFrames s.paging c → (∀ p ∈ c.edits, p ∉ heapPages s.heap) → c.exec s.paging = some (r, paging) →
      KernelCall s { s with paging }
  | asa {s : HeapState PagingState} {asa : Asa} : AsaOffCall (heapPages s.heap) s.asa asa → KernelCall s { s with asa }

/-- The heap is as it was, the range is unmapped, and what the bitset gained
or lost are frames of page tables. -/
structure RolledBack (s s' : HeapState PagingState) (loc n : Nat) : Prop where
  heap : s'.heap = s.heap
  unmapped : ∀ p ∈ asaPages loc n, s'.paging.translate (4096 * p) = none
  frames : ∀ f < s.paging.frames.length, s'.paging.frames.bit f ≠ s.paging.frames.bit f →
    ∃ t < 1024, s'.paging.pde t &&& ptPresent ≠ 0 ∧ s'.paging.pde t / 4096 = f

/-! ## Borrowed frames -/

/-- The holders that give back: some pages. -/
def pageHolders (lo hi : Nat) : Set Holder := {i | ∃ p, lo ≤ p ∧ p < hi ∧ i = .page p}

/-- The holders that keep: the page tables. -/
def tableHolders : Set Holder := {i | ∃ t, i = .table t}

theorem page_not_table (p : Nat) : Holder.page p ∉ tableHolders := fun ⟨_, h⟩ => by cases h

theorem page_mem {p lo hi : Nat} : Holder.page p ∈ pageHolders lo hi ↔ lo ≤ p ∧ p < hi :=
  ⟨fun ⟨_, h1, h2, he⟩ => by cases he; exact ⟨h1, h2⟩, fun ⟨h1, h2⟩ => ⟨p, h1, h2, rfl⟩⟩

theorem insert_page {lo hi : Nat} (h : lo ≤ hi) : insert (.page hi) (pageHolders lo hi) = pageHolders lo (hi + 1) := by
  ext i
  rw [Set.mem_insert_iff]
  constructor
  · rintro (rfl | ⟨p, h1, h2, rfl⟩)
    · exact page_mem.mpr ⟨h, Nat.lt_succ_self _⟩
    · exact page_mem.mpr ⟨h1, by omega⟩
  · rintro ⟨p, h1, h2, rfl⟩
    by_cases hp : p = hi
    · exact .inl (hp ▸ rfl)
    · exact .inr (page_mem.mpr ⟨h1, by omega⟩)

theorem remove_page {lo hi : Nat} : {i ∈ pageHolders lo (hi + 1) | i ≠ .page hi} = pageHolders lo hi := by
  ext i
  constructor
  · rintro ⟨⟨p, h1, h2, rfl⟩, hne⟩
    have hp : p ≠ hi := fun hp => hne (hp ▸ rfl)
    exact page_mem.mpr ⟨h1, by omega⟩
  · rintro ⟨p, h1, h2, rfl⟩
    refine ⟨page_mem.mpr ⟨h1, by omega⟩, fun he => ?_⟩
    cases he
    omega

/-- From `base`, the pages from `lo` to `hi` are being mapped; the others of
`range` are not. -/
structure Mapping (L : Layout) (base q : PagingState) (range : Set Nat) (lo hi : Nat) : Prop where
  inv : PagingInv L q
  length : q.frames.length = base.frames.length
  zero : q.frames.bit 0 = base.frames.bit 0
  borrowed : Borrowed (q.hold L) q.frames.inUse base.frames.inUse (pageHolders lo hi) tableHolders
  unmapped : ∀ p ∈ range, p < 2 ^ 20 → p ≠ L.window → ¬ (lo ≤ p ∧ p < hi) → q.entry p % 2 = 0

theorem Mapping.start {range : Set Nat} {lo : Nat} (h : PagingInv L q) (hun : ∀ p ∈ range, q.entry p % 2 = 0) :
    Mapping L q q range lo lo := by
  have hnone : pageHolders lo lo = ∅ := by
    ext i
    exact ⟨fun ⟨p, h1, h2, _⟩ => absurd h1 (by omega), fun h => h.elim⟩
  exact ⟨h, rfl, rfl, hnone ▸ Borrowed.start h.exclusive, fun p hp _ _ _ => hun p hp⟩

theorem Allocated.zero {v ptFlags pdFlags : Nat} {r : KReturn × Nat} (ha : Allocated L q v ptFlags pdFlags r q') :
    q'.frames.bit 0 = q.frames.bit 0 := by
  have outside {b b' : Bitset} {f : Nat} (hb : b.Filled b' f 1) (hf : f ≠ 0) : b'.bit 0 = b.bit 0 :=
    hb.outside (by omega)
  cases ha with
  | oom => rfl
  | tableOom _ _ _ hbit => exact hbit 0
  | mapped _ hf hfill => exact outside hfill hf.pos
  | newTable _ hf hfill hg hfill' => exact (outside hfill' hg.pos).trans (outside hfill hf.pos)
  | lost _ hf hfill hg hfill' => exact (outside hfill' hg.pos).trans (outside hfill hf.pos)

theorem Allocated.entry_oom {v ptFlags pdFlags a : Nat} (ha : Allocated L q v ptFlags pdFlags (.oom, a) q') {p : Nat}
    (hp : p < 2 ^ 20) (hw : p ≠ L.window) : q'.entry p = q.entry p := by
  cases ha with
  | oom => rfl
  | tableOom _ he => exact he.entry p hp hw

variable {range : Set Nat} {lo hi : Nat}

/-- **One page mapped**, or none. -/
theorem Mapping.allocate (h : Mapping L base q range lo hi) (hle : lo ≤ hi) (hlt : hi < 2 ^ 20) (hown : hi ∉ L.own) :
    ∃ r q', i386Paging.kpageAllocate (4096 * hi) kpagePresentRw q = some (r, q') ∧
      ((r.failed ∧ Mapping L base q' range lo hi) ∨ (¬ r.failed ∧ Mapping L base q' range lo (hi + 1))) := by
  have hv : 4096 * hi < 2 ^ 32 := by omega
  have hpage : 4096 * hi / 4096 = hi := by omega
  have hal : 4096 * hi % pageSize = 0 := Nat.mul_mod_right 4096 hi
  obtain ⟨⟨ret, a⟩, q', he, ha⟩ := h.inv.tables.allocatePage h.inv.pool hv hal (by rw [hpage]; exact hown)
    (show kpagePresentRw < 4096 by decide) (show kpagePresentRw < 4096 by decide)
  have hinv := h.inv.allocated hv (by rw [hpage]; exact hown) (by decide) (by decide) ha
  have hother := (ha.remembers hv (by rw [hpage]; exact (not_own.mp hown).1) (by decide) (by decide) (by decide)).1
  have hzero := ha.zero.trans h.zero
  have hlen := ha.length.trans h.length
  refine ⟨ret, q', by simp [i386Paging, i386KpageAllocate, he], ?_⟩
  have hA : Holder.page hi ∉ pageHolders lo hi := fun hmem => absurd (page_mem.mp hmem).2 (Nat.lt_irrefl hi)
  have hK := page_not_table hi
  have hun : ∀ p ∈ range, p < 2 ^ 20 → p ≠ L.window → ¬ (lo ≤ p ∧ p < hi + 1) → q'.entry p % 2 = 0 := by
    intro p hp hplt hw hout
    rw [hother p hplt hw (by omega)]
    exact h.unmapped p hp hplt hw (by omega)
  have hb := h.borrowed
  rcases ha.hold hv (by rw [hpage]; exact hown) (by decide) (by decide) with
    ⟨rfl, hh, hu⟩ | ⟨f, hr, hf, hu, hh⟩ | ⟨f, g, hr, habs, hf, hg, hu, hh⟩
  · refine .inl ⟨rfl, hinv, hlen, hzero, by rw [hh, hu]; exact hb, fun p hp hplt hw hout => ?_⟩
    rw [ha.entry_oom hplt hw]
    exact h.unmapped p hp hplt hw hout
  · cases hr
    rw [hpage] at hh
    refine .inr ⟨by decide, hinv, hlen, hzero, ?_, hun⟩
    rw [hh, hu, ← insert_page hle]
    exact hb.give hA hK hf.not_inUse
  · cases hr
    rw [hpage, if_pos (by decide)] at hh
    refine .inr ⟨by decide, hinv, hlen, hzero, ?_, hun⟩
    rw [hh, hu, ← insert_page hle]
    refine (hb.give hA hK hf).keep ?_ ⟨_, rfl⟩
    rw [Function.update_of_ne (by simp)]
    exact hold_absent habs

/-- **One page freed**, the last one mapped. -/
theorem Mapping.free (h : Mapping L base q range lo (hi + 1)) (hle : lo ≤ hi) (hlt : hi < 2 ^ 20) (hown : hi ∉ L.own) :
    ∃ r q', i386Paging.kpageFree (4096 * hi) q = some (r, q') ∧ Mapping L base q' range lo hi := by
  have hpage : 4096 * hi / 4096 = hi := by omega
  have hal : 4096 * hi % pageSize = 0 := Nat.mul_mod_right 4096 hi
  obtain ⟨r, q', he, hinv, -, heff, hh, hu, hbit⟩ := h.inv.freePage (show 4096 * hi < 2 ^ 32 by omega) hal
    (by rw [hpage]; exact hown)
  rw [hpage] at heff hh hu hbit
  have hmem : Holder.page hi ∈ pageHolders lo (hi + 1) := page_mem.mpr ⟨hle, Nat.lt_succ_self hi⟩
  refine ⟨r, q', he, hinv, ?_, ?_, ?_, fun p hp hplt hw hout => ?_⟩
  · rw [hinv.length, heff.meminfo, ← h.inv.length]
    exact h.length
  · -- The page's frame is not frame 0.
    obtain ⟨f, hf, -⟩ := h.borrowed.new _ hmem
    rw [hold_page hlt hown] at hf
    obtain ⟨hframe, hpos⟩ := entryFrame_some hf
    rw [hbit 0 (by omega)]
    exact h.zero
  · rw [hh, hu, ← remove_page]
    exact h.borrowed.back h.inv.exclusive hmem (page_not_table hi)
  · rw [heff.entry p hplt hw, Function.update_apply]
    split
    · rfl
    · exact h.unmapped p hp hplt hw (by omega)

/-! ## The two loops -/

theorem page_addr {lo i : Nat} (h : lo + i < 2 ^ 20) : u32 (4096 * lo + i * pageSize) = 4096 * (lo + i) := by
  unfold pageSize
  rw [u32_of_lt (by omega)]
  omega

theorem Mapping.mapPages (hown : ∀ p, 380 ≤ p → p ∉ L.own) (hlo : 380 ≤ lo) : ∀ {rem i : Nat} {q : PagingState},
    Mapping L base q range lo (lo + i) → lo + i + rem ≤ 2 ^ 20 →
    ∃ o q', kheapMapPages i386Paging (4096 * lo) rem i q = some (o, q') ∧
      ((o = none ∧ Mapping L base q' range lo (lo + i + rem)) ∨
        ∃ j, o = some j ∧ j < i + rem ∧ Mapping L base q' range lo (lo + j))
  | 0, _, q, h, _ => ⟨none, q, rfl, .inl ⟨rfl, h⟩⟩
  | rem + 1, i, q, h, hle => by
    obtain ⟨r, q₁, he, hr⟩ := h.allocate (Nat.le_add_right lo i) (by omega) (hown _ (by omega))
    rw [kheapMapPages, page_addr (by omega), he]
    simp only [Option.bind_eq_bind, Option.bind_some]
    rcases hr with ⟨hfail, h₁⟩ | ⟨hok, h₁⟩
    · rw [if_pos hfail]
      exact ⟨some i, q₁, rfl, .inr ⟨i, rfl, by omega, h₁⟩⟩
    · rw [if_neg hok]
      have hrest : lo + (i + 1) + rem ≤ 2 ^ 20 := by omega
      obtain ⟨o, q₂, he₂, h₂⟩ := Mapping.mapPages hown hlo h₁ hrest
      refine ⟨o, q₂, he₂, ?_⟩
      rcases h₂ with ⟨ho, h₂⟩ | ⟨j, ho, hj, h₂⟩
      · refine .inl ⟨ho, ?_⟩
        rwa [show lo + i + (rem + 1) = lo + (i + 1) + rem by omega]
      · exact .inr ⟨j, ho, by omega, h₂⟩

theorem Mapping.unmapPages (hown : ∀ p, 380 ≤ p → p ∉ L.own) (hlo : 380 ≤ lo) : ∀ {i : Nat} {q : PagingState},
    Mapping L base q range lo (lo + i) → lo + i ≤ 2 ^ 20 →
    ∃ q', kheapUnmapPages i386Paging (4096 * lo) i q = some q' ∧ Mapping L base q' range lo lo
  | 0, q, h, _ => ⟨q, rfl, h⟩
  | i + 1, q, h, hle => by
    have hnext : Mapping L base q range lo (lo + i + 1) := h
    obtain ⟨r, q₁, he, h₁⟩ := hnext.free (Nat.le_add_right lo i) (by omega) (hown _ (by omega))
    obtain ⟨q₂, he₂, h₂⟩ := Mapping.unmapPages hown hlo h₁ (by omega)
    refine ⟨q₂, ?_, h₂⟩
    rw [kheapUnmapPages, page_addr (by omega), he]
    exact he₂

/-! ## Expanding -/

/-- What holds along a run: the paging invariant, the reserved pages used,
and the window below them. -/
structure KernelInv (L : Layout) (s : HeapState PagingState) : Prop where
  inv : PagingInv L s.paging
  asa : AsaReserved s.asa
  window : L.window < 380

theorem KernelInv.own (h : KernelInv L s) {p : Nat} (hp : 380 ≤ p) : p ∉ L.own := by
  have h1 := L.dir_lt; have h2 := L.table_lt; have h3 := h.window
  exact not_own.mpr ⟨by omega, by omega, by omega⟩

/-- The pages handed out, above the reserved ones. -/
theorem KernelInv.pages (h : KernelInv L s) {n loc : Nat} {asa : Asa} (halloc : asaAlloc s.asa n = some (loc, asa))
    (h0 : loc ≠ 0) : 380 ≤ loc / 4096 ∧ loc / 4096 + n ≤ 0x3FFFF ∧ 4096 * (loc / 4096) = loc := by
  obtain ⟨hn, hal, -⟩ := h.asa.toAsaSized.alloc halloc h0
  have hpages := h.asa.pages halloc h0
  have hlo : 380 ≤ loc / 4096 := (hpages ⟨Nat.le_refl _, Nat.lt_add_of_pos_right hn⟩).1
  have hhi : loc / 4096 + n - 1 < 0x3FFFF := (hpages (show _ ∈ Set.Ico _ _ from ⟨by omega, by omega⟩)).2
  omega

/-- Mapping them, whether it gets to the end or not. -/
theorem KernelInv.mapPages (h : KernelInv L s) {n loc : Nat} {asa : Asa} (halloc : asaAlloc s.asa n = some (loc, asa))
    (h0 : loc ≠ 0) (hun : ∀ p ∈ range, s.paging.entry p % 2 = 0) {o : Option Nat} {q : PagingState}
    (hmap : kheapMapPages i386Paging loc n 0 s.paging = some (o, q)) :
    PagingInv L q ∧ ∀ i, o = some i → i < n ∧ Mapping L s.paging q range (loc / 4096) (loc / 4096 + i) := by
  obtain ⟨hlo, hhi, hloc⟩ := h.pages halloc h0
  have hfirst : Mapping L s.paging s.paging range (loc / 4096) (loc / 4096 + 0) := Mapping.start h.inv hun
  obtain ⟨o', q', hmap', hcases⟩ := Mapping.mapPages (fun p => h.own) hlo hfirst (show _ + 0 + n ≤ 2 ^ 20 by omega)
  rw [hloc, hmap] at hmap'
  cases hmap'
  rcases hcases with ⟨rfl, hq⟩ | ⟨j, rfl, hj, hq⟩
  · exact ⟨hq.inv, fun i hi => by cases hi⟩
  · refine ⟨hq.inv, fun i hi => ?_⟩
    cases hi
    exact ⟨by omega, hq⟩

/-- **An expansion** keeps the invariant. One that is refused leaves the heap,
and borrows nothing. -/
theorem KernelInv.expandBy (h : KernelInv L s) {n : Nat} {r : KReturn}
    (he : kheapExpandBy i386Paging s n = some (r, s')) (hun : ∀ p ∈ range, s.paging.entry p % 2 = 0) :
    KernelInv L s' ∧ (r = .oom → s'.heap = s.heap ∧ ∃ lo, Mapping L s.paging s'.paging range lo lo) := by
  cases kheapExpandBy_end he with
  | full halloc =>
    exact ⟨⟨h.inv, h.asa.call (.alloc halloc), h.window⟩, fun _ => ⟨rfl, 0, Mapping.start h.inv hun⟩⟩
  | unmapped halloc hne hmap hfree hunmap =>
    obtain ⟨hlo, hhi, hloc⟩ := h.pages halloc hne
    obtain ⟨hi, hq⟩ := (h.mapPages halloc hne hun hmap).2 _ rfl
    obtain ⟨q', hunmap', hq'⟩ := hq.unmapPages (fun p => h.own) hlo (by omega)
    rw [hloc, hunmap] at hunmap'
    cases hunmap'
    have hge : kvirtReserved ≤ 4096 * 380 := by decide
    exact ⟨⟨hq'.inv, (h.asa.call (.alloc halloc)).call (.free (by omega) hfree), h.window⟩, fun _ => ⟨rfl, _, hq'⟩⟩
  | added halloc hne hmap =>
    exact ⟨⟨(h.mapPages halloc hne hun hmap).1, h.asa.call (.alloc halloc), h.window⟩, fun hr => by cases hr⟩

theorem KernelInv.expand (h : KernelInv L s) {size : Nat} {r : KReturn}
    (he : kheapExpand i386Paging s size = .ok (r, s')) : KernelInv L s' := by
  obtain ⟨n, -, he⟩ := bind_eq_ok.mp he
  exact (@KernelInv.expandBy s s' L ∅ h n r (liftM_eq_ok.mp he) fun _ hp => hp.elim).1

/-! ## Runs -/

theorem KernelInv.withHeap (h : KernelInv L s) (heap : Kheap) : KernelInv L { s with heap } := ⟨h.inv, h.asa, h.window⟩

theorem KernelInv.mallocLoop {size align : Nat} {manual : Bool} : ∀ {fuel : Nat} {s s' : HeapState PagingState}
    {r : KReturn} {out : Option Nat}, KernelInv L s →
    kheapMallocLoop i386Paging size align manual fuel s = .ok (r, out, s') → KernelInv L s'
  | 0, _, _, _, _, _, hm => by cases hm
  | fuel + 1, s, s', r, out, h, hm => by
    unfold kheapMallocLoop at hm
    split at hm
    · cases hm
      exact h
    · obtain ⟨found, -, hm⟩ := bind_eq_ok.mp hm
      cases found with
      | some found =>
        cases hm
        exact h.withHeap _
      | none =>
        obtain ⟨⟨ret, s₁⟩, hexp, hm⟩ := bind_eq_ok.mp hm
        have h₁ := h.expand hexp
        dsimp only at hm
        split at hm
        · cases hm
          exact h₁
        · exact h₁.mallocLoop hm

theorem KernelInv.malloc (h : KernelInv L s) {size align : Nat} {r : KReturn} {out : Option Nat}
    (hm : kheapMalloc i386Paging s size align = .ok (r, out, s')) : KernelInv L s' := by
  unfold kheapMalloc at hm
  dsimp only at hm
  split at hm
  · obtain ⟨⟨ret, s₁⟩, hexp, hm⟩ := bind_eq_ok.mp hm
    have h₁ := h.expand hexp
    dsimp only at hm
    split at hm
    · cases hm
      exact h₁
    · exact h₁.mallocLoop hm
  · exact h.mallocLoop hm

/-- **A call keeps the invariant.** -/
theorem KernelInv.call (h : KernelInv L s) (hc : KernelCall s s') : KernelInv L s' := by
  cases hc with
  | expand he => exact h.expand he
  | malloc hm => exact h.malloc hm
  | free _ => exact h.withHeap _
  | page hok _ he => exact ⟨h.inv.call hok he, h.asa, h.window⟩
  | asa ha => exact ⟨h.inv, h.asa.call ha.high, h.window⟩

theorem KernelInv.run (h : KernelInv L s) (hrun : Relation.ReflTransGen KernelCall s s') : KernelInv L s' := by
  induction hrun with
  | refl => exact h
  | tail _ hc ih => exact ih.call hc

theorem Booted.kernelInv {asa : Asa} (hb : Booted L q) (ha : AsaUpTo asa 380) (hw : q.windowPage < kvirtReserved)
    (heap : Kheap) : KernelInv L ⟨heap, asa, q⟩ := by
  refine ⟨hb.inv, ⟨ha.sized, fun j hj => (ha.bit j (by omega)).trans (decide_eq_true hj)⟩, ?_⟩
  rw [hb.tables.window] at hw
  unfold kvirtReserved at hw
  omega

/-! ## Rolling back -/

/-- Nothing is borrowed any more. -/
theorem Mapping.rolledBack (hun : Mapping L s.paging s'.paging range lo lo) (hheap : s'.heap = s.heap) {loc n : Nat}
    (hrange : ∀ p ∈ asaPages loc n, p ∈ range ∧ p < 2 ^ 20 ∧ p ≠ L.window) : RolledBack s s' loc n := by
  refine ⟨hheap, fun p hp => ?_, fun f hf hne => ?_⟩
  · obtain ⟨hmem, hlt, hw⟩ := hrange p hp
    have heven := hun.unmapped p hmem hlt hw (by omega)
    rw [hun.inv.tables.translate (by omega), show 4096 * p / 4096 = p by omega, if_neg (by omega)]
  · have hlen : f < s'.paging.frames.length := by rw [hun.length]; exact hf
    have h0 : f ≠ 0 := fun h0 => hne (h0 ▸ hun.zero)
    -- A frame that came into use is held by a table.
    cases hbase : s.paging.frames.bit f with
    | true =>
      have hin := hun.borrowed.base_subset ⟨h0, hf, hbase⟩
      exact absurd (hin.2.2.trans hbase.symm) hne
    | false =>
      have hbit : s'.paging.frames.bit f = true := by
        rw [hbase] at hne
        simpa using hne
      rcases (hun.borrowed.mem f).mp ⟨h0, hlen, hbit⟩ with hin | ⟨i, ⟨p, h1, h2, -⟩ | ⟨t, rfl⟩, hi⟩
      · rw [hin.2.2] at hbase
        cases hbase
      · omega
      · simp only [PagingState.hold, holdOf] at hi
        split at hi
        · next hcond =>
          cases hi
          refine ⟨t, hcond.1, ?_, rfl⟩
          rw [ne_eq, and_present]
          omega
        · cases hi

/-- **`kheap_expand` rolls back.** From boot with the window below
`KVIRT_RESERVED` and after any run of calls, an expansion that returns
`K_OOM` leaves the heap and the unmapped range as they were, and of the frame
bitset all but the frames of new page tables. -/
theorem heap_expand_rolls_back (mboot : MultibootInfo) (mem : Nat → Nat) (s₀ : PagingState) (asa : Asa)
    (hboot : kernelEarly mboot mem = .ok (s₀, asa)) (hwindow : s₀.windowPage < kvirtReserved) (heap : Kheap)
    (s : HeapState PagingState) (hrun : Relation.ReflTransGen KernelCall ⟨heap, asa, s₀⟩ s) (size n loc : Nat) (asa' : Asa)
    (hn : expandPages size = .ok n) (hloc : asaAlloc s.asa n = some (loc, asa')) (hne : loc ≠ 0)
    (hunmapped : ∀ p ∈ asaPages loc n, s.paging.translate (4096 * p) = none) (s' : HeapState PagingState)
    (hfail : kheapExpand i386Paging s size = .ok (.oom, s')) : RolledBack s s' loc n := by
  obtain ⟨L, hb, ha⟩ := kernelEarly_booted hboot
  have h := (hb.kernelInv ha hwindow heap).run hrun
  have hpages := h.asa.pages hloc hne
  have hlow {p : Nat} (hp : p ∈ asaPages loc n) : p < 2 ^ 20 ∧ p ≠ L.window := by
    obtain ⟨h1, h2⟩ := hpages hp
    have hw := h.window
    omega
  have hun : ∀ p ∈ asaPages loc n, s.paging.entry p % 2 = 0 := by
    intro p hp
    have hnone := hunmapped p hp
    have hlt := (hlow hp).1
    rw [h.inv.tables.translate (by omega), show 4096 * p / 4096 = p by omega] at hnone
    split at hnone
    · cases hnone
    · omega
  obtain ⟨m, hm, he⟩ := bind_eq_ok.mp hfail
  rw [hn] at hm
  cases hm
  obtain ⟨hheap, lo, hmap⟩ := (h.expandBy (liftM_eq_ok.mp he) hun).2 rfl
  exact hmap.rolledBack hheap fun p hp => ⟨hp, hlow hp⟩

/-! ## One free frame -/

/-- A machine with one free frame, the 380th. -/
def bootOneFrame (kend : Nat) (h : kend < 2 ^ 31) : MultibootInfo :=
  bootMap kend 1600 [⟨0, 0x17d000, multibootMemoryAvailable⟩, ⟨0x17d000, 0x10000000, multibootMemoryReserved⟩] h

theorem bootOneFrame_ok {kend : Nat} (h : kend < 2 ^ 31) (hal : kend % 4096 = 0) (hge : 0x100000 < kend)
    (hle : kend ≤ 0x12a000) (mem : Nat → Nat) : ∃ L q asa, kernelEarly (bootOneFrame kend h) mem = .ok (q, asa) ∧
      Booted L q ∧ AsaUpTo asa 380 ∧ q.meminfo.kernelHeapStart = kend + 0x1000 ∧
      q.meminfo.highestFreeAddress = 1638400 ∧ ∀ f, 380 ≤ f → f < 384 → q.frames.bit f = decide (f ≠ 380) := by
  obtain ⟨L, q, asa, he, hb, ha, hstart, hhigh, hbit⟩ := @bootMap_ok kend 1600
    [⟨0, 0x17d000, multibootMemoryAvailable⟩, ⟨0x17d000, 0x10000000, multibootMemoryReserved⟩] h hal hge hle
    (by decide) (by decide) mem
  refine ⟨L, q, asa, he, hb, ha, hstart, hhigh, fun f hf hlt => ?_⟩
  rw [hbit f hf (by omega)]
  obtain rfl | rfl | rfl | rfl : f = 380 ∨ f = 381 ∨ f = 382 ∨ f = 383 := by omega
  all_goals decide

/-- There the first expansion by two pages maps the page 380 and fails at the
next one. -/
theorem Booted.expand_oneFrame {asa : Asa} (hb : Booted L q) (ha : AsaUpTo asa 380)
    (hhigh : q.meminfo.highestFreeAddress = 1638400)
    (hbit : ∀ f, 380 ≤ f → f < 384 → q.frames.bit f = decide (f ≠ 380)) (heap : Kheap) :
    ∃ b asa₁ asa₂, asaAlloc asa 2 = some (0x17c000, asa₁) ∧ q.frames.Filled b 380 1 ∧
      Tables L (q.withPage L b 0 380 (4096 * 380 + 3)) ∧ (∀ t < 1024, (q.withPage L b 0 380 (4096 * 380 + 3)).pde t = q.pde t) ∧
      (q.withPage L b 0 380 (4096 * 380 + 3)).entry 380 = 4096 * 380 + 3 ∧
      ∀ r q₂, i386FreePage (q.withPage L b 0 380 (4096 * 380 + 3)) 0x17c000 = some (r, q₂) →
        kheapExpand i386Paging ⟨heap, asa, q⟩ 4096 = .ok (.oom, ⟨heap, asa₂, q₂⟩) := by
  have hd := L.dir_lt; have ht := L.table_lt
  have hlen : q.frames.length = 400 := by rw [hb.length, hhigh]
  obtain ⟨asa₁, halloc, hup⟩ := ha.alloc (n := 2) (by decide) (by decide)
  obtain ⟨asa₂, hfree⟩ := @asaFree_ok asa₁ 0x17c000 2 (by rw [hup.pageSize, hup.length]; decide)
  obtain ⟨b, hb380⟩ := bitsetSetBit_ok (b := q.frames) (n := 380) (by omega)
  obtain ⟨-, hfill⟩ := bitsetSetBit_filled hb380
  have hnext : i386MemGetNextFreeFrame q.meminfo q.frames = 380 :=
    i386MemGetNextFreeFrame_eq (by rw [hhigh]; decide) (hbit 380 (by decide) (by decide)) fun g hg => hb.used g hg
  have hnone : i386MemGetNextFreeFrame q.meminfo b = 0 := by
    rcases i386MemGetNextFreeFrame_spec q.meminfo b with ⟨h0, -⟩ | h
    · exact h0
    · have hlt := h.lt; have hclear := h.clear
      rw [hhigh] at hlt
      generalize i386MemGetNextFreeFrame q.meminfo b = f at hlt hclear
      by_cases hf : f = 380
      · rw [hf, hfill.inside (Nat.le_refl 380) (by decide)] at hclear
        cases hclear
      · rw [hfill.outside (by omega)] at hclear
        by_cases hlow : f < 380
        · rw [hb.used f hlow] at hclear
          cases hclear
        · rw [hbit f (by omega) (by omega), decide_eq_false_iff_not] at hclear
          exact absurd hf hclear
  obtain ⟨htab, hpde, hentry⟩ := hb.tables.withPage (t := 0) (i := 380) (x := 4096 * 380 + 3) b (by decide) (by decide)
    hb.tables.first_present (by decide) (ownEntry_of_ne (by omega) (by omega) _)
  have h₁ : i386AllocatePage q 0x17c000 3 3 = some ((.success, 4096 * 380), q.withPage L b 0 380 (4096 * 380 + 3)) :=
    hb.tables.allocatePage_present (by decide) (by decide) (by decide) hb.tables.first_present
      (show i386MemAllocateFrame q.meminfo q.frames = some (380, b) by simp [i386MemAllocateFrame, hnext, hb380])
      (by decide) (by decide) 3
  have h₂ : i386AllocatePage (q.withPage L b 0 380 (4096 * 380 + 3)) 0x17d000 3 3 =
      some ((.oom, 0), q.withPage L b 0 380 (4096 * 380 + 3)) := Tables.allocatePage_none (by decide) hnone
  refine ⟨b, asa₁, asa₂, halloc, hfill, htab, hpde, by rw [hentry 380 (by decide), if_pos rfl], fun r q₂ hfree' => ?_⟩
  generalize q.withPage L b 0 380 (4096 * 380 + 3) = q₁ at h₁ h₂ hfree'
  have hmap : kheapMapPages i386Paging 0x17c000 2 0 q = some (some 1, q₁) := by
    have hk₁ : i386Paging.kpageAllocate 0x17c000 kpagePresentRw q = some (.success, q₁) := by
      simp [i386Paging, i386KpageAllocate, kpagePresentRw, h₁]
    have hk₂ : i386Paging.kpageAllocate 0x17d000 kpagePresentRw q₁ = some (.oom, q₁) := by
      simp [i386Paging, i386KpageAllocate, kpagePresentRw, h₂]
    simp [kheapMapPages, pageSize, u32, hk₁, hk₂, KReturn.failed]
  have hunmap : kheapUnmapPages i386Paging 0x17c000 1 q₁ = some q₂ := by
    have hk : i386Paging.kpageFree 0x17c000 q₁ = some (r, q₂) := hfree'
    simp [kheapUnmapPages, pageSize, u32, hk]
  have hpages : expandPages 4096 = .ok 2 := rfl
  rw [kheapExpand, hpages, ok_bind]
  exact liftM_eq_ok.mpr (by simp [kheapExpandBy, halloc, hmap, hfree, hunmap])

/-- The two pages are unmapped after boot. -/
theorem Booted.unmapped_high (hb : Booted L q) : ∀ p ∈ asaPages 0x17c000 2, q.translate (4096 * p) = none := by
  intro p hp
  obtain ⟨h1, h2⟩ : 380 ≤ p ∧ p < 382 := hp
  rw [hb.tables.translate (by omega), show 4096 * p / 4096 = p by omega, hb.high p (by omega) (by omega)]
  rfl

/-- A kernel that ends at `0x110000`, with one free frame. -/
theorem heap_expand_rolls_back_one : ∃ s₀ asa s', kernelEarly (bootOneFrame 0x110000 (by decide)) (fun _ => 0) = .ok (s₀, asa) ∧
    kheapExpand i386Paging ⟨kheapKallocInstall, asa, s₀⟩ 4096 = .ok (.oom, s') ∧
    RolledBack ⟨kheapKallocInstall, asa, s₀⟩ s' 0x17c000 2 := by
  obtain ⟨L, q, asa, hboot, hb, ha, hstart, hhigh, hbit⟩ :=
    @bootOneFrame_ok 0x110000 (by decide) (by decide) (by decide) (by decide) fun _ => 0
  have hwindow : q.windowPage < kvirtReserved := by
    rw [hb.window, hstart]
    decide
  have hw := (hb.kernelInv ha hwindow kheapKallocInstall).window
  obtain ⟨b, asa₁, asa₂, halloc, hfill, htab, hpde, hentry, hexp⟩ := hb.expand_oneFrame ha hhigh hbit kheapKallocInstall
  have hpres : (q.withPage L b 0 380 (4096 * 380 + 3)).pde (0x17c000 / pageSize / 1024) % 2 = 1 := by
    rw [hpde _ (by decide)]
    exact hb.tables.first_present
  have hlen : 380 < b.length := by rw [hfill.length, hb.length, hhigh]; decide
  obtain ⟨b', hb'⟩ := bitsetClearBit_ok (b := b) (n := 380) hlen
  have hown : 0x17c000 / 4096 ∉ L.own := above_own (by decide) (by omega)
  obtain ⟨s', hfree, -⟩ := htab.freePage (v := 0x17c000) (by decide) (by decide) hpres hown (b := b')
    (by rw [show 0x17c000 / 4096 = 380 by decide, hentry]; exact hb')
  have hfail := hexp _ s' hfree
  exact ⟨q, asa, _, hboot, hfail, heap_expand_rolls_back _ _ q asa hboot hwindow kheapKallocInstall _ .refl 4096 2 _ asa₁
    rfl halloc (by decide) hb.unmapped_high _ hfail⟩

/-- A kernel that ends at `0x12a000`, the last that the ASSERT lets boot: the
first page of the range is the window's. Freeing it clears the bit of the
page table it was last aimed at, and the page's frame is lost. -/
theorem heap_expand_loses_frame : ∃ s₀ asa asa₁ s', kernelEarly (bootOneFrame 0x12a000 (by decide)) (fun _ => 0) = .ok (s₀, asa) ∧
    expandPages 4096 = .ok 2 ∧ asaAlloc asa 2 = some (0x17c000, asa₁) ∧
    (∀ p ∈ asaPages 0x17c000 2, s₀.translate (4096 * p) = none) ∧
    kheapExpand i386Paging ⟨kheapKallocInstall, asa, s₀⟩ 4096 = .ok (.oom, s') ∧
    ¬ RolledBack ⟨kheapKallocInstall, asa, s₀⟩ s' 0x17c000 2 := by
  obtain ⟨L, q, asa, hboot, hb, ha, hstart, hhigh, hbit⟩ :=
    @bootOneFrame_ok 0x12a000 (by decide) (by decide) (by decide) (by decide) fun _ => 0
  have hd := L.dir_lt; have ht := L.table_lt
  have hw : L.window = 380 := by
    have hwin := hb.window
    rw [hb.tables.window, hstart] at hwin
    omega
  obtain ⟨b, asa₁, asa₂, halloc, hfill, htab, hpde, hentry, hexp⟩ := hb.expand_oneFrame ha hhigh hbit kheapKallocInstall
  have hfirst : (q.withPage L b 0 380 (4096 * 380 + 3)).pde 0 = 4096 * L.table + 3 := htab.first
  have hpres : (q.withPage L b 0 380 (4096 * 380 + 3)).pde (0x17c000 / pageSize / 1024) % 2 = 1 := htab.first_present
  obtain ⟨q₁, heff, hframes, hfree⟩ := htab.freePage_present (v := 0x17c000) (by decide) (by decide) hpres
  have hpde₁ : q₁.pde (0x17c000 / pageSize / 1024) / 4096 = L.table := heff.tables.first_frame
  have hlen : L.table < b.length := by
    rw [hfill.length, hb.length, hhigh]
    omega
  obtain ⟨b', hb'⟩ := bitsetClearBit_ok (b := b) (n := L.table) hlen
  have hwipe := (bitsetClearBit_wiped hb').2
  -- The window's entry, just aimed at the first table.
  have haim : (q₁.aim L (4096 * L.table)).entry (0x17c000 / 4096) / 4096 = L.table := by
    rw [show 0x17c000 / 4096 = L.window by omega, heff.tables.aimed]
    omega
  rw [hpde₁, haim, show (q.withPage L b 0 380 (4096 * 380 + 3)).frames = b from rfl, hb', Option.map_some] at hfree
  have hfail := hexp _ _ hfree
  refine ⟨q, asa, asa₁, _, hboot, rfl, halloc, hb.unmapped_high, hfail, fun hrolled => ?_⟩
  have hclear : q.frames.bit 380 = false := hbit 380 (by decide) (by decide)
  have hset : b'.bit 380 = true := by
    rw [hwipe.outside (by omega)]
    exact hfill.inside (Nat.le_refl 380) (by decide)
  obtain ⟨t, htlt, hodd, hframe⟩ := hrolled.frames 380 (by show 380 < q.frames.length; rw [hb.length, hhigh]; decide)
    (by show b'.bit 380 ≠ q.frames.bit 380; rw [hset, hclear]; decide)
  have hsame : ((q₁.aim L (4096 * L.table)).put (4096 * L.table + 4 * (0x17c000 / pageSize % 1024)) ptRw).pde t = q.pde t := by
    have ha := heff.tables.aim (a := 4096 * L.table) (by omega)
    rw [ha.pde_put L.apart.symm (by decide) htlt, heff.tables.aim_pde htlt, heff.pde t htlt, hpde t htlt]
  have hodd' : ((q₁.aim L (4096 * L.table)).put (4096 * L.table + 4 * (0x17c000 / pageSize % 1024)) ptRw).pde t &&& ptPresent ≠ 0 :=
    hodd
  have hframe' : ((q₁.aim L (4096 * L.table)).put (4096 * L.table + 4 * (0x17c000 / pageSize % 1024)) ptRw).pde t / 4096 = 380 :=
    hframe
  rw [hsame, ne_eq, and_present] at hodd'
  rw [hsame] at hframe'
  by_cases h0 : t = 0
  · rw [h0, hb.tables.first_frame] at hframe'
    omega
  · rw [hb.absent t (by omega) htlt] at hodd'
    exact hodd' rfl

end ShawnOS
