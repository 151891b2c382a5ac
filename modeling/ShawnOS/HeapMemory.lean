/-
The kernel heap is memory.

Every page of every block on the heap's list is mapped, writable, to a frame
of its own (`HeapMapped`): an expansion maps the pages of the block it adds,
and no call of the heap names a page of a block that is on the list. So the
bytes of the live allocations are bytes of physical memory, each its own, and
keep what was stored there last through any further calls, whatever the heap
stores to its headers and bitsets meanwhile.
-/
import ShawnOS.HeapFacts
import ShawnOS.KmallocPhys
import ShawnOS.PagingMemory

namespace ShawnOS

open Word32 Holders Runs

variable {s s' : HeapState PagingState} {q q' : PagingState} {L : Layout} {R R' : Set Nat}

/-! ## Calls on some pages only -/

/-- A paging call that changes entries of the pages of `R` at most. -/
def CallOn (R : Set Nat) (q q' : PagingState) : Prop :=
  ∃ c r, KeepsFrames q c ∧ PageCall.exec c q = some (r, q') ∧ ∀ p, c.remaps r = some p → p ∈ R

/-- Any number of them. -/
def CallsOn (R : Set Nat) : PagingState → PagingState → Prop := Relation.ReflTransGen (CallOn R)

theorem CallsOn.mono (h : CallsOn R q q') (hsub : R ⊆ R') : CallsOn R' q q' := by
  have hstep : CallOn R ≤ CallOn R' := by
    rintro q q' ⟨c, r, hk, he, hr⟩
    exact ⟨c, r, hk, he, fun p hp => hsub (hr p hp)⟩
  exact Relation.ReflTransGen.mono hstep q q' h

/-- The page has a frame of its own, and may be written. -/
def Writable (L : Layout) (q : PagingState) (p : Nat) : Prop := ∃ f, Backed L q p f ∧ q.entry p = 4096 * f + 3

theorem CallOn.keeps (h : PagingInv L q) (hc : CallOn R q q') :
    PagingInv L q' ∧ (∀ p, p ∉ R → Writable L q p → Writable L q' p) ∧
      ∀ v, v / 4096 ∉ R → Writable L q (v / 4096) → q'.loadByte v = q.loadByte v := by
  obtain ⟨c, r, hk, he, hr⟩ := hc
  have hentry {p : Nat} (hp : p ∉ R) (hlt : p < 2 ^ 20) (hw : p ≠ L.window) : q'.entry p = q.entry p :=
    h.call_entry hk he hlt hw fun hrem => hp (hr p hrem)
  refine ⟨h.call hk he, fun p hp ⟨f, hb, hrw⟩ => ?_, fun v hv ⟨f, hb, _⟩ => ?_⟩
  · have he' := hentry hp hb.lt (not_own.mp hb.off).1
    exact ⟨f, hb.of_entry he', he'.trans hrw⟩
  · exact (h.call_backed hk he hb fun hrem => hv (hr _ hrem)).2

theorem CallsOn.keeps (h : PagingInv L q) (hc : CallsOn R q q') :
    PagingInv L q' ∧ (∀ p, p ∉ R → Writable L q p → Writable L q' p) ∧
      ∀ v, v / 4096 ∉ R → Writable L q (v / 4096) → q'.loadByte v = q.loadByte v := by
  induction hc with
  | refl => exact ⟨h, fun _ _ => id, fun _ _ _ => rfl⟩
  | tail _ hs ih =>
    obtain ⟨h₁, hw₁, hl₁⟩ := ih
    obtain ⟨h₂, hw₂, hl₂⟩ := hs.keeps h₁
    exact ⟨h₂, fun p hp hw => hw₂ p hp (hw₁ p hp hw), fun v hv hw => (hl₂ v hv (hw₁ _ hv hw)).trans (hl₁ v hv hw)⟩

/-! ## The calls of an expansion -/

theorem Tables.offStructures (h : Tables L q) {c : PageCall} {p : Nat} (hc : c.address = 4096 * p) (hp : p ∉ L.own) :
    c.OffStructures q := by
  obtain ⟨hw, hd, ht⟩ := not_own.mp hp
  refine ⟨?_, ?_, ?_⟩
  · rw [h.window, hc]
    omega
  · rw [h.dir, hc]
    omega
  · rw [h.first_frame, hc]
    omega

/-- A call on a page from `KVIRT_RESERVED` on. -/
theorem Tables.keepsAbove (h : Tables L q) {c : PageCall} {p : Nat} (hc : c.address = 4096 * p)
    (hflags : ∀ f ∈ c.flags, f < 4096) (hge : 380 ≤ p) (hp : p < 2 ^ 20) (hown : p ∉ L.own) (hfree : c.FreeFrame q) :
    KeepsFrames q c := by
  have hw := L.window_le
  refine ⟨⟨?_, by omega, hflags⟩, h.offStructures hc hown, h.offKernel (by omega), hfree⟩
  rw [hc]
  exact Nat.mul_mod_right 4096 p

/-- `kpage_allocate` of one page: only its entry changes, and where the call
succeeds the page is mapped. -/
theorem PagingInv.kpageAllocate_on (h : PagingInv L q) {p : Nat} (hge : 380 ≤ p) (hp : p < 2 ^ 20) (hown : p ∉ L.own)
    {r : KReturn}
    (he : i386Paging.kpageAllocate (4096 * p) kpagePresentRw q = some (r, q')) :
    CallOn {p} q q' ∧ (¬ r.failed → Writable L q' p) := by
  have hpage : 4096 * p / 4096 = p := by omega
  obtain ⟨⟨⟨ret, a⟩, q₁⟩, hexec, hr⟩ := Option.bind_eq_some_iff.mp he
  cases hr
  have hk := h.tables.keepsAbove (c := .allocate (4096 * p) 3 3) rfl (by simp [PageCall.flags]) hge hp hown trivial
  refine ⟨⟨_, _, hk, hexec, fun x hx => ?_⟩, fun hok => ?_⟩
  · simp only [PageCall.remaps, hpage] at hx
    split at hx
    · cases hx
      rfl
    · cases hx
  · -- A call that succeeds leaves the entry of a fresh frame.
    have hset {f : Nat} {pde' : Nat → Nat} (hf : f ≠ 0)
        (heff : Effect L q q' pde' (Function.update q.entry (4096 * p / 4096) (4096 * f + 3))) : Writable L q' p := by
      have hentry := heff.entry p hp (not_own.mp hown).1
      rw [hpage, Function.update_self] at hentry
      exact ⟨f, ⟨hp, hown, maps_of_eq hentry, hf⟩, hentry⟩
    cases h.call_end hk hexec with
    | allocated hpt hpd ha =>
      cases ha with
      | oom => exact absurd rfl hok
      | tableOom => exact absurd rfl hok
      | mapped _ hf _ heff => exact hset hf.pos heff
      | newTable _ hf _ _ _ _ heff => exact hset hf.pos heff
      | lost _ _ _ _ _ heven _ => cases heven

theorem PagingInv.kpageFree_on (h : PagingInv L q) {p : Nat} (hge : 380 ≤ p) (hp : p < 2 ^ 20) (hown : p ∉ L.own) {r : KReturn}
    (he : i386Paging.kpageFree (4096 * p) q = some (r, q')) : CallOn {p} q q' := by
  have hpage : 4096 * p / 4096 = p := by omega
  have hk := h.tables.keepsAbove (c := .free (4096 * p)) rfl (by simp [PageCall.flags]) hge hp hown trivial
  have hfree : i386FreePage q (4096 * p) = some (r, q') := he
  refine ⟨_, (r, 0), hk, by simp [PageCall.exec, hfree], fun x hx => ?_⟩
  simp only [PageCall.remaps, hpage] at hx
  cases hx
  rfl

variable {lo n : Nat}

/-- The mapping loop: it names pages of the range only, and where it gets to
the end all of them are mapped. -/
theorem PagingInv.mapPages (hlo : 380 ≤ lo) (hown : ∀ p, 380 ≤ p → p ∉ L.own) :
    ∀ {rem i : Nat} {q q' : PagingState} {o : Option Nat}, PagingInv L q → lo + i + rem ≤ 2 ^ 20 → i + rem = n →
      kheapMapPages i386Paging (4096 * lo) rem i q = some (o, q') → (∀ j < i, Writable L q (lo + j)) →
      CallsOn (pageRange lo n) q q' ∧ (o = none → ∀ j < n, Writable L q' (lo + j))
  | 0, i, q, q', o, _, _, hn, he, hmapped => by
    cases he
    refine ⟨.refl, fun _ j hj => hmapped j (by omega)⟩
  | rem + 1, i, q, q', o, h, hle, hn, he, hmapped => by
    rw [kheapMapPages, page_addr (by omega)] at he
    obtain ⟨⟨ret, q₁⟩, hcall, he⟩ := Option.bind_eq_some_iff.mp he
    obtain ⟨hon, hnew⟩ := h.kpageAllocate_on (show 380 ≤ lo + i by omega) (by omega) (hown _ (by omega)) hcall
    obtain ⟨h₁, hkeep, -⟩ := hon.keeps h
    have hfirst : CallsOn (pageRange lo n) q q₁ := by
      refine CallsOn.mono (Relation.ReflTransGen.single hon) ?_
      rintro p rfl
      exact ⟨by omega, by omega⟩
    dsimp only at he
    split at he
    · cases he
      exact ⟨hfirst, fun hnone => by cases hnone⟩
    · next hok =>
      have hmapped₁ : ∀ j < i + 1, Writable L q₁ (lo + j) := by
        intro j hj
        by_cases hlast : j = i
        · rw [hlast]
          exact hnew hok
        · exact hkeep _ (show lo + j ≠ lo + i by omega) (hmapped j (by omega))
      obtain ⟨hrest, hall⟩ := PagingInv.mapPages hlo hown h₁ (by omega) (by omega) he hmapped₁
      exact ⟨hfirst.trans hrest, hall⟩

theorem PagingInv.unmapPages (hlo : 380 ≤ lo) (hown : ∀ p, 380 ≤ p → p ∉ L.own) :
    ∀ {i : Nat} {q q' : PagingState}, PagingInv L q → lo + i ≤ 2 ^ 20 → i ≤ n →
      kheapUnmapPages i386Paging (4096 * lo) i q = some q' → CallsOn (pageRange lo n) q q'
  | 0, q, q', _, _, _, he => by
    cases he
    exact .refl
  | i + 1, q, q', h, hle, hn, he => by
    rw [kheapUnmapPages, page_addr (by omega)] at he
    obtain ⟨⟨ret, q₁⟩, hcall, he⟩ := Option.bind_eq_some_iff.mp he
    have hon := h.kpageFree_on (show 380 ≤ lo + i by omega) (by omega) (hown _ (by omega)) hcall
    refine Relation.ReflTransGen.trans (CallsOn.mono (Relation.ReflTransGen.single hon) ?_)
      (PagingInv.unmapPages hlo hown (hon.keeps h).1 (by omega) (by omega) he)
    rintro p rfl
    exact ⟨by omega, by omega⟩

/-! ## Expansions -/

theorem heapPages_congr {heap heap' : Kheap} (h : heap'.blocks.map blockPages = heap.blocks.map blockPages) :
    heapPages heap' = heapPages heap := by
  rw [heapPages, h, heapPages]

/-- A new block's pages come to those of the others. -/
theorem heapPages_cons {heap heap' : Kheap} {b : KheapBlock} (h : heap'.blocks = b :: heap.blocks) :
    heapPages heap' = pageRange (b.start / 4096) (b.blockSize / 4096) ∪ heapPages heap := by
  ext p
  simp only [heapPages, h, List.map_cons, List.mem_cons, exists_eq_or_imp, Set.mem_union]
  rfl

/-- Every page of the heap is mapped, and may be written. -/
structure HeapMapped (L : Layout) (s : HeapState PagingState) : Prop where
  kernel : KernelInv L s
  ok : HeapOk s
  mapped : ∀ p ∈ heapPages s.heap, Writable L s.paging p

/-- What a call of the heap does to memory: the blocks stay on the list, and
no entry of a page of theirs changes. -/
structure OffHeap (s s' : HeapState PagingState) : Prop where
  pages : heapPages s.heap ⊆ heapPages s'.heap
  calls : CallsOn (heapPages s.heap)ᶜ s.paging s'.paging

theorem OffHeap.same (hheap : heapPages s'.heap = heapPages s.heap) (hpaging : s'.paging = s.paging) : OffHeap s s' :=
  ⟨hheap ▸ subset_rfl, hpaging ▸ .refl⟩

theorem OffHeap.trans {s₁ : HeapState PagingState} (h₁ : OffHeap s s₁) (h₂ : OffHeap s₁ s') : OffHeap s s' :=
  ⟨h₁.pages.trans h₂.pages,
    Relation.ReflTransGen.trans h₁.calls (h₂.calls.mono (Set.compl_subset_compl.mpr h₁.pages))⟩

/-- What `asa_alloc` hands out is no page of the heap. -/
theorem HeapOk.alloc_off {σ : Type} {s : HeapState σ} (h : HeapOk s) {n loc : Nat} {asa : Asa}
    (halloc : asaAlloc s.asa n = some (loc, asa)) (hne : loc ≠ 0) :
    0 < n ∧ pageRange (loc / 4096) n ⊆ (heapPages s.heap)ᶜ := by
  rcases asaAlloc_cases h.asa.length_lt (n := n) with ⟨h0, -⟩ | ⟨f, pages, hn, hf, -, h1⟩
  · rw [halloc] at h0
    exact absurd (Prod.mk.inj (Option.some.inj h0)).1 hne
  · obtain ⟨-, haddr⟩ := h.asa.firstFit hn hf
    rw [halloc, haddr] at h1
    have hloc := (Prod.mk.inj (Option.some.inj h1)).1
    refine ⟨hn, fun p hp ⟨r, hr, hpr⟩ => ?_⟩
    have hap := (h.asa.isLive r hr).apart_of_clear hf.clear hn
    have hp1 := hp.1; have hp2 := hp.2; have hr1 := hpr.1; have hr2 := hpr.2
    omega

/-- **An expansion** maps what it adds, and leaves the other blocks' pages. -/
theorem HeapMapped.expandBy (h : HeapMapped L s) {n : Nat} {r : KReturn}
    (he : kheapExpandBy i386Paging s n = some (r, s')) : HeapMapped L s' ∧ OffHeap s s' := by
  have hkernel := (@KernelInv.expandBy s s' L ∅ h.kernel n r he fun _ hp => hp.elim).1
  have hok : HeapOk s' := by
    rcases @kheapExpandBy_cases _ i386Paging s h.ok n with ⟨h1, -⟩ | ⟨t, h1, h2, -⟩ | ⟨t, b, h1, h2⟩
    · cases h1.symm.trans he
    · cases h1.symm.trans he
      exact h.ok.expansion (.inl h2)
    · cases h1.symm.trans he
      exact h.ok.expansion (.inr ⟨b, n, h2⟩)
  cases kheapExpandBy_end he with
  | full halloc => exact ⟨⟨hkernel, hok, h.mapped⟩, .same rfl rfl⟩
  | unmapped halloc hne hmap hfree hunmap =>
    obtain ⟨hlo, hhi, hloc⟩ := h.kernel.pages halloc hne
    have hoff := (h.ok.alloc_off halloc hne).2
    rw [← hloc] at hmap hunmap
    obtain ⟨hcalls, -⟩ := h.kernel.inv.mapPages hlo (fun p => h.kernel.own) (show _ + 0 + n ≤ 2 ^ 20 by omega)
      (Nat.zero_add n) hmap fun _ hj => absurd hj (Nat.not_lt_zero _)
    obtain ⟨hi, -⟩ := (@KernelInv.mapPages s L ∅ h.kernel n _ _ halloc hne (fun _ hp => hp.elim) _ _ (hloc ▸ hmap)).2 _ rfl
    have hback := (hcalls.keeps h.kernel.inv).1.unmapPages hlo (fun p => h.kernel.own) (by omega) (Nat.le_of_lt hi) hunmap
    have hall : CallsOn (heapPages s.heap)ᶜ s.paging _ := CallsOn.mono (Relation.ReflTransGen.trans hcalls hback) hoff
    exact ⟨⟨hkernel, hok, fun p hp => (hall.keeps h.kernel.inv).2.1 p (not_not.mpr hp) (h.mapped p hp)⟩, subset_rfl, hall⟩
  | @added loc asa q heap halloc hne hmap hadd =>
    obtain ⟨hlo, hhi, hloc⟩ := h.kernel.pages halloc hne
    obtain ⟨hn, hoff⟩ := h.ok.alloc_off halloc hne
    have hblock := kheapAddBlock_fresh (i386Paging.memory q) s.heap hn (by omega) (show loc + 4096 * n ≤ _ by omega)
    obtain ⟨b, hb, hstart, hfresh⟩ := hblock
    rw [u32_pages, Nat.mod_eq_of_lt (show n < 2 ^ 20 by omega), h.ok.sectSize, hb, Option.some.injEq] at hadd
    rw [← hloc] at hmap
    obtain ⟨hcalls, hall⟩ := h.kernel.inv.mapPages hlo (fun p => h.kernel.own) (show _ + 0 + n ≤ 2 ^ 20 by omega)
      (Nat.zero_add n) hmap fun _ hj => absurd hj (Nat.not_lt_zero _)
    have hpages : heapPages heap = pageRange (loc / 4096) n ∪ heapPages s.heap := by
      rw [← hstart, ← hfresh.pages_eq]
      exact heapPages_cons (congrArg Kheap.blocks hadd.symm)
    have hcalls' := hcalls.mono hoff
    refine ⟨⟨hkernel, hok, fun p hp => ?_⟩, hpages ▸ Set.subset_union_right, hcalls'⟩
    rw [show heapPages _ = _ from hpages] at hp
    rcases hp with ⟨h1, h2⟩ | hp
    · rw [show p = loc / 4096 + (p - loc / 4096) by omega]
      exact hall rfl _ (by omega)
    · exact (hcalls'.keeps h.kernel.inv).2.1 p (not_not.mpr hp) (h.mapped p hp)

theorem HeapMapped.expand (h : HeapMapped L s) {size : Nat} {r : KReturn}
    (he : kheapExpand i386Paging s size = .ok (r, s')) : HeapMapped L s' ∧ OffHeap s s' := by
  obtain ⟨n, -, he⟩ := bind_eq_ok.mp he
  exact h.expandBy (liftM_eq_ok.mp he)

/-! ## Calls of the heap -/

theorem HeapMapped.mallocLoop {size align : Nat} {manual : Bool} (hs : size < 2 ^ 32) :
    ∀ {fuel : Nat} {s s' : HeapState PagingState} {r : KReturn} {out : Option Nat}, HeapMapped L s →
      kheapMallocLoop i386Paging size align manual fuel s = .ok (r, out, s') → HeapMapped L s' ∧ OffHeap s s'
  | 0, _, _, _, _, _, hm => by cases hm
  | fuel + 1, s, s', r, out, h, hm => by
    unfold kheapMallocLoop at hm
    split at hm
    · cases hm
      exact ⟨h, .same rfl rfl⟩
    · rcases kheapMallocPass_cases hs align manual h.ok.shape h.ok.hint with
        ⟨hpass, -⟩ | ⟨l₁, b, l₂, b', f, hl, -, ht, hpass⟩
      · rw [hpass, liftM_some, ok_bind] at hm
        obtain ⟨⟨ret, s₁⟩, hexp, hm⟩ := bind_eq_ok.mp hm
        obtain ⟨h₁, hoff₁⟩ := h.expand hexp
        dsimp only at hm
        split at hm
        · cases hm
          exact ⟨h₁, hoff₁⟩
        · obtain ⟨h₂, hoff₂⟩ := h₁.mallocLoop hs hm
          exact ⟨h₂, hoff₁.trans hoff₂⟩
      · rw [hpass, liftM_some, ok_bind] at hm
        cases hm
        have hpages : (l₁ ++ b' :: l₂).map blockPages = s.heap.blocks.map blockPages := by
          rw [hl]
          exact blockPages_middle ht.commit.start ht.commit.size
        refine ⟨⟨h.kernel.withHeap _, h.ok.commit hl ht, fun p hp => h.mapped p ?_⟩, .same (heapPages_congr hpages) rfl⟩
        rwa [heapPages_congr hpages] at hp

theorem HeapMapped.malloc (h : HeapMapped L s) {size align : Nat} {r : KReturn} {out : Option Nat} (hs : size < 2 ^ 32)
    (hm : kheapMalloc i386Paging s size align = .ok (r, out, s')) : HeapMapped L s' ∧ OffHeap s s' := by
  have hpad := paddedSize_lt s.heap align hs
  unfold kheapMalloc at hm
  dsimp only at hm
  split at hm
  · obtain ⟨⟨ret, s₁⟩, hexp, hm⟩ := bind_eq_ok.mp hm
    obtain ⟨h₁, hoff₁⟩ := h.expand hexp
    dsimp only at hm
    split at hm
    · cases hm
      exact ⟨h₁, hoff₁⟩
    · obtain ⟨h₂, hoff₂⟩ := h₁.mallocLoop hpad hm
      exact ⟨h₂, hoff₁.trans hoff₂⟩
  · exact h.mallocLoop hpad hm

variable {live live' : List (Nat × Nat)} {run : Nat → Run} {m : Nat → Option Nat}

theorem HeapMapped.step {t t' : HeapState PagingState × List (Nat × Nat)} (h : HeapMapped L t.1) (hinv : HeapInv t.1 t.2 run)
    (hs : HeapStep i386Paging t t') : HeapMapped L t'.1 ∧ OffHeap t.1 t'.1 := by
  cases hs with
  | malloc _ hsz hm => exact h.malloc (by omega) hm
  | failed _ hsz hm => exact h.malloc (by omega) hm
  | @free s live x r heap hx hf =>
    obtain ⟨l₁, b, l₂, b', k, n, hl, -, -, -, hfreed, he, hinv'⟩ := hinv.free hx
    cases he.symm.trans hf
    have hpages : heapPages (s.release (l₁ ++ b' :: l₂) n).heap = heapPages s.heap :=
      heapPages_congr ((blockPages_middle hfreed.start hfreed.size).trans (congrArg (List.map blockPages) hl.symm))
    exact ⟨⟨h.kernel.withHeap _, hinv'.ok, fun p hp => h.mapped p (hpages ▸ hp)⟩, .same hpages rfl⟩

/-! ## Bytes of the heap -/

/-- A byte of a block is on one of its pages. -/
theorem HeapOk.page_mem {σ : Type} {s : HeapState σ} (h : HeapOk s) {b : KheapBlock} {v : Nat} (hb : b ∈ s.heap.blocks)
    (hlo : b.start ≤ v) (hhi : v < b.start + b.blockSize) : v / 4096 ∈ heapPages s.heap := by
  have hsize := (h.shape b hb).size; have hal := (h.shape b hb).aligned
  refine ⟨_, List.mem_map_of_mem hb, ?_, ?_⟩
  · exact Nat.div_le_div_right hlo
  · simp only [blockPages]
    omega

theorem HeapInv.live_page (h : HeapInv s live run) (hr : RangesIn live run) {y : Nat × Nat} {v : Nat} (hy : y ∈ live)
    (hv : v ∈ heapRange y) : v / 4096 ∈ heapPages s.heap := by
  obtain ⟨b, hb, hin, -⟩ := h.insideBlock hr hy
  exact h.ok.page_mem hb (hin hv).1 (hin hv).2

/-- The heap's own data: its bytes are on its pages, and none is a live
allocation's. -/
theorem HeapInv.metadata_page (h : HeapInv s live run) {b : KheapBlock} {v : Nat} (hb : b ∈ s.heap.blocks)
    (hv : b.metadata v) : b.start ≤ v ∧ v < b.start + b.blockSize := by
  have hinv := h.block b hb
  have hlt := hinv.metadata_lt hv
  have hsize := hinv.size; have hpages := hinv.pages
  have hused := hinv.usedStart; have hdelim := hinv.delimStart
  unfold reservedSections at hlt
  unfold KheapBlock.metadata at hv
  omega

theorem HeapInv.metadata_off (h : HeapInv s live run) (hr : RangesIn live run) {b : KheapBlock} {u v : Nat}
    (hb : b ∈ s.heap.blocks) (hu : b.metadata u) {y : Nat × Nat} (hy : y ∈ live) (hv : v ∈ heapRange y) : v ≠ u := by
  rintro rfl
  obtain ⟨c, hc, hin, hmeta⟩ := h.insideBlock hr hy
  obtain ⟨h1, h2⟩ := h.metadata_page hb hu
  have hcb := h.ok.block_of_byte hb hc h1 h2 (hin hv).1 (hin hv).2
  exact hmeta v hv (hcb ▸ hu)

/-- **A store to a page of the heap** changes the one byte. -/
theorem HeapMapped.store (h : HeapMapped L s) {v x : Nat} (hv : v / 4096 ∈ heapPages s.heap) (hx : x < 256)
    (he : s.paging.storeByte v x = some q) : HeapMapped L { s with paging := q } ∧
      ∀ u, u / 4096 ∈ heapPages s.heap → q.loadByte u = if u = v then some x else s.paging.loadByte u := by
  obtain ⟨f, hb, -⟩ := h.mapped _ hv
  obtain ⟨q', he', hinv, hst, -⟩ := hb.store (x := x) h.kernel.inv
  cases he'.symm.trans he
  have hok := h.ok
  refine ⟨⟨⟨hinv, h.kernel.asa, h.kernel.window⟩, ⟨hok.sectSize, hok.minSize, hok.asa, hok.shape, hok.hint⟩,
    fun p hp => ?_⟩, fun u hu => ?_⟩
  · obtain ⟨g, hg, hrw⟩ := h.mapped p hp
    have hentry := hst.entry p hg.lt
    exact ⟨g, hg.of_entry hentry, hentry.trans hrw⟩
  · obtain ⟨g, hg, -⟩ := h.mapped _ hu
    exact hb.load_stored h.kernel.inv hg hx he

/-! ## Runs -/

/-- What was stored, less the bytes of no live allocation. -/
def onLive (live : List (Nat × Nat)) (m : Nat → Option Nat) : Nat → Option Nat :=
  fun v => if live.any (fun y => y.1 ≤ v ∧ v < y.1 + y.2) then m v else none

theorem onLive_eq_some {v x : Nat} : onLive live m v = some x ↔ (∃ y ∈ live, v ∈ heapRange y) ∧ m v = some x := by
  have hany : live.any (fun y => y.1 ≤ v ∧ v < y.1 + y.2) = true ↔ ∃ y ∈ live, v ∈ heapRange y := by
    simp [heapRange]
  unfold onLive
  split
  · next h => exact ⟨fun hm => ⟨hany.mp h, hm⟩, fun hm => hm.2⟩
  · next h => exact ⟨fun hm => (Option.some_ne_none _ hm.symm).elim, fun hm => absurd (hany.mpr hm.1) h⟩

/-- The kernel at work: a call of the heap, a store to a live allocation, a
store of the heap to its own data, a paging call off the heap's pages, or a
call of the address space allocator that frees none of them. With it goes what
the owners of the live bytes stored last. -/
inductive ObjectStep : (HeapState PagingState × List (Nat × Nat)) × (Nat → Option Nat) →
    (HeapState PagingState × List (Nat × Nat)) × (Nat → Option Nat) → Prop
  | heap {t t' : HeapState PagingState × List (Nat × Nat)} {m : Nat → Option Nat} : HeapStep i386Paging t t' →
      ObjectStep (t, m) (t', onLive t'.2 m)
  | store {s : HeapState PagingState} {live : List (Nat × Nat)} {m : Nat → Option Nat} {y : Nat × Nat} {v x : Nat}
      {q : PagingState} : y ∈ live → v ∈ heapRange y → x < 256 → s.paging.storeByte v x = some q →
      ObjectStep ((s, live), m) (({ s with paging := q }, live), Function.update m v (some x))
  | own {s : HeapState PagingState} {live : List (Nat × Nat)} {m : Nat → Option Nat} {b : KheapBlock} {v x : Nat}
      {q : PagingState} : b ∈ s.heap.blocks → b.metadata v → x < 256 → s.paging.storeByte v x = some q →
      ObjectStep ((s, live), m) (({ s with paging := q }, live), m)
  | page {s : HeapState PagingState} {live : List (Nat × Nat)} {m : Nat → Option Nat} {c : PageCall} {r : KReturn × Nat}
      {q : PagingState} : KeepsFrames s.paging c → c.exec s.paging = some (r, q) →
      (∀ p, c.remaps r = some p → p ∉ heapPages s.heap) → ObjectStep ((s, live), m) (({ s with paging := q }, live), m)
  | asa {s : HeapState PagingState} {live : List (Nat × Nat)} {m : Nat → Option Nat} {asa : Asa} :
      AsaOffCall (heapPages s.heap) s.asa asa → ObjectStep ((s, live), m) (({ s with asa }, live), m)

/-- The invariant of such runs. -/
structure ObjectInv (L : Layout) (s : HeapState PagingState) (live : List (Nat × Nat)) (m : Nat → Option Nat) : Prop where
  mapped : HeapMapped L s
  heap : ∃ run, HeapInv s live run ∧ RangesIn live run
  live : ∀ v x, m v = some x → ∃ y ∈ live, v ∈ heapRange y
  load : ∀ v x, m v = some x → s.paging.loadByte v = some x

theorem ObjectInv.page_mem (h : ObjectInv L s live m) {y : Nat × Nat} {v : Nat} (hy : y ∈ live) (hv : v ∈ heapRange y) :
    v / 4096 ∈ heapPages s.heap := by
  obtain ⟨run, hinv, hr⟩ := h.heap
  exact hinv.live_page hr hy hv

/-- What lies beside the heap's records is no part of its invariant. -/
theorem HeapInv.withPaging (h : HeapInv s live run) (q : PagingState) : HeapInv { s with paging := q } live run :=
  ⟨h.sectSize, h.minSize, h.asa, h.block, h.owned, h.apart, h.delim, h.total⟩

theorem AsaInv.alloc_other {a a' : Asa} {l : List (Nat × Nat)} (h : AsaInv a l) {n addr : Nat}
    (he : asaAlloc a n = some (addr, a')) : AsaInv a' l := by
  rcases asaAlloc_cases h.length_lt (n := n) with ⟨h1, -⟩ | ⟨f, pages, hn, hf, hp, h1⟩
  · cases h1.symm.trans he
    exact h
  · obtain ⟨-, rfl⟩ := Prod.mk.inj (Option.some.inj (h1.symm.trans he))
    have h' := h.alloc hn hf hp
    exact ⟨h'.pageSize, h'.length, h'.reserved, fun r hr => h'.isLive r (List.mem_cons_of_mem _ hr), h.apart⟩

/-- Freeing other pages keeps what is live. -/
theorem AsaInv.offCall {a a' : Asa} {l : List (Nat × Nat)} (h : AsaInv a l)
    (hc : AsaOffCall {p | ∃ r ∈ l, p ∈ pageRange (r.1 / 4096) r.2} a a') : AsaInv a' l := by
  cases hc with
  | alloc he => exact h.alloc_other he
  | @free addr n r hge hoff he =>
    obtain ⟨hps, hw⟩ := asaFree_wiped he
    rw [h.pageSize] at hw hoff
    unfold kvirtReserved at hge
    refine ⟨hps.trans h.pageSize, hw.length.trans h.length, fun j hj => ?_, fun t ht => ?_, h.apart⟩
    · rw [hw.outside (by omega)]
      exact h.reserved j hj
    · have hl := h.isLive t ht
      refine ⟨hl.pos, hl.aligned, hl.low, by rw [hw.length]; exact hl.high, fun j h1 h2 => ?_⟩
      have hj := hoff j ⟨t, ht, h1, h2⟩
      rw [hw.outside (by omega)]
      exact hl.used j h1 h2

/-- Calls that leave the heap's pages leave the bytes of the allocations. -/
theorem ObjectInv.keep_load (h : ObjectInv L s live m) (hc : CallsOn (heapPages s.heap)ᶜ s.paging q) {v x : Nat}
    (hm : m v = some x) : q.loadByte v = some x := by
  obtain ⟨y, hy, hv⟩ := h.live v x hm
  have hpage := h.page_mem hy hv
  rw [(hc.keeps h.mapped.kernel.inv).2.2 v (not_not.mpr hpage) (h.mapped.mapped _ hpage)]
  exact h.load v x hm

theorem ObjectInv.step {t t' : (HeapState PagingState × List (Nat × Nat)) × (Nat → Option Nat)}
    (h : ObjectInv L t.1.1 t.1.2 t.2) (hs : ObjectStep t t') : ObjectInv L t'.1.1 t'.1.2 t'.2 := by
  obtain ⟨run, hinv, hr⟩ := h.heap
  cases hs with
  | heap hstep =>
    obtain ⟨hmapped, hoff⟩ := h.mapped.step hinv hstep
    refine ⟨hmapped, hinv.step hr hstep, fun v x hm => (onLive_eq_some.mp hm).1, fun v x hm => ?_⟩
    exact h.keep_load hoff.calls (onLive_eq_some.mp hm).2
  | @store s live m y v x q hy hv hx he =>
    obtain ⟨hmapped, hload⟩ := h.mapped.store (h.page_mem hy hv) hx he
    refine ⟨hmapped, ⟨run, hinv.withPaging q, hr⟩, fun u z hm => ?_, fun u z hm => ?_⟩
    all_goals
      simp only [Function.update_apply] at hm
      split at hm
    · next huv => exact ⟨y, hy, huv ▸ hv⟩
    · exact h.live u z hm
    · next huv =>
      cases hm
      rw [hload u (huv ▸ h.page_mem hy hv), if_pos huv]
    · next huv =>
      obtain ⟨y', hy', hu⟩ := h.live u z hm
      rw [hload u (h.page_mem hy' hu), if_neg huv]
      exact h.load u z hm
  | @own s live m b v x q hb hmeta hx he =>
    obtain ⟨h1, h2⟩ := hinv.metadata_page hb hmeta
    obtain ⟨hmapped, hload⟩ := h.mapped.store (hinv.ok.page_mem hb h1 h2) hx he
    refine ⟨hmapped, ⟨run, hinv.withPaging q, hr⟩, h.live, fun u z hm => ?_⟩
    obtain ⟨y, hy, hu⟩ := h.live u z hm
    rw [hload u (h.page_mem hy hu), if_neg (hinv.metadata_off hr hb hmeta hy hu)]
    exact h.load u z hm
  | @page s live m c r q hk he hoff =>
    have hc : CallsOn (heapPages s.heap)ᶜ s.paging q := .single ⟨c, r, hk, he, hoff⟩
    obtain ⟨hinv', hw, -⟩ := hc.keeps h.mapped.kernel.inv
    have hok := h.mapped.ok
    refine ⟨⟨⟨hinv', h.mapped.kernel.asa, h.mapped.kernel.window⟩,
      ⟨hok.sectSize, hok.minSize, hok.asa, hok.shape, hok.hint⟩, fun p hp => hw p (not_not.mpr hp) (h.mapped.mapped p hp)⟩,
      ⟨run, hinv.withPaging q, hr⟩, h.live, fun v x hm => h.keep_load hc hm⟩
  | asa hc =>
    have hok := h.mapped.ok
    refine ⟨⟨⟨h.mapped.kernel.inv, h.mapped.kernel.asa.call hc.high, h.mapped.kernel.window⟩,
      ⟨hok.sectSize, hok.minSize, hok.asa.offCall hc, hok.shape, hok.hint⟩, h.mapped.mapped⟩, ⟨run, ?_, hr⟩, h.live, h.load⟩
    exact ⟨hinv.sectSize, hinv.minSize, hinv.asa.offCall hc, hinv.block, hinv.owned, hinv.apart, hinv.delim, hinv.total⟩

theorem ObjectInv.runs {t t' : (HeapState PagingState × List (Nat × Nat)) × (Nat → Option Nat)}
    (h : ObjectInv L t.1.1 t.1.2 t.2) (hrun : Relation.ReflTransGen ObjectStep t t') : ObjectInv L t'.1.1 t'.1.2 t'.2 := by
  induction hrun with
  | refl => exact h
  | tail _ hs ih => exact ih.step hs

theorem Booted.objectInv {s₀ : PagingState} (hb : Booted L s₀) {asa : Asa} (ha : AsaUpTo asa 380)
    (hw : s₀.windowPage < kvirtReserved) : ObjectInv L ⟨kheapKallocInstall, asa, s₀⟩ [] fun _ => none := by
  have hinv := HeapInv.start ha s₀
  refine ⟨⟨hb.kernelInv ha hw _, hinv.ok, fun p ⟨r, hr, _⟩ => ?_⟩, ⟨_, hinv, fun _ hx => by cases hx⟩,
    fun _ _ hm => (Option.some_ne_none _ hm.symm).elim, fun _ _ hm => (Option.some_ne_none _ hm.symm).elim⟩
  cases hr

/-- The bytes of the live allocations are memory. -/
structure HeldInMemory (s : HeapState PagingState) (live : List (Nat × Nat)) (m : Nat → Option Nat) : Prop where
  /-- What was stored last is loaded. -/
  load : ∀ v x, m v = some x → s.paging.loadByte v = some x
  /-- Each byte is mapped, may be written, and is none of a paging structure. -/
  mapped : ∀ y ∈ live, ∀ v ∈ heapRange y, ∃ a, s.paging.translate v = some a ∧ s.paging.entry (v / 4096) % 4 = 3 ∧
    a / 4096 ≠ s.paging.pageDirectory / 4096 ∧ ∀ t < 1024, s.paging.pde t % 2 = 1 → s.paging.pde t / 4096 ≠ a / 4096
  /-- No two bytes share one of physical memory. -/
  apart : ∀ y ∈ live, ∀ z ∈ live, ∀ u ∈ heapRange y, ∀ v ∈ heapRange z, u ≠ v → s.paging.translate u ≠ s.paging.translate v

theorem ObjectInv.held (h : ObjectInv L s live m) : HeldInMemory s live m := by
  have hinv := h.mapped.kernel.inv
  refine ⟨h.load, fun y hy v hv => ?_, fun y hy z hz u hu v hv hne he => ?_⟩
  · obtain ⟨f, hb, hrw⟩ := h.mapped.mapped _ (h.page_mem hy hv)
    have hplain := hb.plain hinv
    have hframe : inFrame f v / 4096 = f := by
      unfold inFrame
      omega
    refine ⟨_, hb.translate hinv.tables, by omega, ?_, fun t ht hpres => ?_⟩
    · rw [hframe, hinv.tables.dir, Nat.mul_div_cancel_left _ (by decide)]
      exact hplain.notDir
    · rw [hframe]
      exact hplain.noTable t ht hpres
  · obtain ⟨f, hf, -⟩ := h.mapped.mapped _ (h.page_mem hy hu)
    obtain ⟨g, hg, -⟩ := h.mapped.mapped _ (h.page_mem hz hv)
    rw [hf.translate hinv.tables, hg.translate hinv.tables, Option.some.injEq] at he
    obtain ⟨hfg, hoff⟩ := inFrame_inj he
    refine hf.once hinv hg (fun hp => hne ?_) hfg
    omega

/-- **The kernel heap is memory.** After boot, with the window below
`KVIRT_RESERVED`, and any interleaving of the heap's calls, of stores to live
allocations and to the heap's own data, and of paging and address space calls
elsewhere: every live byte is mapped to a byte of physical memory of its own,
away from the paging structures, and loads what its owner stored last. -/
theorem kernel_heap_is_memory (mboot : MultibootInfo) (mem : Nat → Nat) (s₀ : PagingState) (asa : Asa)
    (hboot : kernelEarly mboot mem = .ok (s₀, asa)) (hwindow : s₀.windowPage < kvirtReserved) (s : HeapState PagingState)
    (live : List (Nat × Nat)) (m : Nat → Option Nat)
    (hrun : Relation.ReflTransGen ObjectStep ((⟨kheapKallocInstall, asa, s₀⟩, []), fun _ => none) ((s, live), m)) :
    HeldInMemory s live m := by
  obtain ⟨L, hb, ha⟩ := kernelEarly_booted hboot
  exact ((hb.objectInv ha hwindow).runs hrun).held

/-- The second byte of the first allocation after boot. -/
theorem kernel_heap_is_memory_byte : ∃ s₀ asa s m,
    kernelEarly (boot128 0x110000 (by decide)) (fun _ => 0) = .ok (s₀, asa) ∧
    Relation.ReflTransGen ObjectStep ((⟨kheapKallocInstall, asa, s₀⟩, []), fun _ => none) ((s, [(0x180170, 100)]), m) ∧
    s.paging.loadByte 0x180171 = some 7 := by
  obtain ⟨L, s₀, asa, hboot, hb, ha, hstart, hhigh, hclear⟩ :=
    @boot128_ok 0x110000 (by decide) (by decide) (by decide) (by decide) fun _ => 0
  have hw : s₀.windowPage < kvirtReserved := by
    rw [hb.window, hstart]
    decide
  obtain ⟨q₁, hmap, -⟩ := hb.mapFirst (hb.kernelInv ha hw kheapKallocInstall).window hhigh hclear
  obtain ⟨s₁, -, hm⟩ := @kheapMalloc_firstAddr s₀ q₁ asa ha hmap 100 0 (by decide) (by decide) 0x180170 (by decide)
  have hfirst : Relation.ReflTransGen ObjectStep ((⟨kheapKallocInstall, asa, s₀⟩, []), fun _ => none)
      ((s₁, [(0x180170, 100)]), onLive [(0x180170, 100)] fun _ => none) :=
    .single (.heap (.malloc (by decide) (by decide) hm))
  have h₁ := (hb.objectInv ha hw).runs hfirst
  have hbyte : 0x180171 ∈ heapRange (0x180170, 100) := ⟨by decide, by decide⟩
  obtain ⟨f, hback, -⟩ := h₁.mapped.mapped _ (h₁.page_mem List.mem_cons_self hbyte)
  obtain ⟨q, hstore, -⟩ := hback.store (x := 7) h₁.mapped.kernel.inv
  have hrun := hfirst.tail (.store List.mem_cons_self hbyte (by decide) hstore)
  have hheld := kernel_heap_is_memory _ _ s₀ asa hboot hw _ _ _ hrun
  exact ⟨s₀, asa, _, _, hboot, hrun, hheld.load 0x180171 7 (Function.update_self ..)⟩

end ShawnOS
