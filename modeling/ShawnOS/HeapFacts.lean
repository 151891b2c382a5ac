/-
The kernel heap hands out disjoint memory.

A run is any sequence of `kheap_malloc` calls and of `kheap_free` calls on
live addresses, from `kheap_kalloc_install` on. Every state it reaches has
the heap's invariant (`HeapInv`) for some assignment of section runs to the
live allocations, and each allocation's bytes lie in its run (`RangesIn`).
-/
import ShawnOS.HeapMalloc

namespace ShawnOS

open Word32 Runs

variable {σ : Type} {kp : KpagingInterface σ} {s s' : HeapState σ}
variable {live : List (Nat × Nat)} {run : Nat → Run}

/-- The bytes of an allocation, given by its address and size. -/
def heapRange (x : Nat × Nat) : Set Nat := Set.Ico x.1 (x.1 + x.2)

/-- One call on the default heap, with the live allocations. -/
inductive HeapStep (kp : KpagingInterface σ) :
    HeapState σ × List (Nat × Nat) → HeapState σ × List (Nat × Nat) → Prop
  | malloc {s s' live size align out} : 1 ≤ size → size + align < 2 ^ 32 →
      kheapMalloc kp s size align = .ok (.success, some out, s') →
      HeapStep kp (s, live) (s', (out, size) :: live)
  | failed {s s' live size align r} : 1 ≤ size → size + align < 2 ^ 32 →
      kheapMalloc kp s size align = .ok (r, none, s') → HeapStep kp (s, live) (s', live)
  | free {s live x r heap} : x ∈ live → kheapFree s.heap x.1 = some (r, heap) →
      HeapStep kp (s, live) ({ s with heap }, live.erase x)

/-- The sections `kheap_free addr` would work on in `b`: from the address's
own up to the next delimiter. -/
def KheapBlock.ownSection (b : KheapBlock) (addr j : Nat) : Prop :=
  (addr - b.start) / b.sectionSize ≤ j ∧
    ∀ i, (addr - b.start) / b.sectionSize ≤ i → i < j → b.delimiters.bit i = false

/-- The block of `addr` has the bits of `addr`'s sections in both heaps. -/
def SameBits (heap heap' : Kheap) (addr : Nat) : Prop :=
  ∀ b ∈ heap.blocks, b.start ≤ addr → addr < b.start + b.blockSize →
    ∃ b' ∈ heap'.blocks, b'.start = b.start ∧ ∀ j, b.ownSection addr j →
      b'.usedSections.bit j = b.usedSections.bit j ∧ b'.delimiters.bit j = b.delimiters.bit j

/-- Each allocation's bytes end in its run. -/
def RangesIn (live : List (Nat × Nat)) (run : Nat → Run) : Prop :=
  ∀ x ∈ live, 1 ≤ x.2 ∧ x.1 + x.2 ≤ (run x.1).base + 16 * ((run x.1).first + (run x.1).n)

/-! ## The address returned -/

theorem alignOut_bounds {start align : Nat} (ha : 0 < align) (h : start + align ≤ 2 ^ 32) :
    start ≤ alignOut start align true ∧ alignOut start align true < start + align := by
  have hlt := Nat.mod_lt start ha
  simp only [alignOut, true_and]
  generalize start % align = r at *
  split
  · rw [u32_of_lt (by omega)]
    omega
  · omega

theorem alignOut_zero (start : Nat) (heap : Kheap) : alignOut start 0 (manualAlign heap 0) = start := by
  simp [alignOut, manualAlign]

theorem alignOut_aligned {start align : Nat} (h : start % align = 0) (manual : Bool) :
    alignOut start align manual = start := by
  simp [alignOut, h]

/-- The bytes asked for fit behind the address, in the sections taken. -/
theorem alignOut_fits (heap : Kheap) (start : Nat) {size align : Nat}
    (hpos : 1 ≤ size) (hs : size + align < 2 ^ 32)
    (hend : start + 16 * divRoundUp (paddedSize heap size align) 16 ≤ 2 ^ 32) :
    start ≤ alignOut start align (manualAlign heap align) ∧
      alignOut start align (manualAlign heap align) + size ≤
        start + 16 * divRoundUp (paddedSize heap size align) 16 := by
  have hman : manualAlign heap align = true → 0 < align := by
    intro h
    simp only [manualAlign, decide_eq_true_eq] at h
    exact h.1
  cases hm : manualAlign heap align with
  | false =>
    rw [paddedSize, hm] at hend ⊢
    simp only [Bool.false_eq_true, ite_false] at hend ⊢
    rw [divRoundUp_of_pos hpos (by omega)] at hend ⊢
    simp only [alignOut, Bool.false_eq_true, false_and, ite_false]
    omega
  | true =>
    rw [paddedSize, hm] at hend ⊢
    simp only [ite_true] at hend ⊢
    rw [u32_of_lt hs, divRoundUp_of_pos (by omega) hs] at hend ⊢
    have hb := alignOut_bounds (hman hm) (show start + align ≤ 2 ^ 32 by omega)
    omega

/-! ## Steps -/

theorem HeapInv.malloc (h : HeapInv s live run) (hr : RangesIn live run) {size align out : Nat} (hpos : 1 ≤ size)
    (hs : size + align < 2 ^ 32) (hm : kheapMalloc kp s size align = .ok (.success, some out, s')) :
    ∃ run', HeapInv s' ((out, size) :: live) run' ∧ RangesIn ((out, size) :: live) run' := by
  obtain ⟨s₁, hexp, hend⟩ := kheapMalloc_ok h.ok (by omega) hm
  have h₁ := h.expands hexp
  have hpad := paddedSize_lt s.heap align (show size < 2 ^ 32 by omega)
  cases hend with
  | @served l₁ b l₂ b' f hl _ ht =>
    have hbm : b ∈ s₁.heap.blocks := by rw [hl]; exact mem_middle.mpr (.inl rfl)
    have hb := h₁.block b hbm
    obtain ⟨hlo, hhi⟩ := hb.fit (nSec_pos hpad) ht.fit
    have hfits := hb.fits
    obtain ⟨h1, h2⟩ := alignOut_fits s.heap (b.start + 16 * f) hpos hs (by omega)
    refine ⟨_, h₁.served hpad hl ht size h1 (by omega), fun x hx => ?_⟩
    rcases List.mem_cons.mp hx with rfl | hx
    · rw [Function.update_self]
      exact ⟨hpos, by simp only; omega⟩
    · have hne := h₁.clear_fresh hbm ht.fit.clear (nSec_pos hpad) (by rw [hb.usedLength]; exact hhi) h1 (by omega) hx
      rw [Function.update_of_ne hne]
      exact hr x hx

theorem HeapInv.mallocFailed (h : HeapInv s live run) {size align : Nat} {r : KReturn} (hs : size + align < 2 ^ 32)
    (hm : kheapMalloc kp s size align = .ok (r, none, s')) : HeapInv s' live run := by
  obtain ⟨s₁, hexp, hend⟩ := kheapMalloc_ok h.ok (by omega) hm
  cases hend with
  | failed _ => exact h.expands hexp

theorem HeapInv.step {t t' : HeapState σ × List (Nat × Nat)} (h : HeapInv t.1 t.2 run) (hr : RangesIn t.2 run)
    (hs : HeapStep kp t t') : ∃ run', HeapInv t'.1 t'.2 run' ∧ RangesIn t'.2 run' := by
  cases hs with
  | malloc hpos hsz hm => exact h.malloc hr hpos hsz hm
  | failed hpos hsz hm => exact ⟨run, h.mallocFailed hsz hm, hr⟩
  | free hx hf =>
    obtain ⟨l₁, b, l₂, b', k, n, -, -, -, -, -, he, hinv⟩ := h.free hx
    rw [he] at hf
    cases hf
    exact ⟨run, hinv, fun y hy => hr y (List.mem_of_mem_erase hy)⟩

theorem heapStep_reach {a₀ : Asa} (ha : AsaUpTo a₀ 380) (q : σ) {t : HeapState σ × List (Nat × Nat)}
    (hrun : Relation.ReflTransGen (HeapStep kp) (⟨kheapKallocInstall, a₀, q⟩, []) t) :
    ∃ run, HeapInv t.1 t.2 run ∧ RangesIn t.2 run := by
  induction hrun with
  | refl => exact ⟨_, HeapInv.start ha q, fun x hx => by cases hx⟩
  | tail _ hs ih =>
    obtain ⟨run, h, hr⟩ := ih
    exact h.step hr hs

/-! ## What the invariant says of the bytes -/

theorem HeapInv.disjoint {x y : Nat × Nat} (h : HeapInv s live run) (hr : RangesIn live run) (hx : x ∈ live)
    (hy : y ∈ live) (hap : RunsApart (run x.1) (run y.1)) : Disjoint (heapRange x) (heapRange y) := by
  obtain ⟨b, hb, hlb⟩ := h.owned x hx
  obtain ⟨c, hc, hlc⟩ := h.owned y hy
  have h1 := (hr x hx).2; have h2 := (hr y hy).2
  have h3 := hlb.high_bytes (h.block b hb); have h4 := hlc.high_bytes (h.block c hc)
  have h5 := hlb.addr_le; have h6 := hlc.addr_le
  rw [hlb.base] at h1
  rw [hlc.base] at h2
  rw [Set.disjoint_left]
  intro z hz hz'
  simp only [heapRange, Set.mem_Ico] at hz hz'
  by_cases he : c.start = b.start
  · rcases hap with hap | hap | hap
    · exact hap (by rw [hlb.base, hlc.base, he])
    · omega
    · omega
  · obtain ⟨l₁, l₂, hl⟩ := List.append_of_mem hb
    rw [hl] at hc
    rcases mem_middle.mp hc with rfl | hc'
    · exact he rfl
    · have := h.others_byte hl hc' (x := z) (by omega) (by omega)
      omega

/-- A block's own data lies before the sections it hands out. -/
theorem BlockInv.metadata_lt {b : KheapBlock} {p y : Nat} (h : BlockInv b p) (hy : b.metadata y) :
    y < b.start + 16 * reservedSections p := by
  have hp := h.pages; have hple := h.pages_le
  have hw : divRoundUp (256 * p) 32 = 8 * p := by
    rw [divRoundUp_of_pos (by omega) (by omega)]
    omega
  unfold reservedSections
  simp only [KheapBlock.metadata, h.usedStart, h.delimStart, h.usedLength, h.delimLength, hw, sizeofKheapBlock] at hy
  omega

theorem HeapInv.insideBlock {x : Nat × Nat} (h : HeapInv s live run) (hr : RangesIn live run) (hx : x ∈ live) :
    ∃ b ∈ s.heap.blocks, heapRange x ⊆ Set.Ico b.start (b.start + b.blockSize) ∧
      ∀ y ∈ heapRange x, ¬ b.metadata y := by
  obtain ⟨b, hb, hl⟩ := h.owned x hx
  have h1 := (hr x hx).2; have h2 := hl.high_bytes (h.block b hb)
  have h3 := hl.addr_le; have h4 := hl.low
  rw [hl.base] at h1
  refine ⟨b, hb, fun z hz => ?_, fun z hz hmeta => ?_⟩
  · simp only [heapRange, Set.mem_Ico] at hz ⊢
    omega
  · have := (h.block b hb).metadata_lt hmeta
    simp only [heapRange, Set.mem_Ico] at hz
    omega

/-- Freeing one allocation leaves the bits of the others. -/
theorem HeapInv.free_sameBits {x : Nat × Nat} (h : HeapInv s live run) (hx : x ∈ live) :
    ∃ heap', kheapFree s.heap x.1 = some (true, heap') ∧ ∀ y ∈ live.erase x, SameBits s.heap heap' y.1 := by
  obtain ⟨l₁, c, l₂, c', k, n, hl, hlive, hk, hn, hf, he, -⟩ := h.free hx
  have hcm : c ∈ s.heap.blocks := by rw [hl]; exact mem_middle.mpr (.inl rfl)
  refine ⟨_, he, fun y hy b hb hy1 hy2 => ?_⟩
  have hb' := hb
  rw [hl] at hb'
  rcases mem_middle.mp hb' with rfl | hother
  · refine ⟨c', mem_middle.mpr (.inl rfl), hf.start, fun j hj => ?_⟩
    -- `y` lives in the block that changed; its run is apart from the one freed.
    obtain ⟨d, hd, hly⟩ := h.owned y (List.mem_of_mem_erase hy)
    have hdb : d = b := by
      rw [hl] at hd
      rcases mem_middle.mp hd with rfl | hd'
      · rfl
      · have h1 := h.others_byte hl hd' hy1 hy2
        have h2 := hly.inside (h.block d (by rw [hl]; exact mem_middle.mpr (.inr hd')))
        omega
    subst hdb
    have hap := h.other_run hx hy hlive.base hly.base
    have hsec := hly.section_bounds
    have hkx := hlive.section_bounds
    obtain ⟨hj1, hj2⟩ := hj
    rw [(h.block d hb).sectSize] at hj1 hj2
    have hend : j < (run y.1).first + (run y.1).n := by
      by_contra hno
      have h1 := hj2 ((run y.1).first + (run y.1).n - 1) (by omega) (by omega)
      rw [(h.own_delim (List.mem_of_mem_erase hy) hb hly).1] at h1
      exact Bool.noConfusion h1
    exact ⟨hf.used.outside (by omega), hf.delim.outside (by omega)⟩
  · exact ⟨b, mem_middle.mpr (.inr hother), rfl, fun j _ => ⟨rfl, rfl⟩⟩

/-- **The heap is exclusive.** After any calls of `kheap_malloc`, and of
`kheap_free` on live addresses, the live ranges are pairwise disjoint, each
lies in one block and meets neither its header nor its bitsets, and freeing
one of them changes no used or delimiter bit of another. -/
theorem heap_ranges_exclusive {τ : Type} (ki : KallocInterface τ) (mem : Nat → Word) (a a₀ : Asa) (t t' : τ)
    (hinit : asaInit ki mem a 4096 t = some ((.success, a₀), t')) (kp : KpagingInterface σ) (q : σ)
    (s : HeapState σ) (live : List (Nat × Nat))
    (hrun : Relation.ReflTransGen (HeapStep kp) (⟨kheapKallocInstall, a₀, q⟩, []) (s, live)) :
    live.Pairwise (fun x y => Disjoint (heapRange x) (heapRange y)) ∧
    (∀ x ∈ live, ∃ b ∈ s.heap.blocks, heapRange x ⊆ Set.Ico b.start (b.start + b.blockSize) ∧
      ∀ y ∈ heapRange x, ¬ b.metadata y) ∧
    ∀ x ∈ live, ∃ heap', kheapFree s.heap x.1 = some (true, heap') ∧
      ∀ y ∈ live.erase x, SameBits s.heap heap' y.1 := by
  obtain ⟨run, h, hr⟩ := heapStep_reach (asaInit_upTo hinit) q hrun
  refine ⟨?_, fun x hx => h.insideBlock hr hx, fun x hx => h.free_sameBits hx⟩
  exact h.apart.imp_of_mem fun hx hy hap => h.disjoint hr hx hy hap

/-- A paging system that maps every page. -/
def mapAll : KpagingInterface Unit where
  kpageAllocate _ _ _ := some (.success, ())
  kpageFree _ _ := some (.success, ())
  memory _ _ := 0

theorem mapAll_maps : mapAll.Maps := fun _ _ _ => ⟨(), rfl⟩

/-- The address space allocator after boot. -/
theorem asaInit_placeAt12b000 : ∃ a₀, asaInit placeAt12b000 (fun _ => 0) ⟨⟨0, 0, fun _ => 0⟩, 0⟩ 4096 () =
    some ((.success, a₀), ()) := by
  have hk : kmalloc placeAt12b000 32768 kallocCritical () = some (0x12b000, ()) := rfl
  exact asaInit_ok (fun _ => 0) ⟨⟨0, 0, fun _ => 0⟩, 0⟩ hk (by decide)

/-- A hundred bytes, then a hundred on a page boundary. -/
theorem heap_ranges_exclusive_two : ∃ (a₀ : Asa) (s : HeapState Unit) (o₁ o₂ : Nat),
    asaInit placeAt12b000 (fun _ => 0) ⟨⟨0, 0, fun _ => 0⟩, 0⟩ 4096 () = some ((.success, a₀), ()) ∧
    Relation.ReflTransGen (HeapStep mapAll) (⟨kheapKallocInstall, a₀, ()⟩, []) (s, [(o₂, 100), (o₁, 100)]) ∧
    Disjoint (heapRange (o₂, 100)) (heapRange (o₁, 100)) := by
  obtain ⟨a₀, h0⟩ := asaInit_placeAt12b000
  obtain ⟨s₁, b, b₁, hadd, ht, h1⟩ := kheapMalloc_first (asaInit_upTo h0) () mapAll_maps
    (show 0 < paddedSize kheapKallocInstall 100 0 by decide) (by decide)
  have hup := hadd.fresh.upTo.taken ht (by decide)
  have h16 : s₁.heap.defaultSectionSize = 16 := by rw [hadd.heap]; rfl
  have hpad : paddedSize (s₁.commit [b₁] 7).heap 100 4096 = 4196 := by
    simp [paddedSize, manualAlign, HeapState.commit, h16, u32]
  have hfit := hup.fit (show _ + divRoundUp 4196 16 ≤ _ by decide)
  rw [← hpad] at hfit
  obtain ⟨b₂, h2, -⟩ := @kheapMalloc_serves Unit mapAll (s₁.commit [b₁] 7) [] b₁ [] _ 100 4096 _ hup.toBlockInv rfl
    (by rw [hpad]; decide) (by simp) hfit
  have hfirst : HeapStep mapAll (⟨kheapKallocInstall, a₀, ()⟩, []) _ := .malloc (by decide) (by decide) h1
  have hrun := (Relation.ReflTransGen.single hfirst).tail (.malloc (by decide) (by decide) h2)
  have hx := (heap_ranges_exclusive placeAt12b000 _ _ a₀ () () h0 mapAll () _ _ hrun).1
  exact ⟨a₀, _, _, _, h0, hrun, (List.pairwise_cons.mp hx).1 _ (by simp)⟩

end ShawnOS
