/-
The heap's counters are exact.

`free_sections` counts the clear bits of its block, and
`total_free_sections` the free sections of all blocks: the blocks are apart,
so that the sum fits a word. Each decrement is by sections that were clear.
-/
import ShawnOS.HeapFacts

namespace ShawnOS

open Word32 Runs

variable {σ : Type} {kp : KpagingInterface σ} {s s' : HeapState σ}
variable {live : List (Nat × Nat)} {run : Nat → Run}

/-- One call on the default heap, with the live allocations. The size may be
zero. -/
inductive CountedCall (kp : KpagingInterface σ) :
    HeapState σ × List (Nat × Nat) → HeapState σ × List (Nat × Nat) → Prop
  | malloc {s s' live size align out} : size + align < 2 ^ 32 →
      kheapMalloc kp s size align = .ok (.success, some out, s') →
      CountedCall kp (s, live) (s', (out, size) :: live)
  | failed {s s' live size align r} : size + align < 2 ^ 32 →
      kheapMalloc kp s size align = .ok (r, none, s') → CountedCall kp (s, live) (s', live)
  | free {s live x r heap} : x ∈ live → kheapFree s.heap x.1 = some (r, heap) →
      CountedCall kp (s, live) ({ s with heap }, live.erase x)

/-- The address returned lies in the sections taken. -/
theorem alignOut_inside (heap : Kheap) (start : Nat) {size align : Nat} (hs : size + align < 2 ^ 32)
    (hend : start + 16 * divRoundUp (paddedSize heap size align) 16 ≤ 2 ^ 32) :
    start ≤ alignOut start align (manualAlign heap align) ∧
      alignOut start align (manualAlign heap align) < start + 16 * divRoundUp (paddedSize heap size align) 16 := by
  have hn := nSec_pos (paddedSize_lt heap align (show size < 2 ^ 32 by omega))
  cases hm : manualAlign heap align with
  | false =>
    simp only [alignOut, Bool.false_eq_true, false_and, ite_false]
    omega
  | true =>
    have hpos : 0 < align := by
      simp only [manualAlign, decide_eq_true_eq] at hm
      exact hm.1
    rw [paddedSize, hm] at hend ⊢
    simp only [ite_true] at hend ⊢
    rw [u32_of_lt hs, divRoundUp_of_pos (by omega) hs] at hend ⊢
    have hb := alignOut_bounds hpos (show start + align ≤ 2 ^ 32 by omega)
    omega

theorem HeapInv.countedMalloc (h : HeapInv s live run) {size align out : Nat} (hs : size + align < 2 ^ 32)
    (hm : kheapMalloc kp s size align = .ok (.success, some out, s')) :
    ∃ run', HeapInv s' ((out, size) :: live) run' := by
  obtain ⟨s₁, hexp, hend⟩ := kheapMalloc_ok h.ok (by omega) hm
  have h₁ := h.expands hexp
  have hpad := paddedSize_lt s.heap align (show size < 2 ^ 32 by omega)
  cases hend with
  | @served l₁ b l₂ b' f hl _ ht =>
    have hb := h₁.block b (by rw [hl]; exact mem_middle.mpr (.inl rfl))
    obtain ⟨-, hhi⟩ := hb.fit (nSec_pos hpad) ht.fit
    have hfits := hb.fits
    obtain ⟨h1, h2⟩ := alignOut_inside s.heap (b.start + 16 * f) hs (by omega)
    exact ⟨_, h₁.served hpad hl ht size h1 (by omega)⟩

theorem HeapInv.countedCall {t t' : HeapState σ × List (Nat × Nat)} (h : HeapInv t.1 t.2 run)
    (hs : CountedCall kp t t') : ∃ run', HeapInv t'.1 t'.2 run' := by
  cases hs with
  | malloc hsz hm => exact h.countedMalloc hsz hm
  | failed hsz hm => exact ⟨run, h.mallocFailed hsz hm⟩
  | free hx hf =>
    obtain ⟨l₁, b, l₂, b', k, n, -, -, -, -, -, he, hinv⟩ := h.free hx
    rw [he] at hf
    cases hf
    exact ⟨run, hinv⟩

theorem countedCall_reach {a₀ : Asa} (ha : AsaUpTo a₀ 380) (q : σ) {t : HeapState σ × List (Nat × Nat)}
    (hrun : Relation.ReflTransGen (CountedCall kp) (⟨kheapKallocInstall, a₀, q⟩, []) t) :
    ∃ run, HeapInv t.1 t.2 run := by
  induction hrun with
  | refl => exact ⟨_, HeapInv.start ha q⟩
  | tail _ hs ih =>
    obtain ⟨run, h⟩ := ih
    exact h.countedCall hs

/-! ## The sum fits a word -/

theorem freeSum_le {blocks : List KheapBlock} (h : ∀ b ∈ blocks, BlockInv b (b.blockSize / 4096)) :
    freeSum blocks ≤ 256 * (blocks.map fun b => b.blockSize / 4096).sum := by
  induction blocks with
  | nil => simp [freeSum]
  | cons b next ih =>
    have hb := h b List.mem_cons_self
    have hcount := clearCount_le b.usedSections.bit (256 * (b.blockSize / 4096))
    have hnext := ih fun c hc => h c (List.mem_cons_of_mem _ hc)
    rw [← hb.free] at hcount
    simp only [freeSum, List.map_cons, List.sum_cons] at hnext ⊢
    omega

/-- The blocks share the pages below `KVIRT_MAX`. -/
theorem HeapInv.freeSum_lt (h : HeapInv s live run) : freeSum s.heap.blocks < 2 ^ 32 := by
  have hap : ((s.heap.blocks.map blockPages).map fun r => (r.1 / 4096, r.2)).Pairwise
      (fun r t => r.1 + r.2 ≤ t.1 ∨ t.1 + t.2 ≤ r.1) := by
    rw [List.pairwise_map]
    exact h.asa.apart
  have hin : ∀ r ∈ (s.heap.blocks.map blockPages).map fun r => (r.1 / 4096, r.2), r.1 + r.2 ≤ 0x3FFFF := by
    intro r hr
    obtain ⟨t, ht, rfl⟩ := List.mem_map.mp hr
    have hhigh := (h.asa.isLive t ht).high
    rw [h.asa.length] at hhigh
    exact hhigh
  have hpages := sum_le_of_apart hin hap
  simp only [List.map_map, Function.comp_def, blockPages] at hpages
  have hle := freeSum_le h.block
  omega

/-- **The counters are exact.** -/
theorem HeapInv.counters (h : HeapInv s live run) :
    (∀ b ∈ s.heap.blocks, b.freeSections = clearCount b.usedSections.bit b.usedSections.length) ∧
      s.heap.totalFreeSections = (s.heap.blocks.map (·.freeSections)).sum := by
  refine ⟨fun b hb => ?_, ?_⟩
  · rw [(h.block b hb).free, (h.block b hb).usedLength]
  · rw [h.total, u32_of_lt h.freeSum_lt, freeSum]

/-- `s'` follows `s` by an expansion that succeeded. -/
def Expanded (kp : KpagingInterface σ) (s s' : HeapState σ) : Prop := ∃ m, kheapExpand kp s m = .ok (.success, s')

theorem HeapInv.expanded (h : HeapInv s live run) (he : Relation.ReflTransGen (Expanded kp) s s') :
    HeapInv s' live run := by
  induction he with
  | refl => exact h
  | tail _ hs ih =>
    obtain ⟨m, hm⟩ := hs
    exact ih.expansion (kheapExpand_ok ih.ok hm).1

/-- A pass that serves takes no more sections than its block has free, and
than the heap has. -/
theorem HeapInv.noUnderflow (h : HeapInv s live run) {size align out n : Nat} {manual : Bool}
    {blocks : List KheapBlock} (hs : size < 2 ^ 32)
    (hp : kheapMallocPass size align manual s.heap.blocks = some (some (blocks, out, n))) :
    n ≤ s.heap.totalFreeSections ∧ ∃ l₁ b l₂ b', s.heap.blocks = l₁ ++ b :: l₂ ∧ blocks = l₁ ++ b' :: l₂ ∧
      b'.freeSections + n = b.freeSections := by
  rcases kheapMallocPass_cases hs align manual h.ok.shape h.ok.hint with
    ⟨hnone, -⟩ | ⟨l₁, b, l₂, b', f, hl, -, ht, he⟩
  · rw [hnone] at hp
    cases hp
  · rw [he] at hp
    cases hp
    have hb := h.block b (by rw [hl]; exact mem_middle.mpr (.inl rfl))
    have hfree := ht.commit.free_add hb ht.fit.clear (hb.fit (nSec_pos hs) ht.fit).2
    have hsum := freeSum_middle l₁ l₂ b
    rw [← hl] at hsum
    refine ⟨?_, l₁, b, l₂, b', hl, rfl, hfree⟩
    rw [h.total, u32_of_lt h.freeSum_lt, hsum]
    omega

/-- **The heap's counters are exact**: after any calls each block counts its
clear bits, and the heap the free sections of its blocks. Whatever is served
next, after any expansions, has its sections among those counted. -/
theorem heap_counters_exact {τ : Type} (ki : KallocInterface τ) (mem : Nat → Word) (a a₀ : Asa) (t t' : τ)
    (hinit : asaInit ki mem a 4096 t = some ((.success, a₀), t')) (kp : KpagingInterface σ) (q : σ)
    (s : HeapState σ) (live : List (Nat × Nat))
    (hrun : Relation.ReflTransGen (CountedCall kp) (⟨kheapKallocInstall, a₀, q⟩, []) (s, live)) :
    (∀ b ∈ s.heap.blocks, b.freeSections = clearCount b.usedSections.bit b.usedSections.length) ∧
    s.heap.totalFreeSections = (s.heap.blocks.map (·.freeSections)).sum ∧
    ∀ s₁, Relation.ReflTransGen (Expanded kp) s s₁ → ∀ size align manual blocks out n, size < 2 ^ 32 →
      kheapMallocPass size align manual s₁.heap.blocks = some (some (blocks, out, n)) →
      n ≤ s₁.heap.totalFreeSections ∧ ∃ l₁ b l₂ b', s₁.heap.blocks = l₁ ++ b :: l₂ ∧ blocks = l₁ ++ b' :: l₂ ∧
        b'.freeSections + n = b.freeSections := by
  obtain ⟨run, h⟩ := countedCall_reach (asaInit_upTo hinit) q hrun
  exact ⟨h.counters.1, h.counters.2, fun s₁ hexp size align manual blocks out n hs hp =>
    (h.expanded hexp).noUnderflow hs hp⟩

/-- After a hundred bytes were allocated. -/
theorem heap_counters_exact_one : ∃ (a₀ : Asa) (s : HeapState Unit) (o : Nat),
    asaInit placeAt12b000 (fun _ => 0) ⟨⟨0, 0, fun _ => 0⟩, 0⟩ 4096 () = some ((.success, a₀), ()) ∧
    Relation.ReflTransGen (CountedCall mapAll) (⟨kheapKallocInstall, a₀, ()⟩, []) (s, [(o, 100)]) ∧
    s.heap.totalFreeSections = (s.heap.blocks.map (·.freeSections)).sum := by
  obtain ⟨a₀, h0⟩ := asaInit_placeAt12b000
  obtain ⟨s₁, b, b₁, -, -, h1⟩ := kheapMalloc_first (asaInit_upTo h0) () mapAll_maps
    (show 0 < paddedSize kheapKallocInstall 100 0 by decide) (by decide)
  have hcall : CountedCall mapAll (⟨kheapKallocInstall, a₀, ()⟩, []) _ := .malloc (by decide) h1
  have hrun := Relation.ReflTransGen.single hcall
  exact ⟨a₀, _, _, h0, hrun, (heap_counters_exact placeAt12b000 _ _ a₀ () () h0 mapAll () _ _ hrun).2.1⟩

end ShawnOS
