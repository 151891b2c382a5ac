/-
What the `first_free_section` hint hides.

The scan of a block starts at its hint and wraps, but after the wrap its
registers still hold the start of the last free run seen, and every section
before the hint restarts the count. So unless all sections from the hint on
are used, a run before the hint, or one that straddles it, is not found, and
`kheap_malloc` expands the heap although a block has room.
-/
import ShawnOS.HeapGrowth

namespace ShawnOS

open Word32 Runs

variable {σ : Type} {kp : KpagingInterface σ} {s s' : HeapState σ}

/-- Enough consecutive clear bits for `size` bytes. -/
def KheapBlock.HasRun (b : KheapBlock) (size : Nat) : Prop :=
  ∃ f, f + divRoundUp size b.sectionSize ≤ b.usedSections.length ∧
    ClearRun b.usedSections.bit f (divRoundUp size b.sectionSize)

/-- The block passes the two early tests and has such bits at or after its
hint, or has some and nothing is clear from the hint on. -/
structure KheapBlock.Sees (b : KheapBlock) (size : Nat) : Prop where
  space : size ≤ maxFreeSpace b
  count : divRoundUp size b.sectionSize ≤ b.freeSections
  run : ∃ f, f + divRoundUp size b.sectionSize ≤ b.usedSections.length ∧
    ClearRun b.usedSections.bit f (divRoundUp size b.sectionSize) ∧
    (b.firstFreeSection ≤ f ∨ ∀ j, b.firstFreeSection ≤ j → j < b.usedSections.length → b.usedSections.bit j = true)

/-- `kheap_malloc`, with the padded size `m`, calls `kheap_expand` in the
state `s'`: a pass over its blocks served nothing, after the expansions
before it succeeded. -/
inductive CallsExpand (kp : KpagingInterface σ) (m align : Nat) (manual : Bool) :
    HeapState σ → HeapState σ → Prop
  | here {s : HeapState σ} : kheapMallocPass m align manual s.heap.blocks = some none → CallsExpand kp m align manual s s
  | again {s s₁ s' : HeapState σ} : kheapMallocPass m align manual s.heap.blocks = some none →
      kheapExpand kp s (max s.heap.minBlockSize m) = .ok (.success, s₁) →
      CallsExpand kp m align manual s₁ s' → CallsExpand kp m align manual s s'

/-! ## One block -/

theorem exists_hintFit {u : Nat → Bool} {hint len n : Nat} (hn : 0 < n) (hh : hint ≤ len) :
    (∃ f, HintFit u hint len n f) ↔
      ∃ f, f + n ≤ len ∧ ClearRun u f n ∧ (hint ≤ f ∨ ∀ j, hint ≤ j → j < len → u j = true) := by
  constructor
  · intro ⟨f, hf⟩
    refine ⟨f, hf.le hh, hf.clear, ?_⟩
    rcases hf with hf | ⟨hall, -⟩
    · exact .inl hf.lo_le
    · exact .inr hall
  · intro ⟨f, hle, hclear, hwhere⟩
    rcases hwhere with hlo | hall
    · obtain ⟨g, hg⟩ := exists_firstFit hn hlo hle hclear
      exact ⟨g, .inl hg⟩
    · -- The run ends before the hint, since everything from there on is used.
      have hend : f + n ≤ hint := by
        by_contra hno
        have hapart := hclear.apart hall hn (by omega)
        omega
      obtain ⟨g, hg⟩ := exists_firstFit hn (Nat.zero_le f) hend hclear
      exact ⟨g, .inr ⟨hall, hg⟩⟩

theorem kheapMallocBlock_none_iff_sees {b : KheapBlock} {p size : Nat} (h : BlockShape b p)
    (hh : b.firstFreeSection ≤ 256 * p) (hs : size < 2 ^ 32) (align : Nat) (manual : Bool) :
    kheapMallocBlock b size align manual = some none ↔ ¬ b.Sees size := by
  have hhint : b.firstFreeSection ≤ b.usedSections.length := by rw [h.usedLength]; exact hh
  have hrun := exists_hintFit (u := b.usedSections.bit) (nSec_pos hs) hhint
  rw [← h.sectSize] at hrun
  rcases kheapMallocBlock_cases h hh hs align manual with ⟨he, hwhy⟩ | ⟨b', f, he, hskip, hf, -⟩
  · refine iff_of_true he fun hsees => ?_
    have h1 := hsees.space; have h2 := hsees.count
    obtain ⟨f, hf⟩ := hrun.mpr hsees.run
    rw [h.sectSize] at h2 hf
    rcases hwhy with hwhy | hwhy
    · omega
    · exact hwhy f hf
  · refine iff_of_false (fun h0 => ?_) fun hno => hno ⟨by omega, by rw [h.sectSize]; omega, hrun.mp ⟨f, ?_⟩⟩
    · rw [he] at h0
      cases h0
    · rw [h.sectSize]
      exact hf

theorem kheapMallocPass_none_iff (h : HeapOk s) {size : Nat} (hs : size < 2 ^ 32) (align : Nat) (manual : Bool) :
    kheapMallocPass size align manual s.heap.blocks = some none ↔ ∀ b ∈ s.heap.blocks, ¬ b.Sees size := by
  constructor
  · intro he b hb
    rcases kheapMallocPass_cases hs align manual h.shape h.hint with ⟨-, hall⟩ | ⟨l₁, c, l₂, c', f, -, -, -, he'⟩
    · exact (kheapMallocBlock_none_iff_sees (h.shape b hb) (h.hint b hb) hs align manual).mp (hall b hb)
    · rw [he] at he'
      cases he'
  · intro hall
    exact kheapMallocPass_none fun b hb =>
      (kheapMallocBlock_none_iff_sees (h.shape b hb) (h.hint b hb) hs align manual).mpr (hall b hb)

/-! ## The whole list -/

/-- A request whose blocks all hide their runs expands the heap; one that
does not call `kheap_expand` is served from the blocks there are. -/
theorem callsExpand_or_served (h : HeapOk s) {size align : Nat} (hs : size < 2 ^ 32) :
    CallsExpand kp (paddedSize s.heap size align) align (manualAlign s.heap align) s s ∨
    ∃ out blocks, blocks.length = s.heap.blocks.length ∧ kheapMalloc kp s size align =
      .ok (.success, some out, s.commit blocks (divRoundUp (paddedSize s.heap size align) 16)) := by
  have hpad := paddedSize_lt s.heap align hs
  rcases kheapMallocPass_cases hpad align (manualAlign s.heap align) h.shape h.hint with
    ⟨hpass, -⟩ | ⟨l₁, b, l₂, b', f, hl, -, -, hpass⟩
  · exact .inl (.here hpass)
  · refine .inr ⟨alignOut (b.start + 16 * f) align (manualAlign s.heap align), l₁ ++ b' :: l₂, by rw [hl]; simp, ?_⟩
    unfold kheapMalloc
    dsimp only
    rw [if_neg (by rw [hl]; simp), kheapMallocLoop, if_neg (by rw [hl]; simp), hpass]
    rfl

/-- A new block shows its hint every run it has. -/
theorem BlockFresh.sees_of_hasRun {b : KheapBlock} {p size : Nat} (h : BlockFresh b p) (hs : size < 2 ^ 32)
    (hr : b.HasRun size) : b.Sees size := by
  obtain ⟨f, hle, hclear⟩ := hr
  have hn := nSec_pos hs
  have hlo : reservedSections p ≤ f := by
    by_contra hno
    rw [h.usedLength, h.sectSize] at hle
    rw [h.sectSize] at hclear
    have h1 := hclear f (Nat.le_refl f) (by omega)
    rw [h.used f (by omega), decide_eq_true (by omega)] at h1
    cases h1
  have hnone : kheapMallocBlock b size 0 false ≠ some none := by
    intro h0
    have hhint : b.firstFreeSection ≤ b.usedSections.length := by rw [h.usedLength]; exact h.inv.hint
    rw [h.sectSize] at hle hclear
    obtain ⟨g, hg⟩ := (exists_hintFit hn hhint).mpr ⟨f, hle, hclear, .inl (by rw [h.hint]; exact hlo)⟩
    exact (kheapMallocBlock_none_iff h.inv hs 0 false).mp h0 g hg
  by_contra hno
  exact hnone ((kheapMallocBlock_none_iff_sees h.toBlockShape h.inv.hint hs 0 false).mpr hno)

/-- Where the hints hide nothing, no call of `kheap_expand` is needless. -/
theorem CallsExpand.no_run {m align : Nat} {manual : Bool} (hm : m < 2 ^ 32)
    (hc : CallsExpand kp m align manual s s') :
    HeapOk s → ((∃ b ∈ s.heap.blocks, b.HasRun m) → ∃ b ∈ s.heap.blocks, b.Sees m) →
      ∀ b ∈ s'.heap.blocks, ¬ b.HasRun m := by
  induction hc with
  | here hpass =>
    intro h hsees b hb hr
    obtain ⟨c, hc, hcs⟩ := hsees ⟨b, hb, hr⟩
    exact (kheapMallocPass_none_iff h hm align manual).mp hpass c hc hcs
  | @again s s₁ s' hpass hexp _ ih =>
    intro h hsees
    have hno : ∀ b ∈ s.heap.blocks, ¬ b.HasRun m := fun b hb hr => by
      obtain ⟨c, hc, hcs⟩ := hsees ⟨b, hb, hr⟩
      exact (kheapMallocPass_none_iff h hm align manual).mp hpass c hc hcs
    have hstep := (kheapExpand_ok h hexp).1
    refine ih (h.expansion hstep) fun ⟨b, hb, hr⟩ => ?_
    rcases hstep with hr' | ⟨c, p, hadd⟩
    · rw [hr'.heap] at hb
      exact absurd hr (hno b hb)
    · refine ⟨b, hb, ?_⟩
      rw [hadd.blocks] at hb
      rcases List.mem_cons.mp hb with rfl | hb
      · exact hadd.fresh.sees_of_hasRun hm hr
      · exact absurd hr (hno b hb)

/-- **When the hint is only an optimisation.** In every state of the default
heap, every call of `kheap_expand` that a request makes comes when no block
has a run for it, exactly when some block shows one to its hint or none has
one. -/
theorem expand_only_if_full_iff (kp : KpagingInterface σ) (s : HeapState σ) (hreach : HeapReachable kp s)
    (size align : Nat) (hs : size < 2 ^ 32) :
    (∀ s', CallsExpand kp (paddedSize s.heap size align) align (manualAlign s.heap align) s s' →
      ∀ b ∈ s'.heap.blocks, ¬ b.HasRun (paddedSize s.heap size align)) ↔
    ((∃ b ∈ s.heap.blocks, b.HasRun (paddedSize s.heap size align)) →
      ∃ b ∈ s.heap.blocks, b.Sees (paddedSize s.heap size align)) := by
  have h := hreach.ok
  have hpad := paddedSize_lt s.heap align hs
  constructor
  · intro hall ⟨b, hb, hr⟩
    by_contra hno
    have hpass := (kheapMallocPass_none_iff h hpad align (manualAlign s.heap align)).mpr
      fun c hc hcs => hno ⟨c, hc, hcs⟩
    exact hall s (.here hpass) b hb hr
  · intro hsees s' hc
    exact hc.no_run hpad h hsees

/-- With one request served, the next of a hundred bytes is shown a run. -/
theorem expand_only_if_full_second : ∃ s : HeapState Unit, HeapReachable mapAll s ∧
    (∃ b ∈ s.heap.blocks, b.HasRun (paddedSize s.heap 100 0)) ∧
    ∀ s', CallsExpand mapAll (paddedSize s.heap 100 0) 0 (manualAlign s.heap 0) s s' →
      ∀ b ∈ s'.heap.blocks, ¬ b.HasRun (paddedSize s.heap 100 0) := by
  obtain ⟨a₀, hinit⟩ := asaInit_placeAt12b000
  obtain ⟨s₁, b, b₁, hadd, ht, hm⟩ := kheapMalloc_first (asaInit_upTo hinit) () mapAll_maps
    (show 0 < paddedSize kheapKallocInstall 100 0 by decide) (by decide)
  have hreach : HeapReachable mapAll (s₁.commit [b₁] 7) :=
    ⟨Unit, placeAt12b000, _, _, a₀, (), (), (), hinit, .single (.malloc (by decide) (by decide) hm)⟩
  have hup := hadd.fresh.upTo.taken ht (by decide)
  have hclear : ClearRun b₁.usedSections.bit 1054 7 := (hup.fit (by decide)).clear
  have hlen := hup.usedLength
  have hrun : b₁.HasRun 100 := ⟨1054, by rw [hlen, hup.sectSize]; decide, by rw [hup.sectSize]; exact hclear⟩
  have hsees : b₁.Sees 100 := by
    by_contra hno
    have hskip := (kheapMallocBlock_none_iff_sees hup.toBlockShape hup.hint (by decide) 0 false).mpr hno
    exact (kheapMallocBlock_none_iff hup.toBlockInv (by decide) 0 false).mp hskip _ (hup.fit (by decide))
  have hx := (expand_only_if_full_iff mapAll _ hreach 100 0 (by decide)).mpr fun _ => ⟨b₁, List.mem_cons_self, hsees⟩
  exact ⟨_, hreach, ⟨b₁, List.mem_cons_self, hrun⟩, hx⟩

/-- Two requests on a new heap, and their frees in the same order. -/
theorem mallocTwiceFree_mapAll {m n : Nat} (hm : 1 ≤ m) (hmle : m ≤ 2 ^ 19) (hn : 1 ≤ n) (hnle : n ≤ 2 ^ 19) :
    ∃ (s : HeapState Unit) (b : KheapBlock), HeapReachable mapAll s ∧ s.heap.blocks = [b] ∧ BlockShape b 261 ∧
      b.firstFreeSection = 1047 + divRoundUp m 16 ∧
      ∀ j, j < 66816 → b.usedSections.bit j = decide (j < 1047) := by
  obtain ⟨a₀, hinit⟩ := asaInit_placeAt12b000
  have hup₀ := asaInit_upTo hinit
  have hpad : ∀ (heap : Kheap) (size : Nat), paddedSize heap size 0 = size := fun heap size => by
    simp [paddedSize, manualAlign]
  have hnm : divRoundUp m 16 = (m - 1) / 16 + 1 := divRoundUp_of_pos hm (by omega)
  have hnn : divRoundUp n 16 = (n - 1) / 16 + 1 := divRoundUp_of_pos hn (by omega)
  obtain ⟨s₁, b, b₁, hadd, ht₁, hm₁⟩ := @kheapMalloc_first Unit mapAll a₀ hup₀ () mapAll_maps m 0
    (by rw [hpad]; omega) (by rw [hpad]; omega)
  rw [hpad, alignOut_zero] at hm₁
  rw [hpad] at ht₁
  have hres : reservedSections 261 = 1047 := rfl
  have hup₁ := hadd.fresh.upTo.taken ht₁ (by omega)
  obtain ⟨b₂, hm₂, ht₂⟩ := @kheapMalloc_serves Unit mapAll (s₁.commit [b₁] (divRoundUp m 16)) [] b₁ [] _ n 0 _
    hup₁.toBlockInv rfl (by rw [hpad]; omega) (by simp) (by rw [hpad]; exact hup₁.fit (by omega))
  rw [hpad, alignOut_zero] at hm₂
  rw [hpad] at ht₂
  have hup₂ := hup₁.taken ht₂ (by omega)
  -- The runs of the two, and the frees that give them up.
  have hinv₁ := ((HeapInv.start hup₀ ()).expansion (.inr ⟨b, 261, hadd⟩)).served (by omega)
    (show s₁.heap.blocks = [] ++ b :: [] from hadd.blocks) ht₁ m (Nat.le_refl _) (by omega)
  have hinv₂ := hinv₁.served (by omega) (show (s₁.commit [b₁] _).heap.blocks = [] ++ b₁ :: [] from rfl) ht₂ n
    (Nat.le_refl _) (by omega)
  have hstart₁ := ht₁.commit.start; have hstart₂ := ht₂.commit.start
  obtain ⟨b₃, n₃, hn₃, hf₃, he₃, hinv₃⟩ := hinv₂.free_one rfl (List.mem_cons_of_mem _ List.mem_cons_self)
  obtain ⟨b₄, n₄, hn₄, hf₄, he₄, -⟩ := hinv₃.free_one rfl
    (show (b₁.start + 16 * (reservedSections 261 + divRoundUp m 16), n) ∈ _ from
      (List.mem_erase_of_ne (by simp; omega)).mpr List.mem_cons_self)
  have hne : b.start + 16 * 1047 ≠ b₁.start + 16 * (reservedSections 261 + divRoundUp m 16) := by omega
  have hstart₃ := hf₃.start
  have hk₃ : (b.start + 16 * 1047 - b₂.start) / 16 = 1047 := by omega
  have hk₄ : (b₁.start + 16 * (reservedSections 261 + divRoundUp m 16) - b₃.start) / 16 =
      1047 + divRoundUp m 16 := by omega
  simp only [Function.update_of_ne hne, Function.update_self, hk₃, hk₄] at hn₃ hn₄ hf₃ hf₄
  have hfits := hadd.fresh.fits
  have hreach : HeapReachable mapAll ((((s₁.commit [b₁] (divRoundUp m 16)).commit [b₂] (divRoundUp n 16)).release
      [b₃] n₃).release [b₄] n₄) :=
    ⟨Unit, placeAt12b000, _, _, a₀, (), (), (), hinit,
      (((Relation.ReflTransGen.single (.malloc (by omega) (by decide) hm₁)).tail
        (.malloc (by omega) (by decide) hm₂)).tail (.free (by simp only; omega) he₃)).tail
        (.free (by simp only; omega) he₄)⟩
  refine ⟨_, b₄, hreach, rfl, hf₄.shape (hf₃.shape hup₂.toBlockShape), hf₄.hint, fun j hj => ?_⟩
  rw [hf₄.used.bit, hf₃.used.bit, hup₂.bit j hj, ← decide_not, ← decide_not, ← Bool.decide_and, ← Bool.decide_and]
  exact decide_eq_decide.mpr (by omega)

/-- After requests of 524288 and 16 bytes and their frees, in this order,
the only block is empty but its hint stands at section 33815, with 33001
sections behind it: a request for 600000 bytes calls `kheap_expand`. -/
theorem expand_with_empty_block : ∃ (s : HeapState Unit) (b : KheapBlock), HeapReachable mapAll s ∧
    s.heap.blocks = [b] ∧ b.HasRun (paddedSize s.heap 600000 0) ∧
    CallsExpand mapAll (paddedSize s.heap 600000 0) 0 (manualAlign s.heap 0) s s := by
  obtain ⟨s, b, hreach, hb, hshape, hhint, hbit⟩ := @mallocTwiceFree_mapAll 524288 16
    (by decide) (by decide) (by decide) (by decide)
  have hpad : paddedSize s.heap 600000 0 = 600000 := by simp [paddedSize, manualAlign]
  have hn : divRoundUp 600000 b.sectionSize = 37500 := by rw [hshape.sectSize]; decide
  have hhint : b.firstFreeSection = 33815 := hhint.trans (by decide)
  have hlen : b.usedSections.length = 66816 := hshape.usedLength
  refine ⟨s, b, hreach, hb, ?_⟩
  rw [hpad]
  refine ⟨⟨1047, by rw [hn, hlen]; decide, fun j h1 h2 => ?_⟩, .here ?_⟩
  · rw [hn] at h2
    rw [hbit j (by omega)]
    exact decide_eq_false (by omega)
  · refine (kheapMallocPass_none_iff hreach.ok (by decide) 0 _).mpr fun c hc hsees => ?_
    rw [hb] at hc
    cases List.mem_singleton.mp hc
    obtain ⟨f, hf, -, hwhere⟩ := hsees.run
    rw [hn, hlen] at hf
    rw [hhint, hlen] at hwhere
    rcases hwhere with hwhere | hwhere
    · omega
    · have h1 := hwhere 33815 (by decide) (by decide)
      rw [hbit 33815 (by decide)] at h1
      cases h1

end ShawnOS
