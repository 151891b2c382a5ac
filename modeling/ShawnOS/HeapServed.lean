/-
Which sections `kheap_malloc` serves a request from, whatever else uses the
address space.

It is the first block that shows the request a run, or else a new one, whose
first free section is the one behind its own data (`ServedFrom`). The layout
of the blocks is all this rests on (`HeapShaped`), so pages taken from the
address space allocator behind the heap's back do not matter.
-/
import ShawnOS.AsaCalls
import ShawnOS.HeapHint

namespace ShawnOS

open Word32 Runs

variable {σ : Type} {kp : KpagingInterface σ} {s s' : HeapState σ}
variable {size align : Nat} {manual : Bool} {blocks : List KheapBlock} {v : Nat}

/-- The blocks keep their layout. -/
structure BlocksShaped (blocks : List KheapBlock) : Prop where
  shape : ∀ b ∈ blocks, BlockShape b (b.blockSize / 4096)
  hint : ∀ b ∈ blocks, b.firstFreeSection ≤ 256 * (b.blockSize / 4096)

/-- What any calls of the heap and of the address space allocator keep. -/
structure HeapShaped (s : HeapState σ) : Prop where
  sectSize : s.heap.defaultSectionSize = 16
  asa : AsaSized s.asa
  blocks : BlocksShaped s.heap.blocks

/-- No block of `l` shows the request a run; `b` shows it one, and the scan
finds it at section `f`. -/
structure FirstSeen (l : List KheapBlock) (b : KheapBlock) (size f : Nat) : Prop where
  before : ∀ c ∈ l, ¬ c.Sees size
  sees : b.Sees size
  fit : HintFit b.usedSections.bit b.firstFreeSection b.usedSections.length (divRoundUp size 16) f

/-- The addresses a request can be served at: in the first block that shows
it a run, or in a new block when none does. -/
inductive ServedFrom (size align : Nat) (manual : Bool) (blocks : List KheapBlock) : Nat → Prop
  | seen {l₁ b l₂ f} : blocks = l₁ ++ b :: l₂ → FirstSeen l₁ b size f →
      ServedFrom size align manual blocks (alignOut (b.start + 16 * f) align manual)
  | fresh {b p} : (∀ c ∈ blocks, ¬ c.Sees size) → BlockFresh b p →
      ServedFrom size align manual blocks (alignOut (b.start + 16 * reservedSections p) align manual)

/-! ## One pass -/

theorem BlocksShaped.tail {b : KheapBlock} (h : BlocksShaped (b :: blocks)) : BlocksShaped blocks :=
  ⟨fun c hc => h.shape c (List.mem_cons_of_mem _ hc), fun c hc => h.hint c (List.mem_cons_of_mem _ hc)⟩

theorem BlocksShaped.fresh {b : KheapBlock} {p : Nat} (h : BlocksShaped blocks) (hb : BlockFresh b p) :
    BlocksShaped (b :: blocks) := by
  have hinv := hb.inv
  rw [← hinv.pages_eq] at hinv
  refine ⟨fun c hc => ?_, fun c hc => ?_⟩
  · rcases List.mem_cons.mp hc with rfl | hc
    · exact hinv.toBlockShape
    · exact h.shape c hc
  · rcases List.mem_cons.mp hc with rfl | hc
    · exact hinv.hint
    · exact h.hint c hc

theorem BlocksShaped.skips_iff (h : BlocksShaped blocks) (hs : size < 2 ^ 32) (align : Nat) (manual : Bool)
    {b : KheapBlock} (hb : b ∈ blocks) : kheapMallocBlock b size align manual = some none ↔ ¬ b.Sees size :=
  kheapMallocBlock_none_iff_sees (h.shape b hb) (h.hint b hb) hs align manual

/-- Some block is the first to show a run, or none does. -/
theorem BlocksShaped.first (hs : size < 2 ^ 32) : ∀ {blocks : List KheapBlock}, BlocksShaped blocks →
    (∀ b ∈ blocks, ¬ b.Sees size) ∨ ∃ l₁ b l₂ f, blocks = l₁ ++ b :: l₂ ∧ FirstSeen l₁ b size f
  | [], _ => .inl (by simp)
  | b :: next, h => by
    have hshape := h.shape b List.mem_cons_self
    by_cases hsees : b.Sees size
    · have hhint : b.firstFreeSection ≤ b.usedSections.length := by
        rw [hshape.usedLength]
        exact h.hint b List.mem_cons_self
      have hrun := hsees.run
      rw [hshape.sectSize] at hrun
      obtain ⟨f, hf⟩ := (exists_hintFit (nSec_pos hs) hhint).mpr hrun
      exact .inr ⟨[], b, next, f, rfl, by simp, hsees, hf⟩
    · rcases BlocksShaped.first hs h.tail with hno | ⟨l₁, c, l₂, f, rfl, hf⟩
      · exact .inl fun c hc => (List.mem_cons.mp hc).elim (fun he => he ▸ hsees) (hno c)
      · exact .inr ⟨b :: l₁, c, l₂, f, rfl,
          fun d hd => (List.mem_cons.mp hd).elim (fun he => he ▸ hsees) (hf.before d), hf.sees, hf.fit⟩

/-- **A pass** serves from the first block that shows a run. -/
theorem FirstSeen.pass {b : KheapBlock} {l₂ : List KheapBlock} {f : Nat} (hs : size < 2 ^ 32) (align : Nat) (manual : Bool) :
    ∀ {l₁ : List KheapBlock}, FirstSeen l₁ b size f → BlocksShaped (l₁ ++ b :: l₂) → ∃ b', Taken size b b' f ∧
      kheapMallocPass size align manual (l₁ ++ b :: l₂) =
        some (some (l₁ ++ b' :: l₂, alignOut (b.start + 16 * f) align manual, divRoundUp size 16))
  | [], hf, h => by
    rcases kheapMallocBlock_cases (h.shape b List.mem_cons_self) (h.hint b List.mem_cons_self) hs align manual with
      ⟨hskip, -⟩ | ⟨b', g, he, -, hg, hc⟩
    · exact absurd hf.sees ((h.skips_iff hs align manual List.mem_cons_self).mp hskip)
    · cases hg.unique (nSec_pos hs) hf.fit
      exact ⟨b', ⟨hg, hc⟩, by simp [kheapMallocPass, he]⟩
  | c :: l₁, hf, h => by
    have hskip := (h.skips_iff hs align manual List.mem_cons_self).mpr (hf.before c List.mem_cons_self)
    have hrest : FirstSeen l₁ b size f := ⟨fun d hd => hf.before d (List.mem_cons_of_mem _ hd), hf.sees, hf.fit⟩
    obtain ⟨b', ht, he⟩ := hrest.pass hs align manual h.tail
    exact ⟨b', ht, by simp [kheapMallocPass, hskip, he]⟩

/-- A run in a new block starts behind its own data. -/
theorem BlockFresh.fit_eq {b : KheapBlock} {p n f : Nat} (h : BlockFresh b p) (hn : 0 < n)
    (hf : HintFit b.usedSections.bit b.firstFreeSection b.usedSections.length n f) : f = reservedSections p := by
  obtain ⟨hlo, hhi⟩ := h.inv.fit hn hf
  exact hf.unique hn (h.upTo.fit (by omega))

/-- What a new block serves was not to be had from the old ones. -/
theorem ServedFrom.behind {b : KheapBlock} {p : Nat} (hs : size < 2 ^ 32) (h : ServedFrom size align manual (b :: blocks) v)
    (hb : BlockFresh b p) (hno : ∀ c ∈ blocks, ¬ c.Sees size) : ServedFrom size align manual blocks v := by
  cases h with
  | @seen l₁ c l₂ f hl hf =>
    cases l₁ with
    | nil =>
      cases hl
      rw [hb.fit_eq (nSec_pos hs) hf.fit]
      exact .fresh hno hb
    | cons d l₁ =>
      cases hl
      exact absurd hf.sees (hno c (mem_middle.mpr (.inl rfl)))
  | fresh _ hc => exact .fresh hno hc

/-! ## One call -/

/-- **An expansion**, whoever else has taken address space. -/
theorem HeapShaped.expand (h : HeapShaped s) {r : KReturn} (he : kheapExpand kp s size = .ok (r, s')) :
    HeapShaped s' ∧ (r.failed = true ∨ ∃ b p, BlockFresh b p ∧ s'.heap.blocks = b :: s.heap.blocks) := by
  obtain ⟨n, -, he⟩ := bind_eq_ok.mp he
  cases kheapExpandBy_end (liftM_eq_ok.mp he) with
  | full halloc => exact ⟨⟨h.sectSize, h.asa.call (.alloc halloc), h.blocks⟩, .inl rfl⟩
  | unmapped halloc _ _ hfree => exact ⟨⟨h.sectSize, (h.asa.call (.alloc halloc)).call (.free hfree), h.blocks⟩, .inl rfl⟩
  | @added loc _ q _ halloc hne _ hadd =>
    obtain ⟨hn, hal, hf, -⟩ := h.asa.alloc halloc hne
    have hle := hf.le_hi
    rw [h.asa.length] at hle
    obtain ⟨b, hb, -, hfresh⟩ := kheapAddBlock_fresh (kp.memory q) s.heap hn hal (by omega)
    have hsize : u32 (n * pageSize) = 4096 * n := by
      rw [u32_pages]
      omega
    rw [hsize, h.sectSize, hb] at hadd
    cases hadd
    exact ⟨⟨h.sectSize, h.asa.call (.alloc halloc), h.blocks.fresh hfresh⟩, .inr ⟨b, n, hfresh, rfl⟩⟩

theorem HeapShaped.commit {l₁ l₂ : List KheapBlock} {b b' : KheapBlock} {f : Nat} (h : HeapShaped s)
    (hl : s.heap.blocks = l₁ ++ b :: l₂) (ht : Taken size b b' f) (n : Nat) : HeapShaped (s.commit (l₁ ++ b' :: l₂) n) := by
  obtain ⟨hshape, hhint⟩ := ht.blocks (hl ▸ h.blocks.shape) (hl ▸ h.blocks.hint)
  exact ⟨h.sectSize, h.asa, hshape, hhint⟩

theorem HeapShaped.mallocLoop (hs : size < 2 ^ 32) : ∀ {fuel : Nat} {s s' : HeapState σ} {r : KReturn} {out : Option Nat},
    HeapShaped s → kheapMallocLoop kp size align manual fuel s = .ok (r, out, s') →
    HeapShaped s' ∧ (r.failed = true ∨ ∃ v, out = some v ∧ ServedFrom size align manual s.heap.blocks v)
  | 0, _, _, _, _, _, hm => by cases hm
  | fuel + 1, s, s', r, out, h, hm => by
    unfold kheapMallocLoop at hm
    split at hm
    · cases hm
      exact ⟨h, .inl rfl⟩
    rcases h.blocks.first hs with hno | ⟨l₁, b, l₂, f, hl, hf⟩
    · have hpass := kheapMallocPass_none fun b hb => (h.blocks.skips_iff hs align manual hb).mpr (hno b hb)
      rw [hpass, liftM_some, ok_bind] at hm
      obtain ⟨⟨ret, s₁⟩, hexp, hm⟩ := bind_eq_ok.mp hm
      obtain ⟨h₁, hcases⟩ := h.expand hexp
      dsimp only at hm
      split at hm
      · next hfail =>
        cases hm
        exact ⟨h₁, .inl hfail⟩
      · next hok =>
        obtain ⟨h', hserved⟩ := h₁.mallocLoop hs hm
        rcases hcases with hfail | ⟨b, p, hfresh, hblocks⟩
        · exact absurd hfail hok
        rw [hblocks] at hserved
        rcases hserved with hfail | ⟨v, hv, hfrom⟩
        · exact ⟨h', .inl hfail⟩
        · exact ⟨h', .inr ⟨v, hv, hfrom.behind hs hfresh hno⟩⟩
    · obtain ⟨b', ht, hpass⟩ := hf.pass hs align manual (hl ▸ h.blocks)
      rw [hl, hpass, liftM_some, ok_bind] at hm
      cases hm
      exact ⟨h.commit hl ht _, .inr ⟨_, rfl, .seen hl hf⟩⟩

/-- **`kheap_malloc`** keeps the layout, and serves as `ServedFrom` says. -/
theorem HeapShaped.malloc (h : HeapShaped s) (hs : size < 2 ^ 32) {r : KReturn} {out : Option Nat}
    (hm : kheapMalloc kp s size align = .ok (r, out, s')) : HeapShaped s' ∧ (r.failed = true ∨ ∃ v, out = some v ∧
      ServedFrom (paddedSize s.heap size align) align (manualAlign s.heap align) s.heap.blocks v) := by
  have hpad := paddedSize_lt s.heap align hs
  unfold kheapMalloc at hm
  dsimp only at hm
  split at hm
  · next hempty =>
    obtain ⟨⟨ret, s₁⟩, hexp, hm⟩ := bind_eq_ok.mp hm
    obtain ⟨h₁, hcases⟩ := h.expand hexp
    have hnone : ∀ c ∈ s.heap.blocks, ¬ c.Sees (paddedSize s.heap size align) := by
      rw [List.isEmpty_iff.mp hempty]
      simp
    dsimp only at hm
    split at hm
    · next hfail =>
      cases hm
      exact ⟨h₁, .inl hfail⟩
    · next hok =>
      obtain ⟨h', hserved⟩ := h₁.mallocLoop hpad hm
      rcases hcases with hfail | ⟨b, p, hfresh, hblocks⟩
      · exact absurd hfail hok
      rw [hblocks] at hserved
      exact ⟨h', hserved.imp_right fun ⟨v, hv, hfrom⟩ => ⟨v, hv, hfrom.behind hpad hfresh hnone⟩⟩
  · exact h.mallocLoop hpad hm

theorem HeapShaped.free (h : HeapShaped s) {addr : Nat} {r : Bool} {heap : Kheap}
    (hf : kheapFree s.heap addr = some (r, heap)) : HeapShaped { s with heap } := by
  unfold kheapFree at hf
  obtain ⟨found, hfound, hf⟩ := Option.bind_eq_some_iff.mp hf
  cases found with
  | none =>
    cases hf
    exact h
  | some found =>
    obtain ⟨blocks, n⟩ := found
    cases hf
    obtain ⟨-, hshape, hhint⟩ := kheapFreeBlocks_keeps h.blocks.shape h.blocks.hint hfound
    exact ⟨h.sectSize, h.asa, hshape, hhint⟩

/-! ## Page boundaries -/

/-- The request will be served from sections that start on a page boundary. -/
def ServedOnPage (blocks : List KheapBlock) (size : Nat) : Prop :=
  ∃ l₁ b l₂ f, blocks = l₁ ++ b :: l₂ ∧ FirstSeen l₁ b size f ∧ (b.start + f * b.sectionSize) % pageSize = 0

/-- An address served without alignment lies on a page boundary exactly
then: a new block's first free section never does. -/
theorem ServedFrom.page_iff (h : ServedFrom size align false blocks v) (hblocks : BlocksShaped blocks)
    (hs : size < 2 ^ 32) : v % 4096 = 0 ↔ ServedOnPage blocks size := by
  have hstart (x : Nat) : alignOut x align false = x := by simp [alignOut]
  have hsect {l₁ l₂ : List KheapBlock} {b : KheapBlock} (hl : blocks = l₁ ++ b :: l₂) : b.sectionSize = 16 :=
    (hblocks.shape b (hl ▸ mem_middle.mpr (.inl rfl))).sectSize
  cases h with
  | @seen l₁ b l₂ f hl hf =>
    rw [hstart]
    constructor
    · intro hv
      refine ⟨l₁, b, l₂, f, hl, hf, ?_⟩
      rw [hsect hl]
      unfold pageSize
      omega
    · rintro ⟨m₁, c, m₂, g, hl', hg, hpage⟩
      -- The pass would serve both.
      obtain ⟨b', -, hb⟩ := hf.pass hs 0 false (hl ▸ hblocks)
      obtain ⟨c', -, hc⟩ := hg.pass hs 0 false (hl' ▸ hblocks)
      rw [← hl] at hb
      rw [← hl', hb] at hc
      simp only [Option.some.injEq, Prod.mk.injEq, alignOut, Bool.false_eq_true, false_and, ite_false] at hc
      rw [hsect hl'] at hpage
      unfold pageSize at hpage
      omega
  | @fresh b p hno hfresh =>
    have hal := hfresh.aligned
    rw [hstart]
    refine iff_of_false (by unfold reservedSections; omega) ?_
    rintro ⟨l₁, c, l₂, f, hl, hf, -⟩
    exact hno c (hl ▸ mem_middle.mpr (.inl rfl)) hf.sees

/-- What is served aligned to pages lies on a page boundary. -/
theorem ServedFrom.page (h : ServedFrom size pageSize true blocks v) : v % 4096 = 0 := by
  have hal (x : Nat) : alignOut x pageSize true % 4096 = 0 := by
    unfold alignOut pageSize u32
    split
    · omega
    · next hno =>
      simp only [true_and] at hno
      omega
  cases h with
  | seen => exact hal _
  | fresh => exact hal _

theorem ServedFrom.lt (h : ServedFrom size align manual blocks v) (hblocks : BlocksShaped blocks) : v < 2 ^ 32 := by
  have hout {x : Nat} (hx : x < 2 ^ 32) : alignOut x align manual < 2 ^ 32 := by
    unfold alignOut
    split
    · exact u32_lt _
    · exact hx
  cases h with
  | @seen l₁ b l₂ f hl hf =>
    have hbm : b ∈ blocks := hl ▸ mem_middle.mpr (.inl rfl)
    have hshape := hblocks.shape b hbm
    have hfits := hshape.fits
    have hle := hf.fit.le (by rw [hshape.usedLength]; exact hblocks.hint b hbm)
    rw [hshape.usedLength] at hle
    exact hout (by omega)
  | @fresh b p _ hfresh =>
    have hfits := hfresh.fits; have hpages := hfresh.pages
    exact hout (by unfold reservedSections; omega)

end ShawnOS
