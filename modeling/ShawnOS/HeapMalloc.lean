/-
What one call of `kheap_malloc` does, over the whole block list.

A pass serves from the first block that does not skip (`Taken`). The call
is some number of expansions (`Expands`) followed by one pass that serves,
or by the failure of the last expansion.
-/
import ShawnOS.HeapExpand

namespace ShawnOS

open Word32 Runs

/-- The sections `kheap_malloc` takes in `b` for `size` bytes: those its
scan finds, from `f` on. -/
structure Taken (size : Nat) (b b' : KheapBlock) (f : Nat) : Prop where
  fit : HintFit b.usedSections.bit b.firstFreeSection b.usedSections.length (divRoundUp size 16) f
  commit : Committed b b' f (divRoundUp size 16)

/-- **One pass**: every block is skipped, or the first that is not serves. -/
theorem kheapMallocPass_cases {size : Nat} (hs : size < 2 ^ 32) (align : Nat) (manual : Bool) :
    ∀ {blocks : List KheapBlock}, (∀ b ∈ blocks, BlockShape b (b.blockSize / 4096)) →
      (∀ b ∈ blocks, b.firstFreeSection ≤ 256 * (b.blockSize / 4096)) →
      (kheapMallocPass size align manual blocks = some none ∧
        ∀ b ∈ blocks, kheapMallocBlock b size align manual = some none) ∨
      ∃ l₁ b l₂ b' f, blocks = l₁ ++ b :: l₂ ∧ (∀ c ∈ l₁, kheapMallocBlock c size align manual = some none) ∧
        Taken size b b' f ∧ kheapMallocPass size align manual blocks =
          some (some (l₁ ++ b' :: l₂, alignOut (b.start + 16 * f) align manual, divRoundUp size 16)) := by
  intro blocks
  induction blocks with
  | nil => intro _ _; exact .inl ⟨rfl, by simp⟩
  | cons cur next ih =>
    intro hshape hhint
    rcases kheapMallocBlock_cases (hshape cur List.mem_cons_self) (hhint cur List.mem_cons_self) hs align manual with
      ⟨hskip, -⟩ | ⟨b', f, he, -, hfit, hc⟩
    · rcases ih (fun b hb => hshape b (List.mem_cons_of_mem _ hb)) (fun b hb => hhint b (List.mem_cons_of_mem _ hb))
        with ⟨hn, hall⟩ | ⟨l₁, b, l₂, b', f, hl, hbefore, ht, he⟩
      · refine .inl ⟨by simp [kheapMallocPass, hskip, hn], fun b hb => ?_⟩
        rcases List.mem_cons.mp hb with rfl | hb
        · exact hskip
        · exact hall b hb
      · refine .inr ⟨cur :: l₁, b, l₂, b', f, by rw [hl]; rfl, fun c hc => ?_, ht, ?_⟩
        · rcases List.mem_cons.mp hc with rfl | hc
          · exact hskip
          · exact hbefore c hc
        · simp [kheapMallocPass, hskip, he]
    · exact .inr ⟨[], cur, next, b', f, rfl, by simp, ⟨hfit, hc⟩, by simp [kheapMallocPass, he]⟩

theorem kheapMallocPass_none {size align : Nat} {manual : Bool} {blocks : List KheapBlock}
    (h : ∀ b ∈ blocks, kheapMallocBlock b size align manual = some none) :
    kheapMallocPass size align manual blocks = some none := by
  induction blocks with
  | nil => rfl
  | cons b next ih =>
    simp [kheapMallocPass, h b List.mem_cons_self, ih fun c hc => h c (List.mem_cons_of_mem _ hc)]

variable {σ : Type} {kp : KpagingInterface σ} {s s' : HeapState σ}

/-- How a call of `kheap_malloc` that returns ends, from the state `s₁` its
expansions led to. -/
inductive MallocEnd (size align : Nat) (manual : Bool) (s₁ : HeapState σ) :
    KReturn → Option Nat → HeapState σ → Prop
  | failed {r} : r ≠ .success → MallocEnd size align manual s₁ r none s₁
  | served {l₁ b l₂ b' f} : s₁.heap.blocks = l₁ ++ b :: l₂ →
      (∀ c ∈ l₁, kheapMallocBlock c size align manual = some none) → Taken size b b' f →
      MallocEnd size align manual s₁ .success (some (alignOut (b.start + 16 * f) align manual))
        (s₁.commit (l₁ ++ b' :: l₂) (divRoundUp size 16))

theorem kheapExpand_ok (h : HeapOk s) {size : Nat} {r : KReturn} (he : kheapExpand kp s size = .ok (r, s')) :
    Expansion s s' ∧ (r = .success ∨ r = .oom) := by
  cases hp : expandPages size with
  | error e =>
    unfold kheapExpand at he
    rw [hp, error_bind] at he
    cases he
  | ok p =>
    rcases @kheapExpand_cases σ kp s h size p hp with ⟨h1, -⟩ | ⟨t, h1, h2, -⟩ | ⟨t, b, h1, h2⟩
    · rw [h1] at he
      cases he
    · rw [h1] at he
      cases he
      exact ⟨.inl h2, .inr rfl⟩
    · rw [h1] at he
      cases he
      exact ⟨.inr ⟨b, p, h2⟩, .inl rfl⟩

theorem kheapMallocLoop_ok {size align : Nat} {manual : Bool} (hs : size < 2 ^ 32) :
    ∀ {fuel : Nat} {s s' : HeapState σ} {r : KReturn} {o : Option Nat}, HeapOk s →
      kheapMallocLoop kp size align manual fuel s = .ok (r, o, s') →
      ∃ s₁, Expands s s₁ ∧ MallocEnd size align manual s₁ r o s' := by
  intro fuel
  induction fuel with
  | zero => intro s s' r o _ h; cases h
  | succ fuel ih =>
    intro s s' r o hok h
    rw [kheapMallocLoop] at h
    split at h
    · cases h
      exact ⟨_, .refl, .failed (by simp)⟩
    rcases kheapMallocPass_cases hs align manual hok.shape hok.hint with
      ⟨hpass, -⟩ | ⟨l₁, b, l₂, b', f, hl, hbefore, ht, hpass⟩
    · rw [hpass, liftM_some, ok_bind] at h
      obtain ⟨⟨ret, s₂⟩, hexp, h⟩ := bind_eq_ok.mp h
      obtain ⟨hstep, hret⟩ := kheapExpand_ok hok hexp
      rcases hret with rfl | rfl
      · obtain ⟨s₁, hs₁, hend⟩ := ih (hok.expansion hstep) h
        exact ⟨s₁, .head hstep hs₁, hend⟩
      · cases h
        exact ⟨_, .single hstep, .failed (by simp)⟩
    · rw [hpass, liftM_some, ok_bind] at h
      cases h
      exact ⟨_, .refl, .served hl hbefore ht⟩

theorem paddedSize_lt (heap : Kheap) {size : Nat} (align : Nat) (hs : size < 2 ^ 32) :
    paddedSize heap size align < 2 ^ 32 := by
  unfold paddedSize
  split
  · exact u32_lt _
  · exact hs

/-- **One call of `kheap_malloc`**: expansions, then the end. -/
theorem kheapMalloc_ok (h : HeapOk s) {size align : Nat} {r : KReturn} {o : Option Nat}
    (hs : size < 2 ^ 32) (hm : kheapMalloc kp s size align = .ok (r, o, s')) :
    ∃ s₁, Expands s s₁ ∧ MallocEnd (paddedSize s.heap size align) align (manualAlign s.heap align) s₁ r o s' := by
  have hpad := paddedSize_lt s.heap align hs
  unfold kheapMalloc at hm
  dsimp only at hm
  split at hm
  · obtain ⟨⟨ret, s₂⟩, hexp, hm⟩ := bind_eq_ok.mp hm
    obtain ⟨hstep, hret⟩ := kheapExpand_ok h hexp
    rcases hret with rfl | rfl
    · obtain ⟨s₁, hs₁, hend⟩ := kheapMallocLoop_ok hpad (h.expansion hstep) hm
      exact ⟨s₁, .head hstep hs₁, hend⟩
    · cases hm
      exact ⟨_, .single hstep, .failed (by simp)⟩
  · exact kheapMallocLoop_ok hpad h hm

/-! ## Calls that are served -/

/-- The default heap before its first call. -/
theorem HeapInv.start {a₀ : Asa} (ha : AsaUpTo a₀ 380) (q : σ) :
    HeapInv (⟨kheapKallocInstall, a₀, q⟩ : HeapState σ) [] fun _ => ⟨0, 0, 0⟩ :=
  ⟨rfl, rfl, ha.inv, fun _ hb => (by cases hb), fun _ hx => (by cases hx), .nil, fun _ hb => (by cases hb), rfl⟩

/-- The first block with a run for the request serves it. -/
theorem kheapMallocPass_serves {l₁ : List KheapBlock} {b : KheapBlock} (l₂ : List KheapBlock) {p size f : Nat}
    (h : BlockInv b p) (hs : size < 2 ^ 32) (align : Nat) (manual : Bool)
    (hl₁ : ∀ c ∈ l₁, kheapMallocBlock c size align manual = some none)
    (hf : HintFit b.usedSections.bit b.firstFreeSection b.usedSections.length (divRoundUp size 16) f) :
    ∃ b', kheapMallocPass size align manual (l₁ ++ b :: l₂) =
        some (some (l₁ ++ b' :: l₂, alignOut (b.start + 16 * f) align manual, divRoundUp size 16)) ∧
      Taken size b b' f := by
  induction l₁ with
  | nil =>
    rcases kheapMallocBlock_cases h.toBlockShape h.hint hs align manual with ⟨hskip, -⟩ | ⟨b', g, he, -, hg, hc⟩
    · exact absurd hf ((kheapMallocBlock_none_iff h hs align manual).mp hskip f)
    · cases hg.unique (nSec_pos hs) hf
      exact ⟨b', by simp [kheapMallocPass, he], hg, hc⟩
  | cons c l₁ ih =>
    obtain ⟨b', he, ht⟩ := ih fun d hd => hl₁ d (List.mem_cons_of_mem _ hd)
    exact ⟨b', by simp [kheapMallocPass, hl₁ c List.mem_cons_self, he], ht⟩

theorem kheapMallocLoop_serves {l₁ : List KheapBlock} {b : KheapBlock} {l₂ : List KheapBlock} {p size f : Nat}
    (h : BlockInv b p) (hb : s.heap.blocks = l₁ ++ b :: l₂) (hs : size < 2 ^ 32) (align : Nat) (manual : Bool)
    (fuel : Nat) (hl₁ : ∀ c ∈ l₁, kheapMallocBlock c size align manual = some none)
    (hf : HintFit b.usedSections.bit b.firstFreeSection b.usedSections.length (divRoundUp size 16) f) :
    ∃ b', kheapMallocLoop kp size align manual (fuel + 1) s =
        .ok (.success, some (alignOut (b.start + 16 * f) align manual),
          s.commit (l₁ ++ b' :: l₂) (divRoundUp size 16)) ∧ Taken size b b' f := by
  obtain ⟨b', hpass, ht⟩ := kheapMallocPass_serves l₂ h hs align manual hl₁ hf
  refine ⟨b', ?_, ht⟩
  rw [kheapMallocLoop, hb, hpass, if_neg (by simp)]
  rfl

/-- A request that some block has a run for is served without expanding. -/
theorem kheapMalloc_serves {l₁ : List KheapBlock} {b : KheapBlock} {l₂ : List KheapBlock} {p size align f : Nat}
    (h : BlockInv b p) (hb : s.heap.blocks = l₁ ++ b :: l₂) (hs : paddedSize s.heap size align < 2 ^ 32)
    (hl₁ : ∀ c ∈ l₁, kheapMallocBlock c (paddedSize s.heap size align) align (manualAlign s.heap align) = some none)
    (hf : HintFit b.usedSections.bit b.firstFreeSection b.usedSections.length
      (divRoundUp (paddedSize s.heap size align) 16) f) :
    ∃ b', kheapMalloc kp s size align =
        .ok (.success, some (alignOut (b.start + 16 * f) align (manualAlign s.heap align)),
          s.commit (l₁ ++ b' :: l₂) (divRoundUp (paddedSize s.heap size align) 16)) ∧
      Taken (paddedSize s.heap size align) b b' f := by
  obtain ⟨b', hloop, ht⟩ := @kheapMallocLoop_serves σ kp s l₁ b l₂ p _ f h hb hs align (manualAlign s.heap align)
    (s.asa.pages.length + 1) hl₁ hf
  refine ⟨b', ?_, ht⟩
  unfold kheapMalloc
  dsimp only
  rw [if_neg (by rw [hb]; simp)]
  exact hloop

/-- Exactly the sections below the hint are used. -/
structure BlockUpTo (b : KheapBlock) (p c : Nat) : Prop extends BlockInv b p where
  atHint : b.firstFreeSection = c
  bit : ∀ j, j < 256 * p → b.usedSections.bit j = decide (j < c)

theorem BlockFresh.upTo {b : KheapBlock} {p : Nat} (h : BlockFresh b p) : BlockUpTo b p (reservedSections p) :=
  ⟨h.inv, h.hint, h.used⟩

theorem BlockUpTo.fit {b : KheapBlock} {p c n : Nat} (h : BlockUpTo b p c) (hn : c + n ≤ 256 * p) :
    HintFit b.usedSections.bit b.firstFreeSection b.usedSections.length n c := by
  rw [h.atHint, h.usedLength]
  refine .inl ⟨Nat.le_refl _, hn, fun j h1 h2 => ?_, fun g h1 h2 => by omega⟩
  rw [h.bit j (by omega)]
  exact decide_eq_false (by omega)

theorem BlockUpTo.taken {b b' : KheapBlock} {p c size : Nat} (h : BlockUpTo b p c) (ht : Taken size b b' c)
    (hn : c + divRoundUp size 16 ≤ 256 * p) : BlockUpTo b' p (c + divRoundUp size 16) := by
  refine ⟨ht.commit.inv h.toBlockInv ht.fit.clear hn, ht.commit.hint, fun j hj => ?_⟩
  rw [ht.commit.used.bit, h.bit j hj, ← Bool.decide_or]
  exact decide_eq_decide.mpr (by omega)

/-- The first call on the default heap, for a request that fits a block of
the default size, when the pages of that block can be mapped. -/
theorem kheapMalloc_firstBlock {a₀ : Asa} (ha : AsaUpTo a₀ 380) {q q' : σ}
    (hmap : kheapMapPages kp 0x17c000 261 0 q = some (none, q')) {size align : Nat}
    (hpos : 0 < paddedSize kheapKallocInstall size align) (hs : paddedSize kheapKallocInstall size align ≤ 2 ^ 20) :
    ∃ s₁ b b', Added (⟨kheapKallocInstall, a₀, q⟩ : HeapState σ) s₁ b 261 ∧ s₁.paging = q' ∧ b.start = 0x17c000 ∧
      Taken (paddedSize kheapKallocInstall size align) b b' 1047 ∧
      kheapMalloc kp ⟨kheapKallocInstall, a₀, q⟩ size align =
        .ok (.success, some (alignOut (b.start + 16 * 1047) align (manualAlign kheapKallocInstall align)),
          s₁.commit [b'] (divRoundUp (paddedSize kheapKallocInstall size align) 16)) := by
  have hok := (HeapInv.start ha q).ok
  obtain ⟨padded, hpad⟩ : ∃ m, m = paddedSize kheapKallocInstall size align := ⟨_, rfl⟩
  rw [← hpad] at hpos hs ⊢
  have hmax : max minBlockSizeDefault padded = 2 ^ 20 := by unfold minBlockSizeDefault; omega
  have hpages : expandPages (max minBlockSizeDefault padded) = .ok 261 := by
    rw [hmax, expandPages_ok (by decide) (by decide)]
    decide
  obtain ⟨s₁, b, hby, hq, hstart, hadd⟩ := hok.expandBy_mapped (by decide) (ha.firstFit (n := 261) (by decide) (by decide)) hmap
  have hexp : kheapExpand kp ⟨kheapKallocInstall, a₀, q⟩ (max minBlockSizeDefault padded) = .ok (.success, s₁) := by
    rw [kheapExpand, hpages, ok_bind, hby]
    rfl
  have hn : divRoundUp padded 16 ≤ 65536 := by
    rw [divRoundUp_of_pos hpos (by omega)]
    omega
  obtain ⟨b', hloop, ht⟩ := @kheapMallocLoop_serves σ kp s₁ [] b [] 261 padded 1047 hadd.fresh.inv hadd.blocks (by omega)
    align (manualAlign kheapKallocInstall align) (a₀.pages.length + 1) (by simp)
    (hadd.fresh.upTo.fit (by unfold reservedSections; omega))
  refine ⟨s₁, b, b', hadd, hq, hstart, ht, ?_⟩
  unfold kheapMalloc
  dsimp only
  have hempty : kheapKallocInstall.blocks.isEmpty = true := rfl
  have hmin : kheapKallocInstall.minBlockSize = minBlockSizeDefault := rfl
  rw [if_pos hempty, ← hpad, hmin, hexp, ok_bind]
  exact hloop

theorem kheapMalloc_first {a₀ : Asa} (ha : AsaUpTo a₀ 380) (q : σ) (hmaps : kp.Maps) {size align : Nat}
    (hpos : 0 < paddedSize kheapKallocInstall size align)
    (hs : paddedSize kheapKallocInstall size align ≤ 2 ^ 20) :
    ∃ s₁ b b', Added (⟨kheapKallocInstall, a₀, q⟩ : HeapState σ) s₁ b 261 ∧
      Taken (paddedSize kheapKallocInstall size align) b b' 1047 ∧
      kheapMalloc kp ⟨kheapKallocInstall, a₀, q⟩ size align =
        .ok (.success, some (alignOut (b.start + 16 * 1047) align (manualAlign kheapKallocInstall align)),
          s₁.commit [b'] (divRoundUp (paddedSize kheapKallocInstall size align) 16)) := by
  obtain ⟨q', hmap⟩ := kheapMapPages_maps hmaps 0x17c000 261 0 q
  obtain ⟨s₁, b, b', hadd, -, -, ht, hm⟩ := kheapMalloc_firstBlock ha hmap hpos hs
  exact ⟨s₁, b, b', hadd, ht, hm⟩

/-! ## Between calls -/

variable {live : List (Nat × Nat)} {run : Nat → Run}

/-- Where `kheap_malloc` served, its sections and the address returned. -/
theorem HeapInv.served {l₁ l₂ : List KheapBlock} {b b' : KheapBlock} {padded f : Nat}
    (h : HeapInv s live run) (hs : padded < 2 ^ 32) (hl : s.heap.blocks = l₁ ++ b :: l₂)
    (ht : Taken padded b b' f) {out : Nat} (size : Nat) (h1 : b.start + 16 * f ≤ out)
    (h2 : out < b.start + 16 * (f + divRoundUp padded 16)) :
    HeapInv (s.commit (l₁ ++ b' :: l₂) (divRoundUp padded 16)) ((out, size) :: live)
      (Function.update run out ⟨b.start, f, divRoundUp padded 16⟩) := by
  have hb := h.block b (by rw [hl]; exact mem_middle.mpr (.inl rfl))
  obtain ⟨hlo, hhi⟩ := hb.fit (nSec_pos hs) ht.fit
  exact h.commit hl ht.commit (nSec_pos hs) ht.fit.clear hlo (by rw [hb.usedLength]; exact hhi) h1 h2

/-! ## Any calls -/

/-- One call, with any size, alignment and address. -/
inductive AnyCall (kp : KpagingInterface σ) : HeapState σ → HeapState σ → Prop
  | malloc {s s' size align r o} : size < 2 ^ 32 → align < 2 ^ 32 →
      kheapMalloc kp s size align = .ok (r, o, s') → AnyCall kp s s'
  | free {s addr r heap} : addr < 2 ^ 32 → kheapFree s.heap addr = some (r, heap) → AnyCall kp s { s with heap }

theorem kheapFreeBlocks_keeps {addr n : Nat} :
    ∀ {blocks blocks' : List KheapBlock}, (∀ b ∈ blocks, BlockShape b (b.blockSize / 4096)) →
      (∀ b ∈ blocks, b.firstFreeSection ≤ 256 * (b.blockSize / 4096)) →
      kheapFreeBlocks addr blocks = some (some (blocks', n)) →
      blocks'.map blockPages = blocks.map blockPages ∧ (∀ b ∈ blocks', BlockShape b (b.blockSize / 4096)) ∧
        ∀ b ∈ blocks', b.firstFreeSection ≤ 256 * (b.blockSize / 4096) := by
  intro blocks
  induction blocks with
  | nil => intro _ _ _ h; cases h
  | cons cur next ih =>
    intro blocks' hshape hhint h
    have hnext : ∀ b ∈ next, b ∈ cur :: next := fun b hb => List.mem_cons_of_mem _ hb
    rw [kheapFreeBlocks] at h
    split at h
    · obtain ⟨⟨b', m⟩, hf, h⟩ := Option.bind_eq_some_iff.mp h
      cases h
      obtain ⟨h1, h2, h3, h4⟩ := kheapFreeBlock_keeps (hshape cur List.mem_cons_self) hf
      refine ⟨by simp only [List.map_cons, blockPages, h2, h3], fun b hb => ?_, fun b hb => ?_⟩
      · rcases List.mem_cons.mp hb with rfl | hb
        · rw [h3]; exact h1
        · exact hshape b (hnext b hb)
      · rcases List.mem_cons.mp hb with rfl | hb
        · rw [h3]; exact h4
        · exact hhint b (hnext b hb)
    · obtain ⟨r, hr, h⟩ := Option.bind_eq_some_iff.mp h
      cases r with
      | none => cases h
      | some r =>
        obtain ⟨rest, m⟩ := r
        cases h
        obtain ⟨h1, h2, h3⟩ := ih (fun b hb => hshape b (hnext b hb)) (fun b hb => hhint b (hnext b hb)) hr
        refine ⟨by rw [List.map_cons, h1, List.map_cons], fun b hb => ?_, fun b hb => ?_⟩
        · rcases List.mem_cons.mp hb with rfl | hb
          · exact hshape b List.mem_cons_self
          · exact h2 b hb
        · rcases List.mem_cons.mp hb with rfl | hb
          · exact hhint b List.mem_cons_self
          · exact h3 b hb

/-- Serving keeps the layout and the hint bounds of all blocks. -/
theorem Taken.blocks {l₁ l₂ : List KheapBlock} {b b' : KheapBlock} {size f : Nat} (ht : Taken size b b' f)
    (hshape : ∀ c ∈ l₁ ++ b :: l₂, BlockShape c (c.blockSize / 4096))
    (hhint : ∀ c ∈ l₁ ++ b :: l₂, c.firstFreeSection ≤ 256 * (c.blockSize / 4096)) :
    (∀ c ∈ l₁ ++ b' :: l₂, BlockShape c (c.blockSize / 4096)) ∧
      ∀ c ∈ l₁ ++ b' :: l₂, c.firstFreeSection ≤ 256 * (c.blockSize / 4096) := by
  have hbm : b ∈ l₁ ++ b :: l₂ := mem_middle.mpr (.inl rfl)
  have hpages : b'.blockSize / 4096 = b.blockSize / 4096 := by rw [ht.commit.size]
  have hle := ht.fit.le (by rw [(hshape b hbm).usedLength]; exact hhint b hbm)
  rw [(hshape b hbm).usedLength] at hle
  refine ⟨fun c hc => ?_, fun c hc => ?_⟩
  · rcases mem_middle.mp hc with rfl | hc
    · rw [hpages]
      exact ht.commit.shape (hshape b hbm)
    · exact hshape c (mem_middle.mpr (.inr hc))
  · rcases mem_middle.mp hc with rfl | hc
    · rw [hpages, ht.commit.hint]
      exact hle
    · exact hhint c (mem_middle.mpr (.inr hc))

theorem HeapOk.commit {l₁ l₂ : List KheapBlock} {b b' : KheapBlock} {size f : Nat} (h : HeapOk s)
    (hb : s.heap.blocks = l₁ ++ b :: l₂) (ht : Taken size b b' f) :
    HeapOk (s.commit (l₁ ++ b' :: l₂) (divRoundUp size 16)) := by
  obtain ⟨hshape, hhint⟩ := ht.blocks (hb ▸ h.shape) (hb ▸ h.hint)
  refine ⟨h.sectSize, h.minSize, ?_, hshape, hhint⟩
  show AsaInv s.asa ((l₁ ++ b' :: l₂).map blockPages)
  rw [blockPages_middle ht.commit.start ht.commit.size, ← hb]
  exact h.asa

theorem HeapOk.anyCall (h : HeapOk s) (hc : AnyCall kp s s') : HeapOk s' := by
  cases hc with
  | malloc hs _ hm =>
    obtain ⟨s₁, hexp, hend⟩ := kheapMalloc_ok h hs hm
    have h₁ := h.expands hexp
    cases hend with
    | failed _ => exact h₁
    | served hl _ ht => exact h₁.commit hl ht
  | @free addr r heap _ hf =>
    unfold kheapFree at hf
    obtain ⟨found, hfound, hf⟩ := Option.bind_eq_some_iff.mp hf
    cases found with
    | none =>
      cases hf
      exact h
    | some found =>
      obtain ⟨blocks, n⟩ := found
      cases hf
      obtain ⟨h1, h2, h3⟩ := kheapFreeBlocks_keeps h.shape h.hint hfound
      exact ⟨h.sectSize, h.minSize, by show AsaInv s.asa (blocks.map blockPages); rw [h1]; exact h.asa, h2, h3⟩

/-- Every state any calls reach from `kheap_kalloc_install`. -/
theorem HeapOk.reach {a₀ : Asa} (ha : AsaUpTo a₀ 380) (q : σ)
    (hrun : Relation.ReflTransGen (AnyCall kp) ⟨kheapKallocInstall, a₀, q⟩ s) : HeapOk s := by
  induction hrun with
  | refl => exact (HeapInv.start ha q).ok
  | tail _ hc ih => exact ih.anyCall hc

end ShawnOS
