/-
How often one `kheap_malloc` call expands the heap.

The block added for a request serves it on the next pass exactly when three
computations agree: the pages `kheap_expand` settles on, the sections
`kheap_add_block` reserves, and the sections the request takes. They
disagree for a request of zero bytes, whose section count wraps to `2^28`,
and for one in 56 sizes above `min_block_size`, where the lag of the sizing
loop makes the block too small. Such a request adds block after block until
the address space is full.
-/
import ShawnOS.HeapFacts

namespace ShawnOS

open Word32 Runs

variable {σ : Type} {kp : KpagingInterface σ} {s s' : HeapState σ}

/-- A state of the default heap that some calls lead to. -/
def HeapReachable (kp : KpagingInterface σ) (s : HeapState σ) : Prop :=
  ∃ (τ : Type) (ki : KallocInterface τ) (mem : Nat → Word) (a a₀ : Asa) (t t' : τ) (q : σ),
    asaInit ki mem a 4096 t = some ((.success, a₀), t') ∧
    Relation.ReflTransGen (AnyCall kp) ⟨kheapKallocInstall, a₀, q⟩ s

theorem HeapReachable.ok (h : HeapReachable kp s) : HeapOk s := by
  obtain ⟨τ, ki, mem, a, a₀, t, t', q, hinit, hrun⟩ := h
  exact HeapOk.reach (asaInit_upTo hinit) q hrun

/-- A call that started with `n` blocks returns with as many, or with one
more and the request served. -/
def GrowsOnceFrom (x : Except Halt (KReturn × Option Nat × HeapState σ)) (n : Nat) : Prop :=
  x ≠ .error .hang ∧ ∀ r o s', x = .ok (r, o, s') →
    s'.heap.blocks.length = n ∨ (s'.heap.blocks.length = n + 1 ∧ r = .success)

/-- One `kheap_malloc` call expands the heap at most once, and then serves. -/
def GrowsOnce (kp : KpagingInterface σ) (s : HeapState σ) (size align : Nat) : Prop :=
  GrowsOnceFrom (kheapMalloc kp s size align) s.heap.blocks.length

/-- The requests, padding included, that a block added for them serves, or
that no block can be added for. -/
def OneExpansion (m : Nat) : Prop :=
  1 ≤ m ∧ m ≤ 4227862488 ∧ (m ≤ 2 ^ 20 ∨ 72 ≤ (m + 47) % 4032 ∨ 1055428440 < m)

instance (m : Nat) : Decidable (OneExpansion m) := inferInstanceAs (Decidable (_ ∧ _ ∧ (_ ∨ _ ∨ _)))

/-! ## Requests that a new block serves -/

theorem Added.pages_le {b : KheapBlock} {p : Nat} (h : Added s s' b p) : p ≤ 261763 := by
  have hl := h.asa.isLive (blockPages b) List.mem_cons_self
  have h1 := hl.low; have h2 := hl.high
  rw [h.asa.length] at h2
  simp only [blockPages, h.fresh.pages_eq] at h1 h2
  omega

theorem OneExpansion.fits {m p : Nat} (h : OneExpansion m) (hp : p = pagesFor (max 0x100000 m)) (hle : p ≤ 261763) :
    reservedSections p + divRoundUp m 16 ≤ 256 * p := by
  obtain ⟨h1, h2, h3⟩ := h
  rw [divRoundUp_of_pos h1 (by omega), reservedSections]
  unfold pagesFor at hp
  split at hp
  · omega
  · split at hp <;> omega

/-- After its expansion a request in `OneExpansion` is served, or was not
to be. -/
theorem OneExpansion.expand {m : Nat} (h : OneExpansion m) (hok : HeapOk s) (align : Nat) (manual : Bool)
    (fuel : Nat) :
    GrowsOnceFrom (do
      let (ret, s) ← kheapExpand kp s (max s.heap.minBlockSize m)
      if ret.failed then pure (ret, none, s)
      else kheapMallocLoop kp m align manual (fuel + 1) s) s.heap.blocks.length := by
  have hm := h.2.1
  rw [hok.minSize]
  have hpages : expandPages (max 0x100000 m) = .ok (pagesFor (max 0x100000 m)) :=
    expandPages_ok (by omega) (by omega)
  rcases @kheapExpand_cases σ kp s hok _ _ hpages with ⟨he, -⟩ | ⟨s₁, he, hr, -⟩ | ⟨s₁, b, he, hadd⟩
  · rw [he, error_bind]
    exact ⟨(by simp), fun r o s' h0 => by cases h0⟩
  · rw [he, ok_bind]
    refine ⟨(by simp [KReturn.failed, pure, Except.pure]), fun r o s' h0 => ?_⟩
    cases h0
    exact .inl (by rw [hr.heap])
  · obtain ⟨b', hloop, -⟩ := @kheapMallocLoop_serves σ kp s₁ [] b _ _ m _ hadd.fresh.inv hadd.blocks (by omega) align
      manual fuel (by simp) (hadd.fresh.upTo.fit (h.fits rfl hadd.pages_le))
    rw [he, ok_bind]
    dsimp only
    rw [if_neg (by simp), hloop]
    refine ⟨(by simp), fun r o s' h0 => ?_⟩
    cases h0
    exact .inr ⟨by simp [HeapState.commit], rfl⟩

theorem OneExpansion.loop {m : Nat} (h : OneExpansion m) (hok : HeapOk s) (hne : s.heap.blocks.isEmpty = false)
    (align : Nat) (manual : Bool) (fuel : Nat) :
    GrowsOnceFrom (kheapMallocLoop kp m align manual (fuel + 2) s) s.heap.blocks.length := by
  have hm := h.2.1
  rw [kheapMallocLoop, hne]
  simp only [Bool.false_eq_true, ite_false]
  rcases kheapMallocPass_cases (show m < 2 ^ 32 by omega) align manual hok.shape hok.hint with
    ⟨hpass, -⟩ | ⟨l₁, b, l₂, b', f, hl, -, -, hpass⟩
  · rw [hpass, liftM_some, ok_bind]
    exact h.expand hok align manual fuel
  · rw [hpass, liftM_some, ok_bind]
    refine ⟨(by simp [pure, Except.pure]), fun r o s' h0 => ?_⟩
    cases h0
    exact .inl (by simp [hl])

theorem OneExpansion.growsOnce {size align : Nat} (hok : HeapOk s)
    (h : OneExpansion (paddedSize s.heap size align)) : GrowsOnce kp s size align := by
  unfold GrowsOnce kheapMalloc
  dsimp only
  cases hempty : s.heap.blocks.isEmpty with
  | true => exact h.expand hok align (manualAlign s.heap align) (s.asa.pages.length + 1)
  | false => exact h.loop hok hempty align (manualAlign s.heap align) s.asa.pages.length

/-! ## Requests that no new block serves -/

/-- A request that a new block skips, and for which one can be added. -/
structure Starves (m p : Nat) : Prop where
  lt : m < 2 ^ 32
  pages : expandPages (max 0x100000 m) = .ok p
  pos : 0 < p
  room : p ≤ 261763
  short : 256 * p < reservedSections p + divRoundUp m 16

theorem Starves.skip {m p : Nat} (h : Starves m p) {b : KheapBlock} (hb : BlockFresh b p) (align : Nat)
    (manual : Bool) : kheapMallocBlock b m align manual = some none := by
  refine (kheapMallocBlock_none_iff hb.inv h.lt align manual).mpr fun f hf => ?_
  have := hb.inv.fit (nSec_pos h.lt) hf
  have := h.short
  omega

/-- The loop adds blocks for it until an expansion fails. -/
theorem Starves.loop {m p : Nat} (h : Starves m p) (hmaps : kp.Maps) (align : Nat) (manual : Bool) :
    ∀ {fuel : Nat} {s : HeapState σ}, HeapOk s →
      (∀ b ∈ s.heap.blocks, kheapMallocBlock b m align manual = some none) →
      kheapMallocLoop kp m align manual fuel s = .error .hang ∨
      ∃ s', kheapMallocLoop kp m align manual fuel s = .ok (.oom, none, s') ∧
        s.heap.blocks.length ≤ s'.heap.blocks.length := by
  intro fuel
  induction fuel with
  | zero => intro s _ _; exact .inl rfl
  | succ fuel ih =>
    intro s hok hskip
    rw [kheapMallocLoop]
    cases hempty : s.heap.blocks.isEmpty with
    | true => exact .inr ⟨s, rfl, Nat.le_refl _⟩
    | false =>
      simp only [Bool.false_eq_true, ite_false]
      rw [kheapMallocPass_none hskip, liftM_some, ok_bind, hok.minSize]
      dsimp only
      rcases @kheapExpand_cases σ kp s hok _ _ h.pages with ⟨-, hno⟩ | ⟨s₁, he, hr, -⟩ | ⟨s₁, b, he, hadd⟩
      · exact absurd hmaps hno
      · rw [he]
        exact .inr ⟨s₁, rfl, by rw [hr.heap]⟩
      · rw [he, ok_bind]
        dsimp only
        rw [if_neg (by simp)]
        have hlen : s.heap.blocks.length ≤ s₁.heap.blocks.length := by
          rw [hadd.blocks]
          simp
        rcases ih (hok.expansion (.inr ⟨b, p, hadd⟩)) (fun c hc => by
          rw [hadd.blocks] at hc
          rcases List.mem_cons.mp hc with rfl | hc
          · exact h.skip hadd.fresh align manual
          · exact hskip c hc) with h1 | ⟨s', h1, h2⟩
        · exact .inl h1
        · exact .inr ⟨s', h1, Nat.le_trans hlen h2⟩

/-- On a new heap such a request adds a block and fails. -/
theorem Starves.not_growsOnce {a₀ : Asa} (ha : AsaUpTo a₀ 380) (q : σ) (hmaps : kp.Maps) {size align p : Nat}
    (h : Starves (paddedSize kheapKallocInstall size align) p) :
    ¬ GrowsOnce kp ⟨kheapKallocInstall, a₀, q⟩ size align := by
  have hok := (HeapInv.start ha q).ok
  have hp := h.room
  have hclear : ClearRun a₀.pages.bit 380 p := fun j h1 h2 => by
    rw [ha.bit j (by omega)]
    exact decide_eq_false (by omega)
  unfold GrowsOnce kheapMalloc
  dsimp only
  have hempty : kheapKallocInstall.blocks.isEmpty = true := rfl
  have hmin : kheapKallocInstall.minBlockSize = 0x100000 := rfl
  rw [if_pos hempty, hmin]
  rcases @kheapExpand_cases σ kp _ hok _ _ h.pages with ⟨-, hno⟩ | ⟨s₁, -, -, hno⟩ | ⟨s₁, b, he, hadd⟩
  · exact absurd hmaps hno
  · exact absurd hclear (hno hmaps h.pos 380 (by rw [ha.length]; omega))
  · rw [he, ok_bind]
    dsimp only
    rw [if_neg (by simp)]
    rintro ⟨hhang, hall⟩
    rcases h.loop hmaps align (manualAlign kheapKallocInstall align) (hok.expansion (.inr ⟨b, p, hadd⟩))
      (fun c hc => by
        rw [hadd.blocks] at hc
        rcases List.mem_cons.mp hc with rfl | hc
        · exact h.skip hadd.fresh align _
        · cases hc) with h1 | ⟨s', h1, h2⟩
    · exact hhang h1
    · rw [hadd.blocks] at h2
      rcases hall _ _ _ h1 with h3 | ⟨-, h3⟩
      · rw [h3] at h2
        exact Nat.not_succ_le_self _ h2
      · cases h3

theorem starves_of_not {m : Nat} (hlt : m < 2 ^ 32) (hle : m ≤ 4227862488) (h : ¬ OneExpansion m) :
    Starves m (pagesFor (max 0x100000 m)) := by
  have hpages : expandPages (max 0x100000 m) = .ok (pagesFor (max 0x100000 m)) :=
    expandPages_ok (by omega) (by omega)
  unfold OneExpansion at h
  have hm : max 0x100000 m ≤ 4227854424 := by omega
  have heq : pagesFor (max 0x100000 m) = (max 0x100000 m + 4007) / 4032 := if_pos hm
  refine ⟨hlt, hpages, by omega, by omega, ?_⟩
  rw [heq, reservedSections]
  rcases nSec_cases hlt with ⟨h0, hz⟩ | ⟨h0, hz⟩
  · omega
  · omega

theorem heapReachable_start {a₀ : Asa}
    (hinit : asaInit placeAt12b000 (fun _ => 0) ⟨⟨0, 0, fun _ => 0⟩, 0⟩ 4096 () = some ((.success, a₀), ())) :
    HeapReachable mapAll ⟨kheapKallocInstall, a₀, ()⟩ :=
  ⟨Unit, placeAt12b000, _, _, a₀, (), (), (), hinit, .refl⟩

/-- Above `4227862488` bytes the sizing loop never ends. -/
theorem not_growsOnce_of_lt {a₀ : Asa} (q : σ) {size align : Nat}
    (hlo : 4227862488 < paddedSize kheapKallocInstall size align)
    (hlt : paddedSize kheapKallocInstall size align < 2 ^ 32) :
    ¬ GrowsOnce kp ⟨kheapKallocInstall, a₀, q⟩ size align := by
  rintro ⟨hhang, -⟩
  apply hhang
  have hmin : kheapKallocInstall.minBlockSize = 0x100000 := rfl
  have hempty : kheapKallocInstall.blocks.isEmpty = true := rfl
  have hmax : expandPages (max 0x100000 (paddedSize kheapKallocInstall size align)) = .error .hang :=
    expandPages_hang (by omega) (by omega)
  unfold kheapMalloc kheapExpand
  dsimp only
  rw [if_pos hempty, hmin, hmax]
  rfl

/-- The padded size is that of a new heap. -/
theorem HeapOk.paddedSize_eq (h : HeapOk s) (size align : Nat) :
    paddedSize s.heap size align = paddedSize kheapKallocInstall size align := by
  have h16 : kheapKallocInstall.defaultSectionSize = 16 := rfl
  rw [paddedSize, paddedSize, manualAlign, manualAlign, h.sectSize, h16]

/-- **When one request expands the heap at most once.** In every state of
the default heap a call returns with no block more, or with one more that
served the request, exactly when the padded size is in `OneExpansion`. -/
theorem heap_grows_once_iff (size align : Nat) (hs : size < 2 ^ 32) (ha : align = 0 ∨ align = pageSize) :
    (∀ (σ : Type) (kp : KpagingInterface σ) (s : HeapState σ), HeapReachable kp s → GrowsOnce kp s size align) ↔
      OneExpansion (if align = 0 then size else (size + pageSize) % 2 ^ 32) := by
  have hpad : paddedSize kheapKallocInstall size align = if align = 0 then size else (size + pageSize) % 2 ^ 32 := by
    rcases ha with rfl | rfl
    · rfl
    · rfl
  rw [← hpad]
  have hlt := paddedSize_lt kheapKallocInstall align hs
  constructor
  · intro hall
    by_contra hno
    obtain ⟨a₀, hinit⟩ := asaInit_placeAt12b000
    have hgrows := hall Unit mapAll _ (heapReachable_start hinit)
    by_cases hle : paddedSize kheapKallocInstall size align ≤ 4227862488
    · exact (starves_of_not hlt hle hno).not_growsOnce (asaInit_upTo hinit) () mapAll_maps hgrows
    · exact not_growsOnce_of_lt () (by omega) hlt hgrows
  · intro h σ kp s hreach
    rw [← hreach.ok.paddedSize_eq] at h
    exact h.growsOnce hreach.ok

/-- A request for a hundred bytes never expands the heap twice. -/
theorem heap_grows_once_hundred : 100 < 2 ^ 32 ∧
    ∀ (σ : Type) (kp : KpagingInterface σ) (s : HeapState σ), HeapReachable kp s → GrowsOnce kp s 100 0 :=
  ⟨by decide, (heap_grows_once_iff 100 0 (by decide) (.inl rfl)).mpr (by decide)⟩

/-- A request for 1052352 bytes on a new heap gets a block of 261 pages,
which has 65769 sections left for the 65772 it needs. -/
theorem heap_grows_repeatedly : ∃ (a₀ : Asa),
    HeapReachable mapAll (⟨kheapKallocInstall, a₀, ()⟩ : HeapState Unit) ∧
    ¬ GrowsOnce mapAll ⟨kheapKallocInstall, a₀, ()⟩ 1052352 0 := by
  obtain ⟨a₀, hinit⟩ := asaInit_placeAt12b000
  have hstarves : Starves (paddedSize kheapKallocInstall 1052352 0) _ :=
    starves_of_not (by decide) (by decide) (by decide)
  exact ⟨a₀, heapReachable_start hinit, hstarves.not_growsOnce (asaInit_upTo hinit) () mapAll_maps⟩

end ShawnOS
