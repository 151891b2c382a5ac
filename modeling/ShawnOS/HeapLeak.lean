/-
Where the kernel heap leaks.

`kheap_malloc` marks a whole run of sections used and may return an aligned
address inside it; `kheap_free` frees from that address's section on. The
sections before it are never freed again. A run of calls leaks nothing when
each request it serves is unaligned, or takes sections that start on a page
boundary (`StartsOnPage`).
-/
import ShawnOS.HeapFacts

namespace ShawnOS

open Word32 Runs

variable {σ : Type} {kp : KpagingInterface σ} {s s' : HeapState σ}
variable {live : List (Nat × Nat)} {run : Nat → Run}

/-- One call, with any size and the alignments `kmalloc`, `kmalloc_a` and
`kmalloc_ap` ask for. A request that is served meets `ok`. -/
inductive HeapCall (kp : KpagingInterface σ) (ok : HeapState σ → Nat → Nat → Prop) :
    HeapState σ × List (Nat × Nat) → HeapState σ × List (Nat × Nat) → Prop
  | malloc {s s' live size align out} : size < 2 ^ 32 → align = 0 ∨ align = pageSize → ok s size align →
      kheapMalloc kp s size align = .ok (.success, some out, s') →
      HeapCall kp ok (s, live) (s', (out, size) :: live)
  | failed {s s' live size align r} : size < 2 ^ 32 → align = 0 ∨ align = pageSize →
      kheapMalloc kp s size align = .ok (r, none, s') → HeapCall kp ok (s, live) (s', live)
  | free {s live x r heap} : x ∈ live → kheapFree s.heap x.1 = some (r, heap) →
      HeapCall kp ok (s, live) ({ s with heap }, live.erase x)

/-- No block of `l` has a run for `n` sections that its scan would find, and
the first such run of `b` starts at section `f`. -/
structure FirstServer (l : List KheapBlock) (b : KheapBlock) (n f : Nat) : Prop where
  before : ∀ c ∈ l, ∀ g, ¬ HintFit c.usedSections.bit c.firstFreeSection c.usedSections.length n g
  fit : HintFit b.usedSections.bit b.firstFreeSection b.usedSections.length n f

/-- The request is unaligned, or the sections it will be served from start
on a page boundary. -/
def StartsOnPage (s : HeapState σ) (size align : Nat) : Prop :=
  align = 0 ∨ ∃ l₁ b l₂ f, s.heap.blocks = l₁ ++ b :: l₂ ∧
    FirstServer l₁ b (divRoundUp (paddedSize s.heap size align) 16) f ∧
    (b.start + f * b.sectionSize) % pageSize = 0

/-- The sections of a block's own data, as `kheap_add_block` counts them. -/
def KheapBlock.reserved (b : KheapBlock) : Nat :=
  divRoundUp (u32 (sizeofKheapBlock + bitsetSizeFor b.blockSize b.sectionSize * 2)) b.sectionSize

/-- `free_sections` at the block's creation. -/
def KheapBlock.freeAtCreation (b : KheapBlock) : Nat := sub32 (divRoundUp b.blockSize b.sectionSize) b.reserved

/-- A block with nothing allocated and nothing lost. -/
structure Pristine (b : KheapBlock) : Prop where
  used : ∀ j, j < b.usedSections.length → b.usedSections.bit j = decide (j < b.reserved)
  delim : ∀ j, j < b.delimiters.length → b.delimiters.bit j = false
  free : b.freeSections = b.freeAtCreation

/-- Nothing is lost: each address starts its run, and a section past a
block's own data is used only by a live run. -/
structure NoLeak (s : HeapState σ) (live : List (Nat × Nat)) (run : Nat → Run) : Prop where
  atStart : ∀ x ∈ live, x.1 = (run x.1).base + 16 * (run x.1).first
  used : ∀ b ∈ s.heap.blocks, ∀ j, j < b.usedSections.length → b.usedSections.bit j = true →
    j < reservedSections (b.blockSize / 4096) ∨
    ∃ x ∈ live, (run x.1).base = b.start ∧ (run x.1).first ≤ j ∧ j < (run x.1).first + (run x.1).n

/-! ## Steps -/

theorem NoLeak.expansion (h : NoLeak s live run) (he : Expansion s s') : NoLeak s' live run := by
  refine ⟨h.atStart, fun c hc j hj hu => ?_⟩
  rcases he with ⟨hh, -⟩ | ⟨b, p, hadd⟩
  · rw [hh] at hc
    exact h.used c hc j hj hu
  · rw [hadd.blocks] at hc
    rcases List.mem_cons.mp hc with rfl | hc
    · rw [hadd.fresh.usedLength] at hj
      rw [hadd.fresh.used j hj] at hu
      rw [hadd.fresh.pages_eq]
      exact .inl (of_decide_eq_true hu)
    · exact h.used c hc j hj hu

theorem NoLeak.expands (h : NoLeak s live run) (he : Expands s s') : NoLeak s' live run := by
  induction he with
  | refl => exact h
  | tail _ hs ih => exact ih.expansion hs

/-- Serving from the start of a run loses nothing. -/
theorem NoLeak.served {l₁ l₂ : List KheapBlock} {b b' : KheapBlock} {padded f out : Nat} (h : NoLeak s live run)
    (hinv : HeapInv s live run) (hs : padded < 2 ^ 32) (hl : s.heap.blocks = l₁ ++ b :: l₂)
    (ht : Taken padded b b' f) (size : Nat) (hout : out = b.start + 16 * f) :
    NoLeak (s.commit (l₁ ++ b' :: l₂) (divRoundUp padded 16)) ((out, size) :: live)
      (Function.update run out ⟨b.start, f, divRoundUp padded 16⟩) := by
  have hbm : b ∈ s.heap.blocks := by rw [hl]; exact mem_middle.mpr (.inl rfl)
  have hb := hinv.block b hbm
  have hn := nSec_pos hs
  have hfit := (hb.fit hn ht.fit).2
  have hrun : ∀ x ∈ live, Function.update run out ⟨b.start, f, divRoundUp padded 16⟩ x.1 = run x.1 := fun x hx =>
    Function.update_of_ne (hinv.clear_fresh hbm ht.fit.clear hn (by rw [hb.usedLength]; exact hfit)
      (by omega) (by omega) hx) _ _
  -- A run that was live keeps its sections.
  have hkeep : ∀ {start j : Nat}, (∃ x ∈ live, (run x.1).base = start ∧ (run x.1).first ≤ j ∧
      j < (run x.1).first + (run x.1).n) → ∃ x ∈ (out, size) :: live,
        (Function.update run out ⟨b.start, f, divRoundUp padded 16⟩ x.1).base = start ∧
        (Function.update run out ⟨b.start, f, divRoundUp padded 16⟩ x.1).first ≤ j ∧
        j < (Function.update run out ⟨b.start, f, divRoundUp padded 16⟩ x.1).first +
          (Function.update run out ⟨b.start, f, divRoundUp padded 16⟩ x.1).n := by
    intro start j ⟨x, hx, hx'⟩
    exact ⟨x, List.mem_cons_of_mem _ hx, by rw [hrun x hx]; exact hx'⟩
  refine ⟨fun x hx => ?_, fun c hc j hj hu => ?_⟩
  · rcases List.mem_cons.mp hx with rfl | hx
    · rw [Function.update_self]
      exact hout
    · rw [hrun x hx]
      exact h.atStart x hx
  · rcases mem_middle.mp hc with rfl | hc
    · rw [ht.commit.used.length] at hj
      rw [ht.commit.used.bit, Bool.or_eq_true, decide_eq_true_eq] at hu
      rw [ht.commit.size, ht.commit.start]
      rcases hu with hu | hu
      · exact (h.used b hbm j hj hu).imp_right hkeep
      · exact .inr ⟨(out, size), List.mem_cons_self, by rw [Function.update_self]; exact ⟨rfl, hu⟩⟩
    · exact (h.used c (by rw [hl]; exact mem_middle.mpr (.inr hc)) j hj hu).imp_right hkeep

/-- Freeing an address that starts its run frees the whole run. -/
theorem NoLeak.release {l₁ l₂ : List KheapBlock} {b b' : KheapBlock} {x : Nat × Nat} {n : Nat}
    (h : NoLeak s live run) (hl : s.heap.blocks = l₁ ++ b :: l₂)
    (hlive : LiveIn b x.1 (run x.1)) (hn : (run x.1).first + n = (run x.1).first + (run x.1).n)
    (hf : Freed b b' (run x.1).first n) (hothers : ∀ c ∈ l₁ ++ l₂, c.start ≠ b.start) :
    NoLeak (s.release (l₁ ++ b' :: l₂) n) (live.erase x) run := by
  refine ⟨fun y hy => h.atStart y (List.mem_of_mem_erase hy), fun c hc j hj hu => ?_⟩
  rcases mem_middle.mp hc with rfl | hc
  · rw [hf.used.length] at hj
    rw [hf.used.bit, Bool.and_eq_true, Bool.not_eq_true', decide_eq_false_iff_not] at hu
    rw [hf.size, hf.start]
    refine (h.used b (by rw [hl]; exact mem_middle.mpr (.inl rfl)) j hj hu.1).imp_right ?_
    rintro ⟨y, hy, hbase, hy1, hy2⟩
    refine ⟨y, (List.mem_erase_of_ne fun he => ?_).mpr hy, hbase, hy1, hy2⟩
    subst he
    exact hu.2 ⟨hy1, by omega⟩
  · refine (h.used c (by rw [hl]; exact mem_middle.mpr (.inr hc)) j hj hu).imp_right ?_
    rintro ⟨y, hy, hbase, hy'⟩
    refine ⟨y, (List.mem_erase_of_ne fun he => ?_).mpr hy, hbase, hy'⟩
    subst he
    exact hothers c hc (hbase.symm.trans hlive.base)

/-- A served request that meets the condition returns the start of the run
it takes. -/
theorem HeapInv.served_atStart (h : HeapInv s live run) {size align out : Nat} (hs : size < 2 ^ 32)
    (ha : align = 0 ∨ align = pageSize) (hok : StartsOnPage s size align)
    (hm : kheapMalloc kp s size align = .ok (.success, some out, s')) :
    ∃ s₁ l₁ b l₂ b' f, Expands s s₁ ∧ s₁.heap.blocks = l₁ ++ b :: l₂ ∧
      Taken (paddedSize s.heap size align) b b' f ∧ out = b.start + 16 * f ∧
      s' = s₁.commit (l₁ ++ b' :: l₂) (divRoundUp (paddedSize s.heap size align) 16) := by
  rcases hok with rfl | ⟨l₁, b, l₂, f, hl, hfirst, hpage⟩
  · obtain ⟨s₁, hexp, hend⟩ := kheapMalloc_ok h.ok hs hm
    rw [← alignOut_zero out s.heap]
    cases hend with
    | served hl _ ht => exact ⟨s₁, _, _, _, _, _, hexp, hl, ht, by rw [alignOut_zero, alignOut_zero], rfl⟩
  · have hpad := paddedSize_lt s.heap align hs
    have hb := h.block b (by rw [hl]; exact mem_middle.mpr (.inl rfl))
    obtain ⟨b', he, ht⟩ := @kheapMalloc_serves σ kp s l₁ b l₂ _ size align f hb hl hpad
      (fun c hc => (kheapMallocBlock_none_iff (h.block c (by rw [hl]; exact List.mem_append_left _ hc)) hpad _ _).mpr
        (hfirst.before c hc)) hfirst.fit
    rw [he] at hm
    cases hm
    refine ⟨s, l₁, b, l₂, b', f, .refl, hl, ht, ?_, rfl⟩
    rw [hb.sectSize] at hpage
    rcases ha with rfl | rfl
    · exact alignOut_zero _ _
    · exact alignOut_aligned (by rw [Nat.mul_comm 16]; exact hpage) _

/-- Each call that meets the condition loses nothing. -/
theorem NoLeak.step {t t' : HeapState σ × List (Nat × Nat)} (hinv : HeapInv t.1 t.2 run) (h : NoLeak t.1 t.2 run)
    (hs : HeapCall kp StartsOnPage t t') : ∃ run', HeapInv t'.1 t'.2 run' ∧ NoLeak t'.1 t'.2 run' := by
  cases hs with
  | @malloc s s' live size align out hsz ha hok hm =>
    obtain ⟨s₁, l₁, b, l₂, b', f, hexp, hl, ht, hout, rfl⟩ := hinv.served_atStart hsz ha hok hm
    have hpad := paddedSize_lt s.heap align hsz
    have hn := nSec_pos hpad
    have hinv₁ := hinv.expands hexp
    exact ⟨_, hinv₁.served hpad hl ht size (by omega) (by omega),
      (h.expands hexp).served hinv₁ hpad hl ht size hout⟩
  | failed hsz _ hm =>
    obtain ⟨s₁, hexp, hend⟩ := kheapMalloc_ok hinv.ok hsz hm
    cases hend with
    | failed _ => exact ⟨run, hinv.expands hexp, h.expands hexp⟩
  | @free s live x r heap hx hf =>
    obtain ⟨l₁, b, l₂, b', k, n, hl, hlive, hk, hn, hfreed, he, hinv'⟩ := hinv.free hx
    rw [he] at hf
    cases hf
    have hstart := h.atStart x hx
    rw [hlive.base] at hstart
    have hk' : k = (run x.1).first := by omega
    subst hk'
    exact ⟨run, hinv', h.release hl hlive hn hfreed fun c hc => hinv.others_start hl hc⟩

theorem NoLeak.reach {a₀ : Asa} (ha : AsaUpTo a₀ 380) (q : σ) {t : HeapState σ × List (Nat × Nat)}
    (hrun : Relation.ReflTransGen (HeapCall kp StartsOnPage) (⟨kheapKallocInstall, a₀, q⟩, []) t) :
    ∃ run, HeapInv t.1 t.2 run ∧ NoLeak t.1 t.2 run := by
  induction hrun with
  | refl => exact ⟨_, HeapInv.start ha q, fun x hx => (by cases hx), fun b hb => by cases hb⟩
  | tail _ hs ih =>
    obtain ⟨run, hinv, h⟩ := ih
    exact NoLeak.step hinv h hs

/-! ## With nothing live -/

theorem BlockShape.reserved_eq {b : KheapBlock} {p : Nat} (h : BlockShape b p) :
    b.reserved = reservedSections p ∧ b.freeAtCreation = 252 * p - 3 := by
  have hp := h.pages; have hle := h.pages_le
  have hres : b.reserved = reservedSections p := by
    rw [KheapBlock.reserved, h.size, h.sectSize, bitsetSizeFor_pages hp (by omega), sizeofKheapBlock,
      u32_of_lt (by omega), divRoundUp_of_pos (by omega) (by omega), reservedSections]
    omega
  refine ⟨hres, ?_⟩
  rw [KheapBlock.freeAtCreation, hres, h.size, h.sectSize, divRoundUp_of_pos (by omega) (by omega), reservedSections,
    sub32_of_le (by omega) (by omega)]
  omega

theorem NoLeak.pristine (hinv : HeapInv s [] run) (h : NoLeak s [] run) {b : KheapBlock}
    (hb : b ∈ s.heap.blocks) : Pristine b := by
  have hbi := hinv.block b hb
  obtain ⟨hres, hfree⟩ := hbi.reserved_eq
  have hused : ∀ j, j < 256 * (b.blockSize / 4096) →
      b.usedSections.bit j = decide (j < reservedSections (b.blockSize / 4096)) := by
    intro j hj
    by_cases hr : j < reservedSections (b.blockSize / 4096)
    · rw [decide_eq_true hr]
      exact hbi.reserved j hr
    · rw [decide_eq_false hr]
      cases hu : b.usedSections.bit j with
      | false => rfl
      | true =>
        rcases h.used b hb j (by rw [hbi.usedLength]; exact hj) hu with h1 | ⟨x, hx, -⟩
        · exact absurd h1 hr
        · cases hx
  refine ⟨fun j hj => ?_, fun j hj => ?_, ?_⟩
  · rw [hres]
    exact hused j (by rw [← hbi.usedLength]; exact hj)
  · cases hd : b.delimiters.bit j with
    | false => rfl
    | true =>
      obtain ⟨x, hx, -⟩ := (hinv.delim b hb j hj).mp hd
      cases hx
  · rw [hbi.free, clearCount_upTo hused, hfree, reservedSections]
    omega

/-- **What does not leak.** After any calls of `kheap_malloc` and
`kheap_free` whose served requests are unaligned or take sections that start
on a page boundary, once everything returned was freed each block is as it
was created, and so are the counters. -/
theorem heap_restored {τ : Type} (ki : KallocInterface τ) (mem : Nat → Word) (a a₀ : Asa) (t t' : τ)
    (hinit : asaInit ki mem a 4096 t = some ((.success, a₀), t')) (kp : KpagingInterface σ) (q : σ)
    (s : HeapState σ) (live : List (Nat × Nat))
    (hrun : Relation.ReflTransGen (HeapCall kp StartsOnPage) (⟨kheapKallocInstall, a₀, q⟩, []) (s, live))
    (hfreed : live = []) :
    (∀ b ∈ s.heap.blocks, Pristine b) ∧
    s.heap.totalFreeSections = u32 (s.heap.blocks.map KheapBlock.freeAtCreation).sum := by
  subst hfreed
  obtain ⟨run, hinv, h⟩ := NoLeak.reach (asaInit_upTo hinit) q hrun
  refine ⟨fun b hb => h.pristine hinv hb, ?_⟩
  rw [hinv.total, freeSum]
  congr 2
  exact List.map_congr_left fun b hb => (h.pristine hinv hb).free

/-- One request on a new heap and its free. -/
theorem mallocFree_mapAll {size align : Nat} (hpos : 1 ≤ size) (ha : align = 0 ∨ align = pageSize)
    (hs : paddedSize kheapKallocInstall size align ≤ 2 ^ 20) (hsz : size + align < 2 ^ 32)
    (h0 : 0 < paddedSize kheapKallocInstall size align) :
    ∃ (a₀ : Asa) (s : HeapState Unit) (b b₁ b₂ : KheapBlock) (n : Nat),
      asaInit placeAt12b000 (fun _ => 0) ⟨⟨0, 0, fun _ => 0⟩, 0⟩ 4096 () = some ((.success, a₀), ()) ∧
      BlockFresh b 261 ∧ Taken (paddedSize kheapKallocInstall size align) b b₁ 1047 ∧
      Freed b₁ b₂ ((alignOut (b.start + 16 * 1047) align (manualAlign kheapKallocInstall align) - b.start) / 16) n ∧
      s.heap.blocks = [b₂] ∧
      ∀ ok, ok ⟨kheapKallocInstall, a₀, ()⟩ size align →
        Relation.ReflTransGen (HeapCall mapAll ok) (⟨kheapKallocInstall, a₀, ()⟩, []) (s, []) := by
  obtain ⟨a₀, hinit⟩ := asaInit_placeAt12b000
  have hup := asaInit_upTo hinit
  obtain ⟨s₁, b, b₁, hadd, ht, hm⟩ := kheapMalloc_first hup () mapAll_maps h0 hs
  obtain ⟨run, hinv, -⟩ := (HeapInv.start hup ()).malloc (fun x hx => by cases hx) hpos hsz hm
  obtain ⟨b₂, n, -, hfreed, hfree, -⟩ := hinv.free_one rfl List.mem_cons_self
  rw [ht.commit.start] at hfreed
  refine ⟨a₀, (s₁.commit [b₁] (divRoundUp (paddedSize kheapKallocInstall size align) 16)).release [b₂] n, b, b₁, b₂, n,
    hinit, hadd.fresh, ht, hfreed, rfl, fun ok hok => ?_⟩
  have hcall : HeapCall mapAll ok (⟨kheapKallocInstall, a₀, ()⟩, []) _ := .malloc (by omega) ha hok hm
  have hback := (Relation.ReflTransGen.single hcall).tail (.free List.mem_cons_self hfree)
  rw [List.erase_cons_head] at hback
  exact hback

/-- A hundred unaligned bytes and their free leave the heap as it was. -/
theorem heap_restored_unaligned : ∃ (a₀ : Asa) (s : HeapState Unit),
    Relation.ReflTransGen (HeapCall mapAll StartsOnPage) (⟨kheapKallocInstall, a₀, ()⟩, []) (s, []) ∧
    s.heap.blocks ≠ [] ∧ ∀ b ∈ s.heap.blocks, Pristine b := by
  obtain ⟨a₀, s, b, b₁, b₂, n, hinit, -, -, -, hs, hrun⟩ :=
    @mallocFree_mapAll 100 0 (by decide) (.inl rfl) (by decide) (by decide) (by decide)
  have hrun := hrun StartsOnPage (.inl rfl)
  have hx := heap_restored placeAt12b000 _ _ a₀ () () hinit mapAll () s [] hrun rfl
  exact ⟨a₀, s, hrun, by rw [hs]; simp, hx.1⟩

/-- One byte on a page boundary: the 233 sections before the address stay
used after the free. -/
theorem heap_leaks_aligned : ∃ (a₀ : Asa) (s : HeapState Unit),
    asaInit placeAt12b000 (fun _ => 0) ⟨⟨0, 0, fun _ => 0⟩, 0⟩ 4096 () = some ((.success, a₀), ()) ∧
    Relation.ReflTransGen (HeapCall mapAll fun _ _ _ => True) (⟨kheapKallocInstall, a₀, ()⟩, []) (s, []) ∧
    ¬ ((∀ b ∈ s.heap.blocks, Pristine b) ∧
      s.heap.totalFreeSections = u32 (s.heap.blocks.map KheapBlock.freeAtCreation).sum) := by
  obtain ⟨a₀, s, b, b₁, b₂, n, hinit, hfresh, ht, hfreed, hs, hrun⟩ :=
    @mallocFree_mapAll 1 4096 (by decide) (.inr rfl) (by decide) (by decide) (by decide)
  refine ⟨a₀, s, hinit, hrun _ trivial, fun h => ?_⟩
  have hpristine := h.1 b₂ (by rw [hs]; exact List.mem_cons_self)
  have hshape := hfreed.shape (ht.commit.shape hfresh.toBlockShape)
  have halign := hfresh.aligned; have hfits := hfresh.fits
  have hout : (alignOut (b.start + 16 * 1047) 4096 (manualAlign kheapKallocInstall 4096) - b.start) / 16 = 1280 := by
    have hman : manualAlign kheapKallocInstall 4096 = true := rfl
    simp only [hman, alignOut, true_and]
    rw [if_pos (by omega), u32_of_lt (by omega)]
    omega
  rw [hout] at hfreed
  have h1 := hpristine.used 1047 (by rw [hshape.usedLength]; decide)
  rw [hshape.reserved_eq.1, hfreed.used.outside (by omega), ht.commit.used.inside (by decide) (by decide)] at h1
  exact Bool.noConfusion h1

end ShawnOS
