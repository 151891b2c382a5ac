/-
Frames over runs of `i386_allocate_page` and `i386_free_page`.

Frames are exclusive as long as the window lies below the pages that calls
are given (the ASSERT of `i386_paging_init` allows it to be the first of
them). They are conserved as long as no page is given a frame over one it
has. And freeing an unmapped page is harmless only where its table is absent:
else bit 0 is cleared.
-/
import ShawnOS.PagingMap

namespace ShawnOS

open Word32 Holders

variable {s s' : PagingState} {L : Layout}

/-! ## Frames above the reserved ones -/

/-- The reserved frames stay used (but for frame 0), and pages above hold
frames above. -/
structure HighFrames (L : Layout) (s : PagingState) : Prop where
  inv : PagingInv L s
  low : ∀ f, f ≠ 0 → f < 380 → s.frames.bit f = true
  high : ∀ p, 380 ≤ p → p < 2 ^ 20 → p ≠ L.window → s.entry p = ptRw ∨ 380 ≤ s.entry p / 4096

theorem Booted.highFrames (h : Booted L s) : HighFrames L s :=
  ⟨h.inv, fun f _ hf => h.used f hf, fun p hge hlt _ => .inl (h.high p hge hlt)⟩

theorem HighFrames.fresh_ge {b : Bitset} {f : Nat} (hlow : ∀ f, f ≠ 0 → f < 380 → b.bit f = true) (hf : Fresh b f) :
    380 ≤ f := by
  by_contra hlt
  have hc := hf.clear
  rw [hlow f hf.pos (by omega)] at hc
  cases hc

theorem HighFrames.allocated (h : HighFrames L s) {v ptFlags pdFlags : Nat} {r : KReturn × Nat} (hinv : PagingInv L s')
    (ha : Allocated L s v ptFlags pdFlags r s') : HighFrames L s' := by
  have same (he : Effect L s s' s.pde s.entry) (p : Nat) (hge : 380 ≤ p) (hlt : p < 2 ^ 20) (hne : p ≠ L.window) :
      s'.entry p = ptRw ∨ 380 ≤ s'.entry p / 4096 := by
    rw [he.entry p hlt hne]
    exact h.high p hge hlt hne
  -- The page gets a fresh frame, the others keep theirs.
  have fresh {f : Nat} {pde' : Nat → Nat} (hf : Fresh s.frames f)
      (he : Effect L s s' pde' (Function.update s.entry (v / 4096) (4096 * f + ptFlags))) (p : Nat) (hge : 380 ≤ p)
      (hlt : p < 2 ^ 20) (hne : p ≠ L.window) : s'.entry p = ptRw ∨ 380 ≤ s'.entry p / 4096 := by
    have hfge := HighFrames.fresh_ge h.low hf
    rw [he.entry p hlt hne, Function.update_apply]
    split
    · exact .inr (by omega)
    · exact h.high p hge hlt hne
  cases ha with
  | oom => exact h
  | tableOom _ he _ hbit => exact ⟨hinv, fun f h0 hf => by rw [hbit]; exact h.low f h0 hf, same he⟩
  | mapped _ hf hfill he => exact ⟨hinv, fun g h0 hg => hfill.mono (h.low g h0 hg), fresh hf he⟩
  | newTable _ hf hfill _ hfill' _ he =>
    exact ⟨hinv, fun g h0 hg => hfill'.mono (hfill.mono (h.low g h0 hg)), fresh hf he⟩
  | lost _ _ hfill _ hfill' _ he =>
    refine ⟨hinv, fun g h0 hg => hfill'.mono (hfill.mono (h.low g h0 hg)), fun p hge hlt hne => ?_⟩
    rw [he.entry p hlt hne]
    exact h.high p hge hlt hne

/-- **A call off the window keeps them.** -/
theorem HighFrames.call (h : HighFrames L s) {c : PageCall} {r : KReturn × Nat} (hc : Above c)
    (hoff : c.address ≠ s.windowPage) (he : c.exec s = some (r, s')) : HighFrames L s' := by
  have htab := h.inv.tables
  have hinv := h.inv.call (hc.keeps htab hoff) he
  have hpw := hc.page_ne htab hoff
  have hlt := hc.lt; have hge := hc.ge; have hnot := hc.notIdentity
  cases h.inv.call_end (hc.keeps htab hoff) he with
  | allocated _ _ ha => exact h.allocated hinv ha
  | @freed v r s' _ _ _ heff _ _ hbit =>
    refine ⟨hinv, fun f h0 hf => ?_, fun p hge' hp hne => ?_⟩
    · have hlt' : v < 2 ^ 32 := hlt
      -- The index taken from the entry is 0 or that of a frame above.
      have hidx : f ≠ s.entry (v / 4096) / 4096 := by
        rcases h.high (v / 4096) (page_above hge) (by omega) hpw with he | he
        · rw [he]
          exact h0
        · omega
      rw [hbit f hidx]
      exact h.low f h0 hf
    · rw [heff.entry p hp hne, Function.update_apply]
      split
      · exact .inl rfl
      · exact h.high p hge' hp hne
  | looked hf heff =>
    refine ⟨hinv, by rw [hf]; exact h.low, fun p hge hp hne => ?_⟩
    rw [heff.entry p hp hne]
    exact h.high p hge hp hne
  | @identity v ptFlags pdFlags => exact absurd rfl (hnot v ptFlags pdFlags)

/-! ## Exclusive frames -/

/-- Pages above `KVIRT_RESERVED` that are present share no frame, with each
other, with a page table or with reserved memory. -/
def FramesExclusive (s : PagingState) : Prop :=
  ∀ p, kvirtReserved / pageSize ≤ p → p < 2 ^ 20 → s.entry p &&& ptPresent ≠ 0 →
    (∀ q, kvirtReserved / pageSize ≤ q → q < 2 ^ 20 → s.entry q &&& ptPresent ≠ 0 →
      s.entry q / 4096 = s.entry p / 4096 → q = p) ∧
    (∀ t < 1024, s.pde t &&& ptPresent ≠ 0 → s.pde t / 4096 ≠ s.entry p / 4096) ∧
    kvirtReserved / pageSize ≤ s.entry p / 4096

theorem HighFrames.exclusive (h : HighFrames L s) (hw : L.window < 380) : FramesExclusive s := by
  have h380 : kvirtReserved / pageSize = 380 := by decide
  have hd := L.dir_lt; have ht := L.table_lt
  unfold FramesExclusive
  rw [h380]
  -- A present page above holds its frame.
  have holds {p : Nat} (hge : 380 ≤ p) (hlt : p < 2 ^ 20) (hpres : s.entry p &&& ptPresent ≠ 0) :
      380 ≤ s.entry p / 4096 ∧ s.hold L (.page p) = some (s.entry p / 4096) := by
    rw [ne_eq, and_present] at hpres
    have hframe : 380 ≤ s.entry p / 4096 := by
      rcases h.high p hge hlt (by omega) with he | he
      · rw [he] at hpres
        exact absurd (by decide) hpres
      · exact he
    refine ⟨hframe, ?_⟩
    rw [hold_page hlt (not_own.mpr ⟨by omega, by omega, by omega⟩), entryFrame, if_neg (by omega)]
  intro p hge hlt hpres
  obtain ⟨hframe, hp⟩ := holds hge hlt hpres
  refine ⟨fun q hq hqlt hqpres he => ?_, fun t ht htpres he => ?_, hframe⟩
  · obtain ⟨-, hq'⟩ := holds hq hqlt hqpres
    rw [he] at hq'
    have hsame := h.inv.exclusive.once _ _ _ hq' hp
    cases hsame
    rfl
  · rw [ne_eq, and_present] at htpres
    have htable := hold_table (L := L) ht (show s.pde t % 2 = 1 by omega)
    rw [he] at htable
    exact absurd (h.inv.exclusive.once _ _ _ htable hp) (by simp)

/-- Where the window is the first page above, freeing any page without a
table aims a page above at the directory. -/
theorem Booted.not_exclusive {s₀ : PagingState} (hb : Booted L s₀) (hw : L.window = 380) :
    ∃ s m, Relation.ReflTransGen (PageStep fun _ => Above) (s₀, fun _ => 0) (s, m) ∧ ¬ FramesExclusive s := by
  have hd := L.dir_lt
  have habs : s₀.pde (0x400000 / pageSize / 1024) % 2 = 0 := by
    rw [hb.absent _ (by decide) (by decide)]
    rfl
  have hfree := hb.tables.freePage_absent (v := 0x400000) (by decide) (by decide) habs
  have hcall : Above (.free 0x400000) :=
    ⟨by decide, by decide, by decide, by simp [PageCall.flags], fun _ _ _ he => by cases he⟩
  have haim : (s₀.aim L s₀.pageDirectory).entry L.window = 4096 * L.dir + 3 := by
    rw [hb.tables.aimed, hb.tables.dir]
  refine ⟨s₀.aim L s₀.pageDirectory, _, .single (.call hcall (by simp only [PageCall.exec]; rw [hfree]; rfl)), fun hex => ?_⟩
  have hlow := (hex L.window (by unfold kvirtReserved pageSize; omega) (by omega)
    (by rw [haim, ne_eq, and_present]; omega)).2.2
  rw [haim] at hlow
  unfold kvirtReserved pageSize at hlow
  omega

theorem HighFrames.run {s₀ : PagingState} (hb : Booted L s₀) (hw : L.window < 380) {m : Nat → Nat}
    (hrun : Relation.ReflTransGen (PageStep fun _ => Above) (s₀, fun _ => 0) (s, m)) : HighFrames L s :=
  PageStep.run (fun h hc he => h.call hc (hc.off_window h.inv.tables hw) he) hb.highFrames hrun

theorem Booted.window_lt (hb : Booted L s) :
    s.meminfo.kernelHeapStart + earlyHeapMaxsize + pageSize < kvirtReserved ↔ L.window < 380 := by
  have hwin := hb.window
  rw [hb.tables.window] at hwin
  unfold earlyHeapMaxsize pageSize kvirtReserved
  omega

/-- **When frames are exclusive.** In the runs after a boot, frames are
exclusive in every state exactly when the window lies below
`KVIRT_RESERVED`. -/
theorem frames_exclusive_iff (mboot : MultibootInfo) (mem : Nat → Nat) (s₀ : PagingState) (asa : Asa)
    (hboot : kernelEarly mboot mem = .ok (s₀, asa)) :
    (∀ s m, Relation.ReflTransGen (PageStep fun _ => Above) (s₀, fun _ => 0) (s, m) → FramesExclusive s) ↔
      s₀.meminfo.kernelHeapStart + earlyHeapMaxsize + pageSize < kvirtReserved := by
  obtain ⟨L, hb, -⟩ := kernelEarly_booted hboot
  rw [hb.window_lt]
  constructor
  · intro hall
    by_contra hge
    have hw := L.window_le
    obtain ⟨s, m, hrun, hnot⟩ := hb.not_exclusive (by omega)
    exact hnot (hall s m hrun)
  · intro hw s m hrun
    exact (HighFrames.run hb hw hrun).exclusive hw

/-- A kernel that ends at `0x110000`. -/
theorem frames_exclusive_low : ∃ s₀ asa, kernelEarly (boot128 0x110000 (by decide)) (fun _ => 0) = .ok (s₀, asa) ∧
    ∀ s m, Relation.ReflTransGen (PageStep fun _ => Above) (s₀, fun _ => 0) (s, m) → FramesExclusive s := by
  obtain ⟨L, s₀, asa, hboot, -, -, hstart, -⟩ :=
    @boot128_ok 0x110000 (by decide) (by decide) (by decide) (by decide) fun _ => 0
  refine ⟨s₀, asa, hboot, (frames_exclusive_iff _ _ s₀ asa hboot).mpr ?_⟩
  rw [hstart]
  decide

/-- A kernel that ends at `0x12a000`, the last that the ASSERT lets boot. -/
theorem frame_of_directory_mapped : ∃ s₀ asa s m,
    kernelEarly (boot128 0x12a000 (by decide)) (fun _ => 0) = .ok (s₀, asa) ∧
    Relation.ReflTransGen (PageStep fun _ => Above) (s₀, fun _ => 0) (s, m) ∧ ¬ FramesExclusive s := by
  obtain ⟨L, s₀, asa, hboot, hb, -, hstart, -⟩ :=
    @boot128_ok 0x12a000 (by decide) (by decide) (by decide) (by decide) fun _ => 0
  have hw : L.window = 380 := by
    have hwin := hb.window
    rw [hb.tables.window, hstart] at hwin
    omega
  obtain ⟨s, m, hrun, hnot⟩ := hb.not_exclusive hw
  exact ⟨s₀, asa, s, m, hboot, hrun, hnot⟩

/-! ## Conserved frames -/

/-- Every frame that came into use is held, by an entry that is present. -/
structure Conserved (L : Layout) (base : Set Nat) (s : PagingState) : Prop where
  inv : PagingInv L s
  accounted : Accounted (s.hold L) s.frames.inUse base
  present : ∀ p < 2 ^ 20, p ∉ L.own → s.entry p = ptRw ∨ s.entry p % 2 = 1

/-- A call that takes no frame over another: an allocation is for a page that
is not mapped, or finds no frame. -/
structure Conserving (s : PagingState) (c : PageCall) : Prop where
  call : MapCall c
  off : c.address ≠ s.windowPage
  unmapped : ∀ v ptFlags pdFlags, c = .allocate v ptFlags pdFlags →
    s.translate v = none ∨ i386MemGetNextFreeFrame s.meminfo s.frames = 0

theorem Booted.conserved (h : Booted L s) : Conserved L s.frames.inUse s := by
  refine ⟨h.inv, fun r hr => .inl hr, fun p hp _ => ?_⟩
  by_cases hlow : p < 380
  · rw [h.low p hlow]
    exact .inr (by omega)
  · exact .inl (h.high p (by omega) hp)

theorem Conserved.allocated {base : Set Nat} (h : Conserved L base s) {v ptFlags pdFlags : Nat} {r : KReturn × Nat}
    (hinv : PagingInv L s') (hv : v < 2 ^ 32) (hown : v / 4096 ∉ L.own) (hpt : ptFlags < 4096) (hpd : pdFlags < 4096)
    (hodd : ptFlags % 2 = 1) (hodd' : pdFlags % 2 = 1) (hnone : s.hold L (.page (v / 4096)) = none)
    (ha : Allocated L s v ptFlags pdFlags r s') : Conserved L base s' := by
  have hp : v / 4096 < 2 ^ 20 := by omega
  have set {f : Nat} {pde' : Nat → Nat} (he : Effect L s s' pde' (Function.update s.entry (v / 4096) (4096 * f + ptFlags)))
      (p : Nat) (hlt : p < 2 ^ 20) (hown : p ∉ L.own) : s'.entry p = ptRw ∨ s'.entry p % 2 = 1 := by
    rw [he.entry p hlt (not_own.mp hown).1, Function.update_apply]
    split
    · exact .inr (by omega)
    · exact h.present p hlt hown
  have hpres : ∀ p < 2 ^ 20, p ∉ L.own → s'.entry p = ptRw ∨ s'.entry p % 2 = 1 := by
    cases ha with
    | oom => exact h.present
    | tableOom _ he =>
      intro p hlt hown
      rw [he.entry p hlt (not_own.mp hown).1]
      exact h.present p hlt hown
    | mapped _ _ _ he => exact set he
    | newTable _ _ _ _ _ _ he => exact set he
    | lost _ _ _ _ _ heven => omega
  refine ⟨hinv, ?_, hpres⟩
  rcases ha.hold hv hown hpt hpd with ⟨-, hh, hu⟩ | ⟨f, -, -, hu, hh⟩ | ⟨f, g, -, habs, -, -, hu, hh⟩
  · rw [hh, hu]
    exact h.accounted
  · rw [hh, hu]
    exact h.accounted.give hnone
  · rw [hh, hu, if_pos hodd']
    refine (h.accounted.give hnone).give ?_
    rw [Function.update_of_ne (by simp)]
    exact hold_absent habs

/-- Without a free frame `i386_allocate_page` changes nothing. -/
theorem Tables.allocatePage_none {v ptFlags pdFlags : Nat} (hal : v % pageSize = 0)
    (h0 : i386MemGetNextFreeFrame s.meminfo s.frames = 0) : i386AllocatePage s v ptFlags pdFlags = some ((.oom, 0), s) := by
  have he : i386MemAllocateFrame s.meminfo s.frames = some (0, s.frames) := by simp [i386MemAllocateFrame, h0]
  rw [i386AllocatePage, kassert_of hal, he]
  rfl

/-- **Such a call keeps them conserved.** -/
theorem Conserved.step {base : Set Nat} (h : Conserved L base s) {c : PageCall} {r : KReturn × Nat} (hc : Conserving s c)
    (he : c.exec s = some (r, s')) : Conserved L base s' := by
  obtain ⟨hcall, hoff, hunmapped⟩ := hc
  have htab := h.inv.tables
  have hkeeps := hcall.keeps htab hoff
  have hinv := h.inv.call hkeeps he
  have hown := above_own hcall.ge (hcall.page_ne htab hoff)
  have hal := hcall.aligned; have hlt := hcall.lt; have hpresent := hcall.present; have hnot := hcall.notIdentity
  cases h.inv.call_end hkeeps he with
  | @allocated v ptFlags pdFlags r s' hpt hpd ha =>
    have hpt' := hpresent ptFlags (by simp [PageCall.flags])
    have hpd' := hpresent pdFlags (by simp [PageCall.flags])
    rw [ne_eq, and_present] at hpt' hpd'
    have hlt' : v < 2 ^ 32 := hlt
    rcases hunmapped v ptFlags pdFlags rfl with hnone | h0
    · -- A page that is not mapped holds nothing.
      have hentry : s.entry (v / 4096) = ptRw := by
        rw [htab.translate hlt'] at hnone
        rcases h.present (v / 4096) (by omega) hown with he | hodd
        · exact he
        · rw [if_pos hodd] at hnone
          cases hnone
      have hhold : s.hold L (.page (v / 4096)) = none := by
        refine (hold_page (show v / 4096 < 2 ^ 20 by omega) hown).trans ?_
        rw [show s.entry (v / 4096) = ptRw from hentry]
        rfl
      exact h.allocated hinv hlt hown hpt hpd (by omega) (by omega) hhold ha
    · have he' : some ((KReturn.oom, 0), s) = some (r, s') := (Tables.allocatePage_none hal h0).symm.trans he
      cases he'
      exact h
  | @freed v r s' _ _ _ heff hh hu =>
    have hlt' : v < 2 ^ 32 := hlt
    refine ⟨hinv, ?_, fun p hp hown' => ?_⟩
    · rw [hh, hu]
      exact h.accounted.drop
    · rw [heff.entry p hp (not_own.mp hown').1, Function.update_apply]
      split
      · exact .inl rfl
      · exact h.present p hp hown'
  | looked hf heff =>
    refine ⟨hinv, by rw [heff.hold, hf]; exact h.accounted, fun p hp hown' => ?_⟩
    rw [heff.entry p hp (not_own.mp hown').1]
    exact h.present p hp hown'
  | @identity v ptFlags pdFlags => exact absurd rfl (hnot v ptFlags pdFlags)

/-- The frame `f` is that of a present entry, or a page table. -/
def Reachable (s : PagingState) (f : Nat) : Prop :=
  (∃ p < 2 ^ 20, s.entry p &&& ptPresent ≠ 0 ∧ s.entry p / 4096 = f) ∨
    ∃ t < 1024, s.pde t &&& ptPresent ≠ 0 ∧ s.pde t / 4096 = f

/-- **Frames are conserved where no page is allocated twice.** In every run
of such calls after boot, a frame that came into use is mapped or a page
table. -/
theorem frames_conserved (mboot : MultibootInfo) (mem : Nat → Nat) (s₀ : PagingState) (asa : Asa)
    (hboot : kernelEarly mboot mem = .ok (s₀, asa)) (s : PagingState) (m : Nat → Nat)
    (hrun : Relation.ReflTransGen (PageStep Conserving) (s₀, fun _ => 0) (s, m)) :
    ∀ f < s.frames.length, s.frames.bit f = true → s₀.frames.bit f = false → Reachable s f := by
  obtain ⟨L, hb, -⟩ := kernelEarly_booted hboot
  have h : Conserved L s₀.frames.inUse s := PageStep.run (fun h hc he => h.step hc he) hb.conserved hrun
  intro f hf hbit hclear
  have h0 : f ≠ 0 := by
    rintro rfl
    rw [hb.used 0 (by decide)] at hclear
    cases hclear
  have notBase : f ∉ s₀.frames.inUse := by
    intro hmem
    rw [hmem.2.2] at hclear
    cases hclear
  obtain ⟨i, hi⟩ := (h.accounted f ⟨h0, hf, hbit⟩).resolve_left notBase
  cases i with
  | page p =>
    simp only [PagingState.hold, holdOf] at hi
    split at hi
    · next hcond =>
      obtain ⟨hframe, hpos⟩ := entryFrame_some hi
      refine .inl ⟨p, hcond.1, ?_, hframe⟩
      rcases h.present p hcond.1 (not_own.mpr hcond.2) with he | hodd
      · rw [he] at hframe
        exact absurd hframe.symm hpos
      · rw [ne_eq, and_present]
        omega
    · cases hi
  | table t =>
    simp only [PagingState.hold, holdOf] at hi
    split at hi
    · next hcond =>
      cases hi
      refine .inr ⟨t, hcond.1, ?_, rfl⟩
      rw [ne_eq, and_present]
      omega
    · cases hi
  | directory =>
    cases hi
    rw [hb.used _ L.dir_lt] at hclear
    cases hclear

/-- One page, in a table of its own. -/
theorem frames_conserved_one : ∃ s₀ asa r s, kernelEarly (boot128 0x110000 (by decide)) (fun _ => 0) = .ok (s₀, asa) ∧
    (PageCall.allocate 0x400000 3 3).exec s₀ = some (r, s) ∧
    ∀ f < s.frames.length, s.frames.bit f = true → s₀.frames.bit f = false → Reachable s f := by
  obtain ⟨L, s₀, asa, hboot, hb, -, hstart, -⟩ :=
    @boot128_ok 0x110000 (by decide) (by decide) (by decide) (by decide) fun _ => 0
  have hwin := hb.window
  rw [hb.tables.window, hstart] at hwin
  have hcall : MapCall (.allocate 0x400000 3 3) := by
    refine ⟨⟨by decide, by decide, by decide, by simp [PageCall.flags], fun _ _ _ he => by cases he⟩, ?_⟩
    simp [PageCall.flags, ptPresent]
  have hown : 0x400000 / 4096 ∉ L.own := above_own (by decide) (by omega)
  obtain ⟨r, s, he, -⟩ := @Tables.allocatePage s₀ L hb.tables hb.inv.pool 0x400000 3 3 (by decide)
    (by decide) hown (by decide) (by decide)
  have hnone : s₀.translate 0x400000 = none := by
    rw [hb.tables.translate (by decide), hb.high _ (by decide) (by decide)]
    rfl
  have hok : Conserving s₀ (.allocate 0x400000 3 3) := by
    refine ⟨hcall, ?_, fun v ptFlags pdFlags hv => ?_⟩
    · rw [hb.window, hstart]
      decide
    · cases hv
      exact .inl hnone
  exact ⟨s₀, asa, r, s, hboot, he, frames_conserved _ _ s₀ asa hboot s _ (.single (.call hok he))⟩

theorem mapCall_17d000 : MapCall (.allocate 0x17d000 3 3) := by
  refine ⟨⟨by decide, by decide, by decide, by simp [PageCall.flags], fun _ _ _ he => by cases he⟩, ?_⟩
  simp [PageCall.flags, ptPresent]

/-- The first two frames the machine of 128 MiB hands out. -/
theorem Booted.firstFrames_128 {s₀ : PagingState} (hb : Booted L s₀)
    (hhigh : s₀.meminfo.highestFreeAddress = 133038080) (hclear : ∀ f, 380 ≤ f → f < 32480 → s₀.frames.bit f = false) :
    ∃ b b', s₀.frames.Filled b 380 1 ∧ b.Filled b' 381 1 ∧ i386MemAllocateFrame s₀.meminfo s₀.frames = some (380, b) ∧
      i386MemAllocateFrame s₀.meminfo b = some (381, b') := by
  have hlen : s₀.frames.length = 32480 := by rw [hb.length, hhigh]
  have hnext := hb.next_128 hhigh hclear
  obtain ⟨b, hb380⟩ := bitsetSetBit_ok (b := s₀.frames) (n := 380) (by omega)
  obtain ⟨-, hfill⟩ := bitsetSetBit_filled hb380
  have hnext₁ : i386MemGetNextFreeFrame s₀.meminfo b = 381 := by
    refine i386MemGetNextFreeFrame_eq (by rw [hhigh]; decide) ?_ fun g hg => ?_
    · rw [hfill.outside (by decide)]
      exact hclear 381 (by decide) (by decide)
    · by_cases hg' : g = 380
      · rw [hg']
        exact hfill.inside (Nat.le_refl 380) (by decide)
      · exact hfill.mono (hb.used g (by omega))
  obtain ⟨b', hb381⟩ := bitsetSetBit_ok (b := b) (n := 381) (by rw [hfill.length]; omega)
  obtain ⟨-, hfill'⟩ := bitsetSetBit_filled hb381
  exact ⟨b, b', hfill, hfill', by simp [i386MemAllocateFrame, hnext, hb380], by simp [i386MemAllocateFrame, hnext₁, hb381]⟩

/-- There a page of the first table is allocated twice: it gets both. -/
theorem Booted.allocateTwice_128 {s₀ : PagingState} (hb : Booted L s₀)
    (hhigh : s₀.meminfo.highestFreeAddress = 133038080) (hclear : ∀ f, 380 ≤ f → f < 32480 → s₀.frames.bit f = false) :
    ∃ b b', s₀.frames.Filled b 380 1 ∧ b.Filled b' 381 1 ∧ Tables L (s₀.withPage L b 0 381 (4096 * 380 + 3)) ∧
      i386AllocatePage s₀ 0x17d000 3 3 = some ((.success, 4096 * 380), s₀.withPage L b 0 381 (4096 * 380 + 3)) ∧
      i386AllocatePage (s₀.withPage L b 0 381 (4096 * 380 + 3)) 0x17d000 3 3 = some ((.success, 4096 * 381),
        (s₀.withPage L b 0 381 (4096 * 380 + 3)).withPage L b' 0 381 (4096 * 381 + 3)) := by
  have hwin := L.window_le; have hdl := L.dir_lt; have htl := L.table_lt
  have hpres := hb.tables.first_present
  obtain ⟨b, b', hfill, hfill', hf₁, hf₂⟩ := hb.firstFrames_128 hhigh hclear
  have h₁ : i386AllocatePage s₀ 0x17d000 3 3 = some ((.success, 4096 * 380), s₀.withPage L b 0 381 (4096 * 380 + 3)) :=
    hb.tables.allocatePage_present (by decide) (by decide) (by decide) hpres hf₁ (by decide) (by decide) 3
  obtain ⟨htab₁, hpde₁, -⟩ := hb.tables.withPage (t := 0) (i := 381) (x := 4096 * 380 + 3) b (by decide) (by decide)
    hpres (by decide) (ownEntry_of_ne (by omega) (by omega) _)
  have hpres₁ : (s₀.withPage L b 0 381 (4096 * 380 + 3)).pde 0 % 2 = 1 := by
    rw [hpde₁ 0 (by decide)]
    exact hpres
  exact ⟨b, b', hfill, hfill', htab₁, h₁, htab₁.allocatePage_present (by decide) (by decide) (by decide) hpres₁ hf₂
    (by decide) (by decide) 3⟩

/-- A page of the first table allocated twice: the first frame is lost. -/
theorem frame_lost_by_allocating_twice : ∃ s₀ asa s m f,
    kernelEarly (boot128 0x110000 (by decide)) (fun _ => 0) = .ok (s₀, asa) ∧
    Relation.ReflTransGen (PageStep fun _ => MapCall) (s₀, fun _ => 0) (s, m) ∧
    f < s.frames.length ∧ s.frames.bit f = true ∧ s₀.frames.bit f = false ∧ ¬ Reachable s f := by
  obtain ⟨L, s₀, asa, hboot, hb, -, hstart, hhigh, hclear⟩ :=
    @boot128_ok 0x110000 (by decide) (by decide) (by decide) (by decide) fun _ => 0
  have hwin := hb.window
  rw [hb.tables.window, hstart] at hwin
  have hdl := L.dir_lt; have htl := L.table_lt
  have hlen : s₀.frames.length = 32480 := by rw [hb.length, hhigh]
  have hpres := hb.tables.first_present
  have hfirst := hb.tables.first_frame
  obtain ⟨b, b', hfill, hfill', htab₁, h₁, h₂⟩ := hb.allocateTwice_128 hhigh hclear
  obtain ⟨hpde₁, hentry₁⟩ := hb.tables.withPage_entry (t := 0) (i := 381) (x := 4096 * 380 + 3) b (by decide) (by decide) hpres
  obtain ⟨hpde₂, hentry₂⟩ := htab₁.withPage_entry (t := 0) (i := 381) (x := 4096 * 381 + 3) b' (by decide) (by decide)
    (by rw [hpde₁ 0 (by decide)]; exact hpres)
  have hrun : Relation.ReflTransGen (PageStep fun _ => MapCall) (s₀, fun _ => 0) _ :=
    (Relation.ReflTransGen.single (.call mapCall_17d000 h₁)).tail (.call mapCall_17d000 h₂)
  refine ⟨s₀, asa, _, _, 380, hboot, hrun, ?_, ?_, hclear 380 (by decide) (by decide), ?_⟩
  · show 380 < b'.length
    rw [hfill'.length, hfill.length]
    omega
  · exact hfill'.mono (hfill.inside (Nat.le_refl 380) (by decide))
  · have hpt : (s₀.withPage L b 0 381 (4096 * 380 + 3)).pde 0 / 4096 = L.table := by
      rw [hpde₁ 0 (by decide)]
      exact hfirst
    rintro (⟨p, hp, hodd, hframe⟩ | ⟨t, ht, hodd, hframe⟩)
    · -- No entry but the page's own ever had frame 380.
      rw [ne_eq, and_present] at hodd
      rw [hentry₂ p hp, hentry₁ p hp, hpt, hfirst] at hodd hframe
      split at hframe
      · omega
      · split at hframe
        · omega
        · by_cases hlow : p < 380
          · rw [hb.low p hlow] at hframe
            omega
          · rw [hb.high p (by omega) hp] at hframe
            exact absurd hframe (by decide)
    · rw [ne_eq, and_present] at hodd
      rw [hpde₂ t ht, hpde₁ t ht] at hodd hframe
      by_cases h0 : t = 0
      · rw [h0, hfirst] at hframe
        omega
      · rw [hb.absent t (by omega) ht] at hodd
        exact hodd rfl

end ShawnOS
