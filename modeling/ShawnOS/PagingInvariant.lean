/-
The invariant of paging, over whole runs of calls.

Every frame is held by one page, one page table or the directory (`hold`),
and what is held is marked used: that is `Exclusive` of the frames in use.
A call either hands fresh frames to holders or takes one back, by the index
in the entry; so `Exclusive` is kept by any calls on pages the paging code
does not work through, and `Accounted` by those that give a frame only to a
page that has none.
-/
import ShawnOS.Lib.Holders
import ShawnOS.PagingAllocate

namespace ShawnOS

open Word32 Holders

variable {s s' : PagingState} {L : Layout}

/-! ## Holders -/

/-- What can have a frame of its own. -/
inductive Holder where
  | page (p : Nat)
  | table (t : Nat)
  | directory
deriving DecidableEq

/-- The frames that a directory and entries give away. -/
def holdOf (L : Layout) (pde entry : Nat → Nat) : Holder → Option Nat
  | .page p => if p < 2 ^ 20 ∧ p ≠ L.window ∧ p ≠ L.dir ∧ p ≠ L.table then entryFrame (entry p) else none
  | .table t => if t < 1024 ∧ pde t % 2 = 1 then some (pde t / 4096) else none
  | .directory => some L.dir

/-- Who holds which frame. -/
def PagingState.hold (L : Layout) (s : PagingState) : Holder → Option Nat := holdOf L s.pde s.entry

/-- The frames in use. Frame 0 is nobody's: its index means "none". -/
def Bitset.inUse (b : Bitset) : Set Nat := {f | f ≠ 0 ∧ f < b.length ∧ b.bit f = true}

theorem hold_congr {pde' entry' : Nat → Nat} (hpde : ∀ t < 1024, s.pde t = pde' t)
    (hentry : ∀ p < 2 ^ 20, p ≠ L.window → s.entry p = entry' p) : s.hold L = holdOf L pde' entry' := by
  funext i
  cases i with
  | page p =>
    simp only [PagingState.hold, holdOf]
    split
    · next hp => rw [hentry p hp.1 hp.2.1]
    · rfl
  | table t =>
    simp only [PagingState.hold, holdOf]
    by_cases ht : t < 1024
    · rw [hpde t ht]
    · rw [if_neg (by omega), if_neg (by omega)]
  | directory => rfl

theorem Effect.hold {pde' entry' : Nat → Nat} (h : Effect L s s' pde' entry') : s'.hold L = holdOf L pde' entry' :=
  hold_congr h.pde h.entry

theorem holdOf_entry {p x : Nat} {pde entry : Nat → Nat} (hp : p < 2 ^ 20) (hown : p ∉ L.own) :
    holdOf L pde (Function.update entry p x) = Function.update (holdOf L pde entry) (.page p) (entryFrame x) := by
  funext i
  cases i with
  | page q =>
    by_cases hq : q = p
    · subst hq
      simp only [holdOf, Function.update_self]
      rw [if_pos ⟨hp, not_own.mp hown⟩]
    · simp [holdOf, hq]
  | table t => simp [holdOf]
  | directory => simp [holdOf]

theorem holdOf_pde {t x : Nat} {pde entry : Nat → Nat} (ht : t < 1024) :
    holdOf L (Function.update pde t x) entry =
      Function.update (holdOf L pde entry) (.table t) (if x % 2 = 1 then some (x / 4096) else none) := by
  funext i
  cases i with
  | page q => simp [holdOf]
  | table t' =>
    by_cases he : t' = t
    · subst he
      simp [holdOf, ht]
    · simp [holdOf, he]
  | directory => simp [holdOf]

theorem hold_page {p : Nat} (hp : p < 2 ^ 20) (hown : p ∉ L.own) : s.hold L (.page p) = entryFrame (s.entry p) := by
  simp only [PagingState.hold, holdOf]
  rw [if_pos ⟨hp, not_own.mp hown⟩]

theorem hold_table {t : Nat} (ht : t < 1024) (hpres : s.pde t % 2 = 1) : s.hold L (.table t) = some (s.pde t / 4096) := by
  simp [PagingState.hold, holdOf, ht, hpres]

theorem hold_absent {t : Nat} (habs : s.pde t % 2 = 0) : s.hold L (.table t) = none := by
  simp [PagingState.hold, holdOf, habs]

theorem entryFrame_eq {f flags : Nat} (hf : f ≠ 0) (hflags : flags < 4096) : entryFrame (4096 * f + flags) = some f := by
  have h : (4096 * f + flags) / 4096 = f := by omega
  rw [entryFrame, h, if_neg hf]

theorem entryFrame_some {e f : Nat} (h : entryFrame e = some f) : e / 4096 = f ∧ f ≠ 0 := by
  unfold entryFrame at h
  split at h
  · cases h
  · next h0 =>
    cases h
    exact ⟨rfl, h0⟩

/-! ## Frames in use -/

theorem Fresh.inUse {b b' : Bitset} {f : Nat} (hf : Fresh b f) (h : b.Filled b' f 1) : b'.inUse = insert f b.inUse := by
  have h1 := hf.lt; have h2 := hf.pos
  ext g
  simp only [Bitset.inUse, Set.mem_ofPred_eq, Set.mem_insert_iff, h.length]
  by_cases hg : g = f
  · subst hg
    simp [h1, h2, h.inside (Nat.le_refl g) (by omega)]
  · rw [h.outside (by omega)]
    simp [hg]

theorem Bitset.Wiped.inUse {b b' : Bitset} {f : Nat} (h : b.Wiped b' f 1) : b'.inUse = {g ∈ b.inUse | g ≠ f} := by
  ext g
  simp only [Bitset.inUse, Set.mem_ofPred_eq, h.length]
  by_cases hg : g = f
  · subst hg
    simp [h.inside (Nat.le_refl g) (by omega)]
  · rw [h.outside (by omega)]
    simp [hg]

/-- Clearing the bit an entry names gives up the frame it holds. -/
theorem inUse_entry (b : Bitset) (e : Nat) : {g ∈ b.inUse | g ≠ e / 4096} = {g ∈ b.inUse | entryFrame e ≠ some g} := by
  ext g
  simp only [Set.mem_ofPred_eq, Bitset.inUse, entryFrame]
  refine and_congr_right fun hg => ?_
  split
  · simp
    omega
  · simp [eq_comm]

theorem Fresh.not_inUse {b : Bitset} {f : Nat} (hf : Fresh b f) : f ∉ b.inUse := by
  intro hu
  have hc := hf.clear
  rw [hu.2.2] at hc
  cases hc

theorem inUse_congr {b b' : Bitset} (hlen : b'.length = b.length) (hbit : ∀ f, b'.bit f = b.bit f) :
    b'.inUse = b.inUse := by
  ext f
  simp [Bitset.inUse, hlen, hbit]

/-! ## The invariant -/

/-- **The invariant of paging.** -/
structure PagingInv (L : Layout) (s : PagingState) : Prop where
  tables : Tables L s
  length : s.frames.length = s.meminfo.highestFreeAddress / 4096
  highest : s.meminfo.highestFreeAddress < 2 ^ 32
  exclusive : Exclusive (s.hold L) s.frames.inUse

theorem PagingInv.pool (h : PagingInv L s) : Pool L s := by
  refine ⟨h.length, h.highest, (h.exclusive.used .directory L.dir rfl).2.2, fun t ht hpres => ?_⟩
  exact (h.exclusive.used _ _ (hold_table ht hpres)).2.2

/-- The frame index that `i386_free_page` takes from an entry is in range. -/
theorem PagingInv.entry_frame (h : PagingInv L s) {p : Nat} (hp : p < 2 ^ 20) (hown : p ∉ L.own) :
    s.entry p / 4096 < s.frames.length := by
  have hdir := (h.exclusive.used .directory L.dir rfl).2.1
  by_cases h0 : s.entry p / 4096 = 0
  · omega
  · have hold : s.hold L (.page p) = some (s.entry p / 4096) := by
      rw [hold_page hp hown, entryFrame, if_neg h0]
    exact (h.exclusive.used _ _ hold).2.1

theorem PagingInv.of_effect {pde' entry' : Nat → Nat} (h : PagingInv L s) (he : Effect L s s' pde' entry')
    (hlen : s'.frames.length = s.frames.length) (hex : Exclusive (holdOf L pde' entry') s'.frames.inUse) :
    PagingInv L s' :=
  ⟨he.tables, by rw [hlen, he.meminfo]; exact h.length, by rw [he.meminfo]; exact h.highest,
    by rw [he.hold]; exact hex⟩

/-- A call that changes no entry and no bit. -/
theorem PagingInv.same (h : PagingInv L s) (he : Effect L s s' s.pde s.entry)
    (hlen : s'.frames.length = s.frames.length) (hbit : ∀ f, s'.frames.bit f = s.frames.bit f) : PagingInv L s' := by
  refine h.of_effect he hlen ?_
  rw [inUse_congr hlen hbit]
  exact h.exclusive

/-- Who holds what after `i386_allocate_page`, in each of its ends. -/
theorem Allocated.hold {v ptFlags pdFlags : Nat} {r : KReturn × Nat} (hv : v < 2 ^ 32) (hown : v / 4096 ∉ L.own)
    (hpt : ptFlags < 4096) (hpd : pdFlags < 4096) (ha : Allocated L s v ptFlags pdFlags r s') :
    (r.1 = .oom ∧ s'.hold L = s.hold L ∧ s'.frames.inUse = s.frames.inUse) ∨
    (∃ f, r = (.success, 4096 * f) ∧ Fresh s.frames f ∧ s'.frames.inUse = insert f s.frames.inUse ∧
      s'.hold L = Function.update (s.hold L) (.page (v / 4096)) (some f)) ∨
    ∃ f g, r = (.success, 4096 * f) ∧ s.pde (v / pageSize / 1024) % 2 = 0 ∧ f ∉ s.frames.inUse ∧
      g ∉ insert f s.frames.inUse ∧ s'.frames.inUse = insert g (insert f s.frames.inUse) ∧
      s'.hold L = if pdFlags % 2 = 1 then
        Function.update (Function.update (s.hold L) (.page (v / 4096)) (some f)) (.table (v / pageSize / 1024)) (some g)
        else s.hold L := by
  obtain ⟨ht, -, -, -⟩ := page_index hv
  have hpage : v / 4096 < 2 ^ 20 := by omega
  cases ha with
  | oom => exact .inl ⟨rfl, rfl, rfl⟩
  | tableOom _ he hlen hbit => exact .inl ⟨rfl, he.hold, inUse_congr hlen hbit⟩
  | mapped _ hf hfill he =>
    refine .inr (.inl ⟨_, rfl, hf, hf.inUse hfill, ?_⟩)
    rw [he.hold, holdOf_entry hpage hown, entryFrame_eq hf.pos hpt]
    rfl
  | @newTable _ b f g habs hf hfill hg hfill' hodd he =>
    have hfresh := hg.not_inUse
    rw [hf.inUse hfill] at hfresh
    refine .inr (.inr ⟨f, g, rfl, habs, hf.not_inUse, hfresh, by rw [hg.inUse hfill', hf.inUse hfill], ?_⟩)
    rw [he.hold, holdOf_pde ht, holdOf_entry hpage hown, entryFrame_eq hf.pos hpt, if_pos (by omega), if_pos hodd,
      show (4096 * g + pdFlags) / 4096 = g by omega]
    rfl
  | @lost _ b f g habs hf hfill hg hfill' heven he =>
    have hfresh := hg.not_inUse
    rw [hf.inUse hfill] at hfresh
    refine .inr (.inr ⟨f, g, rfl, habs, hf.not_inUse, hfresh, by rw [hg.inUse hfill', hf.inUse hfill], ?_⟩)
    rw [he.hold, holdOf_pde ht, if_neg (by omega), if_neg (by omega), ← PagingState.hold, ← hold_absent (L := L) habs,
      Function.update_eq_self]

theorem Allocated.length {v ptFlags pdFlags : Nat} {r : KReturn × Nat} (ha : Allocated L s v ptFlags pdFlags r s') :
    s'.frames.length = s.frames.length := by
  cases ha with
  | oom => rfl
  | tableOom _ _ hlen => exact hlen
  | mapped _ _ hfill => exact hfill.length
  | newTable _ _ hfill _ hfill' => exact hfill'.length.trans hfill.length
  | lost _ _ hfill _ hfill' => exact hfill'.length.trans hfill.length

theorem Allocated.effect {v ptFlags pdFlags : Nat} {r : KReturn × Nat} (h : Tables L s)
    (ha : Allocated L s v ptFlags pdFlags r s') : Tables L s' ∧ s'.meminfo = s.meminfo := by
  cases ha with
  | oom => exact ⟨h, rfl⟩
  | tableOom _ he => exact ⟨he.tables, he.meminfo⟩
  | mapped _ _ _ he => exact ⟨he.tables, he.meminfo⟩
  | newTable _ _ _ _ _ _ he => exact ⟨he.tables, he.meminfo⟩
  | lost _ _ _ _ _ _ he => exact ⟨he.tables, he.meminfo⟩

/-- **Allocation keeps the invariant**, whatever the page held before. -/
theorem PagingInv.allocated (h : PagingInv L s) {v ptFlags pdFlags : Nat} {r : KReturn × Nat} (hv : v < 2 ^ 32)
    (hown : v / 4096 ∉ L.own) (hpt : ptFlags < 4096) (hpd : pdFlags < 4096)
    (ha : Allocated L s v ptFlags pdFlags r s') : PagingInv L s' := by
  obtain ⟨htab, hmem⟩ := ha.effect h.tables
  refine ⟨htab, by rw [ha.length, hmem]; exact h.length, by rw [hmem]; exact h.highest, ?_⟩
  rcases ha.hold hv hown hpt hpd with ⟨-, hh, hu⟩ | ⟨f, -, hf, hu, hh⟩ | ⟨f, g, -, -, hf, hg, hu, hh⟩
  · rw [hh, hu]
    exact h.exclusive
  · rw [hh, hu]
    exact h.exclusive.give hf.not_inUse
  · rw [hh, hu]
    split
    · exact (h.exclusive.give hf).give hg
    · exact h.exclusive.mono fun x hx => .inr (.inr hx)

/-- Who holds what after `i386_free_page`, mapped page or not. -/
theorem PagingInv.freePage (h : PagingInv L s) {v : Nat} (hv : v < 2 ^ 32) (hal : v % pageSize = 0)
    (hown : v / 4096 ∉ L.own) : ∃ r s', i386FreePage s v = some (r, s') ∧ PagingInv L s' ∧ Quiet ∅ ∅ s s' ∧
      Effect L s s' s.pde (Function.update s.entry (v / 4096) ptRw) ∧
      s'.hold L = Function.update (s.hold L) (.page (v / 4096)) none ∧
      s'.frames.inUse = {g ∈ s.frames.inUse | s.hold L (.page (v / 4096)) ≠ some g} ∧
      ∀ f, f ≠ s.entry (v / 4096) / 4096 → s'.frames.bit f = s.frames.bit f := by
  obtain ⟨ht, -, -, htp⟩ := page_index hv
  have hpage : v / 4096 < 2 ^ 20 := by omega
  have hframe : entryFrame ptRw = none := by decide
  by_cases hpres : s.pde (v / pageSize / 1024) % 2 = 1
  · obtain ⟨b, hb⟩ := bitsetClearBit_ok (h.entry_frame hpage hown)
    have hwipe := (bitsetClearBit_wiped hb).2
    obtain ⟨s', he, rfl, hq, heff⟩ := h.tables.freePage hv hal hpres hown hb
    have hh := heff.hold
    rw [holdOf_entry hpage hown, hframe, ← PagingState.hold] at hh
    have hu : s'.frames.inUse = {g ∈ s.frames.inUse | s.hold L (.page (v / 4096)) ≠ some g} := by
      rw [hold_page hpage hown, hwipe.inUse, inUse_entry]
    refine ⟨_, s', he, h.of_effect heff hwipe.length ?_, hq, heff, hh, hu, fun f hf => hwipe.outside (by omega)⟩
    rw [← heff.hold, hh, hu]
    exact h.exclusive.drop
  · have habs : s.pde (v / pageSize / 1024) % 2 = 0 := by omega
    have heff := Effect.aim h.tables h.tables.dir_bound.2
    have hentry : s.entry (v / 4096) = ptRw := entry_of_absent (by rw [htp]; exact habs)
    have hnone : s.hold L (.page (v / 4096)) = none := by rw [hold_page hpage hown, hentry, hframe]
    refine ⟨_, _, h.tables.freePage_absent hv hal habs, h.same heff rfl fun _ => rfl, ?_, ?_, ?_, ?_, fun _ _ => rfl⟩
    · exact h.tables.quiet_aim _
    · rw [← hentry, Function.update_eq_self]
      exact heff
    · rw [← hnone, Function.update_eq_self]
      exact heff.hold
    · rw [hnone]
      simp

/-- The frame of an identity map is free and not the one a new table gets,
or it is the page's already. -/
def IdentityFree (s : PagingState) (v : Nat) : Prop :=
  (s.frames.bit (v / 4096) = false ∧
      (s.pde (v / pageSize / 1024) % 2 = 1 ∨ i386MemGetNextFreeFrame s.meminfo s.frames ≠ v / 4096)) ∨
    s.entry (v / 4096) / 4096 = v / 4096

/-- A page gets a free frame of its own index, in a bitset that marks what
is held. -/
theorem exclusive_identity {hold : Holder → Option Nat} {b b' : Bitset} {p flags : Nat} (h : Exclusive hold b.inUse)
    (hlt : p < b.length) (hclear : b.bit p = false) (hword : p < 2 ^ 20) (hflags : flags < 4096)
    (hfill : b.Filled b' p 1) :
    Exclusive (Function.update hold (.page p) (entryFrame (4096 * p + flags))) b'.inUse := by
  by_cases h0 : p = 0
  · have hnone : entryFrame (4096 * p + flags) = none := by
      rw [entryFrame, if_pos (by omega)]
    rw [hnone]
    refine h.drop.mono fun g hg => ?_
    obtain ⟨⟨h1, h2, h3⟩, -⟩ := hg
    exact ⟨h1, by rw [hfill.length]; exact h2, hfill.mono h3⟩
  · have hf : Fresh b p := ⟨h0, hlt, hclear, hword⟩
    rw [entryFrame_eq h0 hflags, hf.inUse hfill]
    exact h.give hf.not_inUse

/-- **An identity map keeps the invariant** where its frame is free. -/
theorem PagingInv.identityMapped (h : PagingInv L s) {v ptFlags pdFlags r : Nat} (hv : v < 2 ^ 32)
    (hal : v % pageSize = 0) (hown : v / 4096 ∉ L.own) (hpt : ptFlags < 4096) (hpd : pdFlags < 4096)
    (hfree : IdentityFree s v) (hi : IdentityMapped L s v ptFlags pdFlags r s') : PagingInv L s' := by
  obtain ⟨ht, -, -, htp⟩ := page_index hv
  have hpage : v / 4096 < 2 ^ 20 := by omega
  have hval : v = 4096 * (v / 4096) := by
    unfold pageSize at hal
    omega
  -- Where the table is absent, the page has no entry yet.
  have habsent (habs : s.pde (v / pageSize / 1024) % 2 = 0) : s.frames.bit (v / 4096) = false ∧
      i386MemGetNextFreeFrame s.meminfo s.frames ≠ v / 4096 := by
    rcases hfree with ⟨hclear, hpres | hne⟩ | hsame
    · omega
    · exact ⟨hclear, hne⟩
    · have hpos := h.tables.absent_pos habs
      rw [entry_of_absent (by rw [htp]; exact habs), ptRw] at hsame
      unfold pageSize at hpos
      omega
  cases hi with
  | oom _ _ he hf => exact h.same he (by rw [hf]) fun f => by rw [hf]
  | mapped _ hlt hfill he =>
    refine h.of_effect he hfill.length ?_
    rcases hfree with ⟨hclear, -⟩ | hsame
    · rw [holdOf_entry hpage hown, ← PagingState.hold, show v + ptFlags = 4096 * (v / 4096) + ptFlags by omega]
      exact exclusive_identity h.exclusive hlt hclear hpage hpt hfill
    · have hframe : entryFrame (v + ptFlags) = s.hold L (.page (v / 4096)) := by
        rw [hold_page hpage hown, entryFrame, entryFrame, hsame, show (v + ptFlags) / 4096 = v / 4096 by omega]
      rw [holdOf_entry hpage hown, ← PagingState.hold, hframe, Function.update_eq_self]
      refine h.exclusive.mono fun g hg => ?_
      exact ⟨hg.1, by rw [hfill.length]; exact hg.2.1, hfill.mono hg.2.2⟩
  | @newTable _ b g habs hnext hg hfill hlt hfill' hodd he =>
    obtain ⟨hclear, hne⟩ := habsent habs
    rw [hnext] at hne
    have hclear' : b.bit (v / 4096) = false := by
      rw [hfill.outside (by omega)]
      exact hclear
    have hgive : Exclusive (Function.update (s.hold L) (.table (v / pageSize / 1024)) (some g)) b.inUse := by
      rw [hg.inUse hfill]
      exact h.exclusive.give hg.not_inUse
    refine h.of_effect he (hfill'.length.trans hfill.length) ?_
    rw [holdOf_entry hpage hown, holdOf_pde ht, if_pos (by omega), show (4096 * g + pdFlags) / 4096 = g by omega,
      ← PagingState.hold, show v + ptFlags = 4096 * (v / 4096) + ptFlags by omega]
    exact exclusive_identity hgive (by rw [hfill.length]; exact hlt) hclear' hpage hpt hfill'
  | @lost _ b g habs hnext hg hfill hlt hfill' heven he =>
    refine h.of_effect he (hfill'.length.trans hfill.length) ?_
    rw [holdOf_pde ht, if_neg (by omega), ← PagingState.hold, ← hold_absent (L := L) habs, Function.update_eq_self]
    refine h.exclusive.mono fun x hx => ⟨hx.1, by rw [hfill'.length, hfill.length]; exact hx.2.1, hfill'.mono (hfill.mono hx.2.2)⟩

end ShawnOS
