/-
The page test that `kernel_main` runs (`kernel/kernel.c`).

It takes a page of address space, maps it and fills it with ones, for ever:
the way out is a `PANIC`. A turn uses up one frame, and one more for a page
table on the first page of each 4 MiB, so how often the loop turns, and which
panic ends it, is known from the frames that are free after boot.
-/
import Mathlib.Data.Nat.Find
import ShawnOS.PagingMap
import ShawnOS.PagingMemory

namespace ShawnOS

open Word32 Holders Lanes Runs

variable {s s' : PagingState} {L : Layout} {asa asa' : Asa}

/-- `memset`, through the page tables, with `rem` bytes left from the `i`-th
on. -/
def PagingState.memset (buf value : Nat) : (rem i : Nat) → PagingState → Option PagingState
  | 0, _, s => some s
  | rem + 1, i, s => do
    let s ← s.storeByte (u32 (buf + i)) (value % 256)
    PagingState.memset buf value rem (i + 1) s

/-- A turn goes on, or ends in a `PANIC`. -/
inductive MainTurn where
  | again (asa : Asa) (s : PagingState)
  | panic (message : String) (s : PagingState)

/-- `PD_PRESENT`. -/
def pdPresent : Nat := 1

/-- `PD_RW`. -/
def pdRw : Nat := 2

/-- The body of the loop in `kernel_main`. -/
def kernelMainTurn (asa : Asa) (s : PagingState) : Option MainTurn := do
  let (tmp, asa) ← asaAlloc asa 1
  if tmp = 0 then
    pure (.panic "Out of address space!" s)
  else
    let ((ret, _), s) ← i386AllocatePage s tmp (ptPresent ||| ptRw) (pdPresent ||| pdRw)
    if ret.failed then
      pure (.panic "FAILED TO ALLOCATE PAGE!" s)
    else
      let s ← PagingState.memset tmp 0xFF 0x1000 0 s
      pure (.again asa s)

/-- `for (;;)`, for `fuel` turns. -/
def kernelMainLoop : (fuel : Nat) → Asa → PagingState → Option MainTurn
  | 0, asa, s => some (.again asa s)
  | fuel + 1, asa, s => do
    match ← kernelMainTurn asa s with
    | .again asa s => kernelMainLoop fuel asa s
    | .panic message s => pure (.panic message s)

/-! ## `memset` -/

theorem Stored.refl (s : PagingState) : Stored s s := ⟨fun _ _ => rfl, fun _ _ => rfl, rfl, rfl, rfl, rfl⟩

theorem Stored.trans {s₁ : PagingState} (h₁ : Stored s s₁) (h₂ : Stored s₁ s') : Stored s s' :=
  ⟨fun t ht => (h₂.pde t ht).trans (h₁.pde t ht), fun p hp => (h₂.entry p hp).trans (h₁.entry p hp),
    h₂.frames.trans h₁.frames, h₂.meminfo.trans h₁.meminfo, h₂.windowPage.trans h₁.windowPage,
    h₂.pageDirectory.trans h₁.pageDirectory⟩

/-- **`memset`** within a page with a frame of its own. -/
theorem Backed.memset {p f value : Nat} : ∀ {rem i : Nat} {s : PagingState}, Backed L s p f → PagingInv L s → i + rem ≤ 4096 →
    ∃ s', PagingState.memset (4096 * p) value rem i s = some s' ∧ PagingInv L s' ∧ Stored s s' ∧
      ∀ u g, Backed L s (u / 4096) g → s'.loadByte u =
        if 4096 * p + i ≤ u ∧ u < 4096 * p + i + rem then some (value % 256) else s.loadByte u
  | 0, i, s, _, hinv, _ => by
    refine ⟨s, rfl, hinv, .refl s, fun u g _ => ?_⟩
    rw [if_neg (by omega)]
  | rem + 1, i, s, h, hinv, hle => by
    have hlt := h.lt
    have hp : (4096 * p + i) / 4096 = p := by omega
    obtain ⟨s₁, he, hinv₁, hst, -⟩ := Backed.store (v := 4096 * p + i) (x := value % 256) (by rwa [hp]) hinv
    have hrest : i + 1 + rem ≤ 4096 := by omega
    obtain ⟨s₂, he₂, hinv₂, hst₂, hload⟩ := Backed.memset (h.of_entry (hst.entry p hlt)) hinv₁ hrest
    refine ⟨s₂, ?_, hinv₂, hst.trans hst₂, fun u g hu => ?_⟩
    · rw [PagingState.memset, u32_of_lt (by omega), he]
      exact he₂
    · have hfirst := Backed.load_stored (v := 4096 * p + i) (by rwa [hp]) hinv hu (Nat.mod_lt value (by decide)) he
      rw [hload u g (hu.of_entry (hst.entry _ hu.lt)), hfirst]
      by_cases hui : u = 4096 * p + i
      · rw [if_neg (by omega), if_pos hui, if_pos (by omega)]
      · rw [if_neg hui]
        by_cases hin : 4096 * p + (i + 1) ≤ u ∧ u < 4096 * p + (i + 1) + rem
        · rw [if_pos hin, if_pos (by omega)]
        · rw [if_neg hin, if_neg (by omega)]

/-! ## What a turn costs -/

/-- The frames that `n` turns use up. -/
def framesForTurns (n : Nat) : Nat := n + (379 + n) / 1024

/-- How often the loop turns with `free` frames to be found: while the
frames suffice, and the address space above `KVIRT_RESERVED` does. -/
def mainTurns (free : Nat) : Nat := Nat.findGreatest (fun n => framesForTurns n ≤ free) 261763

/-- The frames the search looks at. -/
def searched (m : MemInfo) : Nat := 32 * (m.highestFreeAddress / 4096 / 32)

/-- The free frames the search finds. -/
def findableFrames (s : PagingState) : Nat := clearCount s.frames.bit (searched s.meminfo)

theorem framesForTurns_succ (n : Nat) :
    framesForTurns (n + 1) = framesForTurns n + if (380 + n) % 1024 = 0 then 2 else 1 := by
  unfold framesForTurns
  split <;> omega

theorem framesForTurns_mono {m n : Nat} (h : m ≤ n) : framesForTurns m ≤ framesForTurns n := by
  unfold framesForTurns
  omega

theorem framesForTurns_mainTurns (free : Nat) : framesForTurns (mainTurns free) ≤ free :=
  Nat.findGreatest_spec (P := fun n => framesForTurns n ≤ free) (Nat.zero_le _) (Nat.zero_le _)

theorem mainTurns_le (free : Nat) : mainTurns free ≤ 261763 := Nat.findGreatest_le _

/-- A frame found by the search was free, and is not any more. -/
theorem findable_fill {b b' : Bitset} {m : MemInfo} {f : Nat} (hnext : i386MemGetNextFreeFrame m b = f) (hf : f ≠ 0)
    (hb : b.Filled b' f 1) : clearCount b'.bit (searched m) + 1 = clearCount b.bit (searched m) := by
  rcases i386MemGetNextFreeFrame_spec m b with ⟨h0, -⟩ | hfirst
  · exact absurd (hnext.symm.trans h0) hf
  · rw [hnext] at hfirst
    have hlt := hfirst.lt
    refine clearCount_fill hb.bit (fun j h1 h2 => ?_) hlt
    rw [show j = f by omega]
    exact hfirst.clear

/-- Where the search answers `0` and frame 0 is used, none is free. -/
theorem findable_none {b : Bitset} {m : MemInfo} (hnext : i386MemGetNextFreeFrame m b = 0) (h0 : b.bit 0 = true) :
    clearCount b.bit (searched m) = 0 := by
  have hall : ∀ f < searched m, b.bit f = true := by
    rcases i386MemGetNextFreeFrame_spec m b with ⟨-, hall⟩ | hfirst
    · exact hall
    · have hclear := hfirst.clear
      rw [hnext, h0] at hclear
      cases hclear
  rw [clearCount_upTo (r := searched m) fun j hj => ?_, Nat.sub_self]
  rw [hall j hj, decide_eq_true hj]

/-! ## Turns -/

/-- The first `n` pages above `KVIRT_RESERVED` have frames of their own, and
are full of ones. -/
def PagesFilled (L : Layout) (s : PagingState) (n : Nat) : Prop :=
  ∀ i < n, ∃ f, Backed L s (380 + i) f ∧ ∀ j < 4096, s.loadByte (4096 * (380 + i) + j) = some 0xFF

/-- After `n` turns, from `free` findable frames. -/
structure MainInv (L : Layout) (free n : Nat) (asa : Asa) (s : PagingState) : Prop where
  inv : PagingInv L s
  window : L.window < 380
  asa : AsaUpTo asa (380 + n)
  le : n ≤ 261763
  tables : ∀ t < 1024, s.pde t % 2 = 1 ↔ 1024 * t < 380 + n
  zero : s.frames.bit 0 = true
  count : findableFrames s + framesForTurns n = free
  filled : PagesFilled L s n

theorem MainInv.own {free n p : Nat} (h : MainInv L free n asa s) (hp : 380 ≤ p) : p ∉ L.own := by
  have h1 := L.dir_lt; have h2 := L.table_lt; have h3 := h.window
  exact not_own.mpr ⟨by omega, by omega, by omega⟩

theorem MainInv.keeps {free n : Nat} (h : MainInv L free n asa s) (hlt : n < 261763) :
    KeepsFrames s (.allocate (4096 * (380 + n)) 3 3) := by
  have h1 := L.dir_lt; have h2 := L.table_lt; have h3 := h.window
  refine ⟨⟨Nat.mul_mod_right 4096 _, ?_, by simp [PageCall.flags]⟩, ⟨?_, ?_, ?_⟩, h.inv.tables.offKernel ?_, trivial⟩
  · rw [PageCall.address]
    omega
  · rw [h.inv.tables.window, PageCall.address]
    omega
  · rw [h.inv.tables.dir, PageCall.address]
    omega
  · rw [h.inv.tables.first_frame, PageCall.address]
    omega
  · rw [PageCall.address]
    omega

/-- What the allocation of a turn leaves where it succeeds. -/
structure TurnTaken (L : Layout) (free n : Nat) (s s₁ : PagingState) : Prop where
  count : findableFrames s₁ + framesForTurns (n + 1) = free
  tables : ∀ t < 1024, s₁.pde t % 2 = 1 ↔ 1024 * t < 380 + (n + 1)
  zero : s₁.frames.bit 0 = true
  meminfo : s₁.meminfo = s.meminfo
  backed : ∃ f, Backed L s₁ (380 + n) f

/-- A page that was allocated is mapped to a frame of its own. -/
theorem Allocated.backed {v p a : Nat} (hp : p < 2 ^ 20) (hown : p ∉ L.own) (hv : v / 4096 = p)
    (ha : Allocated L s v 3 3 (.success, a) s') : ∃ f, Backed L s' p f := by
  have hset {f : Nat} {pde' : Nat → Nat} (hf : f ≠ 0)
      (heff : Effect L s s' pde' (Function.update s.entry (v / 4096) (4096 * f + 3))) : ∃ f, Backed L s' p f := by
    have hentry := heff.entry p hp (not_own.mp hown).1
    rw [hv, Function.update_self] at hentry
    exact ⟨f, hp, hown, maps_of_eq hentry, hf⟩
  cases ha with
  | mapped _ hf _ heff => exact hset hf.pos heff
  | newTable _ hf _ _ _ _ heff => exact hset hf.pos heff
  | lost _ _ _ _ _ heven _ => cases heven

/-- A page that was allocated where its table was absent. -/
theorem Allocated.pde_newTable {v a : Nat} (habs : s.pde (v / pageSize / 1024) % 2 = 0)
    (ha : Allocated L s v 3 3 (.success, a) s') :
    ∃ g, ∀ t < 1024, s'.pde t = Function.update s.pde (v / pageSize / 1024) (4096 * g + 3) t := by
  cases ha with
  | mapped hpres => omega
  | newTable _ _ _ _ _ _ heff => exact ⟨_, heff.pde⟩
  | lost _ _ _ _ _ heven _ => cases heven

theorem turn_table {n : Nat} : 4096 * (380 + n) / pageSize / 1024 = (380 + n) / 1024 := by
  unfold pageSize
  omega

/-- The page's table is there, unless the page is the first of its table. -/
theorem MainInv.table_present {free n : Nat} (h : MainInv L free n asa s) (hlt : n < 261763) :
    s.pde (4096 * (380 + n) / pageSize / 1024) % 2 = 1 ↔ (380 + n) % 1024 ≠ 0 := by
  rw [turn_table, h.tables _ (by omega)]
  omega

theorem MainInv.taken_mapped {free n f x : Nat} {b : Bitset} (h : MainInv L free n asa s) (hlt : n < 261763)
    (hnext : i386MemGetNextFreeFrame s.meminfo s.frames = f) (hf : f ≠ 0) (hb : s.frames.Filled b f 1)
    (hpres : s.pde (4096 * (380 + n) / pageSize / 1024) % 2 = 1)
    (hback : ∃ g, Backed L (s.withPage L b (4096 * (380 + n) / pageSize / 1024) (4096 * (380 + n) / pageSize % 1024) x) (380 + n) g) :
    TurnTaken L free n s (s.withPage L b (4096 * (380 + n) / pageSize / 1024) (4096 * (380 + n) / pageSize % 1024) x) := by
  have hpde := (h.inv.tables.withPage_entry (x := x) b (show 4096 * (380 + n) / pageSize / 1024 < 1024 by rw [turn_table]; omega)
    (Nat.mod_lt (4096 * (380 + n) / pageSize) (by decide)) hpres).1
  have hmod := (h.table_present hlt).mp hpres
  have hcost := framesForTurns_succ n
  rw [if_neg hmod] at hcost
  have hcount : clearCount s.frames.bit (searched s.meminfo) + framesForTurns n = free := h.count
  have hfill := findable_fill hnext hf hb
  refine ⟨?_, fun t ht => ?_, hb.mono h.zero, rfl, hback⟩
  · show clearCount b.bit (searched s.meminfo) + _ = _
    omega
  · rw [hpde t ht, h.tables t ht]
    omega

theorem MainInv.taken_newTable {free n f g : Nat} {b : Bitset} (h : MainInv L free n asa s) (hlt : n < 261763)
    (habs : s.pde (4096 * (380 + n) / pageSize / 1024) % 2 = 0) (hnext : i386MemGetNextFreeFrame s.meminfo s.frames = f)
    (hf : f ≠ 0) (hb : s.frames.Filled b f 1) (hnext' : i386MemGetNextFreeFrame s.meminfo b = g) (hg : Fresh b g)
    {s₁ : PagingState} (hfill : b.Filled s₁.frames g 1) (hmem : s₁.meminfo = s.meminfo) {g' : Nat}
    (hpde : ∀ t < 1024, s₁.pde t = Function.update s.pde (4096 * (380 + n) / pageSize / 1024) (4096 * g' + 3) t)
    (hback : ∃ g, Backed L s₁ (380 + n) g) : TurnTaken L free n s s₁ := by
  have hmod : (380 + n) % 1024 = 0 := by
    by_contra hne
    have hpres := (h.table_present hlt).mpr hne
    omega
  have hcost := framesForTurns_succ n
  rw [if_pos hmod] at hcost
  have hcount : clearCount s.frames.bit (searched s.meminfo) + framesForTurns n = free := h.count
  have hfill₁ := findable_fill hnext hf hb
  have hfill₂ := findable_fill hnext' hg.pos hfill
  refine ⟨?_, fun t ht => ?_, hfill.mono (hb.mono h.zero), hmem, hback⟩
  · rw [findableFrames, hmem]
    omega
  · rw [hpde t ht, turn_table, Function.update_apply]
    split
    · omega
    · rw [h.tables t ht]
      omega

/-- **The allocation of a turn** succeeds exactly when the frames it needs
can be found, and takes those. -/
theorem MainInv.allocate {free n : Nat} (h : MainInv L free n asa s) (hlt : n < 261763) :
    ∃ r s₁, i386AllocatePage s (4096 * (380 + n)) 3 3 = some (r, s₁) ∧
      ((r.1 = .success ∧ TurnTaken L free n s s₁) ∨ (r.1 = .oom ∧ free < framesForTurns (n + 1))) := by
  have hv : 4096 * (380 + n) < 2 ^ 32 := by omega
  have hal : 4096 * (380 + n) % pageSize = 0 := Nat.mul_mod_right 4096 _
  have hpage : 4096 * (380 + n) / 4096 = 380 + n := by omega
  have hown : 380 + n ∉ L.own := h.own (Nat.le_add_right 380 n)
  obtain ⟨r, s₁, he, ha⟩ := h.inv.tables.allocatePage h.inv.pool hv hal (by rw [hpage]; exact hown)
    (show 3 < 4096 by decide) (show 3 < 4096 by decide)
  have hmem := (ha.effect h.inv.tables).2
  have hcount : clearCount s.frames.bit (searched s.meminfo) + framesForTurns n = free := h.count
  have hcost := framesForTurns_succ n
  refine ⟨r, s₁, he, ?_⟩
  cases h.inv.tables.allocatePage_trace h.inv.pool hv hal (by decide) (by decide) he with
  | oom hnext =>
    have hnone := findable_none hnext h.zero
    refine .inr ⟨rfl, ?_⟩
    split at hcost <;> omega
  | tableOom habs hnext hf hb hnone _ =>
    have hfill := findable_fill hnext hf hb
    have hzero := findable_none hnone (hb.mono h.zero)
    have hpres := h.table_present hlt
    refine .inr ⟨rfl, ?_⟩
    split at hcost <;> omega
  | mapped hnext hf hb hpres =>
    exact .inl ⟨rfl, h.taken_mapped hlt hnext hf hb hpres (ha.backed (by omega) hown hpage)⟩
  | @newTable f g x b s₁ s₂ habs hnext hf hb hnext' hg hfill hok hwr hpde =>
    have hback := ha.backed (show 380 + n < 2 ^ 20 by omega) hown hpage
    obtain ⟨g', hpde'⟩ := ha.pde_newTable habs
    exact .inl ⟨rfl, h.taken_newTable hlt habs hnext hf hb hnext' hg hfill hmem hpde' hback⟩

/-- The pages of the turns before keep what they hold. -/
theorem MainInv.kept {free n : Nat} (h : MainInv L free n asa s) (hlt : n < 261763) {r : KReturn × Nat} {s₁ : PagingState}
    (he : i386AllocatePage s (4096 * (380 + n)) 3 3 = some (r, s₁)) : PagesFilled L s₁ n := by
  intro i hi
  obtain ⟨f, hb, hload⟩ := h.filled i hi
  have hother : (PageCall.allocate (4096 * (380 + n)) 3 3).remaps r ≠ some (380 + i) := by
    rw [PageCall.remaps]
    split
    · rw [ne_eq, Option.some.injEq]
      omega
    · exact (Option.some_ne_none _).symm
  have hcall {j : Nat} (hj : j < 4096) := h.inv.call_backed (h.keeps hlt) he (v := 4096 * (380 + i) + j)
    (by rwa [show (4096 * (380 + i) + j) / 4096 = 380 + i by omega])
    (by rwa [show (4096 * (380 + i) + j) / 4096 = 380 + i by omega])
  have hpage := (hcall (show 0 < 4096 by decide)).1
  rw [show (4096 * (380 + i) + 0) / 4096 = 380 + i by omega] at hpage
  exact ⟨f, hpage, fun j hj => (hcall hj).2.trans (hload j hj)⟩

/-- The page of the turn is filled, and the invariant is back. -/
theorem MainInv.fill {free n : Nat} (h : MainInv L free n asa s) (hlt : n < 261763) {r : KReturn × Nat}
    {s₁ : PagingState} (he : i386AllocatePage s (4096 * (380 + n)) 3 3 = some (r, s₁)) (ht : TurnTaken L free n s s₁)
    (hasa : AsaUpTo asa' (380 + (n + 1))) : ∃ s₂, PagingState.memset (4096 * (380 + n)) 0xFF 0x1000 0 s₁ = some s₂ ∧
      MainInv L free (n + 1) asa' s₂ := by
  obtain ⟨f, hb⟩ := ht.backed
  obtain ⟨s₂, hset, hinv, hst, hload⟩ := hb.memset (h.inv.call (h.keeps hlt) he)
    (show 0 + 0x1000 ≤ 4096 by decide)
  refine ⟨s₂, hset, hinv, h.window, hasa, hlt, fun t ht' => ?_, ?_, ?_, fun i hi => ?_⟩
  · rw [hst.pde t ht']
    exact ht.tables t ht'
  · rw [hst.frames]
    exact ht.zero
  · rw [findableFrames, hst.frames, hst.meminfo]
    exact ht.count
  · rcases Nat.lt_succ_iff_lt_or_eq.mp hi with hlast | rfl
    · obtain ⟨g, hg, hold⟩ := h.kept hlt he i hlast
      refine ⟨g, hg.of_entry (hst.entry _ hg.lt), fun j hj => ?_⟩
      rw [hload _ g (by rwa [show (4096 * (380 + i) + j) / 4096 = 380 + i by omega]), if_neg (by omega)]
      exact hold j hj
    · refine ⟨f, hb.of_entry (hst.entry _ hb.lt), fun j hj => ?_⟩
      rw [hload _ f (by rwa [show (4096 * (380 + i) + j) / 4096 = 380 + i by omega]), if_pos (by omega)]

/-- What one turn does. -/
inductive TurnEnd (L : Layout) (free n : Nat) (s : PagingState) : MainTurn → Prop
  | again {asa' : Asa} {s' : PagingState} : MainInv L free (n + 1) asa' s' → TurnEnd L free n s (.again asa' s')
  | oom {s' : PagingState} : n < 261763 → free < framesForTurns (n + 1) → PagesFilled L s' n → PagingInv L s' →
      TurnEnd L free n s (.panic "FAILED TO ALLOCATE PAGE!" s')
  | space : n = 261763 → TurnEnd L free n s (.panic "Out of address space!" s)

theorem MainInv.turn {free n : Nat} (h : MainInv L free n asa s) :
    ∃ e, kernelMainTurn asa s = some e ∧ TurnEnd L free n s e := by
  rcases Nat.lt_or_eq_of_le h.le with hlt | rfl
  · obtain ⟨asa', halloc, hasa⟩ := h.asa.alloc (n := 1) (by decide) (by omega)
    rw [Nat.mul_comm] at halloc
    obtain ⟨⟨ret, phys⟩, s₁, he, hend⟩ := h.allocate hlt
    have hstart : kernelMainTurn asa s = (if ret.failed then some (.panic "FAILED TO ALLOCATE PAGE!" s₁) else do
        let s ← PagingState.memset (4096 * (380 + n)) 0xFF 0x1000 0 s₁
        pure (.again asa' s)) := by
      have hne : ¬ 4096 * (380 + n) = 0 := by omega
      have hcall : i386AllocatePage s (4096 * (380 + n)) (ptPresent ||| ptRw) (pdPresent ||| pdRw) =
          some ((ret, phys), s₁) := he
      simp only [kernelMainTurn, halloc, Option.bind_eq_bind, Option.bind_some, if_neg hne, hcall]
      rfl
    have hinv₁ : PagingInv L s₁ := h.inv.call (h.keeps hlt) he
    rcases hend with ⟨hret, htaken⟩ | ⟨hret, hfree⟩
    all_goals
      cases hret
      rw [hstart]
    · obtain ⟨s₂, hset, hinv⟩ := h.fill hlt he htaken hasa
      refine ⟨_, ?_, .again hinv⟩
      rw [hset]
      rfl
    · exact ⟨_, rfl, .oom hlt hfree (h.kept hlt he) hinv₁⟩
  · refine ⟨_, ?_, .space rfl⟩
    have hlen := h.asa.length
    rcases asaAlloc_cases (a := asa) (n := 1) (by omega) with ⟨he, -⟩ | ⟨f, pages, -, hfit, -, -⟩
    · rw [kernelMainTurn, he]
      rfl
    · have hf := hfit.le_hi
      have hclear := hfit.clear f (Nat.le_refl f) (by omega)
      rw [h.asa.bit f (by omega), decide_eq_false_iff_not] at hclear
      omega

/-! ## The loop -/

/-- The message of the panic that ends the loop after `n` turns. -/
def mainPanic (n : Nat) : String := if n = 261763 then "Out of address space!" else "FAILED TO ALLOCATE PAGE!"

theorem MainInv.le_mainTurns {free n : Nat} (h : MainInv L free n asa s) : n ≤ mainTurns free := by
  have hcount := h.count
  exact Nat.le_findGreatest h.le (by omega)

/-- A turn that runs out of frames is the last. -/
theorem MainInv.eq_mainTurns {free n : Nat} (h : MainInv L free n asa s) (hfree : free < framesForTurns (n + 1)) :
    mainTurns free = n := by
  refine Nat.le_antisymm ?_ h.le_mainTurns
  by_contra hgt
  have hmono := framesForTurns_mono (show n + 1 ≤ mainTurns free by omega)
  have hlast := framesForTurns_mainTurns free
  omega

/-- Where the loop is after `fuel` turns. -/
theorem MainInv.loop {free : Nat} : ∀ {fuel n : Nat} {asa : Asa} {s : PagingState}, MainInv L free n asa s →
    (n + fuel ≤ mainTurns free → ∃ asa' s', kernelMainLoop fuel asa s = some (.again asa' s')) ∧
    (mainTurns free < n + fuel → ∃ s', kernelMainLoop fuel asa s = some (.panic (mainPanic (mainTurns free)) s') ∧
      PagesFilled L s' (mainTurns free) ∧ PagingInv L s')
  | 0, n, asa, s, h => by
    have hle := h.le_mainTurns
    exact ⟨fun _ => ⟨asa, s, rfl⟩, fun hlt => absurd hlt (by omega)⟩
  | fuel + 1, n, asa, s, h => by
    obtain ⟨e, he, hend⟩ := h.turn
    simp only [kernelMainLoop, he, Option.bind_eq_bind, Option.bind_some]
    cases hend with
    | again h' =>
      obtain ⟨hmore, hlast⟩ := h'.loop
      exact ⟨fun hle => hmore (by omega), fun hlt => hlast (by omega)⟩
    | oom hlt hfree hfilled hinv =>
      have hn := h.eq_mainTurns hfree
      refine ⟨fun hle => absurd hle (by omega), fun _ => ⟨_, ?_, hn ▸ hfilled, hinv⟩⟩
      rw [hn, mainPanic, if_neg (by omega)]
      rfl
    | space hn =>
      have hle := h.le_mainTurns
      have hmax := mainTurns_le free
      have heq : mainTurns free = n := by omega
      refine ⟨fun hle => absurd hle (by omega), fun _ => ⟨_, ?_, heq ▸ h.filled, h.inv⟩⟩
      rw [heq, mainPanic, if_pos hn]
      rfl

theorem Booted.mainInv (hb : Booted L s) (ha : AsaUpTo asa 380) (hw : s.windowPage < kvirtReserved) :
    MainInv L (findableFrames s) 0 asa s := by
  have hwin := hb.tables.window
  refine ⟨hb.inv, ?_, ha, by decide, fun t ht => ?_, hb.used 0 (by decide), rfl, fun i hi => absurd hi (by omega)⟩
  · unfold kvirtReserved at hw
    omega
  · rcases Nat.eq_zero_or_pos t with rfl | hpos
    · simp [hb.tables.first_present]
    · rw [hb.absent t hpos ht]
      simp only [ptRw]
      omega

/-- **The page test of `kernel_main`.** From the state that boot leaves with
the window below `KVIRT_RESERVED`, the loop turns `mainTurns` times, as often
as the frames that the search can find then suffice for (and `KVIRT_MAX`
allows), and the next turn ends in the panic that names what ran out. By then
every byte above `KVIRT_RESERVED` of as many pages is `0xFF`, each in a byte
of physical memory of its own. -/
theorem kernel_main_panics (mboot : MultibootInfo) (mem : Nat → Nat) (s₀ : PagingState) (asa : Asa)
    (hboot : kernelEarly mboot mem = .ok (s₀, asa)) (hw : s₀.windowPage < kvirtReserved) (fuel : Nat) :
    (fuel ≤ mainTurns (findableFrames s₀) → ∃ asa' s, kernelMainLoop fuel asa s₀ = some (.again asa' s)) ∧
    (mainTurns (findableFrames s₀) < fuel → ∃ s,
      kernelMainLoop fuel asa s₀ = some (.panic (mainPanic (mainTurns (findableFrames s₀))) s) ∧
      ∀ u, kvirtReserved ≤ u → u < kvirtReserved + 4096 * mainTurns (findableFrames s₀) →
        s.loadByte u = some 0xFF ∧
        ∀ v, kvirtReserved ≤ v → v < kvirtReserved + 4096 * mainTurns (findableFrames s₀) →
          u ≠ v → s.translate u ≠ s.translate v) := by
  obtain ⟨L, hb, ha⟩ := kernelEarly_booted hboot
  obtain ⟨hmore, hlast⟩ := (hb.mainInv ha hw).loop
  refine ⟨fun hle => hmore (by omega), fun hlt => ?_⟩
  obtain ⟨s, hpanic, hfilled, hinv⟩ := hlast (by omega)
  have hpage {u : Nat} (hu : kvirtReserved ≤ u) (hu' : u < kvirtReserved + 4096 * mainTurns (findableFrames s₀)) :
      ∃ f, Backed L s (u / 4096) f ∧ s.loadByte u = some 0xFF := by
    unfold kvirtReserved at hu hu'
    obtain ⟨f, hback, hload⟩ := hfilled (u / 4096 - 380) (by omega)
    rw [show 380 + (u / 4096 - 380) = u / 4096 by omega] at hback hload
    have hbyte := hload (u % 4096) (by omega)
    rw [show 4096 * (u / 4096) + u % 4096 = u by omega] at hbyte
    exact ⟨f, hback, hbyte⟩
  refine ⟨s, hpanic, fun u hu hu' => ?_⟩
  obtain ⟨f, hf, hload⟩ := hpage hu hu'
  refine ⟨hload, fun v hv hv' hne he => ?_⟩
  obtain ⟨g, hg, -⟩ := hpage hv hv'
  rw [hf.translate hinv.tables, hg.translate hinv.tables, Option.some.injEq] at he
  obtain ⟨hfg, hoff⟩ := inFrame_inj he
  refine hf.once hinv hg (fun hp => hne ?_) hfg
  omega

/-- On 128 MiB the frames run out first, on the turn after the 32069th. -/
theorem kernel_main_panics_128 : ∃ s₀ asa s, kernelEarly (boot128 0x110000 (by decide)) (fun _ => 0) = .ok (s₀, asa) ∧
    kernelMainLoop 32070 asa s₀ = some (.panic "FAILED TO ALLOCATE PAGE!" s) ∧ s.loadByte 0x17c000 = some 0xFF := by
  obtain ⟨L, s₀, asa, hboot, hb, -, hstart, hhigh, hclear⟩ :=
    @boot128_ok 0x110000 (by decide) (by decide) (by decide) (by decide) fun _ => 0
  have hwin := hb.window
  have hsearched : searched s₀.meminfo = 32480 := by
    rw [searched, hhigh]
  have hfree : findableFrames s₀ = 32100 := by
    rw [findableFrames, hsearched, clearCount_upTo (r := 380) fun f hf => ?_]
    rcases Nat.lt_or_ge f 380 with hlow | hge
    · rw [hb.used f hlow, decide_eq_true hlow]
    · rw [hclear f hge hf, decide_eq_false (by omega)]
  have hturns : mainTurns 32100 = 32069 := by
    rw [mainTurns, Nat.findGreatest_eq_iff]
    refine ⟨by decide, fun _ => by decide, fun n hn _ hle => ?_⟩
    unfold framesForTurns at hle
    omega
  obtain ⟨-, hlast⟩ := kernel_main_panics _ _ s₀ asa hboot (by rw [hwin, hstart]; decide) 32070
  rw [hfree, hturns] at hlast
  obtain ⟨s, hpanic, hbytes⟩ := hlast (by decide)
  exact ⟨s₀, asa, s, hboot, hpanic, (hbytes 0x17c000 (by decide) (by decide)).1⟩

end ShawnOS
