/-
What the TLB keeps over runs of calls.

`i386_free_page` invalidates the page, and `get_virt_ptr` the window. The two
mapping functions invalidate nothing but the window, which is enough as long
as the entry they write was not present.
-/
import ShawnOS.PagingFrames

namespace ShawnOS

open Word32

variable {s s' : PagingState} {L : Layout}

/-- A call, with the stores and `invlpg`s it logged run against the TLB. -/
inductive TlbStep (ok : PagingState → PageCall → Prop) : PagingState × Tlb → PagingState × Tlb → Prop
  | call {s s' : PagingState} {T T' : Tlb} {c : PageCall} {r : KReturn × Nat} {ops : List MmuOp} {m : Nat → Nat} :
      ok s c → c.exec s = some (r, s') → s'.log = s.log ++ ops → Interleave s.pageDirectory s.phys T ops m T' →
      TlbStep ok (s, T) (s', T')

/-- Every cached entry is that of its page, and present. -/
def TlbAgrees (s : PagingState) (T : Tlb) : Prop :=
  ∀ c ∈ T, c.1 < 2 ^ 20 ∧ c.2 = s.entry c.1 ∧ c.2 &&& ptPresent ≠ 0

/-- The call replaces no present entry without `invlpg`. -/
def ReplacesNone (s : PagingState) : PageCall → Prop
  | .allocate v _ _ => s.entry (v / pageSize) &&& ptPresent = 0 ∨ i386MemGetNextFreeFrame s.meminfo s.frames = 0
  | .identityMap v ptFlags _ => s.entry (v / pageSize) &&& ptPresent = 0 ∨ s.entry (v / pageSize) = v + ptFlags
  | _ => True

/-- A call that keeps frames exclusive, and replaces no present entry. -/
structure Unstale (s : PagingState) (c : PageCall) : Prop where
  keeps : KeepsFrames s c
  replaces : ReplacesNone s c

theorem agreesBut_empty {T : Tlb} : AgreesBut ∅ s T ↔ TlbAgrees s T := by
  refine forall₂_congr fun c _ => and_congr_right fun _ => ?_
  rw [ne_eq, and_present]
  simp

theorem Effect.quiet {pde' : Nat → Nat} (he : Effect L s s' pde' s.entry) : Quiet ∅ ∅ s s' := by
  have h := he.tlb
  rw [replaced_self] at h
  exact h

/-- Setting an entry that was not present, or to what it was. -/
theorem Effect.quiet_update {pde' : Nat → Nat} {p x : Nat} (he : Effect L s s' pde' (Function.update s.entry p x))
    (hkeep : s.entry p % 2 = 1 → x = s.entry p) : Quiet ∅ ∅ s s' := by
  refine he.tlb.mono fun q _ ⟨_, hodd, hne⟩ => ?_
  by_cases hq : q = p
  · subst hq
    rw [Function.update_self] at hne
    exact absurd (hkeep hodd) hne
  · exact absurd (Function.update_of_ne hq ..) hne

theorem Allocated.quiet {v ptFlags pdFlags : Nat} {r : KReturn × Nat} (ha : Allocated L s v ptFlags pdFlags r s')
    (hnot : s.entry (v / 4096) % 2 = 0) : Quiet ∅ ∅ s s' := by
  cases ha with
  | oom => exact Quiet.same rfl rfl rfl
  | tableOom _ he => exact he.quiet
  | mapped _ _ _ he => exact he.quiet_update fun hodd => by omega
  | newTable _ _ _ _ _ _ he => exact he.quiet_update fun hodd => by omega
  | lost _ _ _ _ _ _ he => exact he.quiet

theorem IdentityMapped.quiet {v ptFlags pdFlags e : Nat} (hi : IdentityMapped L s v ptFlags pdFlags e s')
    (hkeep : s.entry (v / 4096) % 2 = 1 → v + ptFlags = s.entry (v / 4096)) : Quiet ∅ ∅ s s' := by
  cases hi with
  | oom _ _ he => exact he.quiet
  | mapped _ _ _ he => exact he.quiet_update hkeep
  | newTable _ _ _ _ _ _ _ he => exact he.quiet_update hkeep
  | lost _ _ _ _ _ _ _ he => exact he.quiet

/-- **A call that replaces no present entry leaves no stale one.** -/
theorem PagingInv.quiet (h : PagingInv L s) {c : PageCall} {r : KReturn × Nat} (hc : Unstale s c)
    (he : c.exec s = some (r, s')) : Quiet ∅ ∅ s s' := by
  obtain ⟨hkeeps, hrep⟩ := hc
  have hal := hkeeps.proper.aligned
  cases h.call_end hkeeps he with
  | allocated _ _ ha =>
    rcases hrep with hnot | h0
    · exact ha.quiet ((and_present _).mp hnot)
    · have he' : some ((KReturn.oom, 0), s) = some (r, s') := (Tables.allocatePage_none hal h0).symm.trans he
      cases he'
      exact Quiet.same rfl rfl rfl
  | freed _ _ hquiet => exact hquiet
  | looked _ heff => exact heff.quiet
  | @identity v ptFlags pdFlags e s' _ _ hi =>
    refine hi.quiet fun hodd => ?_
    rcases hrep with hnot | hsame
    · rw [and_present, show v / pageSize = v / 4096 from rfl] at hnot
      omega
    · exact hsame.symm

/-- **No stale translation survives where no present entry is replaced.** In
every run of such calls after boot, with any fills of the TLB between and
within them, every cached entry agrees with the page tables. -/
theorem tlb_agrees (mboot : MultibootInfo) (mem : Nat → Nat) (s₀ : PagingState) (asa : Asa)
    (hboot : kernelEarly mboot mem = .ok (s₀, asa)) (s : PagingState) (T : Tlb)
    (hrun : Relation.ReflTransGen (TlbStep Unstale) (s₀, ∅) (s, T)) : TlbAgrees s T := by
  obtain ⟨L, hb, -⟩ := kernelEarly_booted hboot
  have h : PagingInv L s ∧ AgreesBut ∅ s T := by
    generalize ht : (s, T) = t at hrun
    induction hrun generalizing s T with
    | refl =>
      cases ht
      exact ⟨hb.inv, fun c hc => hc.elim⟩
    | tail _ hs ih =>
      cases hs with
      | call hc he hlog hops =>
        cases ht
        obtain ⟨hinv, hagree⟩ := ih _ _ rfl
        obtain ⟨-, ops, hlog', hquiet⟩ := hinv.quiet hc he
        rw [hlog] at hlog'
        rw [List.append_cancel_left hlog'] at hops
        exact ⟨hinv.call hc.keeps he, (hquiet _ _ _ hagree hops).2⟩
  exact agreesBut_empty.mp h.2

/-- Some run of the operations there is. -/
theorem Interleave.total (dir : Nat) : ∀ (ops : List MmuOp) (m : Nat → Nat) (T : Tlb), ∃ m' T', Interleave dir m T ops m' T'
  | [], m, T => ⟨m, T, .done⟩
  | .store a x :: ops, m, T => by
    obtain ⟨m', T', h⟩ := total dir ops (Function.update m a x) T
    exact ⟨m', T', .store h⟩
  | .invlpg v :: ops, m, T => by
    obtain ⟨m', T', h⟩ := total dir ops m {c ∈ T | c.1 ≠ v / 4096}
    exact ⟨m', T', .invlpg h⟩

/-- Giving a page of a present table a frame invalidates the window, twice. -/
theorem withPage_interleave (L : Layout) (b : Bitset) (t i x : Nat) : ∃ ops, (s.withPage L b t i x).log = s.log ++ ops ∧
    ∀ T m' T', Interleave s.pageDirectory (s.withPage L b t i x).phys {c ∈ T | c.1 ≠ L.window} [] m' T' →
      Interleave s.pageDirectory s.phys T ops m' T' := by
  refine ⟨[.store (4096 * L.table + 4 * L.window) (s.pageDirectory + 3), .invlpg (4096 * L.window),
    .store (4096 * L.table + 4 * L.window) (4096 * (s.pde t / 4096) + 3), .invlpg (4096 * L.window),
    .store (4096 * (s.pde t / 4096) + 4 * i) x], ?_, fun T m' T' h => ?_⟩
  · simp [PagingState.withPage, PagingState.aim, PagingState.put, PagingState.invlpg]
  · have hw : 4096 * L.window / 4096 = L.window := by omega
    refine .store (.invlpg (.store (.invlpg (.store ?_))))
    rw [hw]
    have hT : {c ∈ {c ∈ T | c.1 ≠ L.window} | c.1 ≠ L.window} = {c ∈ T | c.1 ≠ L.window} := by
      ext c
      simp
    rw [hT]
    exact h

/-- One call. -/
theorem tlb_agrees_one : ∃ s₀ asa s T, kernelEarly (boot128 0x110000 (by decide)) (fun _ => 0) = .ok (s₀, asa) ∧
    TlbStep Unstale (s₀, ∅) (s, T) ∧ TlbAgrees s T := by
  obtain ⟨L, s₀, asa, hboot, hb, -, hstart, -⟩ :=
    @boot128_ok 0x110000 (by decide) (by decide) (by decide) (by decide) fun _ => 0
  have hwin := hb.window
  have hoff : (PageCall.allocate 0x17d000 3 3).address ≠ s₀.windowPage := by
    rw [hwin, hstart]
    decide
  have hentry : s₀.entry (0x17d000 / pageSize) &&& ptPresent = 0 := by
    rw [hb.high _ (by decide) (by decide)]
    decide
  have hcall : Unstale s₀ (.allocate 0x17d000 3 3) := ⟨mapCall_17d000.keeps hb.tables hoff, .inl hentry⟩
  rw [hb.tables.window, hstart] at hwin
  obtain ⟨r, s, he, -⟩ := mapCall_17d000.spec hb.inv (by omega)
  obtain ⟨-, ops, hlog, -⟩ := hb.inv.quiet hcall he
  obtain ⟨m, T, hops⟩ := Interleave.total s₀.pageDirectory ops s₀.phys ∅
  have hstep : TlbStep Unstale (s₀, ∅) (s, T) := .call hcall he hlog hops
  exact ⟨s₀, asa, s, T, hboot, hstep, tlb_agrees _ _ s₀ asa hboot s T (.single hstep)⟩

/-- A page allocated twice, whose first entry was cached in between. -/
theorem stale_after_allocating_twice : ∃ s₀ asa s T,
    kernelEarly (boot128 0x110000 (by decide)) (fun _ => 0) = .ok (s₀, asa) ∧
    Relation.ReflTransGen (TlbStep fun _ => MapCall) (s₀, ∅) (s, T) ∧ ¬ TlbAgrees s T := by
  obtain ⟨L, s₀, asa, hboot, hb, -, -, hhigh, hclear⟩ :=
    @boot128_ok 0x110000 (by decide) (by decide) (by decide) (by decide) fun _ => 0
  have hwin := L.window_le
  have hpres := hb.tables.first_present
  obtain ⟨b, b', -, -, htab₁, h₁, h₂⟩ := hb.allocateTwice_128 hhigh hclear
  obtain ⟨hpde₁, hentry₁⟩ := hb.tables.withPage_entry (t := 0) (i := 381) (x := 4096 * 380 + 3) b (by decide) (by decide) hpres
  obtain ⟨-, hentry₂⟩ := htab₁.withPage_entry (t := 0) (i := 381) (x := 4096 * 381 + 3) b' (by decide) (by decide)
    (by rw [hpde₁ 0 (by decide)]; exact hpres)
  have he₁ := (hentry₁ 381 (by decide)).trans (if_pos rfl)
  have he₂ := (hentry₂ 381 (by decide)).trans (if_pos rfl)
  obtain ⟨ops₁, hlog₁, hops₁⟩ := withPage_interleave (s := s₀) L b 0 381 (4096 * 380 + 3)
  obtain ⟨ops₂, hlog₂, hops₂⟩ := withPage_interleave (s := s₀.withPage L b 0 381 (4096 * 380 + 3)) L b' 0 381 (4096 * 381 + 3)
  -- The TLB is filled after the first call, and the second leaves that entry.
  have hodd : (s₀.withPage L b 0 381 (4096 * 380 + 3)).entry 381 % 2 = 1 := by rw [he₁]
  have hfill := hops₁ ∅ _ _ (.fill (show 381 < 2 ^ 20 by decide) hodd .done)
  have hrun : Relation.ReflTransGen (TlbStep fun _ => MapCall) (s₀, ∅) _ :=
    (Relation.ReflTransGen.single (.call mapCall_17d000 h₁ hlog₁ hfill)).tail
      (.call mapCall_17d000 h₂ hlog₂ (hops₂ _ _ _ .done))
  refine ⟨s₀, asa, _, _, hboot, hrun, fun hagree => ?_⟩
  obtain ⟨-, hsame, -⟩ := hagree (381, (s₀.withPage L b 0 381 (4096 * 380 + 3)).entry 381)
    ⟨Set.mem_insert _ _, show 381 ≠ L.window by omega⟩
  rw [he₂, he₁] at hsame
  exact absurd hsame (by decide)

end ShawnOS
