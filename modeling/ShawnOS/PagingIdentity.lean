/-
What `kpage_identity_map` reports.

The wrapper takes every nonzero value of `i386_identity_map_page` for an
entry, and the code for "out of memory" is nonzero. The frame bitset ends at
the last frame of memory, where marking the page's frame stops at an ASSERT.
And the window's own page is aimed elsewhere by the next access.
-/
import ShawnOS.PagingAnswers

namespace ShawnOS

open Word32

variable {s s' : PagingState} {L : Layout}

/-- The page is mapped to its own address, with these flags. -/
def IdentityIn (s : PagingState) (v flags : Nat) : Prop :=
  (∃ s', i386PageGetPhys s v = some (v, s')) ∧ s.entry (v / 4096) % 4096 = flags

/-- The call returns, reports a success where the page is mapped to its own
address, and "out of memory", with nothing changed, where its table is absent
and no frame is left for one. -/
def TellsTruth (s : PagingState) (v flags : Nat) : Prop :=
  ∃ r s', i386KpageIdentityMap v flags s = some (r, s') ∧ (r = .success ↔ IdentityIn s' v flags) ∧
    (s.pde (v / pageSize / 1024) &&& ptPresent = 0 → i386MemGetNextFreeFrame s.meminfo s.frames = 0 →
      r = .oom ∧ Unchanged s s')

theorem i386KpageIdentityMap_eq {v flags e : Nat} (he : i386IdentityMapPage s v flags flags = some (e, s')) :
    i386KpageIdentityMap v flags s = some (if e ≠ 0 then .success else .oom, s') := by
  rw [i386KpageIdentityMap, he]
  by_cases h0 : e = 0
  · subst h0
    rfl
  · simp [h0]

/-- An entry made for the page shows it at its own address. -/
theorem Effect.identityIn {v flags : Nat} {pde' : Nat → Nat} (hv : v < 2 ^ 32) (hal : v % pageSize = 0)
    (hw : v / 4096 ≠ L.window) (hflags : flags < 4096) (hodd : flags % 2 = 1)
    (he : Effect L s s' pde' (Function.update s.entry (v / 4096) (v + flags))) : IdentityIn s' v flags := by
  have hentry := he.entry (v / 4096) (by omega) hw
  rw [Function.update_self] at hentry
  unfold pageSize at hal
  obtain ⟨s'', hget, -, heff⟩ := he.tables.getPhys hv
  refine ⟨⟨s'', ?_⟩, by omega⟩
  rw [hget, heff.entry _ (by omega) hw, hentry, show v + flags = 4096 * (v / 4096) + flags by omega,
    frameAddr_entry hflags hodd, show 4096 * (v / 4096) = v by omega]

/-- **The truth is told** of a page with a bit in the bitset and a table or a
frame for one, except the window's. -/
theorem PagingInv.tellsTruth (h : PagingInv L s) {v flags : Nat} (hv : v < 2 ^ 32) (hal : v % pageSize = 0)
    (hw : v / 4096 ≠ L.window) (hflags : flags < 4096) (hodd : flags % 2 = 1) (hlt : v / 4096 < s.frames.length)
    (hroom : s.pde (v / pageSize / 1024) % 2 = 1 ∨ i386MemGetNextFreeFrame s.meminfo s.frames ≠ 0) :
    TellsTruth s v flags := by
  have hown : OwnEntry L (v / 4096) (v + flags) := by
    unfold pageSize at hal
    exact fun _ => ⟨by omega, by omega⟩
  rcases h.tables.identityMapPage h.pool hv hal hw hown hflags hflags with ⟨e, s', he, hi⟩ | ⟨-, hle, -⟩
  · -- Every end but "out of memory" makes the entry.
    have hmade (hne : e ≠ 0) (hin : IdentityIn s' v flags) (hroom : s.pde (v / pageSize / 1024) % 2 = 1 ∨
        i386MemGetNextFreeFrame s.meminfo s.frames ≠ 0) : TellsTruth s v flags := by
      refine ⟨.success, s', ?_, by simp [hin], fun habs h0 => ?_⟩
      · rw [i386KpageIdentityMap_eq he, if_pos hne]
      · rw [and_present] at habs
        omega
    cases hi with
    | oom habs h0 => omega
    | mapped _ _ _ heff => exact hmade (by omega) (heff.identityIn hv hal hw hflags hodd) hroom
    | newTable _ _ _ _ _ _ _ heff => exact hmade (by omega) (heff.identityIn hv hal hw hflags hodd) hroom
    | lost _ _ _ _ _ _ heven => omega
  · omega

/-- **Out of memory is reported as a success.** -/
theorem PagingInv.not_tellsTruth_oom (h : PagingInv L s) {v flags : Nat} (hv : v < 2 ^ 32) (hal : v % pageSize = 0)
    (hflags : flags < 4096) (habs : s.pde (v / pageSize / 1024) % 2 = 0)
    (h0 : i386MemGetNextFreeFrame s.meminfo s.frames = 0) : ¬ TellsTruth s v flags := by
  obtain ⟨ht, -, hpage, -⟩ := page_index hv
  have hpos := h.tables.absent_pos habs; have h1 := L.window_le; have h2 := L.dir_lt; have h3 := L.table_lt
  rintro ⟨r, s', he, -, hoom⟩
  obtain ⟨rfl, -⟩ := hoom ((and_present _).mpr habs) h0
  rcases h.tables.identityMapPage h.pool hv hal (by omega) (ownEntry_of_ne (by omega) (by omega) _) hflags hflags with
    ⟨e, s'', he', hi⟩ | ⟨-, -, hor⟩
  · rw [i386KpageIdentityMap_eq he'] at he
    cases hi with
    | oom => cases he
    | mapped hpres => omega
    | newTable _ hnext hg => exact hg.pos (hnext.symm.trans h0)
    | lost _ hnext hg => exact hg.pos (hnext.symm.trans h0)
  · omega

/-- **A page beyond the bitset** stops at the ASSERT. -/
theorem PagingInv.not_tellsTruth_beyond (h : PagingInv L s) {v flags : Nat} (hv : v < 2 ^ 32) (hal : v % pageSize = 0)
    (hw : v / 4096 ≠ L.window) (hflags : flags < 4096) (hodd : flags % 2 = 1) (hle : s.frames.length ≤ v / 4096)
    (hroom : s.pde (v / pageSize / 1024) % 2 = 1 ∨ i386MemGetNextFreeFrame s.meminfo s.frames ≠ 0) :
    ¬ TellsTruth s v flags := by
  have hown : OwnEntry L (v / 4096) (v + flags) := by
    unfold pageSize at hal
    exact fun _ => ⟨by omega, by omega⟩
  rintro ⟨r, s', he, -⟩
  rcases h.tables.identityMapPage h.pool hv hal hw hown hflags hflags with ⟨e, s'', -, hi⟩ | ⟨hn, -⟩
  · cases hi with
    | oom habs h0 => omega
    | mapped _ hlt => omega
    | newTable _ _ _ _ hlt => omega
    | lost _ _ _ _ hlt => omega
  · rw [i386KpageIdentityMap, hn] at he
    cases he

/-- **The window's page** is reported as mapped to itself, and is not. -/
theorem PagingInv.not_tellsTruth_window (h : PagingInv L s) {v flags : Nat} (hal : v % pageSize = 0)
    (hw : v / 4096 = L.window) (hflags : flags < 4096) (hodd : flags % 2 = 1) : ¬ TellsTruth s v flags := by
  have hwin := L.window_le; have htab := h.tables
  have hval : v = 4096 * L.window := by
    unfold pageSize at hal
    omega
  have hv : v < 2 ^ 32 := by omega
  obtain ⟨ht, hi, hpage, -⟩ := page_index hv
  have hpres : s.pde (v / pageSize / 1024) % 2 = 1 := by
    rw [show v / pageSize / 1024 = 0 by omega]
    exact htab.first_present
  rintro ⟨r, s', he, hiff, -⟩
  rw [i386KpageIdentityMap, htab.identityMapPage_present hv hal hflags hpres] at he
  cases hb : bitsetSetBit s.frames (v / 4096) with
  | none =>
    rw [hb] at he
    cases he
  | some b =>
    rw [hb] at he
    simp only [Option.map_some, Option.bind_eq_bind, Option.bind_some] at he
    rw [if_pos (show v + flags ≠ 0 by omega)] at he
    cases he
    -- The lookup is by the window, aimed at the table of its page.
    obtain ⟨⟨s₁, hget⟩, -⟩ := hiff.mp rfl
    obtain ⟨htab', -, -⟩ := htab.withPage s.frames ht hi hpres (show v + flags < 2 ^ 32 by omega)
      (by rw [hpage, hw]; exact ownEntry_of_ne L.dir_ne.symm L.table_ne.symm _)
    obtain ⟨s₂, hget'⟩ := (htab'.frames b).getPhys_window
    rw [← hval] at hget'
    have hne := L.table_ne
    have heq := Option.some.inj (hget'.symm.trans hget)
    have hv' : 4096 * L.table = v := congrArg Prod.fst heq
    omega

/-- **When `kpage_identity_map` tells the truth**: exactly when the page has
a bit in the frame bitset and is not the window, and its table is present or
there is a frame for it. -/
theorem identity_map_truth_iff (mboot : MultibootInfo) (mem : Nat → Nat) (s₀ : PagingState) (asa : Asa)
    (hboot : kernelEarly mboot mem = .ok (s₀, asa)) (s : PagingState) (m : Nat → Nat)
    (hrun : Relation.ReflTransGen (PageStep KeepsFrames) (s₀, fun _ => 0) (s, m)) (v flags : Nat)
    (hal : v % pageSize = 0) (hv : v < 2 ^ 32) (hflags : flags < 4096) (hpresent : flags &&& ptPresent ≠ 0) :
    TellsTruth s v flags ↔ v / pageSize < s.frames.length ∧ v ≠ s.windowPage ∧
      (s.pde (v / pageSize / 1024) &&& ptPresent ≠ 0 ∨ i386MemGetNextFreeFrame s.meminfo s.frames ≠ 0) := by
  obtain ⟨L, hb, -⟩ := kernelEarly_booted hboot
  have h := hb.run hrun
  simp only at h
  have hwin : v ≠ s.windowPage ↔ v / 4096 ≠ L.window := by
    rw [h.tables.window]
    unfold pageSize at hal
    omega
  rw [ne_eq, and_present] at hpresent
  rw [hwin, ne_eq (s.pde _ &&& _), and_present, show v / pageSize = v / 4096 from rfl]
  constructor
  · intro htruth
    have hw : v / 4096 ≠ L.window := fun hw => h.not_tellsTruth_window hal hw hflags (by omega) htruth
    have hroom : s.pde (v / 4096 / 1024) % 2 = 1 ∨ i386MemGetNextFreeFrame s.meminfo s.frames ≠ 0 := by
      by_contra hnot
      obtain ⟨habs, h0⟩ := not_or.mp hnot
      exact h.not_tellsTruth_oom hv hal hflags (show s.pde (v / 4096 / 1024) % 2 = 0 by omega) (by omega) htruth
    refine ⟨?_, hw, hroom.imp_left fun hp => by omega⟩
    by_contra hge
    exact h.not_tellsTruth_beyond hv hal hw hflags (by omega) (by omega) hroom htruth
  · rintro ⟨hlt, hw, hroom⟩
    exact h.tellsTruth hv hal hw hflags (by omega) hlt
      (hroom.imp_left fun hp => show s.pde (v / 4096 / 1024) % 2 = 1 by omega)

/-- The page at 4 MiB, which needs a table, on a machine with free memory. -/
theorem identity_map_truth_one : ∃ s₀ asa, kernelEarly (boot128 0x110000 (by decide)) (fun _ => 0) = .ok (s₀, asa) ∧
    TellsTruth s₀ 0x400000 3 := by
  obtain ⟨L, s₀, asa, hboot, hb, -, hstart, hhigh, hfree⟩ :=
    @boot128_ok 0x110000 (by decide) (by decide) (by decide) (by decide) fun _ => 0
  have hlen := hb.length
  have hwin := hb.window
  rw [hhigh] at hlen
  rw [hstart] at hwin
  have hnext : i386MemGetNextFreeFrame s₀.meminfo s₀.frames ≠ 0 := by
    rw [hb.next_128 hhigh hfree]
    decide
  refine ⟨s₀, asa, hboot, (identity_map_truth_iff _ _ s₀ asa hboot s₀ (fun _ => 0) .refl 0x400000 3 (by decide)
    (by decide) (by decide) (by decide)).mpr ⟨?_, ?_, .inr hnext⟩⟩
  · unfold pageSize
    omega
  · rw [hwin]
    decide

/-- The last page of the address space, for which the bitset has no bit. -/
theorem identity_map_beyond_memory : ∃ s₀ asa, kernelEarly (boot128 0x110000 (by decide)) (fun _ => 0) = .ok (s₀, asa) ∧
    i386KpageIdentityMap 0xFFFFF000 3 s₀ = none := by
  obtain ⟨L, s₀, asa, hboot, hb, -, -, hhigh, hfree⟩ :=
    @boot128_ok 0x110000 (by decide) (by decide) (by decide) (by decide) fun _ => 0
  have hwin := L.window_le; have hd := L.dir_lt; have ht := L.table_lt
  have hlen := hb.length
  have hnext := hb.next_128 hhigh hfree
  rw [hhigh] at hlen
  refine ⟨s₀, asa, hboot, ?_⟩
  rcases @Tables.identityMapPage s₀ L hb.tables hb.inv.pool 0xFFFFF000 3 3 (by decide) (by decide) (by omega)
    (ownEntry_of_ne (by omega) (by omega) _) (by decide) (by decide) with ⟨e, s', -, hi⟩ | ⟨hn, -⟩
  · cases hi with
    | oom _ h0 => omega
    | mapped _ hlt => omega
    | newTable _ _ _ _ hlt => omega
    | lost _ _ _ _ hlt => omega
  · rw [i386KpageIdentityMap, hn]
    rfl

end ShawnOS
