/-
The permissions a page gets.

The MMU grants what the directory's entry and the page's entry both grant.
The first allocation in a region makes the table, and with it the flags of
the directory's entry; later ones write the page's entry only.
-/
import ShawnOS.PagingAnswers

namespace ShawnOS

open Word32

variable {s s' : PagingState} {L : Layout}

/-- `PT_USER` and `PD_USER`. -/
def ptUser : Nat := 4

/-- `PRESENT`, with any of `RW` and `USER`. -/
structure PageFlags (flags : Nat) : Prop where
  present : flags &&& ptPresent ≠ 0
  lt : flags < 8

/-- The permission `bit` as the MMU grants it. -/
def Effective (s : PagingState) (v bit : Nat) : Prop :=
  s.pde (v / pageSize / 1024) &&& bit ≠ 0 ∧ s.entry (v / pageSize) &&& bit ≠ 0

/-- The page has the permissions of `flags`. -/
def AsAsked (s : PagingState) (v flags : Nat) : Prop :=
  ∀ bit ∈ [ptRw, ptUser], Effective s v bit ↔ flags &&& bit ≠ 0

/-- A `kpage_allocate`, of any page but the directory's, the first table's
and the kernel's own. -/
structure PermissionCall (s : PagingState) (c : PageCall) : Prop where
  allocate : ∃ v flags, c = .allocate v flags flags ∧ PageFlags flags
  aligned : c.address % pageSize = 0
  lt : c.address < 2 ^ 32
  offDir : c.address ≠ s.pageDirectory
  offTable : c.address / 4096 ≠ s.pde 0 / 4096
  offKernel : c.OffKernel s

theorem and_rw (n : Nat) : n &&& ptRw = 0 ↔ n / 2 % 2 = 0 := by
  rw [ptRw, show (2 : Nat) = 2 ^ 1 from rfl, Nat.and_two_pow, Nat.testBit_eq_decide_div_mod_eq]
  simp

theorem and_user (n : Nat) : n &&& ptUser = 0 ↔ n / 4 % 2 = 0 := by
  rw [ptUser, show (4 : Nat) = 2 ^ 2 from rfl, Nat.and_two_pow, Nat.testBit_eq_decide_div_mod_eq]
  simp

/-- An entry has the permissions of its flags. -/
theorem and_permission {f flags bit : Nat} (hbit : bit ∈ [ptRw, ptUser]) :
    (4096 * f + flags) &&& bit = 0 ↔ flags &&& bit = 0 := by
  simp only [List.mem_cons, List.not_mem_nil, or_false] at hbit
  rcases hbit with rfl | rfl
  · rw [and_rw, and_rw]
    omega
  · rw [and_user, and_user]
    omega

/-- With the page's entry made of the flags, the directory's entry decides. -/
theorem asAsked_iff {v f flags : Nat} (hentry : s.entry (v / pageSize) = 4096 * f + flags) :
    AsAsked s v flags ↔ ∀ bit ∈ [ptRw, ptUser], flags &&& bit ≠ 0 → s.pde (v / pageSize / 1024) &&& bit ≠ 0 := by
  refine forall₂_congr fun bit hbit => ?_
  rw [Effective, hentry, ne_eq (_ + _ &&& _), and_permission hbit]
  tauto

theorem PagingInv.permissionCall (h : PagingInv L s) {c : PageCall} {r : KReturn × Nat} (hc : PermissionCall s c)
    (he : c.exec s = some (r, s')) : PagingInv L s' := by
  obtain ⟨⟨v, flags, rfl, hflags⟩, hal, hlt, hdir, htab, hkernel⟩ := hc
  have hlt8 := hflags.lt
  have hpresent := hflags.present
  rw [ne_eq, and_present] at hpresent
  have hal' : v % pageSize = 0 := hal
  have hlt' : v < 2 ^ 32 := hlt
  by_cases hw : v / 4096 = L.window
  · obtain ⟨r', s'', he', hinv, -⟩ := @PagingInv.allocateWindow s L h v flags hlt' hal' hw (by omega) (by omega) flags
    have he'' : some (r', s'') = some (r, s') := he'.symm.trans he
    cases he''
    exact hinv
  · refine h.call ⟨⟨hal, hlt, fun f hf => ?_⟩, ⟨?_, hdir, htab⟩, hkernel, trivial⟩ he
    · simp only [PageCall.flags, List.mem_cons, List.not_mem_nil, or_false, or_self] at hf
      omega
    · have hne : v ≠ 4096 * L.window := by omega
      rw [h.tables.window]
      exact hne

/-- What a successful `kpage_allocate` leaves, of any page. -/
theorem PagingInv.kpageAllocate (h : PagingInv L s) {v flags : Nat} (hal : v % pageSize = 0) (hv : v < 2 ^ 32)
    (hlt : flags < 4096) (hodd : flags % 2 = 1) (hok : i386KpageAllocate v flags s = some (.success, s')) :
    ∃ f, s'.entry (v / 4096) = 4096 * f + flags ∧
      ((s.pde (v / pageSize / 1024) % 2 = 1 ∧ s'.pde (v / pageSize / 1024) = s.pde (v / pageSize / 1024)) ∨
        (s.pde (v / pageSize / 1024) % 2 = 0 ∧ ∃ g, s'.pde (v / pageSize / 1024) = 4096 * g + flags)) := by
  obtain ⟨ht, hi, hpage, -⟩ := page_index hv
  have htab := h.tables
  rw [i386KpageAllocate] at hok
  obtain ⟨⟨⟨r, a⟩, s₁⟩, he, hr⟩ := Option.bind_eq_some_iff.mp hok
  cases hr
  by_cases hpres : s.pde (v / pageSize / 1024) % 2 = 1
  · rcases h.pool.allocateFrame with ⟨h0, -⟩ | ⟨f, b, -, halloc, hf, -⟩
    · rw [Tables.allocatePage_none hal h0] at he
      cases he
    · rw [htab.allocatePage_present hv hal hlt hpres halloc hf.pos hf.word] at he
      cases he
      obtain ⟨hpde, hentry⟩ := htab.withPage_entry (x := 4096 * f + flags) b ht hi hpres
      exact ⟨f, (hentry _ (by omega)).trans (if_pos hpage.symm), .inl ⟨hpres, hpde _ ht⟩⟩
  · have habs : s.pde (v / pageSize / 1024) % 2 = 0 := by omega
    have hpos := htab.absent_pos habs
    have hwin := L.window_le; have hdl := L.dir_lt; have htl := L.table_lt
    obtain ⟨r', s'', he', ha⟩ := htab.allocatePage h.pool hv hal (not_own.mpr ⟨by omega, by omega, by omega⟩) hlt hlt
    rw [he] at he'
    cases he'
    cases ha with
    | mapped hp => omega
    | @newTable _ _ f g _ _ _ _ _ _ heff =>
      refine ⟨f, ?_, .inr ⟨habs, g, ?_⟩⟩
      · rw [heff.entry _ (by omega) (by omega), Function.update_self]
      · rw [heff.pde _ ht, Function.update_self]
    | lost _ _ _ _ _ heven => omega

/-- **When a page gets the permissions asked for**: exactly when its
directory entry was absent, or grants them. -/
theorem permissions_as_asked_iff (mboot : MultibootInfo) (mem : Nat → Nat) (s₀ : PagingState) (asa : Asa)
    (hboot : kernelEarly mboot mem = .ok (s₀, asa)) (s : PagingState) (m : Nat → Nat)
    (hrun : Relation.ReflTransGen (PageStep PermissionCall) (s₀, fun _ => 0) (s, m)) (v flags : Nat)
    (hal : v % pageSize = 0) (hv : v < 2 ^ 32) (hflags : PageFlags flags) (s' : PagingState)
    (hok : i386KpageAllocate v flags s = some (.success, s')) :
    AsAsked s' v flags ↔ s.pde (v / pageSize / 1024) &&& ptPresent = 0 ∨
      ∀ bit ∈ [ptRw, ptUser], flags &&& bit ≠ 0 → s.pde (v / pageSize / 1024) &&& bit ≠ 0 := by
  obtain ⟨L, hb, -⟩ := kernelEarly_booted hboot
  have h : PagingInv L s := PageStep.run (fun h hc he => h.permissionCall hc he) hb.inv hrun
  have hlt := hflags.lt
  have hpresent := hflags.present
  rw [ne_eq, and_present] at hpresent
  obtain ⟨f, hentry, ⟨hpres, hpde⟩ | ⟨habs, g, hpde⟩⟩ := h.kpageAllocate hal hv (by omega) (by omega) hok
  · rw [asAsked_iff hentry, hpde, and_present]
    exact (or_iff_right (by omega)).symm
  · refine ⟨fun _ => .inl ((and_present _).mpr habs), fun _ => (asAsked_iff hentry).mpr fun bit hbit hb => ?_⟩
    rw [hpde, ne_eq, and_permission hbit]
    exact hb

/-- The machine of 128 MiB has two frames for a first call. -/
theorem Booted.kpageAllocate_128 {s₀ : PagingState} (hb : Booted L s₀)
    (hhigh : s₀.meminfo.highestFreeAddress = 133038080) (hclear : ∀ f, 380 ≤ f → f < 32480 → s₀.frames.bit f = false)
    {v flags : Nat} (hv : v < 2 ^ 32) (hal : v % pageSize = 0) (hown : v / 4096 ∉ L.own) (hflags : flags < 4096) :
    ∃ s', i386KpageAllocate v flags s₀ = some (.success, s') := by
  have hnext := hb.next_128 hhigh hclear
  have hsuccess {a : Nat} {s' : PagingState} (he : i386AllocatePage s₀ v flags flags = some ((.success, a), s')) :
      ∃ s', i386KpageAllocate v flags s₀ = some (.success, s') := by
    refine ⟨s', ?_⟩
    rw [i386KpageAllocate, he]
    rfl
  obtain ⟨r, s', he, ha⟩ := hb.tables.allocatePage hb.inv.pool hv hal hown hflags hflags
  cases ha with
  | oom h0 => omega
  | tableOom _ _ _ _ hfull =>
    -- One of the frames 380 and 381 is still free after the first was taken.
    obtain ⟨f, b, hfill, h0⟩ := hfull
    rcases i386MemGetNextFreeFrame_spec s₀.meminfo b with ⟨-, hall⟩ | hfirst
    · rw [hhigh] at hall
      have h1 := hall 380 (by decide); have h2 := hall 381 (by decide)
      rw [hfill.bit_one, hclear _ (by decide) (by decide)] at h1 h2
      simp at h1 h2
      omega
    · have hc := hfirst.clear
      rw [h0, hfill.mono (hb.used 0 (by decide))] at hc
      cases hc
  | mapped => exact hsuccess he
  | newTable => exact hsuccess he
  | lost => exact hsuccess he

/-- A page for the user, in a table of its own. -/
theorem permissions_as_asked_user : ∃ s₀ asa s', kernelEarly (boot128 0x110000 (by decide)) (fun _ => 0) = .ok (s₀, asa) ∧
    i386KpageAllocate 0x400000 7 s₀ = some (.success, s') ∧ AsAsked s' 0x400000 7 := by
  obtain ⟨L, s₀, asa, hboot, hb, -, -, hhigh, hclear⟩ :=
    @boot128_ok 0x110000 (by decide) (by decide) (by decide) (by decide) fun _ => 0
  have hwin := L.window_le; have hd := L.dir_lt; have ht := L.table_lt
  obtain ⟨s', he⟩ := hb.kpageAllocate_128 hhigh hclear (v := 0x400000) (show 0x400000 < 2 ^ 32 by decide) (by decide)
    (not_own.mpr ⟨by omega, by omega, by omega⟩) (show 7 < 4096 by decide)
  refine ⟨s₀, asa, s', hboot, he, (permissions_as_asked_iff _ _ s₀ asa hboot s₀ (fun _ => 0) .refl 0x400000 7 (by decide)
    (by decide) ⟨by decide, by decide⟩ s' he).mpr (.inl ?_)⟩
  rw [hb.absent _ (by decide) (by decide)]
  decide

/-- A page for the user in the first table, which boot made for the kernel. -/
theorem permissions_of_first_table : ∃ s₀ asa s', kernelEarly (boot128 0x110000 (by decide)) (fun _ => 0) = .ok (s₀, asa) ∧
    i386KpageAllocate 0x17d000 7 s₀ = some (.success, s') ∧ ¬ AsAsked s' 0x17d000 7 := by
  obtain ⟨L, s₀, asa, hboot, hb, -, -, hhigh, hclear⟩ :=
    @boot128_ok 0x110000 (by decide) (by decide) (by decide) (by decide) fun _ => 0
  have hwin := L.window_le; have hd := L.dir_lt; have ht := L.table_lt
  have htab := hb.tables
  obtain ⟨s', he⟩ := hb.kpageAllocate_128 hhigh hclear (v := 0x17d000) (show 0x17d000 < 2 ^ 32 by decide) (by decide)
    (not_own.mpr ⟨by omega, by omega, by omega⟩) (show 7 < 4096 by decide)
  refine ⟨s₀, asa, s', hboot, he, fun hasked => ?_⟩
  obtain ⟨f, hentry, hpde⟩ := hb.inv.kpageAllocate (v := 0x17d000) (by decide) (by decide) (by decide) (by decide) he
  have huser := (asAsked_iff hentry).mp hasked ptUser (by simp) (by decide)
  rcases hpde with ⟨-, hpde⟩ | ⟨habs, -⟩
  · -- The first table's entry has `RW`, and no `USER`.
    rw [ne_eq, and_user, hpde, show 0x17d000 / pageSize / 1024 = 0 from rfl, htab.first] at huser
    omega
  · have hpres := htab.first_present
    rw [show 0x17d000 / pageSize / 1024 = 0 from rfl] at habs
    omega

end ShawnOS
