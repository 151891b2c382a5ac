/-
The page tables as a map.

Of the pages above `KVIRT_RESERVED` the windowed code keeps a map from pages
to frames: what a run of calls remembers is what `i386_page_get_phys` answers,
and no call touches a translation but its own page's and the window's.
-/
import ShawnOS.PagingBoot
import ShawnOS.PagingRuns

namespace ShawnOS

open Word32 Holders

variable {s s' : PagingState} {L : Layout}

/-- A call on a page above `KVIRT_RESERVED`. -/
structure Above (c : PageCall) : Prop where
  aligned : c.address % pageSize = 0
  ge : kvirtReserved ≤ c.address
  lt : c.address < 2 ^ 32
  flags : ∀ f ∈ c.flags, f < 4096
  notIdentity : ∀ v ptFlags pdFlags, c ≠ .identityMap v ptFlags pdFlags

/-- Such a call whose flags make the page present. -/
structure MapCall (c : PageCall) : Prop extends Above c where
  present : ∀ f ∈ c.flags, f &&& ptPresent ≠ 0

theorem page_above {v : Nat} (hge : kvirtReserved ≤ v) : 380 ≤ v / 4096 := by
  unfold kvirtReserved at hge
  omega

/-- Above `KVIRT_RESERVED` only the window's page is one the paging code works
through. -/
theorem above_own {v : Nat} (hge : kvirtReserved ≤ v) (hw : v / 4096 ≠ L.window) : v / 4096 ∉ L.own := by
  have hp := page_above hge
  have h1 := L.dir_lt; have h2 := L.table_lt
  exact not_own.mpr ⟨hw, by omega, by omega⟩

theorem Above.page_ne {c : PageCall} (hc : Above c) (h : Tables L s) (hw : c.address ≠ s.windowPage) :
    c.address / 4096 ≠ L.window := by
  have hal := hc.aligned
  rw [h.window] at hw
  unfold pageSize at hal
  omega

/-- The window lies below the pages of such calls, or is the first. -/
theorem Above.off_window {c : PageCall} (hc : Above c) (h : Tables L s) (hw : L.window < 380) :
    c.address ≠ s.windowPage := by
  have hp := page_above hc.ge
  rw [h.window]
  omega

theorem Above.keeps {c : PageCall} (hc : Above c) (h : Tables L s) (hw : c.address ≠ s.windowPage) : KeepsFrames s c := by
  have hp := page_above hc.ge
  have h1 := L.dir_lt; have h2 := L.table_lt
  have h3 := L.window_le
  refine ⟨⟨hc.aligned, hc.lt, hc.flags⟩, ⟨hw, ?_, ?_⟩, h.offKernel (by omega), ?_⟩
  · rw [h.dir]
    omega
  · rw [h.first_frame]
    omega
  · cases c with
    | identityMap v ptFlags pdFlags => exact absurd rfl (hc.notIdentity v ptFlags pdFlags)
    | _ => trivial

theorem PageCall.remember_other {c : PageCall} {r : KReturn × Nat} {m : Nat → Nat} {v : Nat} (hv : v ≠ c.address) :
    c.remember r m v = m v := by
  cases c with
  | allocate w ptFlags pdFlags =>
    simp only [remember]
    split
    · exact Function.update_of_ne hv ..
    · rfl
  | free w => exact Function.update_of_ne hv ..
  | getPhys w => rfl
  | identityMap w ptFlags pdFlags => rfl

/-- What changes no entry changes no translation. -/
theorem translate_congr (h : Tables L s) (h' : Tables L s') {w : Nat} (hw : w < 2 ^ 32)
    (he : s'.entry (w / 4096) = s.entry (w / 4096)) : s'.translate w = s.translate w := by
  rw [h'.translate hw, h.translate hw, he]

theorem frameAddr_entry {f flags : Nat} (hflags : flags < 4096) (hodd : flags % 2 = 1) :
    frameAddr (4096 * f + flags) = 4096 * f := by
  rw [frameAddr, if_pos (by omega)]
  omega

/-- The map after a call, at the call's own page. -/
def Remembers (s s' : PagingState) (c : PageCall) (r : KReturn × Nat) : Prop :=
  ∀ m : Nat → Nat, m c.address = frameAddr (s.entry (c.address / 4096)) →
    c.remember r m c.address = frameAddr (s'.entry (c.address / 4096))

theorem Allocated.remembers {v ptFlags pdFlags : Nat} {r : KReturn × Nat} (hv : v < 2 ^ 32) (hpw : v / 4096 ≠ L.window)
    (hpt : ptFlags < 4096) (hodd : ptFlags % 2 = 1) (hpd : pdFlags % 2 = 1) (ha : Allocated L s v ptFlags pdFlags r s') :
    (∀ p < 2 ^ 20, p ≠ L.window → p ≠ v / 4096 → s'.entry p = s.entry p) ∧
      Remembers s s' (.allocate v ptFlags pdFlags) r := by
  have hp : v / 4096 < 2 ^ 20 := by omega
  -- A successful call leaves the entry of the frame it returns.
  have hset {f : Nat} {pde' : Nat → Nat} (he : Effect L s s' pde' (Function.update s.entry (v / 4096) (4096 * f + ptFlags))) :
      (∀ p < 2 ^ 20, p ≠ L.window → p ≠ v / 4096 → s'.entry p = s.entry p) ∧
        Remembers s s' (.allocate v ptFlags pdFlags) (.success, 4096 * f) := by
    refine ⟨fun p hp hw hne => (he.entry p hp hw).trans (Function.update_of_ne hne ..), fun m _ => ?_⟩
    rw [PageCall.address, he.entry _ hp hpw, Function.update_self, frameAddr_entry hpt hodd]
    simp [PageCall.remember]
  cases ha with
  | oom => exact ⟨fun _ _ _ _ => rfl, fun m hm => hm⟩
  | tableOom _ he =>
    refine ⟨fun p hp hw _ => he.entry p hp hw, fun m hm => ?_⟩
    rw [PageCall.address, he.entry _ hp hpw]
    exact hm
  | mapped _ _ _ he => exact hset he
  | newTable _ _ _ _ _ _ he => exact hset he
  | lost _ _ _ _ _ heven => omega

/-- **One call**: it returns, keeps the other translations, and leaves at its
own page what the map remembers. -/
theorem MapCall.spec {c : PageCall} (hc : MapCall c) (h : PagingInv L s) (hw : L.window < 380) :
    ∃ r s', c.exec s = some (r, s') ∧ PagingInv L s' ∧
      (∀ p < 2 ^ 20, p ≠ L.window → p ≠ c.address / 4096 → s'.entry p = s.entry p) ∧ Remembers s s' c r := by
  have hoff := hc.off_window h.tables hw
  have hpw := hc.page_ne h.tables hoff
  have hown := above_own hc.ge hpw
  have hkeep := hc.keeps h.tables hoff
  have hal := hc.aligned; have hlt := hc.lt; have hflags := hc.flags; have hpresent := hc.present
  have hp : c.address / 4096 < 2 ^ 20 := by omega
  cases c with
  | allocate v ptFlags pdFlags =>
    have hpt := hflags ptFlags (by simp [PageCall.flags])
    have hpd := hflags pdFlags (by simp [PageCall.flags])
    have hpt' := hpresent ptFlags (by simp [PageCall.flags])
    have hpd' := hpresent pdFlags (by simp [PageCall.flags])
    rw [ne_eq, and_present] at hpt' hpd'
    obtain ⟨r, s', he, ha⟩ := h.tables.allocatePage h.pool hlt hal hown hpt hpd
    obtain ⟨hother, hrem⟩ := ha.remembers hlt hpw hpt (by omega) (by omega)
    exact ⟨r, s', he, h.call hkeep he, hother, hrem⟩
  | free v =>
    obtain ⟨r, s', he, hinv, -, heff, -⟩ := h.freePage hlt hal hown
    refine ⟨(r, 0), s', ?_, hinv, fun p hp hw hne => ?_, fun m _ => ?_⟩
    · simp only [PageCall.exec]
      rw [show i386FreePage s v = some (r, s') from he]
      rfl
    · exact (heff.entry p hp hw).trans (Function.update_of_ne hne ..)
    · rw [heff.entry _ hp hpw, Function.update_self]
      simp [PageCall.remember, PageCall.address, frameAddr, ptRw]
  | getPhys v =>
    obtain ⟨s', he, -, heff⟩ := h.tables.getPhys hlt
    have hexec : (PageCall.getPhys v).exec s = some ((.success, frameAddr (s'.entry (v / 4096))), s') := by
      simp only [PageCall.exec]
      rw [show i386PageGetPhys s v = _ from he]
      rfl
    refine ⟨_, s', hexec, h.call hkeep hexec, fun p hp hw _ => heff.entry p hp hw, fun m hm => ?_⟩
    rw [heff.entry _ hp hpw]
    exact hm
  | identityMap v ptFlags pdFlags => exact absurd rfl (hc.notIdentity v ptFlags pdFlags)

/-- The state and the map agree. -/
structure MapInv (L : Layout) (s : PagingState) (m : Nat → Nat) : Prop where
  inv : PagingInv L s
  window : L.window < 380
  map : ∀ v, v % pageSize = 0 → kvirtReserved ≤ v → v < 2 ^ 32 → m v = frameAddr (s.entry (v / 4096))

theorem MapInv.step {t t' : PagingState × (Nat → Nat)} (h : MapInv L t.1 t.2) (hs : PageStep (fun _ => MapCall) t t') :
    MapInv L t'.1 t'.2 := by
  cases hs with
  | @call s s' m c r hc he =>
    obtain ⟨r', s'', he', hinv, hother, hrem⟩ := hc.spec h.inv h.window
    rw [he] at he'
    cases he'
    refine ⟨hinv, h.window, fun v hal hge hlt => ?_⟩
    by_cases hv : v = c.address
    · rw [hv]
      exact hrem m (h.map _ hc.aligned hc.ge hc.lt)
    · have hne : v / 4096 ≠ c.address / 4096 := by
        have hal' := hc.aligned
        unfold pageSize at hal hal'
        omega
      have hp := page_above hge; have hw := h.window
      exact (PageCall.remember_other hv).trans
        ((h.map v hal hge hlt).trans (by rw [hother _ (by omega) (by omega) hne]))

theorem MapInv.run {s₀ : PagingState} (h : Booted L s₀) (hw : s₀.windowPage < kvirtReserved)
    {t : PagingState × (Nat → Nat)} (hrun : Relation.ReflTransGen (PageStep fun _ => MapCall) (s₀, fun _ => 0) t) :
    MapInv L t.1 t.2 := by
  induction hrun with
  | refl =>
    refine ⟨h.inv, ?_, fun v _ hge hlt => ?_⟩
    · rw [h.tables.window] at hw
      unfold kvirtReserved at hw
      omega
    · rw [h.high _ (page_above hge) (by omega)]
      rfl
  | tail _ hs ih => exact ih.step hs

/-- **The page tables refine the map.** From boot with the window below
`KVIRT_RESERVED`, after any run of calls `i386_page_get_phys` answers what
the map remembers, and a further call returns and leaves every translation
but its own page's and the window's. -/
theorem page_tables_refine_map (mboot : MultibootInfo) (mem : Nat → Nat) (s₀ : PagingState) (asa : Asa)
    (hboot : kernelEarly mboot mem = .ok (s₀, asa)) (hwindow : s₀.windowPage < kvirtReserved) (s : PagingState)
    (m : Nat → Nat) (hrun : Relation.ReflTransGen (PageStep fun _ => MapCall) (s₀, fun _ => 0) (s, m)) :
    (∀ v, v % pageSize = 0 → kvirtReserved ≤ v → v < 2 ^ 32 → ∃ s', i386PageGetPhys s v = some (m v, s')) ∧
    ∀ c, MapCall c → ∃ r s', c.exec s = some (r, s') ∧ ∀ w < 2 ^ 32, w / pageSize ≠ s.windowPage / pageSize →
      w / pageSize ≠ c.address / pageSize → s'.translate w = s.translate w := by
  obtain ⟨L, hb, -⟩ := kernelEarly_booted hboot
  have h := MapInv.run hb hwindow hrun
  have htab := h.inv.tables; have hw := h.window
  simp only at htab
  constructor
  · intro v hal hge hlt
    obtain ⟨s', he, -, heff⟩ := htab.getPhys hlt
    have hp := page_above hge
    refine ⟨s', ?_⟩
    rw [he, heff.entry _ (by omega) (by omega), ← h.map v hal hge hlt]
  · intro c hc
    obtain ⟨r, s', he, hinv, hother, -⟩ := hc.spec h.inv hw
    refine ⟨r, s', he, fun w hlt hne hne' => ?_⟩
    rw [htab.window] at hne
    unfold pageSize at hne hne'
    exact translate_congr htab hinv.tables hlt (hother _ (by omega) (by omega) hne')

/-- Boot with the window at `0x162000`, and one call. -/
theorem page_tables_refine_map_one : ∃ s₀ asa r s s',
    kernelEarly (boot128 0x110000 (by decide)) (fun _ => 0) = .ok (s₀, asa) ∧
    (PageCall.allocate 0x400000 3 3).exec s₀ = some (r, s) ∧
    i386PageGetPhys s 0x400000 = some ((PageCall.allocate 0x400000 3 3).remember r (fun _ => 0) 0x400000, s') := by
  obtain ⟨L, s₀, asa, hboot, hb, -, hstart, -⟩ :=
    @boot128_ok 0x110000 (by decide) (by decide) (by decide) (by decide) fun _ => 0
  have hwindow : s₀.windowPage < kvirtReserved := by
    rw [hb.window, hstart]
    decide
  have hcall : MapCall (.allocate 0x400000 3 3) := by
    refine ⟨⟨by decide, by decide, by decide, by simp [PageCall.flags], fun _ _ _ he => by cases he⟩, ?_⟩
    simp [PageCall.flags, ptPresent]
  obtain ⟨-, hcalls⟩ := page_tables_refine_map _ _ s₀ asa hboot hwindow s₀ (fun _ => 0) .refl
  obtain ⟨r, s, he, -⟩ := hcalls _ hcall
  obtain ⟨hmap, -⟩ := page_tables_refine_map _ _ s₀ asa hboot hwindow s _ (.single (.call hcall he))
  obtain ⟨s', hs'⟩ := hmap 0x400000 (by decide) (by decide) (by decide)
  exact ⟨s₀, asa, r, s, s', hboot, he, hs'⟩

end ShawnOS
