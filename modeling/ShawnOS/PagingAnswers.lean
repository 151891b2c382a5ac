/-
What the calls on pages answer, and what they leave when they fail.

`i386_free_page` takes a page whose table is present for mapped, and an
unmapped entry for frame 0. `i386_allocate_page` changes nothing when it is
out of memory. `kpage_identity_map` calls every nonzero value a success, and
the code for "out of memory" is one.
-/
import ShawnOS.PagingFrames

namespace ShawnOS

open Word32 Holders

variable {s s' : PagingState} {L : Layout}

theorem Booted.run {s₀ : PagingState} (hb : Booted L s₀) {t : PagingState × (Nat → Nat)}
    (hrun : Relation.ReflTransGen (PageStep KeepsFrames) (s₀, fun _ => 0) t) : PagingInv L t.1 :=
  PagingInv.run (fun _ _ h => h) hb.inv hrun

/-! ## Freeing an unmapped page -/

/-- `i386_free_page` refuses the page, and changes no frame and no
translation but the window's. -/
def FreeRefused (s : PagingState) (v : Nat) : Prop :=
  ∃ s', i386FreePage s v = some (.invalop, s') ∧ s'.frames = s.frames ∧
    ∀ w < 2 ^ 32, w / pageSize ≠ s.windowPage / pageSize → s'.translate w = s.translate w

theorem Tables.refused_iff (h : Tables L s) {v : Nat} (hv : v < 2 ^ 32) (hal : v % pageSize = 0) :
    FreeRefused s v ↔ s.pde (v / pageSize / 1024) &&& ptPresent = 0 := by
  rw [and_present]
  constructor
  · rintro ⟨s', he, -⟩
    by_contra hpres
    -- A page with a table is taken for mapped.
    obtain ⟨s₁, -, -, he'⟩ := h.freePage_present hv hal (by omega)
    rw [he] at he'
    obtain ⟨b, -, hb⟩ := Option.map_eq_some_iff.mp he'.symm
    cases hb
  · intro habs
    refine ⟨_, h.freePage_absent hv hal habs, rfl, fun w hw hne => ?_⟩
    rw [h.window] at hne
    unfold pageSize at hne
    refine translate_congr h (h.aim h.dir_bound.2) hw ?_
    rw [h.aim_entry (by omega), if_neg (by omega)]

/-- A call that frees no page that has a table but no mapping. -/
structure FreesMapped (s : PagingState) (c : PageCall) : Prop where
  keeps : KeepsFrames s c
  mapped : ∀ v s' a, c = .free v → s.pde (v / pageSize / 1024) &&& ptPresent ≠ 0 → i386PageGetPhys s v = some (a, s') → a ≠ 0

theorem Allocated.mono {v ptFlags pdFlags : Nat} {r : KReturn × Nat} (ha : Allocated L s v ptFlags pdFlags r s') {f : Nat}
    (hf : s.frames.bit f = true) : s'.frames.bit f = true := by
  cases ha with
  | oom => exact hf
  | tableOom _ _ _ hbit => rw [hbit]; exact hf
  | mapped _ _ hfill => exact hfill.mono hf
  | newTable _ _ hfill _ hfill' => exact hfill'.mono (hfill.mono hf)
  | lost _ _ hfill _ hfill' => exact hfill'.mono (hfill.mono hf)

theorem IdentityMapped.mono {v ptFlags pdFlags r : Nat} (hi : IdentityMapped L s v ptFlags pdFlags r s') {f : Nat}
    (hf : s.frames.bit f = true) : s'.frames.bit f = true := by
  cases hi with
  | oom _ _ _ he => rw [he]; exact hf
  | mapped _ _ hfill => exact hfill.mono hf
  | newTable _ _ _ hfill _ hfill' => exact hfill'.mono (hfill.mono hf)
  | lost _ _ _ hfill _ hfill' => exact hfill'.mono (hfill.mono hf)

/-- **Frame 0 stays used** where only mapped pages are freed. -/
theorem PagingInv.zero_used (h : PagingInv L s) {c : PageCall} {r : KReturn × Nat} (hc : FreesMapped s c)
    (he : c.exec s = some (r, s')) (h0 : s.frames.bit 0 = true) : s'.frames.bit 0 = true := by
  have hown := h.tables.off_own hc.keeps.proper.aligned hc.keeps.off
  have hal := hc.keeps.proper.aligned; have hlt := hc.keeps.proper.lt
  have hmapped := hc.mapped
  cases h.call_end hc.keeps he with
  | allocated _ _ ha => exact ha.mono h0
  | @freed v r s' hfree _ _ _ _ _ hbit =>
    obtain ⟨hpw, -, -⟩ := not_own.mp hown
    have hlt' : v < 2 ^ 32 := hlt
    by_cases hpres : s.pde (v / pageSize / 1024) % 2 = 1
    · obtain ⟨s₁, hget, -, heff⟩ := h.tables.getPhys hlt'
      have hpw' : v / 4096 ≠ L.window := hpw
      have hne := hmapped v s₁ _ rfl (by rw [ne_eq, and_present]; omega) hget
      rw [heff.entry _ (by omega) hpw', frameAddr] at hne
      -- The page is mapped, so the index taken from its entry is not 0.
      have hidx : 0 ≠ s.entry (v / 4096) / 4096 := by
        intro hz
        rw [← hz] at hne
        simp at hne
      rw [hbit 0 hidx]
      exact h0
    · rw [h.tables.freePage_absent hlt' hal (by omega)] at hfree
      cases hfree
      exact h0
  | looked hf =>
    rw [hf]
    exact h0
  | identity _ _ hi => exact hi.mono h0

/-- **When freeing an unmapped page is refused**: exactly when it has no
table. And frame 0 stays used in every run that frees no page that has a
table but no mapping. -/
theorem free_unmapped_refused_iff (mboot : MultibootInfo) (mem : Nat → Nat) (s₀ : PagingState) (asa : Asa)
    (hboot : kernelEarly mboot mem = .ok (s₀, asa)) :
    (∀ s m, Relation.ReflTransGen (PageStep KeepsFrames) (s₀, fun _ => 0) (s, m) → ∀ v s₁, v % pageSize = 0 →
      v < 2 ^ 32 → i386PageGetPhys s v = some (0, s₁) →
      (FreeRefused s v ↔ s.pde (v / pageSize / 1024) &&& ptPresent = 0)) ∧
    ∀ s m, Relation.ReflTransGen (PageStep FreesMapped) (s₀, fun _ => 0) (s, m) → s.frames.bit 0 = true := by
  obtain ⟨L, hb, -⟩ := kernelEarly_booted hboot
  refine ⟨fun s m hrun v s₁ hal hv _ => (hb.run hrun).tables.refused_iff hv hal, fun s m hrun => ?_⟩
  have h := @PageStep.run _ _ FreesMapped (fun s => PagingInv L s ∧ s.frames.bit 0 = true)
    (fun h hc he => ⟨h.1.call hc.keeps he, h.1.zero_used hc he h.2⟩) ⟨hb.inv, hb.used 0 (by decide)⟩ _ _ hrun
  exact h.2

theorem Booted.getPhys_high {s₀ : PagingState} (hb : Booted L s₀) {v : Nat} (hv : v < 2 ^ 32) (hge : 380 ≤ v / 4096)
    (hw : v / 4096 ≠ L.window) : ∃ s₁, i386PageGetPhys s₀ v = some (0, s₁) := by
  obtain ⟨s₁, he, -, heff⟩ := hb.tables.getPhys hv
  refine ⟨s₁, ?_⟩
  rw [he, heff.entry _ (by omega) hw, hb.high _ hge (by omega)]
  rfl

/-- A page without a table, right after boot. -/
theorem free_unmapped_refused_high : ∃ s₀ asa s₁, kernelEarly (boot128 0x110000 (by decide)) (fun _ => 0) = .ok (s₀, asa) ∧
    i386PageGetPhys s₀ 0x400000 = some (0, s₁) ∧ FreeRefused s₀ 0x400000 ∧ s₀.frames.bit 0 = true := by
  obtain ⟨L, s₀, asa, hboot, hb, -⟩ := @boot128_ok 0x110000 (by decide) (by decide) (by decide) (by decide) fun _ => 0
  have hw := L.window_le
  obtain ⟨s₁, hget⟩ := hb.getPhys_high (v := 0x400000) (by decide) (by decide) (by omega)
  obtain ⟨hiff, hzero⟩ := free_unmapped_refused_iff _ _ s₀ asa hboot
  have habs : s₀.pde (0x400000 / pageSize / 1024) &&& ptPresent = 0 := by
    rw [hb.absent _ (by decide) (by decide)]
    decide
  exact ⟨s₀, asa, s₁, hboot, hget,
    (hiff s₀ (fun _ => 0) .refl 0x400000 s₁ (by decide) (by decide) hget).mpr habs, hzero s₀ (fun _ => 0) .refl⟩

/-- A page of the first table, that was never mapped: freeing it succeeds and
frees frame 0. -/
theorem free_unmapped_frees_frame_zero : ∃ s₀ asa s₁ s₂,
    kernelEarly (boot128 0x110000 (by decide)) (fun _ => 0) = .ok (s₀, asa) ∧
    i386PageGetPhys s₀ 0x17d000 = some (0, s₁) ∧ i386FreePage s₀ 0x17d000 = some (.success, s₂) ∧
    s₀.frames.bit 0 = true ∧ s₂.frames.bit 0 = false := by
  obtain ⟨L, s₀, asa, hboot, hb, -⟩ := @boot128_ok 0x110000 (by decide) (by decide) (by decide) (by decide) fun _ => 0
  have hw := L.window_le; have hd := L.dir_lt; have ht := L.table_lt
  obtain ⟨s₁, hget⟩ := hb.getPhys_high (v := 0x17d000) (by decide) (by decide) (by omega)
  have hidx : s₀.entry (0x17d000 / 4096) / 4096 = 0 := by
    rw [hb.high _ (by decide) (by decide)]
    decide
  obtain ⟨b, hclear⟩ := bitsetClearBit_ok (b := s₀.frames) (n := 0) (by have := hb.length_ge; omega)
  obtain ⟨s₂, he, rfl, -⟩ := hb.tables.freePage (v := 0x17d000) (by decide) (by decide) hb.tables.first_present
    (not_own.mpr ⟨by omega, by omega, by omega⟩) (by rw [hidx]; exact hclear)
  exact ⟨s₀, asa, s₁, s₂, hboot, hget, he, hb.used 0 (by decide),
    (bitsetClearBit_wiped hclear).2.inside (Nat.le_refl 0) (by decide)⟩

/-! ## All or nothing -/

/-- The page of the window is the only one whose translation may differ. -/
def SameTranslations (s s' : PagingState) : Prop :=
  ∀ w < 2 ^ 32, w / pageSize ≠ s.windowPage / pageSize → s'.translate w = s.translate w

/-- Bitset, directory and translations are as before. -/
structure Unchanged (s s' : PagingState) : Prop where
  length : s'.frames.length = s.frames.length
  bit : ∀ f, s'.frames.bit f = s.frames.bit f
  pde : ∀ t < 1024, s'.pde t = s.pde t
  translate : SameTranslations s s'

/-- The page `v` was given the frame `f`, and nothing else was mapped. -/
structure GivenFrame (s s' : PagingState) (v f : Nat) : Prop where
  lt : f < s.frames.length
  clear : s.frames.bit f = false
  length : s'.frames.length = s.frames.length
  mapped : s'.translate v = some (4096 * f)
  others : ∀ w < 2 ^ 32, w / pageSize ≠ s.windowPage / pageSize → w / pageSize ≠ v / pageSize →
    s'.translate w = s.translate w

/-- The page was given the frame `f` in a table that there was. -/
structure GivenPage (s s' : PagingState) (v f : Nat) : Prop extends GivenFrame s s' v f where
  present : s.pde (v / pageSize / 1024) &&& ptPresent ≠ 0
  bit : ∀ g, s'.frames.bit g = (s.frames.bit g || decide (g = f))
  pde : ∀ t < 1024, s'.pde t = s.pde t

/-- The page was given the frame `f`, and the frame `g` became its table. -/
structure GivenTable (s s' : PagingState) (v pdFlags f g : Nat) : Prop extends GivenFrame s s' v f where
  absent : s.pde (v / pageSize / 1024) &&& ptPresent = 0
  ne : g ≠ f
  ltTable : g < s.frames.length
  clearTable : s.frames.bit g = false
  bit : ∀ x, s'.frames.bit x = (s.frames.bit x || decide (x = f ∨ x = g))
  pde : ∀ t < 1024, s'.pde t = if t = v / pageSize / 1024 then 4096 * g + pdFlags else s.pde t
  blank : ∀ i < 1024, i ≠ v / pageSize % 1024 → s'.phys (4096 * g + 4 * i) &&& ptPresent = 0

theorem Effect.sameTranslations (h : Tables L s) {pde' : Nat → Nat} (he : Effect L s s' pde' s.entry) :
    SameTranslations s s' := by
  intro w hw hne
  rw [h.window] at hne
  unfold pageSize at hne
  exact translate_congr h he.tables hw (he.entry _ (by omega) (by omega))

theorem Bitset.Filled.bit_one {b b' : Bitset} {f : Nat} (h : b.Filled b' f 1) (g : Nat) :
    b'.bit g = (b.bit g || decide (g = f)) := by
  rw [h.bit]
  congr 2
  exact propext (by omega)

/-- What both successes share, of a page that is not the window's. -/
theorem Effect.givenFrame (h : Tables L s) {v f flags : Nat} {pde' : Nat → Nat} (hv : v < 2 ^ 32) (hal : v % pageSize = 0)
    (hw : v / 4096 ≠ L.window) (hodd : flags % 2 = 1) (hflags : flags < 4096) (hf : Fresh s.frames f)
    (hlen : s'.frames.length = s.frames.length)
    (he : Effect L s s' pde' (Function.update s.entry (v / 4096) (4096 * f + flags))) : GivenFrame s s' v f := by
  unfold pageSize at hal
  refine ⟨hf.lt, hf.clear, hlen, ?_, fun w hlt hne hne' => ?_⟩
  · rw [he.tables.translate hv, he.entry _ (by omega) hw, Function.update_self, if_pos (by omega)]
    congr 1
    omega
  · rw [h.window] at hne
    unfold pageSize at hne hne'
    exact translate_congr h he.tables hlt
      ((he.entry _ (by omega) (by omega)).trans (Function.update_of_ne hne' ..))

/-- **The ends of `i386_allocate_page`**, with flags that make the page
present. -/
theorem Allocated.allOrNothing (h : Tables L s) {v ptFlags pdFlags : Nat} {r : KReturn × Nat} (hv : v < 2 ^ 32)
    (hal : v % pageSize = 0) (hw : v / 4096 ≠ L.window) (hpt : ptFlags < 4096) (hpd : pdFlags < 4096)
    (hodd : ptFlags % 2 = 1) (hodd' : pdFlags % 2 = 1) (ha : Allocated L s v ptFlags pdFlags r s') :
    (r = (.oom, 0) ∧ Unchanged s s') ∨ ∃ f, r = (.success, 4096 * f) ∧
      (GivenPage s s' v f ∨ ∃ g, GivenTable s s' v pdFlags f g) := by
  obtain ⟨ht, hi, hpage, -⟩ := page_index hv
  cases ha with
  | oom => exact .inl ⟨rfl, rfl, fun _ => rfl, fun _ _ => rfl, fun _ _ _ => rfl⟩
  | tableOom _ he hlen hbit => exact .inl ⟨rfl, hlen, hbit, he.pde, he.sameTranslations h⟩
  | @mapped _ f hpres hf hfill he =>
    refine .inr ⟨f, rfl, .inl ⟨he.givenFrame h hv hal hw hodd hpt hf hfill.length, ?_, hfill.bit_one, he.pde⟩⟩
    rw [ne_eq, and_present]
    omega
  | @newTable _ b f g habs hf hfill hg hfill' _ he =>
    have hlen := hfill'.length.trans hfill.length
    have hglt := hg.lt; have hgpos := hg.pos; have hgclear := hg.clear
    rw [hfill.length] at hglt
    rw [hfill.bit_one] at hgclear
    simp only [Bool.or_eq_false_iff, decide_eq_false_iff_not] at hgclear
    obtain ⟨hclear, hne⟩ := hgclear
    refine .inr ⟨f, rfl, .inr ⟨g, he.givenFrame h hv hal hw hodd hpt hf hlen, (and_present _).mpr habs, hne, hglt, hclear,
      fun x => ?_, fun t ht' => ?_, fun i hi' hne' => ?_⟩⟩
    · rw [hfill'.bit_one, hfill.bit_one, Bool.or_assoc, Bool.decide_or]
    · rw [he.pde t ht', Function.update_apply]
    · -- The table is read by its entries; the window's is in another.
      have hpos := h.absent_pos habs; have hwin := L.window_le
      have hpde := he.pde _ ht
      rw [Function.update_self] at hpde
      have hentry := he.entry (1024 * (v / pageSize / 1024) + i) (by omega) (by omega)
      rw [entry_of_present hi' (by omega), show 4096 * (s'.pde (v / pageSize / 1024) / 4096) = 4096 * g by omega,
        Function.update_of_ne (by omega), entry_of_absent (by
          rw [show (1024 * (v / pageSize / 1024) + i) / 1024 = v / pageSize / 1024 by omega]; exact habs)] at hentry
      rw [hentry]
      decide
  | lost _ _ _ _ _ heven => omega

/-- The same of the window's own page, where it lies above `KVIRT_RESERVED`:
the frame it gets is lost, as the window moves on. -/
theorem PagingInv.allocateWindow (h : PagingInv L s) {v ptFlags : Nat} (hv : v < 2 ^ 32) (hal : v % pageSize = 0)
    (hw : v / 4096 = L.window) (hpt : ptFlags < 4096) (hodd : ptFlags % 2 = 1) (pdFlags : Nat) :
    ∃ r s', i386AllocatePage s v ptFlags pdFlags = some (r, s') ∧ PagingInv L s' ∧ ((r = (.oom, 0) ∧ Unchanged s s') ∨
      ∃ f, r = (.success, 4096 * f) ∧ GivenPage s s' v f) := by
  obtain ⟨ht, hi, hpage, -⟩ := page_index hv
  have hwin := L.window_le; have htab := h.tables
  rcases h.pool.allocateFrame with ⟨h0, -⟩ | ⟨f, b, -, he, hf, hb⟩
  · exact ⟨_, s, Tables.allocatePage_none hal h0, h, .inl ⟨rfl, rfl, fun _ => rfl, fun _ _ => rfl, fun _ _ _ => rfl⟩⟩
  · have hword := hf.word
    have ht0 : v / pageSize / 1024 = 0 := by omega
    have hpres : s.pde (v / pageSize / 1024) % 2 = 1 := by
      rw [ht0]
      exact htab.first_present
    have hown : OwnEntry L (1024 * (v / pageSize / 1024) + v / pageSize % 1024) (4096 * f + ptFlags) := by
      rw [hpage, hw]
      exact ownEntry_of_ne L.dir_ne.symm L.table_ne.symm _
    obtain ⟨htab', hpde, hentry⟩ := htab.withPage b ht hi hpres (show 4096 * f + ptFlags < 2 ^ 32 by omega) hown
    have hother (p : Nat) (hp : p < 2 ^ 20) (hne : p ≠ L.window) := (hentry p hp).trans
      ((if_neg (by rw [hpage, hw]; exact hne)).trans (if_neg hne))
    refine ⟨_, _, htab.allocatePage_present hv hal hpt hpres he hf.pos hword pdFlags, ⟨htab', hb.length.trans h.length,
      h.highest, ?_⟩, .inr ⟨f, rfl, ⟨⟨hf.lt, hf.clear, hb.length, ?_, fun w hlt hne hne' => ?_⟩, ?_, hb.bit_one, hpde⟩⟩⟩
    · rw [hold_congr hpde hother, ← PagingState.hold]
      exact h.exclusive.mono fun g hg => ⟨hg.1, hb.length ▸ hg.2.1, hb.mono hg.2.2⟩
    · unfold pageSize at hal
      rw [htab'.translate hv, hentry _ (by omega), if_pos hpage.symm, if_pos (by omega)]
      congr 1
      omega
    · rw [htab.window] at hne
      unfold pageSize at hne hne'
      exact translate_congr htab htab' hlt (hother _ (by omega) (by omega))
    · rw [ne_eq, and_present]
      omega

/-- What `i386_allocate_page` promises: it is out of memory and everything is
as before, or one free frame was mapped, and a second became the page's table
if it had none. -/
def AllOrNothing (s : PagingState) (v ptFlags pdFlags : Nat) : Prop :=
  ∃ r s', i386AllocatePage s v ptFlags pdFlags = some (r, s') ∧ ((r = (.oom, 0) ∧ Unchanged s s') ∨
    ∃ f, r = (.success, 4096 * f) ∧ (GivenPage s s' v f ∨ ∃ g, GivenTable s s' v pdFlags f g))

/-- **`i386_allocate_page` is all or nothing** after boot and any run of
calls that leave the paging structures and the kernel's own pages alone. -/
theorem allocate_all_or_nothing (mboot : MultibootInfo) (mem : Nat → Nat) (s₀ : PagingState) (asa : Asa)
    (hboot : kernelEarly mboot mem = .ok (s₀, asa)) (s : PagingState) (m : Nat → Nat)
    (hrun : Relation.ReflTransGen (PageStep KeepsFrames) (s₀, fun _ => 0) (s, m)) (v ptFlags pdFlags : Nat)
    (hal : v % pageSize = 0) (hge : kvirtReserved ≤ v) (hv : v < 2 ^ 32) (hpt : ptFlags < 4096) (hpd : pdFlags < 4096)
    (hpresent : ptFlags &&& ptPresent ≠ 0) (hpresent' : pdFlags &&& ptPresent ≠ 0) : AllOrNothing s v ptFlags pdFlags := by
  obtain ⟨L, hb, -⟩ := kernelEarly_booted hboot
  have h := hb.run hrun
  rw [ne_eq, and_present] at hpresent hpresent'
  by_cases hw : v / 4096 = L.window
  · obtain ⟨r, s', he, -, hend⟩ := h.allocateWindow hv hal hw hpt (by omega) pdFlags
    exact ⟨r, s', he, hend.imp_right fun ⟨f, hr, hg⟩ => ⟨f, hr, .inl hg⟩⟩
  · obtain ⟨r, s', he, ha⟩ := h.tables.allocatePage h.pool hv hal (above_own hge hw) hpt hpd
    exact ⟨r, s', he, ha.allOrNothing h.tables hv hal hw hpt hpd (by omega) (by omega)⟩

theorem allocate_all_or_nothing_one : ∃ s₀ asa, kernelEarly (boot128 0x110000 (by decide)) (fun _ => 0) = .ok (s₀, asa) ∧
    AllOrNothing s₀ 0x400000 3 3 := by
  obtain ⟨L, s₀, asa, hboot, -⟩ := @boot128_ok 0x110000 (by decide) (by decide) (by decide) (by decide) fun _ => 0
  exact ⟨s₀, asa, hboot, allocate_all_or_nothing _ _ s₀ asa hboot s₀ (fun _ => 0) .refl 0x400000 3 3 (by decide)
    (by decide) (by decide) (by decide) (by decide) (by decide) (by decide)⟩

/-! ## The first table's page remapped -/

/-- The page of the first table shows the frame `f` in its place. What is
stored there to move the window goes to `f`, so the window stays where it
was, on the table. -/
structure Stranded (L : Layout) (f : Nat) (s : PagingState) : Prop where
  cr3 : s.cr3 = some s.pageDirectory
  early : s.earlyInitDone = true
  window : s.windowPage = 4096 * L.window
  dir : s.pageDirectory = 4096 * L.dir
  first : s.pde 0 = 4096 * L.table + 3
  dirEntry : s.entry L.dir = 4096 * L.dir + 3
  tableEntry : s.entry L.table = 4096 * f + 3
  aimed : s.entry L.window = 4096 * L.table + 3

variable {f : Nat}

theorem Stranded.entry_eq (h : Stranded L f s) {p : Nat} (hp : p < 1024) : s.entry p = s.phys (4096 * L.table + 4 * p) := by
  rw [PagingState.entry, show p / 1024 = 0 by omega, show p % 1024 = p by omega, h.first, if_pos (by omega),
    show (4096 * L.table + 3) / 4096 = L.table by omega]

theorem Stranded.translate (h : Stranded L f s) {p g i : Nat} (hp : p < 1024) (hi : i < 4096) (hg : g < 2 ^ 20)
    (he : s.entry p = 4096 * g + 3) : s.translate (4096 * p + i) = some (4096 * g + i) := by
  have ht := L.table_lt
  have hpde : s.phys (s.pageDirectory + 4 * 0) = 4096 * L.table + 3 := h.first
  have hentry : s.phys (4096 * L.table + 4 * p) = 4096 * g + 3 := (h.entry_eq hp).symm.trans he
  simp only [PagingState.translate, h.cr3, show (4096 * p + i) / 4096 = p by omega, show p / 1024 = 0 by omega,
    show p % 1024 = p by omega, hpde, and_present, and_page (show 4096 * L.table + 3 < 2 ^ 32 by omega),
    show 4096 * ((4096 * L.table + 3) / 4096) = 4096 * L.table by omega, hentry,
    and_page (show 4096 * g + 3 < 2 ^ 32 by omega)]
  rw [if_neg (by omega), if_neg (by omega)]
  congr 1
  omega

theorem Stranded.read (h : Stranded L f s) {p g i : Nat} (hp : p < 1024) (hi : i < 1024) (hg : g < 2 ^ 20)
    (he : s.entry p = 4096 * g + 3) : s.read (index32 (4096 * p) i) = some (s.phys (4096 * g + 4 * i)) := by
  rw [index32_page (by omega) hi, PagingState.read, h.translate hp (by omega) hg he]
  rfl

theorem Stranded.write (h : Stranded L f s) {p g i : Nat} (hp : p < 1024) (hi : i < 1024) (hg : g < 2 ^ 20)
    (he : s.entry p = 4096 * g + 3) (x : Nat) : s.write (index32 (4096 * p) i) x = some (s.put (4096 * g + 4 * i) x) := by
  rw [index32_page (by omega) hi, PagingState.write, h.translate hp (by omega) hg he]
  rfl

/-- A store to `f`, as `get_virt_ptr` makes it. -/
theorem Stranded.store (h : Stranded L f s) (hf : 380 ≤ f) {i : Nat} (hi : i < 1024) (x v : Nat) :
    Stranded L f ((s.put (4096 * f + 4 * i) x).invlpg v) ∧ ∀ p < 1024,
      ((s.put (4096 * f + 4 * i) x).invlpg v).entry p = s.entry p ∧ ((s.put (4096 * f + 4 * i) x).invlpg v).pde p = s.pde p := by
  have hd := L.dir_lt; have ht := L.table_lt; have hw := L.window_le
  have hpde {p : Nat} (hp : p < 1024) : ((s.put (4096 * f + 4 * i) x).invlpg v).pde p = s.pde p := by
    rw [PagingState.pde, PagingState.pde, PagingState.invlpg, put_pageDirectory, put_phys, if_neg (by rw [h.dir]; omega)]
  have hentry {p : Nat} (hp : p < 1024) : ((s.put (4096 * f + 4 * i) x).invlpg v).entry p = s.entry p := by
    rw [h.entry_eq hp, PagingState.entry, show p / 1024 = 0 by omega, show p % 1024 = p by omega, hpde (by decide), h.first,
      if_pos (by omega), show (4096 * L.table + 3) / 4096 = L.table by omega, PagingState.invlpg, put_phys, if_neg (by omega)]
  exact ⟨⟨h.cr3, h.early, h.window, h.dir, (hpde (by decide)).trans h.first, (hentry (by omega)).trans h.dirEntry,
    (hentry (by omega)).trans h.tableEntry, (hentry (by omega)).trans h.aimed⟩, fun p hp => ⟨hentry hp, hpde hp⟩⟩

theorem Stranded.getVirtPtr (h : Stranded L f s) (hf : f < 2 ^ 20) {a : Nat} (ha : a % 4096 = 0) :
    getVirtPtr s a = some (4096 * L.window, (s.put (4096 * f + 4 * L.window) (a + 3)).invlpg (4096 * L.window)) := by
  have hw := L.window_le; have ht := L.table_lt; have hd := L.dir_lt
  have htab : ShawnOS.tableInDir s 0 s.pageDirectory = some (4096 * L.table) := by
    rw [ShawnOS.tableInDir, h.dir, h.read (by omega) (by decide) (by omega) h.dirEntry, ← h.dir]
    have hpde : s.phys (s.pageDirectory + 4 * 0) = 4096 * L.table + 3 := h.first
    rw [Option.bind_eq_bind, Option.bind_some, hpde, and_page (by omega), show (4096 * L.table + 3) / 4096 = L.table by omega]
    rfl
  have hidx : 4096 * L.window / pageSize = L.window := by unfold pageSize; omega
  have hwr := h.write (by omega) (show L.window < 1024 by omega) hf h.tableEntry
  rw [ShawnOS.getVirtPtr, kassert_of ha]
  simp only [h.early, h.window, hidx, Nat.div_eq_of_lt (show L.window < 1024 by omega),
    Nat.mod_eq_of_lt (show L.window < 1024 by omega), htab, aligned_or_rw ha, hwr, put_windowPage,
    Option.bind_eq_bind, Option.bind_some, not_true_eq_false, if_false]
  rfl

/-- An allocation at 4 MiB then takes an entry of the first table for a page
table, and reports a success, while the directory stays as it was. -/
theorem Stranded.allocatePage (h : Stranded L f s) (hf : 380 ≤ f) (hf' : f < 2 ^ 20) {q g : Nat} {b : Bitset}
    (hq : s.entry 1 = 4096 * q + 3) (hq' : q < 2 ^ 20) (he : i386MemAllocateFrame s.meminfo s.frames = some (g, b))
    (hg : g ≠ 0) (hg' : g < 2 ^ 20) : ∃ s', i386AllocatePage s 0x400000 3 3 = some ((.success, 4096 * g), s') ∧
      s'.cr3 = some s'.pageDirectory ∧ s'.pde 1 = s.pde 1 := by
  have hd := L.dir_lt; have ht := L.table_lt; have hw := L.window_le
  have h₁ : Stranded L f { s with frames := b } :=
    ⟨h.cr3, h.early, h.window, h.dir, h.first, h.dirEntry, h.tableEntry, h.aimed⟩
  have hdir : s.pageDirectory % 4096 = 0 := by
    rw [h.dir]
    omega
  have hvirt₁ := h₁.getVirtPtr hf' (show PagingState.pageDirectory { s with frames := b } % 4096 = 0 from hdir)
  obtain ⟨h₂, hkeep₂⟩ := h₁.store hf (show L.window < 1024 by omega) (s.pageDirectory + 3) (4096 * L.window)
  generalize hs₂ : (PagingState.put { s with frames := b } (4096 * f + 4 * L.window) (s.pageDirectory + 3)).invlpg
    (4096 * L.window) = s₂ at h₂ hkeep₂
  have hentry₂ : s₂.entry 1 = 4096 * q + 3 := (hkeep₂ 1 (by decide)).1.trans hq
  have hread₂ := h₂.read (i := 1) (show L.window < 1024 by omega) (by decide) (by omega) h₂.aimed
  rw [← h₂.entry_eq (by decide), hentry₂] at hread₂
  have htab₂ : ShawnOS.tableInDir s₂ 1 (4096 * L.window) = some (4096 * q) := by
    rw [ShawnOS.tableInDir, hread₂, Option.bind_eq_bind, Option.bind_some, and_page (by omega),
      show (4096 * q + 3) / 4096 = q by omega]
    rfl
  -- The window does not move, so the store goes to the first table.
  have hvirt₂ := h₂.getVirtPtr hf' (Nat.mul_mod_right 4096 q)
  obtain ⟨h₃, hkeep₃⟩ := h₂.store hf (show L.window < 1024 by omega) (4096 * q + 3) (4096 * L.window)
  generalize (s₂.put (4096 * f + 4 * L.window) (4096 * q + 3)).invlpg (4096 * L.window) = s₃ at hvirt₂ h₃ hkeep₃
  have hwrite := h₃.write (i := 0) (show L.window < 1024 by omega) (by decide) (by omega) h₃.aimed (4096 * g + 3)
  refine ⟨s₃.put (4096 * L.table + 4 * 0) (4096 * g + 3), ?_, h₃.cr3, ?_⟩
  · rw [i386AllocatePage, kassert_of (by decide), he]
    simp only [Option.bind_eq_bind, Option.bind_some, if_neg hg]
    rw [show ShawnOS.getVirtPtr { s with frames := b } s.pageDirectory = _ from hvirt₁, hs₂]
    simp only [Option.bind_some, show 0x400000 / pageSize / 1024 = 1 from rfl, show 0x400000 / pageSize % 1024 = 0 from rfl,
      hread₂, and_present, if_neg (show ¬ (4096 * q + 3) % 2 = 0 by omega), allocatePageEntry, Option.bind_eq_bind, htab₂,
      hvirt₂, pageEntry_eq hg' (show 3 < 4096 by decide), hwrite, and_page (show 4096 * g + 3 < 2 ^ 32 by omega),
      show (4096 * g + 3) / 4096 = g by omega]
    rfl
  · have hpde₃ : s₃.pde 1 = s.pde 1 := (hkeep₃ 1 (by decide)).2.trans (hkeep₂ 1 (by decide)).2
    have hapart := L.apart
    rw [← hpde₃, PagingState.pde, PagingState.pde, put_pageDirectory, put_phys, if_neg (by rw [h₃.dir]; omega)]

/-- After boot on 128 MiB the page of the first table is allocated anew; the
allocation of the page at 4 MiB that follows reports a success, and maps
nothing there. -/
theorem allocate_over_first_table : ∃ s₀ asa s m, kernelEarly (boot128 0x110000 (by decide)) (fun _ => 0) = .ok (s₀, asa) ∧
    Relation.ReflTransGen (PageStep fun _ => PageCall.Proper) (s₀, fun _ => 0) (s, m) ∧ ¬ AllOrNothing s 0x400000 3 3 := by
  obtain ⟨L, s₀, asa, hboot, hb, -, hstart, hhigh, hclear⟩ :=
    @boot128_ok 0x110000 (by decide) (by decide) (by decide) (by decide) fun _ => 0
  have hd := L.dir_lt; have ht := L.table_lt; have hne := L.table_ne; have hapart := L.apart; have hdw := L.dir_ne
  have hw := hb.window
  rw [hb.tables.window, hstart] at hw
  have hpres := hb.tables.first_present
  obtain ⟨b, b', -, -, hf₁, hf₂⟩ := hb.firstFrames_128 hhigh hclear
  have hindex : 4096 * L.table / pageSize / 1024 = 0 ∧ 4096 * L.table / pageSize % 1024 = L.table := by
    unfold pageSize
    omega
  have hcall := hb.tables.allocatePage_present (v := 4096 * L.table) (by omega) (Nat.mul_mod_right 4096 _)
    (show 3 < 4096 by decide) (by rw [hindex.1]; exact hpres) hf₁ (by decide) (by decide) 3
  rw [hindex.1, hindex.2] at hcall
  obtain ⟨hpde, hentry⟩ := hb.tables.withPage_entry (t := 0) (i := L.table) (x := 4096 * 380 + 3) b (by decide) (by omega) hpres
  have hstranded : Stranded L 380 (s₀.withPage L b 0 L.table (4096 * 380 + 3)) := by
    refine ⟨hb.tables.cr3, hb.tables.early, hb.tables.window, hb.tables.dir, (hpde 0 (by decide)).trans hb.tables.first, ?_, ?_, ?_⟩
    · rw [hentry _ (by omega), if_neg (by omega), if_neg hdw]
      exact hb.low _ hd
    · rw [hentry _ (by omega), if_pos (by omega)]
    · rw [hentry _ (by omega), if_neg (by omega), if_pos rfl, hb.tables.first_frame]
  -- The page 1 is present, whichever page the table's is.
  have hone : ∃ q < 2 ^ 20, (s₀.withPage L b 0 L.table (4096 * 380 + 3)).entry 1 = 4096 * q + 3 := by
    rw [hentry 1 (by decide)]
    by_cases h1 : 1 = 1024 * 0 + L.table
    · exact ⟨380, by decide, if_pos h1⟩
    · rw [if_neg h1, if_neg (by omega)]
      exact ⟨1, by decide, hb.low 1 (by decide)⟩
  obtain ⟨q, hq, hq'⟩ := hone
  obtain ⟨s', hcall', hcr3, hpde'⟩ := hstranded.allocatePage (Nat.le_refl 380) (by decide) hq' hq hf₂ (by decide) (by decide)
  have hproper : (PageCall.allocate (4096 * L.table) 3 3).Proper :=
    ⟨Nat.mul_mod_right 4096 _, show 4096 * L.table < 2 ^ 32 by omega, by simp [PageCall.flags]⟩
  refine ⟨s₀, asa, _, _, hboot, .single (.call hproper hcall), ?_⟩
  rintro ⟨r, s'', he, hend⟩
  cases hcall'.symm.trans he
  have hunmapped : s'.translate 0x400000 = none := by
    have habs : s'.phys (s'.pageDirectory + 4 * 1) = ptRw :=
      hpde'.trans ((hpde 1 (by decide)).trans (hb.absent 1 (by decide) (by decide)))
    simp only [PagingState.translate, hcr3, show 0x400000 / 4096 / 1024 = 1 from rfl, habs]
    rfl
  rcases hend with ⟨hr, -⟩ | ⟨f, -, hgiven⟩
  · cases hr
  · have hmapped : s'.translate 0x400000 = some (4096 * f) := by
      rcases hgiven with hp | ⟨g, hp⟩
      · exact hp.mapped
      · exact hp.mapped
    rw [hunmapped] at hmapped
    cases hmapped

end ShawnOS
