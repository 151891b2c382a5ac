/-
Paged memory is memory.

The kernel reads and writes bytes through the page tables that its own
paging calls edit, by stores that go through the same tables. A call stores
to the directory, to page tables and to fresh frames only (`Spares`), and a
frame that a page holds is none of these; so a byte stored at a mapped
address is what is loaded there, until a call changes the entry of its page.
-/
import ShawnOS.Lib.Lanes
import ShawnOS.PagingBoot
import ShawnOS.PagingRuns

namespace ShawnOS

open Word32 Holders Lanes

variable {s s' : PagingState} {L : Layout} {f : Nat}

/-- `*(uint8_t *) v`. -/
def PagingState.loadByte (s : PagingState) (v : Nat) : Option Nat := do
  let a ← s.translate v
  pure (byteAt s.phys a)

/-- `*(uint8_t *) v = x`. -/
def PagingState.storeByte (s : PagingState) (v x : Nat) : Option PagingState := do
  let a ← s.translate v
  pure (s.put (4 * (a / 4)) (wordWith s.phys a x))

/-! ## Frames a call leaves alone -/

/-- The words of the frame `f` are as they were. -/
def Spares (f : Nat) (s s' : PagingState) : Prop := ∀ i < 1024, s'.phys (4096 * f + 4 * i) = s.phys (4096 * f + 4 * i)

/-- A frame in use, but not for a paging structure. -/
structure Plain (L : Layout) (s : PagingState) (f : Nat) : Prop where
  used : s.frames.bit f = true
  notDir : f ≠ L.dir
  noTable : ∀ t < 1024, s.pde t % 2 = 1 → s.pde t / 4096 ≠ f

theorem Spares.same (h : s'.phys = s.phys) : Spares f s s' := fun _ _ => by rw [h]

theorem Spares.trans {s₁ : PagingState} (h₁ : Spares f s s₁) (h₂ : Spares f s₁ s') : Spares f s s' :=
  fun i hi => (h₂ i hi).trans (h₁ i hi)

theorem spares_put {g i : Nat} (hne : f ≠ g) (hi : i < 1024) (x : Nat) : Spares f s (s.put (4096 * g + 4 * i) x) := by
  intro j hj
  rw [put_phys, if_neg (by omega)]

theorem spares_aim (hne : f ≠ L.table) (a : Nat) : Spares f s (s.aim L a) := by
  have hw := L.window_le
  exact spares_put hne (by omega) _

theorem Plain.notFirst (hf : Plain L s f) (h : Tables L s) : f ≠ L.table :=
  fun he => hf.noTable 0 (by decide) h.first_present (h.first_frame.trans he.symm)

/-- The two stores by which a page of a present table gets an entry. -/
theorem spares_entry {t i : Nat} (hfirst : f ≠ L.table) (htable : f ≠ s.pde t / 4096) (hi : i < 1024) (x : Nat) :
    Spares f s ((s.aim L (4096 * (s.pde t / 4096))).put (4096 * (s.pde t / 4096) + 4 * i) x) :=
  (spares_aim hfirst _).trans (spares_put htable hi x)

/-- What a frame is to the paging code depends on the directory and the
bitset. -/
theorem Plain.of_effect {entry' : Nat → Nat} (hf : Plain L s f) (he : Effect L s s' s.pde entry')
    (hused : s'.frames.bit f = true) : Plain L s' f := by
  refine ⟨hused, hf.notDir, fun t ht hpres => ?_⟩
  rw [he.pde t ht] at hpres ⊢
  exact hf.noTable t ht hpres

theorem Plain.fill {b : Bitset} {g : Nat} (hf : Plain L s f) (hb : s.frames.Filled b g 1) :
    Plain L { s with frames := b } f := ⟨hb.mono hf.used, hf.notDir, hf.noTable⟩

theorem Plain.ne_fresh {g : Nat} (hf : Plain L s f) (hg : Fresh s.frames g) : f ≠ g := hg.ne_of_bit hf.used

/-- `memset32` through the window, aimed at another frame. -/
theorem spares_memset32 {g x : Nat} (hdir : g ≠ L.dir) (hne : f ≠ g) : ∀ {rem i : Nat} {s : PagingState}, Tables L s →
    s.entry L.window = 4096 * g + 3 → (∀ t < 1024, s.pde t % 2 = 1 → s.pde t / 4096 ≠ g) → i + rem ≤ 1024 →
    memset32 (4096 * L.window) x rem i s = some s' → Spares f s s'
  | 0, _, _, _, _, _, _, he => by
    cases he
    exact .same rfl
  | rem + 1, i, s, h, haim, hfree, hle, he => by
    have hw := L.window_le
    have hi : i < 1024 := by omega
    have hpde : ∀ t < 1024, (s.put (4096 * g + 4 * i) x).pde t = s.pde t := fun t ht => h.pde_put hdir hi ht
    rw [memset32, h.write_at (by omega) hi (maps_of_eq haim), Option.bind_eq_bind, Option.bind_some] at he
    refine (spares_put hne hi x).trans (spares_memset32 hdir hne (h.put_other hdir hi hfree x) ?_ ?_ (by omega) he)
    · rw [h.entry_put_other hdir hi hfree (by omega)]
      exact haim
    · intro t ht hp
      rw [hpde t ht] at hp ⊢
      exact hfree t ht hp

/-! ## The calls -/

theorem Tables.allocatePageTable_spares (h : Tables L s) (hp : Pool L s) (hf : Plain L s f) {r : KReturn × Nat}
    (he : ShawnOS.allocatePageTable s = some (r, s')) : Spares f s s' := by
  rcases hp.allocateFrame with ⟨-, hframe⟩ | ⟨g, b, -, hframe, hg, hb⟩
  · rw [ShawnOS.allocatePageTable, if_pos h.early, hframe] at he
    cases he
    exact .same rfl
  · have hword := hg.word
    have h₁ := h.frames b
    have ha := Effect.aim h₁ (a := 4096 * g) (by omega)
    rw [ShawnOS.allocatePageTable, if_pos h.early, hframe] at he
    simp only [Option.bind_eq_bind, Option.bind_some, if_neg hg.pos, frame_phys hword,
      h₁.getVirtPtr (show 4096 * g % 4096 = 0 by omega)] at he
    obtain ⟨s₁, hset, he⟩ := Option.bind_eq_some_iff.mp he
    cases he
    have hfirst : Spares f s (PagingState.aim { s with frames := b } L (4096 * g)) := spares_aim (hf.notFirst h) _
    refine hfirst.trans (spares_memset32 (Ne.symm (hg.ne_of_bit hp.dir)) (hf.ne_fresh hg) ha.tables (h₁.aimed _)
      (fun t ht hpres => ?_) (by omega) hset)
    rw [ha.pde t ht] at hpres ⊢
    exact hg.no_table hp t ht hpres

theorem Tables.allocatePageTable_tables (h : Tables L s) (hp : Pool L s) {g : Nat}
    (he : ShawnOS.allocatePageTable s = some ((.success, 4096 * g), s')) : Tables L s' := by
  rcases h.allocatePageTable hp with ⟨-, hoom⟩ | ⟨g', s₁, -, hok, -, -, heff, -⟩
  · cases hoom.symm.trans he
  · obtain ⟨-, rfl⟩ := Prod.mk.inj (Option.some.inj (hok.symm.trans he))
    exact heff.tables

/-- The directory gets the entry of a new table, by the window. -/
theorem Tables.newEntry_spares {s₁ : PagingState} (h : Tables L s) (hdir : f ≠ L.dir) (hfirst : f ≠ L.table) {t x : Nat}
    (ht : t < 1024) (he : (s.aim L s.pageDirectory).write (index32 (4096 * L.window) t) x = some s₁) : Spares f s s₁ := by
  have hw := L.window_le
  have haim := h.aimed s.pageDirectory
  rw [h.dir] at haim he
  rw [(h.aim (by rw [← h.dir]; exact h.dir_bound.2)).write_at (by omega) ht (maps_of_eq haim)] at he
  cases he
  exact (spares_aim hfirst _).trans (spares_put hdir ht x)

/-- The state after a new table was entered in the directory. -/
theorem Tables.newTable_spares (h : Tables L s) (hp : Pool L s) (hf : Plain L s f) {t g pdFlags : Nat} {s₁ s₂ : PagingState}
    (ht : t < 1024) (hok : ShawnOS.allocatePageTable s = some ((.success, 4096 * g), s₁)) (htab : Tables L s₁)
    (hwr : (s₁.aim L s₁.pageDirectory).write (index32 (4096 * L.window) t) (4096 * g ||| pdFlags) = some s₂) :
    Spares f s s₂ :=
  (h.allocatePageTable_spares hp hf hok).trans (htab.newEntry_spares hf.notDir (hf.notFirst h) ht hwr)

/-- The same, up to the entry of the page in the new table. -/
theorem Tables.newPage_spares {s₂ : PagingState} (hset : Spares f s s₂) (hf : Plain L s f) (h : Tables L s)
    {t i g pdFlags : Nat} (hg : Fresh s.frames g) (hpde : s₂.pde t = 4096 * g + pdFlags) (hpd : pdFlags < 4096)
    (hi : i < 1024) (x : Nat) :
    Spares f s ((s₂.aim L (4096 * (s₂.pde t / 4096))).put (4096 * (s₂.pde t / 4096) + 4 * i) x) := by
  have hne := hf.ne_fresh hg
  refine hset.trans (spares_entry (hf.notFirst h) ?_ hi x)
  rw [hpde]
  omega

/-- How `i386_allocate_page` gets where it ends: the frames it takes, which
are those the search finds, and the stores it makes. -/
inductive AllocateTrace (L : Layout) (s : PagingState) (v pdFlags : Nat) : KReturn × Nat → PagingState → Prop
  | oom : i386MemGetNextFreeFrame s.meminfo s.frames = 0 → AllocateTrace L s v pdFlags (.oom, 0) s
  | tableOom {f : Nat} {b b' : Bitset} : s.pde (v / pageSize / 1024) % 2 = 0 →
      i386MemGetNextFreeFrame s.meminfo s.frames = f → f ≠ 0 → s.frames.Filled b f 1 →
      i386MemGetNextFreeFrame s.meminfo b = 0 → b.Wiped b' f 1 →
      AllocateTrace L s v pdFlags (.oom, 0) { PagingState.aim { s with frames := b } L s.pageDirectory with frames := b' }
  | mapped {f x : Nat} {b : Bitset} : i386MemGetNextFreeFrame s.meminfo s.frames = f → f ≠ 0 → s.frames.Filled b f 1 →
      s.pde (v / pageSize / 1024) % 2 = 1 → AllocateTrace L s v pdFlags (.success, 4096 * f)
        (s.withPage L b (v / pageSize / 1024) (v / pageSize % 1024) x)
  | newTable {f g x : Nat} {b : Bitset} {s₁ s₂ : PagingState} : s.pde (v / pageSize / 1024) % 2 = 0 →
      i386MemGetNextFreeFrame s.meminfo s.frames = f → f ≠ 0 → s.frames.Filled b f 1 →
      i386MemGetNextFreeFrame s.meminfo b = g → Fresh b g → b.Filled s₂.frames g 1 →
      ShawnOS.allocatePageTable (PagingState.aim { s with frames := b } L s.pageDirectory) = some ((.success, 4096 * g), s₁) →
      (s₁.aim L s₁.pageDirectory).write (index32 (4096 * L.window) (v / pageSize / 1024)) (4096 * g ||| pdFlags) = some s₂ →
      (∀ t < 1024, s₂.pde t = Function.update s.pde (v / pageSize / 1024) (4096 * g + pdFlags) t) →
      AllocateTrace L s v pdFlags (.success, 4096 * f) ((s₂.aim L (4096 * (s₂.pde (v / pageSize / 1024) / 4096))).put
        (4096 * (s₂.pde (v / pageSize / 1024) / 4096) + 4 * (v / pageSize % 1024)) x)

theorem Tables.allocatePage_trace (h : Tables L s) (hp : Pool L s) {v ptFlags pdFlags : Nat} (hv : v < 2 ^ 32)
    (hal : v % pageSize = 0) (hpt : ptFlags < 4096) (hpd : pdFlags < 4096) {r : KReturn × Nat}
    (he : i386AllocatePage s v ptFlags pdFlags = some (r, s')) : AllocateTrace L s v pdFlags r s' := by
  obtain ⟨ht, hi, -, -⟩ := page_index hv
  rcases hp.allocateFrame with ⟨hnext, hframe⟩ | ⟨f, b, hnext, hframe, hf, hb⟩
  · rw [i386AllocatePage, kassert_of hal, hframe] at he
    cases he
    exact .oom hnext
  have h₁ := h.frames b
  have ha := Effect.aim h₁ h₁.dir_bound.2
  by_cases hpres : s.pde (v / pageSize / 1024) % 2 = 1
  · rw [h.allocatePage_present hv hal hpt hpres hframe hf.pos hf.word pdFlags] at he
    cases he
    exact .mapped hnext hf.pos hb hpres
  · have habs : s.pde (v / pageSize / 1024) % 2 = 0 := by omega
    rw [i386AllocatePage, kassert_of hal, hframe] at he
    simp only [Option.bind_eq_bind, Option.bind_some, if_neg hf.pos, h₁.getVirtPtr h₁.dir_bound.1, h₁.read_dir ht,
      and_present] at he
    rw [if_pos (show PagingState.pde { s with frames := b } (v / pageSize / 1024) % 2 = 0 from habs)] at he
    rcases ha.tables.newTable ((hp.fill hb).of_effect ha rfl) ht (by rw [ha.pde _ ht]; exact habs) hpd with
      ⟨hnone, hoom⟩ | ⟨g, s₁, s₂, hnext', hok, hvirt, hwr, hg, hfill, heff, haim⟩
    · rw [hoom] at he
      simp only [Option.bind_some, KReturn.failed] at he
      obtain ⟨b', hb', he⟩ := Option.bind_eq_some_iff.mp he
      cases he
      exact .tableOom habs hnext hf.pos hb hnone (bitsetClearBit_wiped hb').2
    · rw [hok] at he
      simp only [Option.bind_some, failed_success, Bool.false_eq_true, if_false, hvirt, hwr,
        heff.tables.allocatePageEntry ht hi hf.word hpt haim] at he
      cases he
      refine .newTable habs hnext hf.pos hb hnext' hg hfill hok hwr fun t ht' => (heff.pde t ht').trans ?_
      rw [Function.update_apply, Function.update_apply, ha.pde t ht']
      rfl

theorem Tables.allocatePage_spares (h : Tables L s) (hp : Pool L s) (hf : Plain L s f) {v ptFlags pdFlags : Nat}
    (hv : v < 2 ^ 32) (hal : v % pageSize = 0) (hpt : ptFlags < 4096) (hpd : pdFlags < 4096) {r : KReturn × Nat}
    (he : i386AllocatePage s v ptFlags pdFlags = some (r, s')) : Spares f s s' := by
  obtain ⟨ht, hi, -, -⟩ := page_index hv
  have haim (b : Bitset) : Spares f s (PagingState.aim { s with frames := b } L s.pageDirectory) :=
    spares_aim (hf.notFirst h) _
  cases h.allocatePage_trace hp hv hal hpt hpd he with
  | oom => exact .same rfl
  | tableOom => exact haim _
  | mapped _ _ _ hpres =>
    exact ((haim _).trans (spares_aim (hf.notFirst h) _)).trans (spares_put (Ne.symm (hf.noTable _ ht hpres)) hi _)
  | @newTable f' g x b s₁ s₂ _ _ _ hb _ hg _ hok hwr hpde =>
    have hself := hpde _ ht
    rw [Function.update_self] at hself
    have h₁ := h.frames b
    have ha := Effect.aim h₁ h₁.dir_bound.2
    have hp₂ := (hp.fill hb).of_effect ha rfl
    have hf₁ := hf.fill hb
    have hf₂ := hf₁.of_effect ha hf₁.used
    have hnew := ha.tables.newTable_spares hp₂ hf₂ ht hok (ha.tables.allocatePageTable_tables hp₂ hok) hwr
    exact (haim b).trans (Tables.newPage_spares hnew hf₂ ha.tables hg hself hpd hi _)

theorem Tables.freePage_spares (h : Tables L s) (hf : Plain L s f) {v : Nat} (hv : v < 2 ^ 32) (hal : v % pageSize = 0)
    {r : KReturn} (he : i386FreePage s v = some (r, s')) : Spares f s s' := by
  obtain ⟨ht, hi, -, -⟩ := page_index hv
  by_cases hpres : s.pde (v / pageSize / 1024) % 2 = 1
  · have hw := L.window_le
    have ha := Effect.aim h h.dir_bound.2
    have hwr := (ha.tables.aim (ha.tables.table_bound ht).2).write_at (show L.window < 2 ^ 20 by omega) hi
      (maps_of_eq (ha.tables.aimed _))
    rw [i386FreePage, kassert_of hal, h.getVirtPtr h.dir_bound.1] at he
    simp only [Option.bind_eq_bind, Option.bind_some, h.read_dir ht, and_present,
      if_neg (show ¬ s.pde (v / pageSize / 1024) % 2 = 0 by omega), ha.tables.tableInDir_window ht (h.aimed _),
      ha.tables.getVirtPtr (ha.tables.table_bound ht).1, hwr] at he
    obtain ⟨page, -, he⟩ := Option.bind_eq_some_iff.mp he
    obtain ⟨b, -, he⟩ := Option.bind_eq_some_iff.mp he
    cases he
    have htable := Ne.symm (hf.noTable _ ht hpres)
    rw [← ha.pde _ ht] at htable
    exact (spares_aim (hf.notFirst h) s.pageDirectory).trans (spares_entry (hf.notFirst h) htable hi ptRw)
  · rw [h.freePage_absent hv hal (by omega)] at he
    cases he
    exact spares_aim (hf.notFirst h) _

theorem Tables.getPhys_spares (h : Tables L s) (hf : Plain L s f) {v a : Nat} (hv : v < 2 ^ 32)
    (he : i386PageGetPhys s v = some (a, s')) : Spares f s s' := by
  obtain ⟨ht, hi, -, -⟩ := page_index hv
  have ha := Effect.aim h h.dir_bound.2
  have haim : Spares f s (s.aim L s.pageDirectory) := spares_aim (hf.notFirst h) _
  rw [i386PageGetPhys, h.getVirtPtr h.dir_bound.1] at he
  simp only [Option.bind_eq_bind, Option.bind_some, h.read_dir ht, and_present, ha.tables.tableInDir ht,
    ha.tables.getVirtPtr (ha.tables.table_bound ht).1] at he
  split at he
  · cases he
    exact haim
  · obtain ⟨page, -, he⟩ := Option.bind_eq_some_iff.mp he
    split at he
    all_goals
      cases he
      exact haim.trans (spares_aim (hf.notFirst h) _)

theorem Tables.identityMapPage_spares (h : Tables L s) (hp : Pool L s) (hf : Plain L s f) {v ptFlags pdFlags r : Nat}
    (hv : v < 2 ^ 32) (hal : v % pageSize = 0) (hpt : ptFlags < 4096) (hpd : pdFlags < 4096)
    (he : i386IdentityMapPage s v ptFlags pdFlags = some (r, s')) : Spares f s s' := by
  obtain ⟨ht, hi, -, -⟩ := page_index hv
  have ha := Effect.aim h h.dir_bound.2
  have haim : Spares f s (s.aim L s.pageDirectory) := spares_aim (hf.notFirst h) _
  by_cases hpres : s.pde (v / pageSize / 1024) % 2 = 1
  · rw [h.identityMapPage_present hv hal hpt hpres pdFlags] at he
    obtain ⟨b, -, hb⟩ := Option.map_eq_some_iff.mp he
    cases hb
    exact (haim.trans (spares_aim (hf.notFirst h) _)).trans (spares_put (Ne.symm (hf.noTable _ ht hpres)) hi _)
  · have habs : s.pde (v / pageSize / 1024) % 2 = 0 := by omega
    have hpage : v / pageSize = v / 4096 := rfl
    rw [i386IdentityMapPage, kassert_of hal, h.getVirtPtr h.dir_bound.1] at he
    simp only [Option.bind_eq_bind, Option.bind_some, h.read_dir ht, and_present, if_pos habs] at he
    have hp₂ := hp.of_effect ha rfl
    have hf₂ := hf.of_effect ha hf.used
    rcases ha.tables.newTable hp₂ ht (by rw [ha.pde _ ht]; exact habs) hpd with
      ⟨-, hoom⟩ | ⟨g, s₁, s₂, -, hok, hvirt, hwr, hg, -, heff, haim'⟩
    · rw [hoom] at he
      cases he
      exact haim
    · have hnew := ha.tables.newTable_spares hp₂ hf₂ ht hok (ha.tables.allocatePageTable_tables hp₂ hok) hwr
      have hpde := heff.pde _ ht
      rw [Function.update_self] at hpde
      rw [hok] at he
      simp only [Option.bind_some, failed_success, Bool.false_eq_true, if_false, hvirt, hwr] at he
      rw [heff.tables.identityMapEntry ht hi (by rw [hpage]; omega) hpt haim'] at he
      obtain ⟨b, -, hb⟩ := Option.map_eq_some_iff.mp he
      cases hb
      exact haim.trans (Tables.newPage_spares hnew hf₂ ha.tables hg hpde hpd hi _)

/-- **A call leaves the frames alone that are in use for no structure.** -/
theorem PagingInv.call_spares (h : PagingInv L s) (hf : Plain L s f) {c : PageCall} (hc : c.Proper) {r : KReturn × Nat}
    (he : c.exec s = some (r, s')) : Spares f s s' := by
  have hal := hc.aligned; have hlt := hc.lt; have hflags := hc.flags
  cases c with
  | allocate v ptFlags pdFlags =>
    exact h.tables.allocatePage_spares h.pool hf hlt hal (hflags _ (by simp [PageCall.flags]))
      (hflags _ (by simp [PageCall.flags])) he
  | free v =>
    obtain ⟨⟨r', s''⟩, he', hr⟩ := Option.map_eq_some_iff.mp he
    cases hr
    exact h.tables.freePage_spares hf hlt hal he'
  | getPhys v =>
    obtain ⟨⟨a, s''⟩, he', hr⟩ := Option.map_eq_some_iff.mp he
    cases hr
    exact h.tables.getPhys_spares hf hlt he'
  | identityMap v ptFlags pdFlags =>
    obtain ⟨⟨e, s''⟩, he', hr⟩ := Option.map_eq_some_iff.mp he
    cases hr
    exact h.tables.identityMapPage_spares h.pool hf hlt hal (hflags _ (by simp [PageCall.flags]))
      (hflags _ (by simp [PageCall.flags])) he'

/-! ## Pages with a frame of their own -/

/-- The page `p` is mapped to the frame `f`, and no other page is. -/
structure Backed (L : Layout) (s : PagingState) (p f : Nat) : Prop where
  lt : p < 2 ^ 20
  off : p ∉ L.own
  maps : s.Maps p f
  pos : f ≠ 0

theorem Backed.hold {p : Nat} (h : Backed L s p f) : s.hold L (.page p) = some f := by
  rw [hold_page h.lt h.off, entryFrame, h.maps.2, if_neg h.pos]

theorem Backed.plain {p : Nat} (h : Backed L s p f) (hinv : PagingInv L s) : Plain L s f := by
  refine ⟨(hinv.exclusive.used _ _ h.hold).2.2, fun hdir => ?_, fun t ht hpres he => ?_⟩
  · cases hinv.exclusive.once _ .directory f h.hold (congrArg some hdir.symm)
  · cases hinv.exclusive.once _ (.table t) f h.hold (by rw [hold_table ht hpres, he])

theorem Backed.once {p q g : Nat} (h : Backed L s p f) (hinv : PagingInv L s) (h' : Backed L s q g) (hne : p ≠ q) :
    f ≠ g := by
  rintro rfl
  cases hinv.exclusive.once _ _ _ h.hold h'.hold
  exact hne rfl

/-- The physical address of the virtual address `v`, in the frame `f`. -/
def inFrame (f v : Nat) : Nat := 4096 * f + v % 4096

theorem Backed.translate {v : Nat} (h : Backed L s (v / 4096) f) (htab : Tables L s) :
    s.translate v = some (inFrame f v) := by
  have hv := htab.translate_of_entry h.lt (i := v % 4096) (by omega) h.maps
  rwa [show 4096 * (v / 4096) + v % 4096 = v by omega] at hv

theorem Backed.load {v : Nat} (h : Backed L s (v / 4096) f) (htab : Tables L s) :
    s.loadByte v = some (byteAt s.phys (inFrame f v)) := by
  rw [PagingState.loadByte, h.translate htab]
  rfl

theorem Backed.of_entry {p : Nat} (h : Backed L s p f) (he : s'.entry p = s.entry p) : Backed L s' p f :=
  ⟨h.lt, h.off, h.maps.congr he, h.pos⟩

theorem inFrame_inj {g u v : Nat} (h : inFrame f u = inFrame g v) : f = g ∧ u % 4096 = v % 4096 := by
  unfold inFrame at h
  omega

theorem inFrame_word (f v : Nat) : 4 * (inFrame f v / 4) = 4096 * f + 4 * (v % 4096 / 4) := by
  unfold inFrame
  omega

/-- The bytes of a frame that was left alone. -/
theorem Spares.byteAt (h : Spares f s s') (v : Nat) : byteAt s'.phys (inFrame f v) = byteAt s.phys (inFrame f v) := by
  refine byteAt_congr ?_
  rw [inFrame_word]
  exact h _ (by omega)

/-! ## A store -/

/-- A byte is stored through the page tables, and they stay as they are. -/
structure Stored (s s' : PagingState) : Prop where
  pde : ∀ t < 1024, s'.pde t = s.pde t
  entry : ∀ p < 2 ^ 20, s'.entry p = s.entry p
  frames : s'.frames = s.frames
  meminfo : s'.meminfo = s.meminfo
  windowPage : s'.windowPage = s.windowPage
  pageDirectory : s'.pageDirectory = s.pageDirectory

/-- **A store to a page with a frame of its own.** -/
theorem Backed.store {v x : Nat} (h : Backed L s (v / 4096) f) (hinv : PagingInv L s) :
    ∃ s', s.storeByte v x = some s' ∧ PagingInv L s' ∧ Stored s s' ∧
      s'.phys = Function.update s.phys (4 * (inFrame f v / 4)) (wordWith s.phys (inFrame f v) x) := by
  have hf := h.plain hinv
  have hi : v % 4096 / 4 < 1024 := by omega
  refine ⟨s.put (4 * (inFrame f v / 4)) (wordWith s.phys (inFrame f v) x), ?_, ?_, ?_, rfl⟩
  · rw [PagingState.storeByte, h.translate hinv.tables]
    rfl
  all_goals
    rw [inFrame_word]
    generalize wordWith s.phys (inFrame f v) x = w
  · have hpde : ∀ t < 1024, (s.put (4096 * f + 4 * (v % 4096 / 4)) w).pde t = s.pde t :=
      fun t ht => hinv.tables.pde_put hf.notDir hi ht
    have hentry : ∀ p < 2 ^ 20, (s.put (4096 * f + 4 * (v % 4096 / 4)) w).entry p = s.entry p :=
      fun p hp => hinv.tables.entry_put_other hf.notDir hi hf.noTable hp
    refine ⟨hinv.tables.put_other hf.notDir hi hf.noTable w, hinv.length, hinv.highest, ?_⟩
    rw [hold_congr (L := L) hpde fun p hp _ => hentry p hp]
    exact hinv.exclusive
  · exact ⟨fun t ht => hinv.tables.pde_put hf.notDir hi ht,
      fun p hp => hinv.tables.entry_put_other hf.notDir hi hf.noTable hp, rfl, rfl, rfl, rfl⟩

/-- What is loaded after it, anywhere. -/
theorem Backed.load_stored {u v g x : Nat} (h : Backed L s (v / 4096) f) (hinv : PagingInv L s)
    (h' : Backed L s (u / 4096) g) (hx : x < 256) (he : s.storeByte v x = some s') :
    s'.loadByte u = if u = v then some x else s.loadByte u := by
  obtain ⟨s₁, he₁, hinv₁, hst, hphys⟩ := h.store (x := x) hinv
  cases he₁.symm.trans he
  rw [(h'.of_entry (hst.entry _ h'.lt)).load hinv₁.tables, h'.load hinv.tables, hphys, byteAt_update hx]
  by_cases huv : u = v
  · subst huv
    rw [if_pos rfl, if_pos]
    rw [← h.maps.2, ← h'.maps.2]
  · rw [if_neg huv, if_neg]
    intro haddr
    obtain ⟨hfg, hoff⟩ := inFrame_inj haddr
    refine h'.once hinv h (fun hp => huv ?_) hfg
    omega

/-! ## Runs -/

/-- The page whose entry a call may have changed. -/
def PageCall.remaps (c : PageCall) (r : KReturn × Nat) : Option Nat :=
  match c with
  | allocate v _ _ => if r.1 = .success then some (v / 4096) else none
  | free v => some (v / 4096)
  | getPhys _ => none
  | identityMap v _ _ => some (v / 4096)

/-- What was stored, after the call: the bytes of that page are forgotten. -/
def PageCall.forget (c : PageCall) (r : KReturn × Nat) (m : Nat → Option Nat) : Nat → Option Nat :=
  fun v => if c.remaps r = some (v / 4096) then none else m v

theorem PagingInv.call_entry (h : PagingInv L s) {c : PageCall} {r : KReturn × Nat} (hc : KeepsFrames s c)
    (he : c.exec s = some (r, s')) {p : Nat} (hp : p < 2 ^ 20) (hw : p ≠ L.window) (hne : c.remaps r ≠ some p) :
    s'.entry p = s.entry p := by
  cases h.call_end hc he with
  | allocated hpt hpd ha =>
    cases ha with
    | oom => rfl
    | tableOom _ heff => exact heff.entry p hp hw
    | mapped _ _ _ heff | newTable _ _ _ _ _ _ heff =>
      rw [heff.entry p hp hw, Function.update_of_ne]
      rintro rfl
      exact hne rfl
    | lost _ _ _ _ _ _ heff => exact heff.entry p hp hw
  | freed _ _ _ heff =>
    rw [heff.entry p hp hw, Function.update_of_ne]
    rintro rfl
    exact hne rfl
  | looked _ heff => exact heff.entry p hp hw
  | identity hpt hpd hi =>
    cases hi with
    | oom _ _ heff => exact heff.entry p hp hw
    | mapped _ _ _ heff | newTable _ _ _ _ _ _ _ heff =>
      rw [heff.entry p hp hw, Function.update_of_ne]
      rintro rfl
      exact hne rfl
    | lost _ _ _ _ _ _ _ heff => exact heff.entry p hp hw

/-- **What a call leaves**: the other pages, and what they hold. -/
theorem PagingInv.call_backed (h : PagingInv L s) {c : PageCall} {r : KReturn × Nat} (hc : KeepsFrames s c)
    (he : c.exec s = some (r, s')) {v : Nat} (hb : Backed L s (v / 4096) f) (hne : c.remaps r ≠ some (v / 4096)) :
    Backed L s' (v / 4096) f ∧ s'.loadByte v = s.loadByte v := by
  have hb' := hb.of_entry (h.call_entry hc he hb.lt (not_own.mp hb.off).1 hne)
  refine ⟨hb', ?_⟩
  rw [hb'.load (h.call hc he).tables, hb.load h.tables, (h.call_spares (hb.plain h) hc.proper he).byteAt]

/-- The address is in none of the pages the paging code works through. -/
def OffPages (s : PagingState) (v : Nat) : Prop :=
  v / 4096 ≠ s.windowPage / 4096 ∧ v / 4096 ≠ s.pageDirectory / 4096 ∧ v / 4096 ≠ s.pde 0 / 4096

theorem Tables.offPages (h : Tables L s) {v : Nat} (hv : OffPages s v) : v / 4096 ∉ L.own := by
  obtain ⟨hw, hd, ht⟩ := hv
  rw [h.window] at hw
  rw [h.dir] at hd
  rw [h.first_frame] at ht
  exact not_own.mpr ⟨by omega, by omega, ht⟩

/-- A paging call or a store by the kernel, with what was stored last. The
first frame is nobody's, so an address mapped there is not stored to; nor are
the kernel's own pages, where the two bitsets lie. -/
inductive MemoryStep : PagingState × (Nat → Option Nat) → PagingState × (Nat → Option Nat) → Prop
  | call {s s' : PagingState} {m : Nat → Option Nat} {c : PageCall} {r : KReturn × Nat} : KeepsFrames s c →
      c.exec s = some (r, s') → MemoryStep (s, m) (s', c.forget r m)
  | store {s s' : PagingState} {m : Nat → Option Nat} {v x a : Nat} : v < 2 ^ 32 → x < 256 → OffPages s v →
      ¬ s.KernelPage (v / 4096) → s.translate v = some a → 4096 ≤ a → s.storeByte v x = some s' →
      MemoryStep (s, m) (s', Function.update m v (some x))

/-- What was stored at an address is there, in the frame of its page. -/
structure Remembered (L : Layout) (s : PagingState) (m : Nat → Option Nat) : Prop where
  inv : PagingInv L s
  backed : ∀ v x, m v = some x → ∃ f, Backed L s (v / 4096) f
  load : ∀ v x, m v = some x → s.loadByte v = some x

theorem backed_of_translate {v a : Nat} (h : Tables L s) (hv : v < 2 ^ 32) (hoff : v / 4096 ∉ L.own)
    (ha : s.translate v = some a) (hpos : 4096 ≤ a) : Backed L s (v / 4096) (a / 4096) ∧ a = inFrame (a / 4096) v := by
  rw [h.translate hv] at ha
  split at ha
  · next hodd =>
    cases ha
    have hframe : (4096 * (s.entry (v / 4096) / 4096) + v % 4096) / 4096 = s.entry (v / 4096) / 4096 := by omega
    rw [hframe]
    exact ⟨⟨by omega, hoff, ⟨hodd, rfl⟩, by omega⟩, rfl⟩
  · cases ha

theorem Remembered.step {t t' : PagingState × (Nat → Option Nat)} (h : Remembered L t.1 t.2) (hs : MemoryStep t t') :
    Remembered L t'.1 t'.2 := by
  cases hs with
  | @call s s' m c r hc he =>
    have hkeep {v x : Nat} (hm : c.forget r m v = some x) : c.remaps r ≠ some (v / 4096) ∧ m v = some x := by
      unfold PageCall.forget at hm
      split at hm
      · cases hm
      · next hne => exact ⟨hne, hm⟩
    refine ⟨h.inv.call hc he, fun v x hm => ?_, fun v x hm => ?_⟩
    all_goals
      obtain ⟨hne, hm⟩ := hkeep hm
      obtain ⟨f, hb⟩ := h.backed v x hm
      obtain ⟨hb', hload⟩ := h.inv.call_backed hc he hb hne
    · exact ⟨f, hb'⟩
    · exact hload.trans (h.load v x hm)
  | @store s s' m v x a hv hx hoff _ ha hpos he =>
    obtain ⟨hb, -⟩ := backed_of_translate h.inv.tables hv (h.inv.tables.offPages hoff) ha hpos
    obtain ⟨s₁, he₁, hinv₁, hst, -⟩ := hb.store (x := x) h.inv
    cases he₁.symm.trans he
    refine ⟨hinv₁, fun u y hm => ?_, fun u y hm => ?_⟩
    all_goals
      simp only [Function.update_apply] at hm
      split at hm
    · next huv => exact ⟨_, huv ▸ hb.of_entry (hst.entry _ hb.lt)⟩
    · obtain ⟨g, hg⟩ := h.backed u y hm
      exact ⟨g, hg.of_entry (hst.entry _ hg.lt)⟩
    · next huv =>
      cases hm
      rw [hb.load_stored h.inv (huv ▸ hb) hx he, if_pos huv]
    · next huv =>
      obtain ⟨g, hg⟩ := h.backed u y hm
      rw [hb.load_stored h.inv hg hx he, if_neg huv]
      exact h.load u y hm

theorem Remembered.run {t t' : PagingState × (Nat → Option Nat)} (h : Remembered L t.1 t.2)
    (hrun : Relation.ReflTransGen MemoryStep t t') : Remembered L t'.1 t'.2 := by
  induction hrun with
  | refl => exact h
  | tail _ hs ih => exact ih.step hs

end ShawnOS
