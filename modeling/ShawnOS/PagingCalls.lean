/-
What `i386_page_get_phys` and `i386_free_page` do to the entries, the tables
and the frame bitset, where `Tables` holds.

`Effect` gives the directory and the entries a call leaves, and says of the
TLB that only pages whose present entry the call replaced can be stale.
-/
import ShawnOS.MemFrames
import ShawnOS.PagingTlb

namespace ShawnOS

open Word32

variable {s s' : PagingState} {L : Layout}

/-- The address an entry maps its page to, or `0`. -/
def frameAddr (e : Nat) : Nat := if e % 2 = 1 then 4096 * (e / 4096) else 0

/-- The frame of an entry, present or not. -/
def entryFrame (e : Nat) : Option Nat := if e / 4096 = 0 then none else some (e / 4096)

theorem entry_of_present {t i : Nat} (hi : i < 1024) (hpres : s.pde t % 2 = 1) :
    s.entry (1024 * t + i) = s.phys (4096 * (s.pde t / 4096) + 4 * i) := by
  rw [PagingState.entry, show (1024 * t + i) / 1024 = t by omega, show (1024 * t + i) % 1024 = i by omega, if_pos hpres]

theorem entry_of_absent {p : Nat} (habs : s.pde (p / 1024) % 2 = 0) : s.entry p = ptRw := by
  rw [PagingState.entry, if_neg (by omega)]

theorem Tables.dir_bound (h : Tables L s) : s.pageDirectory % 4096 = 0 ∧ s.pageDirectory + 3 < 2 ^ 32 := by
  have h1 := h.dir; have h2 := L.dir_lt
  omega

theorem Tables.table_bound (h : Tables L s) {t : Nat} (ht : t < 1024) :
    4096 * (s.pde t / 4096) % 4096 = 0 ∧ 4096 * (s.pde t / 4096) + 3 < 2 ^ 32 := by
  have h1 := h.pde_lt t ht
  omega

theorem Tables.absent_pos (h : Tables L s) {t : Nat} (habs : s.pde t % 2 = 0) : 0 < t := by
  by_contra h0
  rw [Nat.eq_zero_of_not_pos h0, h.first] at habs
  omega

theorem page_index {v : Nat} (hv : v < 2 ^ 32) : v / pageSize / 1024 < 1024 ∧ v / pageSize % 1024 < 1024 ∧
    1024 * (v / pageSize / 1024) + v / pageSize % 1024 = v / 4096 ∧ v / 4096 / 1024 = v / pageSize / 1024 := by
  unfold pageSize
  omega

/-- The directory entry, read by the window just aimed at the directory. -/
theorem Tables.read_dir (h : Tables L s) {t : Nat} (ht : t < 1024) :
    (s.aim L s.pageDirectory).read (index32 (4096 * L.window) t) = some (s.pde t) := by
  have hw := L.window_le
  have haim := h.aimed s.pageDirectory
  rw [h.dir] at haim ⊢
  rw [(h.aim (by rw [← h.dir]; exact h.dir_bound.2)).read_at (by omega) ht (maps_of_eq haim), ← h.aim_pde ht, PagingState.pde,
    aim_pageDirectory, h.dir]

/-- The page entry, read by the window just aimed at its table. -/
theorem Tables.read_table (h : Tables L s) {t i : Nat} (ht : t < 1024) (hi : i < 1024) (hpres : s.pde t % 2 = 1) :
    (s.aim L (4096 * (s.pde t / 4096))).read (index32 (4096 * L.window) i) =
      some ((s.aim L (4096 * (s.pde t / 4096))).entry (1024 * t + i)) := by
  have hw := L.window_le
  have hb := (h.table_bound ht).2
  rw [(h.aim hb).read_at (by omega) hi (maps_of_eq (h.aimed _)),
    entry_of_present hi (by rw [h.aim_pde ht]; exact hpres), h.aim_pde ht]

/-! ## What a call changes -/

/-- The pages, but for the window, whose present entry `entry'` replaces. -/
def replaced (L : Layout) (s : PagingState) (entry' : Nat → Nat) : Set Nat :=
  {p | p ≠ L.window ∧ s.entry p % 2 = 1 ∧ entry' p ≠ s.entry p}

/-- After a call the directory is `pde'`, and the entries are `entry'` but
for the window's own. -/
structure Effect (L : Layout) (s s' : PagingState) (pde' entry' : Nat → Nat) : Prop where
  tables : Tables L s'
  meminfo : s'.meminfo = s.meminfo
  pde : ∀ t < 1024, s'.pde t = pde' t
  entry : ∀ p < 2 ^ 20, p ≠ L.window → s'.entry p = entry' p
  tlb : Quiet ∅ (replaced L s entry') s s'

theorem replaced_self (s : PagingState) : replaced L s s.entry = ∅ := by
  ext p
  simp [replaced]

theorem Effect.aim (h : Tables L s) {a : Nat} (ha : a + 3 < 2 ^ 32) : Effect L s (s.aim L a) s.pde s.entry := by
  refine ⟨h.aim ha, rfl, fun t ht => h.aim_pde ht, fun p hp hw => ?_, ?_⟩
  · rw [h.aim_entry hp, if_neg hw]
  · rw [replaced_self]
    exact h.quiet_aim a

/-- Two steps, of which the first changes no entry. -/
theorem Effect.trans {s₁ s₂ : PagingState} {pde₁ pde' entry' : Nat → Nat} (h₁ : Effect L s s₁ pde₁ s.entry)
    (h₂ : Effect L s₁ s₂ pde' entry') : Effect L s s₂ pde' entry' := by
  refine ⟨h₂.tables, h₂.meminfo.trans h₁.meminfo, h₂.pde, h₂.entry, ?_⟩
  have htlb := h₁.tlb
  rw [replaced_self] at htlb
  refine htlb.trans (h₂.tlb.mono fun p hp ⟨hw, hodd, hne⟩ => ?_)
  rw [h₁.entry p hp hw] at hodd hne
  exact ⟨hw, hodd, hne⟩

theorem Effect.congr {pde₁ pde₂ entry₁ entry₂ : Nat → Nat} (h : Effect L s s' pde₁ entry₁)
    (hpde : ∀ t < 1024, pde₁ t = pde₂ t) (hentry : ∀ p < 2 ^ 20, p ≠ L.window → entry₁ p = entry₂ p) :
    Effect L s s' pde₂ entry₂ := by
  refine ⟨h.tables, h.meminfo, fun t ht => (h.pde t ht).trans (hpde t ht),
    fun p hp hw => (h.entry p hp hw).trans (hentry p hp hw), h.tlb.mono fun p hp ⟨hw, hodd, hne⟩ => ?_⟩
  rw [hentry p hp hw] at hne
  exact ⟨hw, hodd, hne⟩

/-- The frame bitset is no part of this. -/
theorem Effect.withFrames {pde' entry' : Nat → Nat} (h : Effect L s s' pde' entry') (b : Bitset) :
    Effect L s { s' with frames := b } pde' entry' :=
  ⟨h.tables.frames b, h.meminfo, h.pde, h.entry, h.tlb.trans (Quiet.same rfl rfl rfl)⟩

theorem Effect.ofFrames {b : Bitset} {pde' entry' : Nat → Nat} (h : Effect L { s with frames := b } s' pde' entry') :
    Effect L s s' pde' entry' :=
  ⟨h.tables, h.meminfo, h.pde, h.entry, h.tlb⟩

/-- A page of a present table gets the entry `x`, by the window. -/
theorem Effect.setEntry (h : Tables L s) {t i x : Nat} (ht : t < 1024) (hi : i < 1024) (hpres : s.pde t % 2 = 1)
    (hx : x < 2 ^ 32) (hpw : 1024 * t + i ≠ L.window) (hown : OwnEntry L (1024 * t + i) x) :
    Effect L s ((s.aim L (4096 * (s.pde t / 4096))).put (4096 * (s.pde t / 4096) + 4 * i) x) s.pde
      (Function.update s.entry (1024 * t + i) x) := by
  have ha := Effect.aim h (h.table_bound ht).2
  have hpde := ha.pde t ht
  have hpres' : (s.aim L (4096 * (s.pde t / 4096))).pde t % 2 = 1 := by rw [hpde]; exact hpres
  have hdir := ha.tables.notDir t ht hpres'
  have htab := ha.tables.put_table ht hi hpres' hx hown
  have hentry : ∀ p < 2 ^ 20, ((s.aim L (4096 * (s.pde t / 4096))).put (4096 * (s.pde t / 4096) + 4 * i) x).entry p =
      if p = 1024 * t + i then x else (s.aim L (4096 * (s.pde t / 4096))).entry p := by
    intro p hp
    have he := ha.tables.entry_put (x := x) ht hi hpres' hdir hp
    rw [hpde] at he
    exact he
  rw [hpde] at htab hdir
  refine @Effect.trans _ _ _ ((s.aim L (4096 * (s.pde t / 4096))).put (4096 * (s.pde t / 4096) + 4 * i) x) _ _ _ ha
    ⟨htab, rfl, fun t' ht' => ?_, fun p hp hw => ?_, Quiet.put (fun _ _ hp => hp.elim) fun p hp hX hodd => ?_⟩
  · rw [ha.tables.pde_put hdir hi ht', ha.pde t' ht']
  · rw [hentry p hp, Function.update_apply, ha.entry p hp hw]
  · rw [hentry p hp]
    by_cases he : p = 1024 * t + i
    · rw [if_pos he]
      by_contra hne
      refine hX ⟨by rw [he]; exact hpw, hodd, ?_⟩
      rw [he, Function.update_self, ← he]
      exact hne
    · rw [if_neg he]

/-- The same store, where the table was not made present. -/
theorem Effect.setLost (h : Tables L s) {g i : Nat} (hg : 4096 * g + 3 < 2 ^ 32) (hi : i < 1024) (hdir : g ≠ L.dir)
    (hfree : ∀ t < 1024, s.pde t % 2 = 1 → s.pde t / 4096 ≠ g) (x : Nat) :
    Effect L s ((s.aim L (4096 * g)).put (4096 * g + 4 * i) x) s.pde s.entry := by
  have ha := Effect.aim h hg
  have hfree' : ∀ t < 1024, (s.aim L (4096 * g)).pde t % 2 = 1 → (s.aim L (4096 * g)).pde t / 4096 ≠ g := by
    intro t ht
    rw [ha.pde t ht]
    exact hfree t ht
  have hentry : ∀ p < 2 ^ 20, ((s.aim L (4096 * g)).put (4096 * g + 4 * i) x).entry p = (s.aim L (4096 * g)).entry p :=
    fun p hp => ha.tables.entry_put_other hdir hi hfree' hp
  refine @Effect.trans _ _ _ ((s.aim L (4096 * g)).put (4096 * g + 4 * i) x) _ _ _ ha ⟨ha.tables.put_other hdir hi hfree' x, rfl,
    fun t ht => ?_, fun p hp hw => ?_, Quiet.put (fun _ _ hp => hp.elim) fun p hp _ _ => hentry p hp⟩
  · rw [ha.tables.pde_put hdir hi ht, ha.pde t ht]
  · rw [hentry p hp, ha.entry p hp hw]

/-! ## Looking up -/

theorem Tables.getPhys_aims (h : Tables L s) {v : Nat} (hv : v < 2 ^ 32) :
    ∃ s', i386PageGetPhys s v = some (frameAddr (s'.entry (v / 4096)), s') ∧ s'.frames = s.frames ∧
      Effect L s s' s.pde s.entry ∧
      (s.pde (v / pageSize / 1024) % 2 = 1 → s'.entry L.window = 4096 * (s.pde (v / pageSize / 1024) / 4096) + 3) := by
  obtain ⟨ht, hi, hp, htp⟩ := page_index hv
  have ha := Effect.aim h h.dir_bound.2
  rw [i386PageGetPhys, h.getVirtPtr h.dir_bound.1]
  simp only [Option.bind_eq_bind, Option.bind_some, h.read_dir ht, and_present]
  by_cases hpres : s.pde (v / pageSize / 1024) % 2 = 1
  · have hpde := ha.pde _ ht
    have htab := ha.tables.tableInDir ht
    have hread := ha.tables.read_table ht hi (by rw [hpde]; exact hpres)
    have haa := Effect.aim ha.tables (ha.tables.table_bound ht).2
    have hlt := haa.tables.entry_lt (v / 4096) (by omega)
    rw [hp] at hread
    have hall := ha.trans (haa.congr ha.pde ha.entry)
    refine ⟨(s.aim L s.pageDirectory).aim L (4096 * ((s.aim L s.pageDirectory).pde (v / pageSize / 1024) / 4096)), ?_,
      rfl, hall, fun _ => by rw [ha.tables.aimed, hpde]⟩
    simp only [if_neg (show ¬ s.pde (v / pageSize / 1024) % 2 = 0 by omega), htab, Option.bind_some,
      ha.tables.getVirtPtr (ha.tables.table_bound ht).1, hread, frameAddr, and_page hlt]
    split
    · rw [if_neg (by omega)]; rfl
    · rw [if_pos (by omega)]; rfl
  · have habs : (s.aim L s.pageDirectory).entry (v / 4096) = ptRw :=
      entry_of_absent (by rw [htp, h.aim_pde ht]; omega)
    refine ⟨s.aim L s.pageDirectory, ?_, rfl, ha, fun hp => absurd hp hpres⟩
    rw [if_pos (by omega), habs]
    rfl

/-- **`i386_page_get_phys`** returns what the page's entry maps it to, and
moves the window only. -/
theorem Tables.getPhys (h : Tables L s) {v : Nat} (hv : v < 2 ^ 32) :
    ∃ s', i386PageGetPhys s v = some (frameAddr (s'.entry (v / 4096)), s') ∧ s'.frames = s.frames ∧
      Effect L s s' s.pde s.entry := by
  obtain ⟨s', he, hf, heff, -⟩ := h.getPhys_aims hv
  exact ⟨s', he, hf, heff⟩

/-- The window's own page is looked up through itself, aimed at its table. -/
theorem Tables.getPhys_window (h : Tables L s) : ∃ s', i386PageGetPhys s (4096 * L.window) = some (4096 * L.table, s') := by
  have hw := L.window_le; have ht := L.table_lt
  obtain ⟨s', he, -, -, haim⟩ := h.getPhys_aims (v := 4096 * L.window) (by omega)
  have ht0 : 4096 * L.window / pageSize / 1024 = 0 := by
    unfold pageSize
    omega
  rw [ht0, h.first_frame] at haim
  refine ⟨s', ?_⟩
  rw [he, show 4096 * L.window / 4096 = L.window by omega, haim h.first_present, frameAddr, if_pos (by omega),
    show (4096 * L.table + 3) / 4096 = L.table by omega]

/-! ## Freeing -/

/-- **`i386_free_page`** where the table is absent. -/
theorem Tables.freePage_absent (h : Tables L s) {v : Nat} (hv : v < 2 ^ 32) (hal : v % pageSize = 0)
    (habs : s.pde (v / pageSize / 1024) % 2 = 0) : i386FreePage s v = some (.invalop, s.aim L s.pageDirectory) := by
  obtain ⟨ht, -, -, -⟩ := page_index hv
  rw [i386FreePage, kassert_of hal, h.getVirtPtr h.dir_bound.1]
  simp only [Option.bind_eq_bind, Option.bind_some, h.read_dir ht, and_present, if_pos habs]
  rfl

/-- **`i386_free_page`** where the table is present: the entry is reset and
the bit of its frame cleared, whatever the entry was. -/
theorem Tables.freePage_present (h : Tables L s) {v : Nat} (hv : v < 2 ^ 32) (hal : v % pageSize = 0)
    (hpres : s.pde (v / pageSize / 1024) % 2 = 1) :
    ∃ s₁, Effect L s s₁ s.pde s.entry ∧ s₁.frames = s.frames ∧ i386FreePage s v =
      (bitsetClearBit s.frames
        ((s₁.aim L (4096 * (s₁.pde (v / pageSize / 1024) / 4096))).entry (v / 4096) / 4096)).map fun b =>
        (.success,
          PagingState.invlpg { (s₁.aim L (4096 * (s₁.pde (v / pageSize / 1024) / 4096))).put
            (4096 * (s₁.pde (v / pageSize / 1024) / 4096) + 4 * (v / pageSize % 1024)) ptRw with frames := b } v) := by
  obtain ⟨ht, hi, hp, -⟩ := page_index hv
  have hw := L.window_le
  have ha := Effect.aim h h.dir_bound.2
  have hpde := ha.pde _ ht
  have htab := ha.tables.tableInDir_window ht (h.aimed _)
  have hread := ha.tables.read_table ht hi (by rw [hpde]; exact hpres)
  have hwr := (ha.tables.aim (ha.tables.table_bound ht).2).write_at (show L.window < 2 ^ 20 by omega) hi
    (maps_of_eq (ha.tables.aimed _))
  rw [hp] at hread
  refine ⟨s.aim L s.pageDirectory, ha, rfl, ?_⟩
  rw [i386FreePage, kassert_of hal, h.getVirtPtr h.dir_bound.1]
  simp only [Option.bind_eq_bind, Option.bind_some, h.read_dir ht, and_present,
    if_neg (show ¬ s.pde (v / pageSize / 1024) % 2 = 0 by omega), htab,
    ha.tables.getVirtPtr (ha.tables.table_bound ht).1, hread, hwr, put_frames, aim_frames]
  rw [Option.map_eq_bind]
  rfl

/-- The pages through which the paging code reaches its own structures. -/
def Layout.own (L : Layout) : Set Nat := {L.window, L.dir, L.table}

theorem not_own {p : Nat} : p ∉ L.own ↔ p ≠ L.window ∧ p ≠ L.dir ∧ p ≠ L.table := by
  simp [Layout.own]

/-- **`i386_free_page`**, by what it changes. It leaves no stale entry. -/
theorem Tables.freePage (h : Tables L s) {v : Nat} (hv : v < 2 ^ 32) (hal : v % pageSize = 0)
    (hpres : s.pde (v / pageSize / 1024) % 2 = 1) (hown : v / 4096 ∉ L.own) {b : Bitset}
    (hb : bitsetClearBit s.frames (s.entry (v / 4096) / 4096) = some b) :
    ∃ s', i386FreePage s v = some (.success, s') ∧ s'.frames = b ∧ Quiet ∅ ∅ s s' ∧
      Effect L s s' s.pde (Function.update s.entry (v / 4096) ptRw) := by
  obtain ⟨ht, hi, hp, -⟩ := page_index hv
  obtain ⟨hpw, hpd, hpt⟩ := not_own.mp hown
  obtain ⟨s₁, h₁, hf₁, he⟩ := h.freePage_present hv hal hpres
  have hset := Effect.setEntry h₁.tables (x := ptRw) ht hi (by rw [h₁.pde _ ht]; exact hpres) (by decide)
    (by rw [hp]; exact hpw) (by rw [hp]; exact ownEntry_of_ne hpd hpt _)
  rw [hp] at hset
  have hall := h₁.trans (hset.withFrames b)
  have hall' := @Effect.congr _ _ _ _ s.pde _ (Function.update s.entry (v / 4096) ptRw) hall h₁.pde fun p hp hw => by
    rw [Function.update_apply, Function.update_apply, h₁.entry p hp hw]
  have hquiet := hall'.tlb.trans (Quiet.invlpg (v := v) (X := ∅) fun p _ ⟨_, _, hne⟩ => by
    refine .inl (by_contra fun hpv => hne ?_)
    rw [Function.update_of_ne hpv])
  rw [h₁.tables.aim_entry (by omega), if_neg hpw, h₁.entry _ (by omega) hpw, hb] at he
  exact ⟨_, he, rfl, hquiet, hall'.tables.invlpg v, hall'.meminfo, hall'.pde, hall'.entry, hquiet.mono fun _ _ hp => hp.elim⟩

end ShawnOS
