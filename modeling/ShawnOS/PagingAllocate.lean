/-
`i386_allocate_page` and `i386_identity_map_page`, where `Tables` holds and
the frames of the paging structures are marked used.

Both take a frame for the page table when the directory has none; the first
takes one for the page before. The window is aimed up to four times on the
way. `Allocated` and `IdentityMapped` list how the two can end, each end with
its effect.
-/
import ShawnOS.PagingCalls

namespace ShawnOS

open Word32

variable {s s' : PagingState} {L : Layout}

/-- The bitset covers memory, and marks the paging structures. -/
structure Pool (L : Layout) (s : PagingState) : Prop where
  length : s.frames.length = s.meminfo.highestFreeAddress / 4096
  highest : s.meminfo.highestFreeAddress < 2 ^ 32
  dir : s.frames.bit L.dir = true
  tables : ∀ t < 1024, s.pde t % 2 = 1 → s.frames.bit (s.pde t / 4096) = true

/-- A frame that may be handed out. -/
structure Fresh (b : Bitset) (f : Nat) : Prop where
  pos : f ≠ 0
  lt : f < b.length
  clear : b.bit f = false
  word : f < 2 ^ 20

theorem Pool.fill (h : Pool L s) {b : Bitset} {f : Nat} (hb : s.frames.Filled b f 1) : Pool L { s with frames := b } :=
  ⟨hb.length.trans h.length, h.highest, hb.mono h.dir, fun t ht hp => hb.mono (h.tables t ht hp)⟩

theorem Pool.of_effect {entry' : Nat → Nat} (h : Pool L s) (he : Effect L s s' s.pde entry') (hf : s'.frames = s.frames) :
    Pool L s' := by
  refine ⟨by rw [hf, he.meminfo]; exact h.length, by rw [he.meminfo]; exact h.highest, by rw [hf]; exact h.dir,
    fun t ht hp => ?_⟩
  rw [he.pde t ht] at hp ⊢
  rw [hf]
  exact h.tables t ht hp

/-- **`i386_mem_allocate_frame`** on such a pool. -/
theorem Pool.allocateFrame (h : Pool L s) :
    (i386MemGetNextFreeFrame s.meminfo s.frames = 0 ∧ i386MemAllocateFrame s.meminfo s.frames = some (0, s.frames)) ∨
      ∃ f b, i386MemGetNextFreeFrame s.meminfo s.frames = f ∧ i386MemAllocateFrame s.meminfo s.frames = some (f, b) ∧
        Fresh s.frames f ∧ s.frames.Filled b f 1 := by
  have h1 := h.length; have h2 := h.highest
  rcases i386MemAllocateFrame_spec h.length with ⟨h0, he⟩ | ⟨f, b, hn, h0, hlt, hc, he, hb⟩
  · exact .inl ⟨h0, he⟩
  · exact .inr ⟨f, b, hn, he, ⟨h0, hlt, hc, by omega⟩, hb⟩

theorem Fresh.ne_of_bit {b : Bitset} {f g : Nat} (hf : Fresh b f) (hg : b.bit g = true) : g ≠ f := by
  intro he
  have hc := hf.clear
  rw [← he, hg] at hc
  cases hc

/-- A fresh frame is no page table. -/
theorem Fresh.no_table {f : Nat} (hf : Fresh s.frames f) (hp : Pool L s) :
    ∀ t < 1024, s.pde t % 2 = 1 → s.pde t / 4096 ≠ f :=
  fun t ht hpres => hf.ne_of_bit (hp.tables t ht hpres)

/-! ## The page table -/

/-- What filling a frame that is no paging structure leaves as it was. -/
structure Unseen (L : Layout) (s s' : PagingState) : Prop where
  tables : Tables L s'
  meminfo : s'.meminfo = s.meminfo
  frames : s'.frames = s.frames
  pde : ∀ t < 1024, s'.pde t = s.pde t
  entry : ∀ p < 2 ^ 20, s'.entry p = s.entry p
  tlb : Quiet ∅ ∅ s s'

/-- `memset32` through the window, aimed at such a frame. -/
theorem memset32_window {g : Nat} (hdir : g ≠ L.dir) (x : Nat) : ∀ {rem i : Nat} {s : PagingState}, Tables L s →
    s.entry L.window = 4096 * g + 3 → (∀ t < 1024, s.pde t % 2 = 1 → s.pde t / 4096 ≠ g) → i + rem ≤ 1024 →
    ∃ s', memset32 (4096 * L.window) x rem i s = some s' ∧ Unseen L s s' ∧
      ∀ j, s'.phys (4096 * g + 4 * j) = if i ≤ j ∧ j < i + rem then x else s.phys (4096 * g + 4 * j)
  | 0, i, s, h, _, _, _ => by
    refine ⟨s, rfl, ⟨h, rfl, rfl, fun _ _ => rfl, fun _ _ => rfl, Quiet.same rfl rfl rfl⟩, fun j => ?_⟩
    rw [if_neg (by omega)]
  | rem + 1, i, s, h, haim, hfree, hle => by
    have hw := L.window_le
    have hi : i < 1024 := by omega
    have hpde : ∀ t < 1024, (s.put (4096 * g + 4 * i) x).pde t = s.pde t := fun t ht => h.pde_put hdir hi ht
    have hentry : ∀ p < 2 ^ 20, (s.put (4096 * g + 4 * i) x).entry p = s.entry p :=
      fun p hp => h.entry_put_other hdir hi hfree hp
    have hquiet : Quiet ∅ ∅ s (s.put (4096 * g + 4 * i) x) :=
      Quiet.put (fun _ _ hp => hp) fun p hp _ _ => hentry p hp
    obtain ⟨s', hs', hu, hphys⟩ := @memset32_window g hdir x rem (i + 1) _ (h.put_other hdir hi hfree x)
      (by rw [hentry _ (by omega)]; exact haim) (fun t ht hp => by rw [hpde t ht] at hp ⊢; exact hfree t ht hp) (by omega)
    refine ⟨s', ?_, ⟨hu.tables, hu.meminfo, hu.frames, fun t ht => (hu.pde t ht).trans (hpde t ht),
      fun p hp => (hu.entry p hp).trans (hentry p hp), hquiet.trans hu.tlb⟩, fun j => ?_⟩
    · rw [memset32, h.write_at (by omega) hi (maps_of_eq haim)]
      exact hs'
    · rw [hphys j, put_phys]
      by_cases hj : j = i
      · rw [if_neg (by omega), if_pos (by omega), if_pos (by omega)]
      · by_cases hr : i + 1 ≤ j ∧ j < i + 1 + rem
        · rw [if_pos hr, if_pos (by omega)]
        · rw [if_neg hr, if_neg (by omega), if_neg (by omega)]

theorem frame_phys {f : Nat} (hf : f < 2 ^ 20) : u32 (f * pageSize) = 4096 * f := by
  unfold pageSize
  rw [u32_of_lt (by omega), Nat.mul_comm]

/-- **`allocate_page_table`** after early init: a fresh frame, with `PT_RW`
in every word. -/
theorem Tables.allocatePageTable (h : Tables L s) (hp : Pool L s) :
    (i386MemGetNextFreeFrame s.meminfo s.frames = 0 ∧ allocatePageTable s = some ((.oom, 0), s)) ∨
      ∃ g s', i386MemGetNextFreeFrame s.meminfo s.frames = g ∧ allocatePageTable s = some ((.success, 4096 * g), s') ∧
        Fresh s.frames g ∧ s.frames.Filled s'.frames g 1 ∧ Effect L s s' s.pde s.entry ∧
        ∀ i < 1024, s'.phys (4096 * g + 4 * i) = ptRw := by
  rcases hp.allocateFrame with ⟨h0, he⟩ | ⟨g, b, hnext, he, hg, hb⟩
  · refine .inl ⟨h0, ?_⟩
    rw [ShawnOS.allocatePageTable, if_pos h.early, he]
    rfl
  · refine .inr ?_
    have hword := hg.word
    have hb' := h.frames b
    have ha := Effect.aim hb' (a := 4096 * g) (by omega)
    obtain ⟨s', hs', hu, hall⟩ := @memset32_window _ _ (Ne.symm (hg.ne_of_bit hp.dir)) ptRw 1024 0 _ ha.tables
      (hb'.aimed _) (fun t ht hpres => by rw [ha.pde t ht] at hpres ⊢; exact hg.no_table hp t ht hpres) (by omega)
    have hfill : Effect L (PagingState.aim { s with frames := b } L (4096 * g)) s' s.pde s.entry := by
      refine ⟨hu.tables, hu.meminfo, fun t ht => (hu.pde t ht).trans (ha.pde t ht),
        fun p hp hw => (hu.entry p hp).trans (ha.entry p hp hw), hu.tlb.mono fun _ _ hp => hp.elim⟩
    refine ⟨g, s', hnext, ?_, hg, ?_, (ha.trans hfill).ofFrames, fun i hi => ?_⟩
    · rw [ShawnOS.allocatePageTable, if_pos h.early, he]
      simp only [Option.bind_eq_bind, Option.bind_some, if_neg hg.pos, frame_phys hword,
        hb'.getVirtPtr (show 4096 * g % 4096 = 0 by omega), hs']
      rfl
    · rw [hu.frames]
      exact hb
    · rw [hall i, if_pos (by omega)]

/-- The directory gets an entry for a blank table, by the window. -/
theorem Effect.setTable (h : Tables L s) {t x : Nat} (hn : NewTable L s t x) :
    Effect L s ((s.aim L s.pageDirectory).put (4096 * L.dir + 4 * t) x) (Function.update s.pde t x) s.entry ∧
      ((s.aim L s.pageDirectory).put (4096 * L.dir + 4 * t) x).entry L.window = s.pageDirectory + 3 := by
  have hw := L.window_le; have htl := L.table_lt
  have ha := Effect.aim h h.dir_bound.2
  have hn' : NewTable L (s.aim L s.pageDirectory) t x := by
    refine ⟨hn.low, hn.pos, by rw [ha.pde t hn.low]; exact hn.absent, hn.lt, hn.notDir, fun hx t' ht' hp' => ?_,
      fun hx j hj => ?_⟩
    · rw [ha.pde t' ht'] at hp' ⊢
      exact hn.fresh hx t' ht' hp'
    · -- The window's own entry is in the first table, which is another frame.
      have hne := hn.fresh hx 0 (by decide) h.first_present
      rw [h.first_frame] at hne
      rw [PagingState.aim, PagingState.invlpg, put_phys, if_neg (by omega)]
      exact hn.blank hx j hj
  have hentry : ∀ p < 2 ^ 20, ((s.aim L s.pageDirectory).put (4096 * L.dir + 4 * t) x).entry p =
      (s.aim L s.pageDirectory).entry p := fun p hp => ha.tables.entry_put_dir hn' hp
  refine ⟨@Effect.trans _ _ _ ((s.aim L s.pageDirectory).put (4096 * L.dir + 4 * t) x) _ _ _ ha ⟨ha.tables.put_dir hn', rfl,
    fun t' ht' => ?_, fun p hp hne => ?_, Quiet.put (fun _ _ hp => hp.elim) fun p hp _ _ => hentry p hp⟩, ?_⟩
  · rw [ha.tables.pde_put_dir, Function.update_apply, ha.pde t' ht']
  · rw [hentry p hp, ha.entry p hp hne]
  · rw [hentry _ (by omega), h.aimed]

/-- **A new page table**: the part the two mapping functions share, from
`allocate_page_table` to the store to the directory. -/
theorem Tables.newTable (h : Tables L s) (hp : Pool L s) {t pdFlags : Nat} (ht : t < 1024) (habs : s.pde t % 2 = 0)
    (hpd : pdFlags < 4096) :
    (i386MemGetNextFreeFrame s.meminfo s.frames = 0 ∧ ShawnOS.allocatePageTable s = some ((.oom, 0), s)) ∨
      ∃ g s₁ s₂, i386MemGetNextFreeFrame s.meminfo s.frames = g ∧
        ShawnOS.allocatePageTable s = some ((.success, 4096 * g), s₁) ∧
        ShawnOS.getVirtPtr s₁ s₁.pageDirectory = some (4096 * L.window, s₁.aim L s₁.pageDirectory) ∧
        (s₁.aim L s₁.pageDirectory).write (index32 (4096 * L.window) t) (4096 * g ||| pdFlags) = some s₂ ∧
        Fresh s.frames g ∧ s.frames.Filled s₂.frames g 1 ∧
        Effect L s s₂ (Function.update s.pde t (4096 * g + pdFlags)) s.entry ∧
        s₂.entry L.window = s₂.pageDirectory + 3 := by
  have hw := L.window_le
  rcases h.allocatePageTable hp with hoom | ⟨g, s₁, hnext, hok, hg, hfill, heff, hblank⟩
  · exact .inl hoom
  · refine .inr ?_
    have hfree := hg.no_table hp
    have hword := hg.word
    have hx : (4096 * g + pdFlags) / 4096 = g := by omega
    have hnew : NewTable L s₁ t (4096 * g + pdFlags) := by
      refine ⟨ht, h.absent_pos habs, by rw [heff.pde t ht]; exact habs, by omega,
        fun _ => by rw [hx]; exact Ne.symm (hg.ne_of_bit hp.dir), fun _ t' ht' hp' => ?_,
        fun _ j hj => by rw [hx]; exact hblank j hj⟩
      rw [heff.pde t' ht'] at hp' ⊢
      rw [hx]
      exact hfree t' ht' hp'
    obtain ⟨hset, haim⟩ := Effect.setTable heff.tables hnew
    have hdir := heff.tables.aimed s₁.pageDirectory
    have hwr := (heff.tables.aim heff.tables.dir_bound.2).write_at (f := L.dir) (show L.window < 2 ^ 20 by omega) ht
      (maps_of_eq (by rw [hdir, heff.tables.dir])) (4096 * g + pdFlags)
    have hpde : ∀ t' < 1024, Function.update s₁.pde t (4096 * g + pdFlags) t' =
        Function.update s.pde t (4096 * g + pdFlags) t' := by
      intro t' ht'
      rw [Function.update_apply, Function.update_apply, heff.pde t' ht']
    refine ⟨g, s₁, (s₁.aim L s₁.pageDirectory).put (4096 * L.dir + 4 * t) (4096 * g + pdFlags), hnext, hok,
      heff.tables.getVirtPtr heff.tables.dir_bound.1, ?_, hg, hfill, heff.trans (hset.congr hpde heff.entry), haim⟩
    rw [or_flags (show 4096 * g % 4096 = 0 by omega) hpd]
    exact hwr

/-- The page's entry, in the table just entered in the directory. -/
theorem Effect.setNewEntry {s₁ : PagingState} {t i x g pdFlags : Nat} (ht : t < 1024) (h0 : 0 < t) (hi : i < 1024)
    (hx : x < 2 ^ 32) (hdir : g ≠ L.dir) (hg : g < 2 ^ 20) (hpd : pdFlags < 4096)
    (hfree : ∀ t < 1024, s.pde t % 2 = 1 → s.pde t / 4096 ≠ g)
    (h : Effect L s s₁ (Function.update s.pde t (4096 * g + pdFlags)) s.entry) :
    Effect L s ((s₁.aim L (4096 * (s₁.pde t / 4096))).put (4096 * (s₁.pde t / 4096) + 4 * i) x)
      (Function.update s.pde t (4096 * g + pdFlags))
      (if pdFlags % 2 = 1 then Function.update s.entry (1024 * t + i) x else s.entry) := by
  have h1 := L.window_le; have h2 := L.dir_lt; have h3 := L.table_lt
  have hself := h.pde t ht
  rw [Function.update_self] at hself
  by_cases hodd : pdFlags % 2 = 1
  · rw [if_pos hodd]
    have he := Effect.setEntry (x := x) h.tables ht hi (by rw [hself]; omega) hx (by omega)
      (ownEntry_of_ne (by omega) (by omega) x)
    refine h.trans (he.congr h.pde fun p hp hne => ?_)
    rw [Function.update_apply, Function.update_apply, h.entry p hp hne]
  · rw [if_neg hodd]
    have hframe : s₁.pde t / 4096 = g := by rw [hself]; omega
    have hfree₁ : ∀ t' < 1024, s₁.pde t' % 2 = 1 → s₁.pde t' / 4096 ≠ g := by
      intro t' ht' hp'
      rw [h.pde t' ht', Function.update_apply] at hp' ⊢
      by_cases het : t' = t
      · rw [if_pos het] at hp'
        omega
      · rw [if_neg het] at hp' ⊢
        exact hfree t' ht' hp'
    rw [hframe]
    exact h.trans ((Effect.setLost h.tables (by omega) hi hdir hfree₁ x).congr h.pde h.entry)

/-! ## `i386_allocate_page` -/

theorem pageEntry_eq {f flags : Nat} (hf : f < 2 ^ 20) (hflags : flags < 4096) :
    u32 (f * pageSize) ||| flags = 4096 * f + flags := by
  rw [frame_phys hf, or_flags (by omega) hflags]

theorem Tables.allocatePageEntry (h : Tables L s) {t i f flags : Nat} (ht : t < 1024) (hi : i < 1024) (hf : f < 2 ^ 20)
    (hflags : flags < 4096) (haim : s.entry L.window = s.pageDirectory + 3) :
    allocatePageEntry s (4096 * L.window) t i f flags = some ((.success, 4096 * f),
      (s.aim L (4096 * (s.pde t / 4096))).put (4096 * (s.pde t / 4096) + 4 * i) (4096 * f + flags)) := by
  have hw := L.window_le
  have ha := h.aim (h.table_bound ht).2
  rw [ShawnOS.allocatePageEntry, h.tableInDir_window ht haim]
  simp only [Option.bind_eq_bind, Option.bind_some, h.getVirtPtr (h.table_bound ht).1, pageEntry_eq hf hflags,
    ha.write_at (show L.window < 2 ^ 20 by omega) hi (maps_of_eq (h.aimed _)), and_page (show 4096 * f + flags < 2 ^ 32 by omega),
    show (4096 * f + flags) / 4096 = f by omega]
  rfl

/-- How `i386_allocate_page` can end. -/
inductive Allocated (L : Layout) (s : PagingState) (v ptFlags pdFlags : Nat) : KReturn × Nat → PagingState → Prop
  | oom : i386MemGetNextFreeFrame s.meminfo s.frames = 0 → Allocated L s v ptFlags pdFlags (.oom, 0) s
  /-- No frame for the table: the page's goes back. -/
  | tableOom {s' : PagingState} : s.pde (v / pageSize / 1024) % 2 = 0 → Effect L s s' s.pde s.entry →
      s'.frames.length = s.frames.length → (∀ g, s'.frames.bit g = s.frames.bit g) →
      (∃ f b, s.frames.Filled b f 1 ∧ i386MemGetNextFreeFrame s.meminfo b = 0) →
      Allocated L s v ptFlags pdFlags (.oom, 0) s'
  | mapped {s' : PagingState} {f : Nat} : s.pde (v / pageSize / 1024) % 2 = 1 → Fresh s.frames f →
      s.frames.Filled s'.frames f 1 →
      Effect L s s' s.pde (Function.update s.entry (v / 4096) (4096 * f + ptFlags)) →
      Allocated L s v ptFlags pdFlags (.success, 4096 * f) s'
  | newTable {s' : PagingState} {b : Bitset} {f g : Nat} : s.pde (v / pageSize / 1024) % 2 = 0 → Fresh s.frames f →
      s.frames.Filled b f 1 → Fresh b g → b.Filled s'.frames g 1 → pdFlags % 2 = 1 →
      Effect L s s' (Function.update s.pde (v / pageSize / 1024) (4096 * g + pdFlags))
        (Function.update s.entry (v / 4096) (4096 * f + ptFlags)) →
      Allocated L s v ptFlags pdFlags (.success, 4096 * f) s'
  /-- The new table was not made present: both frames are lost. -/
  | lost {s' : PagingState} {b : Bitset} {f g : Nat} : s.pde (v / pageSize / 1024) % 2 = 0 → Fresh s.frames f →
      s.frames.Filled b f 1 → Fresh b g → b.Filled s'.frames g 1 → pdFlags % 2 = 0 →
      Effect L s s' (Function.update s.pde (v / pageSize / 1024) (4096 * g + pdFlags)) s.entry →
      Allocated L s v ptFlags pdFlags (.success, 4096 * f) s'

theorem Bitset.Filled.undo {b b' b'' : Bitset} {f : Nat} (h : b.Filled b' f 1) (hc : b.bit f = false)
    (h' : b'.Wiped b'' f 1) (g : Nat) : b''.bit g = b.bit g := by
  rw [h'.bit, h.bit]
  by_cases hg : g = f
  · rw [hg, hc, decide_eq_true (by omega)]
    rfl
  · rw [decide_eq_false (by omega)]
    simp

/-- The state after a page of a present table was given the frame `f`. -/
def PagingState.withPage (s : PagingState) (L : Layout) (b : Bitset) (t i x : Nat) : PagingState :=
  (PagingState.aim (PagingState.aim { s with frames := b } L s.pageDirectory) L (4096 * (s.pde t / 4096))).put
    (4096 * (s.pde t / 4096) + 4 * i) x

/-- `i386_allocate_page` where the table is present, whatever the page. -/
theorem Tables.allocatePage_present (h : Tables L s) {v ptFlags f : Nat} {b : Bitset} (hv : v < 2 ^ 32)
    (hal : v % pageSize = 0) (hpt : ptFlags < 4096) (hpres : s.pde (v / pageSize / 1024) % 2 = 1)
    (he : i386MemAllocateFrame s.meminfo s.frames = some (f, b)) (hf : f ≠ 0) (hword : f < 2 ^ 20) (pdFlags : Nat) :
    i386AllocatePage s v ptFlags pdFlags = some ((.success, 4096 * f),
      s.withPage L b (v / pageSize / 1024) (v / pageSize % 1024) (4096 * f + ptFlags)) := by
  obtain ⟨ht, hi, -, -⟩ := page_index hv
  have h₁ := h.frames b
  have ha := h₁.aim h₁.dir_bound.2
  have hpde := h₁.aim_pde (a := s.pageDirectory) ht
  have hend := ha.allocatePageEntry ht hi hword hpt (h₁.aimed _)
  rw [hpde] at hend
  rw [i386AllocatePage, kassert_of hal, he]
  simp only [Option.bind_eq_bind, Option.bind_some, if_neg hf, h₁.getVirtPtr h₁.dir_bound.1, h₁.read_dir ht,
    and_present]
  have hne : ¬ PagingState.pde { s with frames := b } (v / pageSize / 1024) % 2 = 0 := by
    show ¬ s.pde (v / pageSize / 1024) % 2 = 0
    omega
  rw [if_neg hne]
  exact hend

/-- What that state shows: the page's entry and the window's are new. -/
theorem Tables.withPage_entry (h : Tables L s) {t i x : Nat} (b : Bitset) (ht : t < 1024) (hi : i < 1024)
    (hpres : s.pde t % 2 = 1) : (∀ t' < 1024, (s.withPage L b t i x).pde t' = s.pde t') ∧
      ∀ p < 2 ^ 20, (s.withPage L b t i x).entry p =
        if p = 1024 * t + i then x else if p = L.window then 4096 * (s.pde t / 4096) + 3 else s.entry p := by
  have h₁ := h.frames b
  have h₂ := h₁.aim h₁.dir_bound.2
  have hpde₂ (t' : Nat) (ht' : t' < 1024) : (PagingState.aim { s with frames := b } L s.pageDirectory).pde t' = s.pde t' :=
    h₁.aim_pde ht'
  have h₃ := h₂.aim (a := 4096 * (s.pde t / 4096)) (h.table_bound ht).2
  have hpde₃ (t' : Nat) (ht' : t' < 1024) :
      ((PagingState.aim { s with frames := b } L s.pageDirectory).aim L (4096 * (s.pde t / 4096))).pde t' = s.pde t' :=
    (h₂.aim_pde ht').trans (hpde₂ t' ht')
  have hodd : ((PagingState.aim { s with frames := b } L s.pageDirectory).aim L (4096 * (s.pde t / 4096))).pde t % 2 = 1 := by
    rw [hpde₃ t ht]
    exact hpres
  have hdir := h₃.notDir t ht hodd
  have hput (p : Nat) (hp : p < 2 ^ 20) := h₃.entry_put (x := x) ht hi hodd hdir hp
  rw [hpde₃ t ht] at hdir
  simp only [hpde₃ t ht] at hput
  refine ⟨fun t' ht' => (h₃.pde_put hdir hi ht').trans (hpde₃ t' ht'), fun p hp => (hput p hp).trans ?_⟩
  rw [h₂.aim_entry hp, h₁.aim_entry hp]
  by_cases hw : p = L.window
  · rw [if_pos hw, if_pos hw]
  · rw [if_neg hw, if_neg hw, if_neg hw]
    rfl

theorem Tables.withPage (h : Tables L s) {t i x : Nat} (b : Bitset) (ht : t < 1024) (hi : i < 1024)
    (hpres : s.pde t % 2 = 1) (hx : x < 2 ^ 32) (hown : OwnEntry L (1024 * t + i) x) :
    Tables L (s.withPage L b t i x) ∧ (∀ t' < 1024, (s.withPage L b t i x).pde t' = s.pde t') ∧
      ∀ p < 2 ^ 20, (s.withPage L b t i x).entry p =
        if p = 1024 * t + i then x else if p = L.window then 4096 * (s.pde t / 4096) + 3 else s.entry p := by
  have h₁ := h.frames b
  have h₂ := h₁.aim h₁.dir_bound.2
  have h₃ := h₂.aim (a := 4096 * (s.pde t / 4096)) (h.table_bound ht).2
  have hpde₃ : ((PagingState.aim { s with frames := b } L s.pageDirectory).aim L (4096 * (s.pde t / 4096))).pde t =
      s.pde t := (h₂.aim_pde ht).trans (h₁.aim_pde ht)
  have htab := h₃.put_table ht hi (by rw [hpde₃]; exact hpres) hx hown
  rw [hpde₃] at htab
  exact ⟨htab, h.withPage_entry b ht hi hpres⟩

/-- **`i386_allocate_page`** always returns, in one of these ways. -/
theorem Tables.allocatePage (h : Tables L s) (hp : Pool L s) {v ptFlags pdFlags : Nat} (hv : v < 2 ^ 32)
    (hal : v % pageSize = 0) (hown : v / 4096 ∉ L.own) (hpt : ptFlags < 4096) (hpd : pdFlags < 4096) :
    ∃ r s', i386AllocatePage s v ptFlags pdFlags = some (r, s') ∧ Allocated L s v ptFlags pdFlags r s' := by
  obtain ⟨ht, hi, hpage, -⟩ := page_index hv
  obtain ⟨hpw, hpdir, hptab⟩ := not_own.mp hown
  rcases hp.allocateFrame with ⟨h0, he⟩ | ⟨f, b, -, he, hf, hb⟩
  · rw [i386AllocatePage, kassert_of hal, he]
    exact ⟨_, _, rfl, .oom h0⟩
  have h₁ := h.frames b
  have hp₁ := hp.fill hb
  have ha := Effect.aim h₁ h₁.dir_bound.2
  have hword := hf.word
  by_cases hpres : s.pde (v / pageSize / 1024) % 2 = 1
  · have hpde : (PagingState.aim { s with frames := b } L s.pageDirectory).pde (v / pageSize / 1024) =
        s.pde (v / pageSize / 1024) := ha.pde _ ht
    have heff := Effect.setEntry ha.tables (x := 4096 * f + ptFlags) ht hi (by rw [hpde]; exact hpres) (by omega)
      (by rw [hpage]; exact hpw) (by rw [hpage]; exact ownEntry_of_ne hpdir hptab _)
    rw [hpage, hpde] at heff
    refine ⟨_, _, h.allocatePage_present hv hal hpt hpres he hf.pos hword pdFlags,
      .mapped hpres hf hb (ha.trans (heff.congr ha.pde fun p hp hw => ?_)).ofFrames⟩
    rw [Function.update_apply, Function.update_apply, ha.entry p hp hw]
    rfl
  · have habs : s.pde (v / pageSize / 1024) % 2 = 0 := by omega
    rw [i386AllocatePage, kassert_of hal, he]
    simp only [Option.bind_eq_bind, Option.bind_some, if_neg hf.pos, h₁.getVirtPtr h₁.dir_bound.1, h₁.read_dir ht,
      and_present]
    rw [if_pos (show PagingState.pde { s with frames := b } (v / pageSize / 1024) % 2 = 0 from habs)]
    have hp₂ := hp₁.of_effect ha rfl
    rcases ha.tables.newTable hp₂ ht (by rw [ha.pde _ ht]; exact habs) hpd with
      ⟨h0, hoom⟩ | ⟨g, s₁, s₂, -, hok, hvirt, hwr, hg, hfill, heff, haim⟩
    · obtain ⟨b', hb'⟩ := bitsetClearBit_ok (b := b) (n := f) (by rw [hb.length]; exact hf.lt)
      have hwipe := (bitsetClearBit_wiped hb').2
      rw [hoom]
      refine ⟨_, { (PagingState.aim { s with frames := b } L s.pageDirectory) with frames := b' }, ?_, .tableOom habs
        (ha.withFrames b').ofFrames (hwipe.length.trans hb.length) (fun g => hb.undo hf.clear hwipe g) ⟨f, b, hb, h0⟩⟩
      simp only [Option.bind_some, KReturn.failed, i386MemFreeFrame, aim_frames, hb']
      rfl
    · have hg₁ : Fresh b g := hg
      have hnone := hg₁.no_table hp₁
      have hfree : ∀ t < 1024, s.pde t % 2 = 1 → s.pde t / 4096 ≠ g := hnone
      have hset : Effect L s s₂ (Function.update s.pde (v / pageSize / 1024) (4096 * g + pdFlags)) s.entry := by
        refine (ha.trans (heff.congr (fun t' ht' => ?_) ha.entry)).ofFrames
        rw [Function.update_apply, Function.update_apply, ha.pde t' ht']
        rfl
      have hend := hset.tables.allocatePageEntry ht hi hword hpt haim
      have heff' := Effect.setNewEntry (x := 4096 * f + ptFlags) ht (h.absent_pos habs) hi (by omega)
        (Ne.symm (hg₁.ne_of_bit hp₁.dir)) hg₁.word hpd hfree hset
      rw [hpage] at heff'
      rw [hok]
      simp only [Option.bind_some, failed_success, Bool.false_eq_true, if_false, hvirt, hwr, hend]
      refine ⟨_, _, rfl, ?_⟩
      by_cases hodd : pdFlags % 2 = 1
      · rw [if_pos hodd] at heff'
        exact .newTable habs hf hb hg₁ hfill hodd heff'
      · rw [if_neg hodd] at heff'
        exact .lost habs hf hb hg₁ hfill (by omega) heff'

/-! ## `i386_identity_map_page` -/

theorem Tables.identityMapEntry (h : Tables L s) {t i p flags : Nat} (ht : t < 1024) (hi : i < 1024) (hp : p < 2 ^ 20)
    (hflags : flags < 4096) (haim : s.entry L.window = s.pageDirectory + 3) :
    identityMapEntry s (4096 * L.window) t i p flags = (bitsetSetBit s.frames p).map fun b => (4096 * p + flags,
      { (s.aim L (4096 * (s.pde t / 4096))).put (4096 * (s.pde t / 4096) + 4 * i) (4096 * p + flags) with
        frames := b }) := by
  have hw := L.window_le
  have ha := h.aim (h.table_bound ht).2
  rw [ShawnOS.identityMapEntry, h.tableInDir_window ht haim]
  simp only [Option.bind_eq_bind, Option.bind_some, h.getVirtPtr (h.table_bound ht).1, pageEntry_eq hp hflags,
    ha.write_at (show L.window < 2 ^ 20 by omega) hi (maps_of_eq (h.aimed _)), put_frames, aim_frames]
  rw [Option.map_eq_bind]
  rfl

/-- `i386_identity_map_page` where the table is present, whatever the page. -/
theorem Tables.identityMapPage_present (h : Tables L s) {v ptFlags : Nat} (hv : v < 2 ^ 32) (hal : v % pageSize = 0)
    (hpt : ptFlags < 4096) (hpres : s.pde (v / pageSize / 1024) % 2 = 1) (pdFlags : Nat) :
    i386IdentityMapPage s v ptFlags pdFlags = (bitsetSetBit s.frames (v / 4096)).map fun b => (v + ptFlags,
      { s.withPage L s.frames (v / pageSize / 1024) (v / pageSize % 1024) (v + ptFlags) with frames := b }) := by
  obtain ⟨ht, hi, -, -⟩ := page_index hv
  have hpage : v / pageSize = v / 4096 := rfl
  have hval : 4096 * (v / 4096) = v := by
    unfold pageSize at hal
    omega
  have ha := h.aim h.dir_bound.2
  have hend := ha.identityMapEntry (p := v / pageSize) ht hi (by rw [hpage]; omega) hpt (h.aimed _)
  rw [h.aim_pde ht] at hend
  rw [i386IdentityMapPage, kassert_of hal, h.getVirtPtr h.dir_bound.1]
  simp only [Option.bind_eq_bind, Option.bind_some, h.read_dir ht, and_present]
  rw [if_neg (by omega), hend, show 4096 * (v / pageSize) = v from hval]
  rfl

/-- How `i386_identity_map_page` can end. -/
inductive IdentityMapped (L : Layout) (s : PagingState) (v ptFlags pdFlags : Nat) : Nat → PagingState → Prop
  | oom {s' : PagingState} : s.pde (v / pageSize / 1024) % 2 = 0 → i386MemGetNextFreeFrame s.meminfo s.frames = 0 →
      Effect L s s' s.pde s.entry → s'.frames = s.frames → IdentityMapped L s v ptFlags pdFlags KReturn.oom.code s'
  | mapped {s' : PagingState} : s.pde (v / pageSize / 1024) % 2 = 1 → v / 4096 < s.frames.length →
      s.frames.Filled s'.frames (v / 4096) 1 → Effect L s s' s.pde (Function.update s.entry (v / 4096) (v + ptFlags)) →
      IdentityMapped L s v ptFlags pdFlags (v + ptFlags) s'
  | newTable {s' : PagingState} {b : Bitset} {g : Nat} : s.pde (v / pageSize / 1024) % 2 = 0 →
      i386MemGetNextFreeFrame s.meminfo s.frames = g → Fresh s.frames g → s.frames.Filled b g 1 →
      v / 4096 < s.frames.length → b.Filled s'.frames (v / 4096) 1 → pdFlags % 2 = 1 →
      Effect L s s' (Function.update s.pde (v / pageSize / 1024) (4096 * g + pdFlags))
        (Function.update s.entry (v / 4096) (v + ptFlags)) →
      IdentityMapped L s v ptFlags pdFlags (v + ptFlags) s'
  | lost {s' : PagingState} {b : Bitset} {g : Nat} : s.pde (v / pageSize / 1024) % 2 = 0 →
      i386MemGetNextFreeFrame s.meminfo s.frames = g → Fresh s.frames g → s.frames.Filled b g 1 →
      v / 4096 < s.frames.length → b.Filled s'.frames (v / 4096) 1 → pdFlags % 2 = 0 →
      Effect L s s' (Function.update s.pde (v / pageSize / 1024) (4096 * g + pdFlags)) s.entry →
      IdentityMapped L s v ptFlags pdFlags (v + ptFlags) s'

/-- **`i386_identity_map_page`** ends in one of these ways, or aborts where
the bitset has no bit for the page. It may be the directory's own page or the
first table's, since their frames are what they are mapped to already. -/
theorem Tables.identityMapPage (h : Tables L s) (hp : Pool L s) {v ptFlags pdFlags : Nat} (hv : v < 2 ^ 32)
    (hal : v % pageSize = 0) (hpw : v / 4096 ≠ L.window) (hown : OwnEntry L (v / 4096) (v + ptFlags))
    (hpt : ptFlags < 4096) (hpd : pdFlags < 4096) :
    (∃ r s', i386IdentityMapPage s v ptFlags pdFlags = some (r, s') ∧ IdentityMapped L s v ptFlags pdFlags r s') ∨
      (i386IdentityMapPage s v ptFlags pdFlags = none ∧ s.frames.length ≤ v / 4096 ∧
        (s.pde (v / pageSize / 1024) % 2 = 1 ∨ i386MemGetNextFreeFrame s.meminfo s.frames ≠ 0)) := by
  obtain ⟨ht, hi, hpage, -⟩ := page_index hv
  have hpage' : v / pageSize = v / 4096 := rfl
  have hval : 4096 * (v / 4096) = v := by
    unfold pageSize at hal
    omega
  have ha := Effect.aim h h.dir_bound.2
  by_cases hpres : s.pde (v / pageSize / 1024) % 2 = 1
  · have hpde := ha.pde _ ht
    have heff := Effect.setEntry ha.tables (x := v + ptFlags) ht hi (by rw [hpde]; exact hpres) (by omega)
      (by rw [hpage]; exact hpw) (by rw [hpage]; exact hown)
    rw [h.identityMapPage_present hv hal hpt hpres]
    cases hb : bitsetSetBit s.frames (v / 4096) with
    | none =>
      exact .inr ⟨rfl, le_of_bitsetSetBit_none hb, .inl hpres⟩
    | some b =>
      obtain ⟨hlt, hfill⟩ := bitsetSetBit_filled hb
      rw [hpage, hpde] at heff
      refine .inl ⟨_, _, rfl, .mapped hpres hlt hfill (ha.trans ((heff.withFrames b).congr ha.pde fun p hp hw => ?_))⟩
      rw [Function.update_apply, Function.update_apply, ha.entry p hp hw]
  · have habs : s.pde (v / pageSize / 1024) % 2 = 0 := by omega
    rw [i386IdentityMapPage, kassert_of hal, h.getVirtPtr h.dir_bound.1]
    simp only [Option.bind_eq_bind, Option.bind_some, h.read_dir ht, and_present, if_pos habs]
    rcases ha.tables.newTable (hp.of_effect ha rfl) ht (by rw [ha.pde _ ht]; exact habs) hpd with
      ⟨h0, hoom⟩ | ⟨g, s₁, s₂, hnext, hok, hvirt, hwr, hg, hfill, heff, haim⟩
    · rw [hoom]
      exact .inl ⟨_, _, rfl, .oom habs h0 ha rfl⟩
    · have hg₁ : Fresh s.frames g := hg
      have hfree := hg₁.no_table hp
      have hset : Effect L s s₂ (Function.update s.pde (v / pageSize / 1024) (4096 * g + pdFlags)) s.entry := by
        refine ha.trans (heff.congr (fun t' ht' => ?_) ha.entry)
        rw [Function.update_apply, Function.update_apply, ha.pde t' ht']
      have heff' := Effect.setNewEntry (x := 4096 * (v / 4096) + ptFlags) ht (h.absent_pos habs) hi (by omega)
        (Ne.symm (hg₁.ne_of_bit hp.dir)) hg₁.word hpd hfree hset
      rw [hok]
      simp only [Option.bind_some, failed_success, Bool.false_eq_true, if_false, hvirt, hwr]
      rw [hset.tables.identityMapEntry ht hi (by rw [hpage']; omega) hpt haim]
      have hlen : s₂.frames.length = s.frames.length := hfill.length
      cases hb : bitsetSetBit s₂.frames (v / pageSize) with
      | none =>
        refine .inr ⟨rfl, hlen ▸ le_of_bitsetSetBit_none hb, .inr ?_⟩
        rw [show i386MemGetNextFreeFrame s.meminfo s.frames = g from hnext]
        exact hg₁.pos
      | some b =>
        obtain ⟨hlt, hfill'⟩ := bitsetSetBit_filled hb
        rw [hlen] at hlt
        rw [hpage, hval] at heff'
        rw [hpage', hval]
        by_cases hodd : pdFlags % 2 = 1
        · rw [if_pos hodd] at heff'
          exact .inl ⟨_, _, rfl, .newTable habs hnext hg₁ hfill hlt hfill' hodd (heff'.withFrames b)⟩
        · rw [if_neg hodd] at heff'
          exact .inl ⟨_, _, rfl, .lost habs hnext hg₁ hfill hlt hfill' (by omega) (heff'.withFrames b)⟩

end ShawnOS
