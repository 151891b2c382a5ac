/-
What the MMU sees, and how the window reaches it.

`entry p` is the page-table entry of the page `p` (the default of a fresh
table while the table is absent). `Tables` is what the windowed code counts
on: the directory and the first table are identity mapped, beside the window,
and the other tables lie in frames of their own. Under it translation depends
on `entry` alone; aiming the window changes the window's own entry, and a
store through it the word aimed at.
-/
import ShawnOS.Paging

namespace ShawnOS

open Word32

variable {s s' : PagingState}

/-- The directory's entry for the table `t`. -/
def PagingState.pde (s : PagingState) (t : Nat) : Nat := s.phys (s.pageDirectory + 4 * t)

/-- The entry of the page `p`. -/
def PagingState.entry (s : PagingState) (p : Nat) : Nat :=
  if s.pde (p / 1024) % 2 = 1 then s.phys (4096 * (s.pde (p / 1024) / 4096) + 4 * (p % 1024)) else ptRw

/-- The page `p` is mapped to the frame `f`. -/
def PagingState.Maps (s : PagingState) (p f : Nat) : Prop := s.entry p % 2 = 1 ∧ s.entry p / 4096 = f

/-- A store to physical memory. -/
def PagingState.put (s : PagingState) (a x : Nat) : PagingState :=
  { s with phys := Function.update s.phys a x, log := s.log ++ [.store a x] }

/-- Where the paging structures of boot lie: the page of the window, and the
frames of the directory and of its first table. -/
structure Layout where
  window : Nat
  dir : Nat
  table : Nat
  window_le : window ≤ 380
  dir_lt : dir < 380
  table_lt : table < 380
  dir_ne : dir ≠ window
  table_ne : table ≠ window
  apart : dir ≠ table

/-- The paging structures are in order. -/
structure Tables (L : Layout) (s : PagingState) : Prop where
  cr3 : s.cr3 = some s.pageDirectory
  early : s.earlyInitDone = true
  window : s.windowPage = 4096 * L.window
  dir : s.pageDirectory = 4096 * L.dir
  first : s.pde 0 = 4096 * L.table + 3
  pde_lt : ∀ t < 1024, s.pde t < 2 ^ 32
  entry_lt : ∀ p < 2 ^ 20, s.entry p < 2 ^ 32
  dirEntry : s.Maps L.dir L.dir
  tableEntry : s.Maps L.table L.table
  notDir : ∀ t < 1024, s.pde t % 2 = 1 → s.pde t / 4096 ≠ L.dir
  distinct : ∀ t < 1024, ∀ t' < 1024, s.pde t % 2 = 1 → s.pde t' % 2 = 1 →
    s.pde t / 4096 = s.pde t' / 4096 → t = t'

@[simp] theorem put_cr3 (a x : Nat) : (s.put a x).cr3 = s.cr3 := rfl
@[simp] theorem put_pageDirectory (a x : Nat) : (s.put a x).pageDirectory = s.pageDirectory := rfl
@[simp] theorem put_windowPage (a x : Nat) : (s.put a x).windowPage = s.windowPage := rfl
@[simp] theorem put_earlyInitDone (a x : Nat) : (s.put a x).earlyInitDone = s.earlyInitDone := rfl
@[simp] theorem put_meminfo (a x : Nat) : (s.put a x).meminfo = s.meminfo := rfl
@[simp] theorem put_frames (a x : Nat) : (s.put a x).frames = s.frames := rfl

theorem put_phys (a x b : Nat) : (s.put a x).phys b = if b = a then x else s.phys b := by
  simp [PagingState.put, Function.update_apply]

theorem and_present (n : Nat) : n &&& ptPresent = 0 ↔ n % 2 = 0 := by
  simp [ptPresent, Nat.and_one_is_mod]

theorem aligned_or_rw {a : Nat} (ha : a % 4096 = 0) : a ||| ptPresent ||| ptRw = a + 3 := by
  rw [Nat.or_assoc]
  exact or_flags ha (by decide)

/-! ## Translation -/

/-- **Translation is by `entry`.** -/
theorem Tables.translate {L : Layout} (h : Tables L s) {v : Nat} (hv : v < 2 ^ 32) :
    s.translate v =
      if s.entry (v / 4096) % 2 = 1 then some (4096 * (s.entry (v / 4096) / 4096) + v % 4096) else none := by
  have ht : v / 4096 / 1024 < 1024 := by omega
  have hlt := h.entry_lt (v / 4096) (by omega)
  have hpde : s.phys (s.pageDirectory + 4 * (v / 4096 / 1024)) = s.pde (v / 4096 / 1024) := rfl
  simp only [PagingState.translate, h.cr3, hpde, and_present, and_page (h.pde_lt _ ht)]
  by_cases hp : s.pde (v / 4096 / 1024) % 2 = 1
  · have he : s.entry (v / 4096) =
        s.phys (4096 * (s.pde (v / 4096 / 1024) / 4096) + 4 * (v / 4096 % 1024)) := by
      rw [PagingState.entry, if_pos hp]
    rw [if_neg (by omega), ← he]
    by_cases ho : s.entry (v / 4096) % 2 = 1
    · rw [if_neg (by omega), if_pos ho, and_page hlt]
    · rw [if_pos (by omega), if_neg ho]
  · have he : s.entry (v / 4096) = 2 := by rw [PagingState.entry, if_neg hp]; rfl
    rw [if_pos (by omega), he]
    rfl

theorem maps_of_eq {p f : Nat} (he : s.entry p = 4096 * f + 3) : s.Maps p f := by
  unfold PagingState.Maps
  omega

theorem PagingState.Maps.congr {p f : Nat} (h : s.Maps p f) (he : s'.entry p = s.entry p) : s'.Maps p f := by
  unfold PagingState.Maps
  rw [he]
  exact h

theorem Tables.translate_of_entry {L : Layout} (h : Tables L s) {p f i : Nat} (hp : p < 2 ^ 20) (hi : i < 4096)
    (he : s.Maps p f) : s.translate (4096 * p + i) = some (4096 * f + i) := by
  obtain ⟨hodd, hframe⟩ := he
  rw [h.translate (by omega), show (4096 * p + i) / 4096 = p by omega, if_pos hodd, hframe]
  congr 1
  omega

theorem index32_page {p i : Nat} (hp : p < 2 ^ 20) (hi : i < 1024) : index32 (4096 * p) i = 4096 * p + 4 * i := by
  rw [index32, u32_of_lt (by omega)]

theorem Tables.read_at {L : Layout} (h : Tables L s) {p f i : Nat} (hp : p < 2 ^ 20) (hi : i < 1024)
    (he : s.Maps p f) : s.read (index32 (4096 * p) i) = some (s.phys (4096 * f + 4 * i)) := by
  rw [index32_page hp hi, PagingState.read, h.translate_of_entry hp (by omega) he]
  rfl

theorem Tables.write_at {L : Layout} (h : Tables L s) {p f i : Nat} (hp : p < 2 ^ 20) (hi : i < 1024)
    (he : s.Maps p f) (x : Nat) :
    s.write (index32 (4096 * p) i) x = some (s.put (4096 * f + 4 * i) x) := by
  rw [index32_page hp hi, PagingState.write, h.translate_of_entry hp (by omega) he]
  rfl

/-! ## Stores -/

theorem pde_eq {L : Layout} (h : Tables L s) (t : Nat) : s.pde t = s.phys (4096 * L.dir + 4 * t) := by
  rw [PagingState.pde, h.dir]

/-- A store outside the directory leaves the directory. -/
theorem Tables.pde_put {L : Layout} (h : Tables L s) {f i x t : Nat} (hf : f ≠ L.dir) (hi : i < 1024) (ht : t < 1024) :
    (s.put (4096 * f + 4 * i) x).pde t = s.pde t := by
  rw [PagingState.pde, put_pageDirectory, h.dir, put_phys, if_neg (by omega), pde_eq h]

/-- A store to a table sets one entry. -/
theorem Tables.entry_put {L : Layout} (h : Tables L s) {t i x p : Nat} (ht : t < 1024) (hi : i < 1024)
    (hpres : s.pde t % 2 = 1) (hdir : s.pde t / 4096 ≠ L.dir) (hp : p < 2 ^ 20) :
    (s.put (4096 * (s.pde t / 4096) + 4 * i) x).entry p = if p = 1024 * t + i then x else s.entry p := by
  have htp : p / 1024 < 1024 := by omega
  rw [PagingState.entry, h.pde_put hdir hi htp, PagingState.entry]
  by_cases hpp : s.pde (p / 1024) % 2 = 1
  · rw [if_pos hpp, if_pos hpp, put_phys]
    by_cases hsame : p / 1024 = t
    · rw [hsame]
      by_cases hi' : p % 1024 = i
      · rw [if_pos (by omega), if_pos (by omega)]
      · rw [if_neg (by omega), if_neg (by omega)]
    · have hne : s.pde (p / 1024) / 4096 ≠ s.pde t / 4096 := fun he => hsame (h.distinct _ htp _ ht hpp hpres he)
      rw [if_neg (by omega), if_neg (by omega)]
  · have hne : p ≠ 1024 * t + i := by
      rintro rfl
      rw [show (1024 * t + i) / 1024 = t by omega] at hpp
      exact hpp hpres
    rw [if_neg hpp, if_neg hpp, if_neg hne]

/-- A store to a frame that is no paging structure changes no entry. -/
theorem Tables.entry_put_other {L : Layout} (h : Tables L s) {f i x p : Nat} (hf : f ≠ L.dir) (hi : i < 1024)
    (hfree : ∀ t < 1024, s.pde t % 2 = 1 → s.pde t / 4096 ≠ f) (hp : p < 2 ^ 20) :
    (s.put (4096 * f + 4 * i) x).entry p = s.entry p := by
  have htp : p / 1024 < 1024 := by omega
  rw [PagingState.entry, h.pde_put hf hi htp, PagingState.entry]
  by_cases hpp : s.pde (p / 1024) % 2 = 1
  · have hne := hfree _ htp hpp
    rw [if_pos hpp, if_pos hpp, put_phys, if_neg (by omega)]
  · rw [if_neg hpp, if_neg hpp]

/-- A store that leaves the directory, and where the directory's own page
and its first table's are mapped. -/
theorem Tables.keep {L : Layout} (h : Tables L s) {a x : Nat} (hpde : ∀ t < 1024, (s.put a x).pde t = s.pde t)
    (hlt : ∀ p < 2 ^ 20, (s.put a x).entry p < 2 ^ 32) (hdir : (s.put a x).Maps L.dir L.dir)
    (htable : (s.put a x).Maps L.table L.table) : Tables L (s.put a x) := by
  refine ⟨h.cr3, h.early, h.window, h.dir, ?_, fun t ht => ?_, hlt, hdir, htable,
    fun t ht => ?_, fun t₁ h₁ t₂ h₂ => ?_⟩
  · rw [hpde 0 (by omega)]
    exact h.first
  · rw [hpde t ht]
    exact h.pde_lt t ht
  · rw [hpde t ht]
    exact h.notDir t ht
  · rw [hpde t₁ h₁, hpde t₂ h₂]
    exact h.distinct t₁ h₁ t₂ h₂

/-- The entry `x` keeps the page `p` where it is, if the paging code works
through `p`. -/
def OwnEntry (L : Layout) (p x : Nat) : Prop := p = L.dir ∨ p = L.table → x % 2 = 1 ∧ x / 4096 = p

theorem ownEntry_of_ne {L : Layout} {p : Nat} (hpd : p ≠ L.dir) (hpt : p ≠ L.table) (x : Nat) : OwnEntry L p x :=
  fun h => (h.elim hpd hpt).elim

theorem Tables.put_table {L : Layout} (h : Tables L s) {t i x : Nat} (ht : t < 1024) (hi : i < 1024)
    (hpres : s.pde t % 2 = 1) (hx : x < 2 ^ 32) (hown : OwnEntry L (1024 * t + i) x) :
    Tables L (s.put (4096 * (s.pde t / 4096) + 4 * i) x) := by
  have hdir := h.notDir t ht hpres
  have h1 := L.dir_lt; have h2 := L.table_lt
  refine h.keep (fun t' ht' => h.pde_put hdir hi ht') (fun p hp => ?_) ?_ ?_
  · rw [h.entry_put ht hi hpres hdir hp]
    split
    · exact hx
    · exact h.entry_lt p hp
  · rw [PagingState.Maps, h.entry_put ht hi hpres hdir (by omega)]
    split
    · next he => exact he ▸ hown (.inl he.symm)
    · exact h.dirEntry
  · rw [PagingState.Maps, h.entry_put ht hi hpres hdir (by omega)]
    split
    · next he => exact he ▸ hown (.inr he.symm)
    · exact h.tableEntry

theorem Tables.put_other {L : Layout} (h : Tables L s) {f i : Nat} (hf : f ≠ L.dir) (hi : i < 1024)
    (hfree : ∀ t < 1024, s.pde t % 2 = 1 → s.pde t / 4096 ≠ f) (x : Nat) : Tables L (s.put (4096 * f + 4 * i) x) := by
  have h1 := L.dir_lt; have h2 := L.table_lt
  have hsame : ∀ p < 2 ^ 20, (s.put (4096 * f + 4 * i) x).entry p = s.entry p :=
    fun p hp => h.entry_put_other hf hi hfree hp
  refine h.keep (fun t' ht' => h.pde_put hf hi ht') (fun p hp => ?_) (h.dirEntry.congr (hsame _ (by omega)))
    (h.tableEntry.congr (hsame _ (by omega)))
  rw [hsame p hp]
  exact h.entry_lt p hp

/-! ## A new table -/

/-- A store to the directory sets one of its entries. -/
theorem Tables.pde_put_dir {L : Layout} (h : Tables L s) {t x t' : Nat} :
    (s.put (4096 * L.dir + 4 * t) x).pde t' = if t' = t then x else s.pde t' := by
  rw [PagingState.pde, put_pageDirectory, h.dir, put_phys, pde_eq h]
  by_cases he : t' = t
  · rw [if_pos (by omega), if_pos he]
  · rw [if_neg (by omega), if_neg he]

/-- The directory's entry `x` can stand for the table `t`: it is absent, or
its frame is no paging structure yet, and `PT_RW` in every word. -/
structure NewTable (L : Layout) (s : PagingState) (t x : Nat) : Prop where
  low : t < 1024
  pos : 0 < t
  absent : s.pde t % 2 = 0
  lt : x < 2 ^ 32
  notDir : x % 2 = 1 → x / 4096 ≠ L.dir
  fresh : x % 2 = 1 → ∀ t' < 1024, s.pde t' % 2 = 1 → s.pde t' / 4096 ≠ x / 4096
  blank : x % 2 = 1 → ∀ i < 1024, s.phys (4096 * (x / 4096) + 4 * i) = ptRw

/-- A new table shows no page. -/
theorem Tables.entry_put_dir {L : Layout} (h : Tables L s) {t x p : Nat} (hn : NewTable L s t x) (hp : p < 2 ^ 20) :
    (s.put (4096 * L.dir + 4 * t) x).entry p = s.entry p := by
  have htp : p / 1024 < 1024 := by omega
  have ht := hn.low
  rw [PagingState.entry, h.pde_put_dir, PagingState.entry]
  by_cases hsame : p / 1024 = t
  · have habs := hn.absent
    rw [if_pos hsame, hsame, if_neg (show ¬ s.pde t % 2 = 1 by omega)]
    split
    · next hx =>
      have hne := hn.notDir hx
      rw [put_phys, if_neg (by omega)]
      exact hn.blank hx _ (by omega)
    · rfl
  · rw [if_neg hsame]
    split
    · next hpp =>
      have hne := h.notDir _ htp hpp
      rw [put_phys, if_neg (by omega)]
    · rfl

theorem Tables.put_dir {L : Layout} (h : Tables L s) {t x : Nat} (hn : NewTable L s t x) :
    Tables L (s.put (4096 * L.dir + 4 * t) x) := by
  have hpos := hn.pos; have h1 := L.dir_lt; have h2 := L.table_lt
  refine ⟨h.cr3, h.early, h.window, h.dir, ?_, fun t' ht' => ?_, fun p hp => ?_, ?_, ?_,
    fun t' ht' hpres => ?_, fun t₁ h₁ t₂ h₂ hp₁ hp₂ he => ?_⟩
  · rw [h.pde_put_dir, if_neg (by omega)]
    exact h.first
  · rw [h.pde_put_dir]
    split
    · exact hn.lt
    · exact h.pde_lt t' ht'
  · rw [h.entry_put_dir hn hp]
    exact h.entry_lt p hp
  · exact h.dirEntry.congr (h.entry_put_dir hn (by omega))
  · exact h.tableEntry.congr (h.entry_put_dir hn (by omega))
  · rw [h.pde_put_dir] at hpres ⊢
    by_cases he : t' = t
    · rw [if_pos he] at hpres ⊢
      exact hn.notDir hpres
    · rw [if_neg he] at hpres ⊢
      exact h.notDir t' ht' hpres
  · rw [h.pde_put_dir] at hp₁ hp₂ he
    rw [h.pde_put_dir] at he
    by_cases e₁ : t₁ = t
    · by_cases e₂ : t₂ = t
      · rw [e₁, e₂]
      · rw [if_pos e₁] at hp₁ he
        rw [if_neg e₂] at hp₂ he
        exact absurd he.symm (hn.fresh hp₁ t₂ h₂ hp₂)
    · rw [if_neg e₁] at hp₁ he
      by_cases e₂ : t₂ = t
      · rw [if_pos e₂] at hp₂ he
        exact absurd he (hn.fresh hp₂ t₁ h₁ hp₁)
      · rw [if_neg e₂] at hp₂ he
        exact h.distinct t₁ h₁ t₂ h₂ hp₁ hp₂ he

/-! ## The window -/

/-- The window moved to the frame at `a`. -/
def PagingState.aim (s : PagingState) (L : Layout) (a : Nat) : PagingState :=
  (s.put (4096 * L.table + 4 * L.window) (a + 3)).invlpg (4096 * L.window)

@[simp] theorem aim_meminfo (L : Layout) (a : Nat) : (s.aim L a).meminfo = s.meminfo := rfl
@[simp] theorem aim_frames (L : Layout) (a : Nat) : (s.aim L a).frames = s.frames := rfl
@[simp] theorem aim_pageDirectory (L : Layout) (a : Nat) : (s.aim L a).pageDirectory = s.pageDirectory := rfl

theorem Tables.frames {L : Layout} (h : Tables L s) (b : Bitset) : Tables L { s with frames := b } :=
  ⟨h.cr3, h.early, h.window, h.dir, h.first, h.pde_lt, h.entry_lt, h.dirEntry, h.tableEntry, h.notDir, h.distinct⟩

theorem Tables.invlpg {L : Layout} (h : Tables L s) (v : Nat) : Tables L (s.invlpg v) :=
  ⟨h.cr3, h.early, h.window, h.dir, h.first, h.pde_lt, h.entry_lt, h.dirEntry, h.tableEntry, h.notDir, h.distinct⟩

theorem Tables.first_frame {L : Layout} (h : Tables L s) : s.pde 0 / 4096 = L.table := by
  rw [h.first]
  omega

theorem Tables.first_present {L : Layout} (h : Tables L s) : s.pde 0 % 2 = 1 := by
  rw [h.first]
  omega

theorem Tables.aim_pde {L : Layout} (h : Tables L s) {a t : Nat} (ht : t < 1024) : (s.aim L a).pde t = s.pde t := by
  have hw := L.window_le
  exact h.pde_put L.apart.symm (by omega) ht

theorem Tables.aim_entry {L : Layout} (h : Tables L s) {a p : Nat} (hp : p < 2 ^ 20) :
    (s.aim L a).entry p = if p = L.window then a + 3 else s.entry p := by
  have hw := L.window_le
  have he := h.entry_put (t := 0) (i := L.window) (x := a + 3) (by decide) (by omega) h.first_present
    (h.notDir 0 (by decide) h.first_present) hp
  rw [h.first_frame, Nat.mul_zero, Nat.zero_add] at he
  exact he

theorem Tables.aim {L : Layout} (h : Tables L s) {a : Nat} (ha : a + 3 < 2 ^ 32) : Tables L (s.aim L a) := by
  have hw := L.window_le; have h1 := L.dir_ne; have h2 := L.table_ne
  have hput := h.put_table (t := 0) (i := L.window) (by decide) (by omega) h.first_present ha
    (ownEntry_of_ne (by omega) (by omega) _)
  rw [h.first_frame] at hput
  exact hput.invlpg _

theorem Tables.aimed {L : Layout} (h : Tables L s) (a : Nat) : (s.aim L a).entry L.window = a + 3 := by
  have hw := L.window_le
  rw [h.aim_entry (by omega), if_pos rfl]

/-- The directory read by its own address. -/
theorem Tables.tableInDir {L : Layout} (h : Tables L s) {t : Nat} (ht : t < 1024) :
    tableInDir s t s.pageDirectory = some (4096 * (s.pde t / 4096)) := by
  have hd := L.dir_lt
  have hr := h.read_at (by omega) ht h.dirEntry
  rw [← pde_eq h, ← h.dir] at hr
  rw [ShawnOS.tableInDir, hr, Option.bind_eq_bind, Option.bind_some, and_page (h.pde_lt t ht)]
  rfl

/-- The directory read by the window. -/
theorem Tables.tableInDir_window {L : Layout} (h : Tables L s) {t : Nat} (ht : t < 1024)
    (haim : s.entry L.window = s.pageDirectory + 3) :
    ShawnOS.tableInDir s t (4096 * L.window) = some (4096 * (s.pde t / 4096)) := by
  have hw := L.window_le
  rw [h.dir] at haim
  rw [ShawnOS.tableInDir, h.read_at (by omega) ht (maps_of_eq haim), Option.bind_eq_bind, Option.bind_some, ← pde_eq h,
    and_page (h.pde_lt t ht)]
  rfl

/-- **`get_virt_ptr` moves the window.** -/
theorem Tables.getVirtPtr {L : Layout} (h : Tables L s) {a : Nat} (ha : a % 4096 = 0) :
    getVirtPtr s a = some (4096 * L.window, s.aim L a) := by
  have hw := L.window_le; have ht := L.table_lt
  have htab := h.tableInDir (t := 0) (by decide)
  rw [h.first_frame] at htab
  have hidx : 4096 * L.window / pageSize = L.window := by unfold pageSize; omega
  have hwr := h.write_at (by omega) (show L.window < 1024 by omega) h.tableEntry
  rw [ShawnOS.getVirtPtr, kassert_of ha]
  simp only [h.early, h.window, hidx, Nat.div_eq_of_lt (show L.window < 1024 by omega),
    Nat.mod_eq_of_lt (show L.window < 1024 by omega), htab, aligned_or_rw ha, hwr, put_windowPage,
    Option.bind_eq_bind, Option.bind_some, not_true_eq_false, if_false]
  rfl

end ShawnOS
