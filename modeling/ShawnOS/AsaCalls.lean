/-
What `asa_free` gives back, and what `asa_alloc` never hands out.

The loop of `asa_free` ends at the page of index `n_pages`, and not at the
end of the range: no allocation is ever undone. Pages below `KVIRT_RESERVED`
stay used; the ASSERT of `i386_paging_init` lets the window be the first page
above them.
-/
import ShawnOS.AsaFacts
import ShawnOS.Paging

namespace ShawnOS

open Word32 Runs

/-- A call of the allocator, with any arguments. -/
inductive AsaCall : Asa → Asa → Prop
  | alloc {a a' : Asa} {addr n : Nat} : asaAlloc a n = some (addr, a') → AsaCall a a'
  | free {a a' : Asa} {addr n : Nat} {r : KReturn} : asaFree a addr n = some (r, a') → AsaCall a a'

/-- A call that frees nothing below `KVIRT_RESERVED`. -/
inductive AsaHighCall : Asa → Asa → Prop
  | alloc {a a' : Asa} {addr n : Nat} : asaAlloc a n = some (addr, a') → AsaHighCall a a'
  | free {a a' : Asa} {addr n : Nat} {r : KReturn} : kvirtReserved ≤ addr → asaFree a addr n = some (r, a') →
      AsaHighCall a a'

/-- The size of the allocator's pages and of their bitset. -/
structure AsaSized (a : Asa) : Prop where
  pageSize : a.pageSize = 4096
  length : a.pages.length = 0x3FFFF

theorem AsaUpTo.sized {a : Asa} {c : Nat} (h : AsaUpTo a c) : AsaSized a := ⟨h.pageSize, h.length⟩

theorem AsaSized.length_lt {a : Asa} (h : AsaSized a) : a.pages.length < 2 ^ 32 := by
  rw [h.length]
  decide

theorem AsaSized.call {a a' : Asa} (h : AsaSized a) (hc : AsaCall a a') : AsaSized a' := by
  cases hc with
  | @alloc addr n he =>
    rcases asaAlloc_cases h.length_lt (n := n) with ⟨h0, -⟩ | ⟨f, pages, -, -, hp, h1⟩
    · cases he.symm.trans h0
      exact h
    · cases he.symm.trans h1
      exact ⟨h.pageSize, hp.length.trans h.length⟩
  | free he =>
    obtain ⟨hps, hw⟩ := asaFree_wiped he
    exact ⟨hps.trans h.pageSize, hw.length.trans h.length⟩

/-- What a successful `asa_alloc` takes. -/
theorem AsaSized.alloc {a a' : Asa} (h : AsaSized a) {n addr : Nat} (he : asaAlloc a n = some (addr, a')) (hne : addr ≠ 0) :
    0 < n ∧ addr % 4096 = 0 ∧ FirstFit a.pages.bit 0 a.pages.length n (addr / 4096) ∧
      a.pages.Filled a'.pages (addr / 4096) n ∧ a'.pageSize = 4096 := by
  rcases asaAlloc_cases h.length_lt (n := n) with ⟨h0, -⟩ | ⟨f, pages, hn, hf, hp, h1⟩
  · cases he.symm.trans h0
    exact absurd rfl hne
  · have hle := hf.le_hi
    rw [h.length] at hle
    rw [h.pageSize, u32_of_lt (by omega)] at h1
    cases he.symm.trans h1
    rw [show f * 4096 / 4096 = f by omega]
    exact ⟨hn, by omega, hf, hp, rfl⟩

/-! ## Undoing an allocation -/

/-- `asa_free` puts the bitset back. -/
def Undone (a a' : Asa) (addr n : Nat) : Prop :=
  ∃ r a'', asaFree a' addr n = some (r, a'') ∧ ∀ j < a.pages.length, a''.pages.bit j = a.pages.bit j

/-- The last page of the range stays used. -/
theorem AsaSized.not_undone {a a' : Asa} (h : AsaSized a) {n addr : Nat} (he : asaAlloc a n = some (addr, a'))
    (hne : addr ≠ 0) : ¬ Undone a a' addr n := by
  obtain ⟨hn, hal, hf, hp, hps⟩ := h.alloc he hne
  rintro ⟨r, a'', hfree, hback⟩
  obtain ⟨-, hw⟩ := asaFree_wiped hfree
  rw [hps] at hw
  have hle := hf.le_hi
  -- The loop stops before page `n`, and the range starts above page 0.
  have hlast := hback (addr / 4096 + n - 1) (by omega)
  rw [hw.outside (by omega), hp.inside (by omega) (by omega), hf.clear _ (by omega) (by omega)] at hlast
  cases hlast

/-- **`asa_free` never undoes `asa_alloc`**, in any state that calls lead to
from `asa_init`. -/
theorem asa_free_never_undoes {σ : Type} (ki : KallocInterface σ) (mem : Nat → Word) (a₀ a₁ : Asa) (s s' : σ)
    (hinit : asaInit ki mem a₀ 4096 s = some ((.success, a₁), s')) (a : Asa)
    (hrun : Relation.ReflTransGen AsaCall a₁ a) (n addr : Nat) (a' : Asa) (he : asaAlloc a n = some (addr, a'))
    (hne : addr ≠ 0) : ¬ Undone a a' addr n := by
  have h : AsaSized a := by
    clear he hne
    induction hrun with
    | refl => exact (asaInit_upTo hinit).sized
    | tail _ hc ih => exact ih.call hc
  exact h.not_undone he hne

/-- One page. -/
theorem asa_free_never_undoes_one : ∃ a₀ a',
    asaInit placeAt12b000 (fun _ => 0) ⟨⟨0, 0, fun _ => 0⟩, 0⟩ 4096 () = some ((.success, a₀), ()) ∧
    asaAlloc a₀ 1 = some (0x17c000, a') ∧ ¬ Undone a₀ a' 0x17c000 1 := by
  have hk : kmalloc placeAt12b000 32768 kallocCritical () = some (0x12b000, ()) := rfl
  obtain ⟨a₀, h0⟩ := asaInit_ok (fun _ => 0) ⟨⟨0, 0, fun _ => 0⟩, 0⟩ hk (by decide)
  obtain ⟨a', h1, -⟩ := (asaInit_upTo h0).alloc (n := 1) (by decide) (by decide)
  exact ⟨a₀, a', h0, h1, asa_free_never_undoes _ _ _ a₀ () () h0 a₀ .refl 1 _ a' h1 (by decide)⟩

/-- One page: freeing it clears no bit. -/
theorem asa_free_clears_nothing : ∃ a₀ a' a'',
    asaInit placeAt12b000 (fun _ => 0) ⟨⟨0, 0, fun _ => 0⟩, 0⟩ 4096 () = some ((.success, a₀), ()) ∧
    asaAlloc a₀ 1 = some (0x17c000, a') ∧ asaFree a' 0x17c000 1 = some (.success, a'') ∧
    a₀.pages.bit 380 = false ∧ a''.pages.bit 380 = true := by
  have hk : kmalloc placeAt12b000 32768 kallocCritical () = some (0x12b000, ()) := rfl
  obtain ⟨a₀, h0⟩ := asaInit_ok (fun _ => 0) ⟨⟨0, 0, fun _ => 0⟩, 0⟩ hk (by decide)
  have hup := asaInit_upTo h0
  obtain ⟨a', h1, hup'⟩ := hup.alloc (n := 1) (by decide) (by decide)
  obtain ⟨a'', h2⟩ := @asaFree_ok a' 0x17c000 1 (by rw [hup'.pageSize, hup'.length]; decide)
  obtain ⟨-, hw⟩ := asaFree_wiped h2
  rw [hup'.pageSize] at hw
  refine ⟨a₀, a', a'', h0, h1, h2, hup.bit 380 (by decide), ?_⟩
  rw [hw.outside (by decide), hup'.bit 380 (by decide)]
  rfl

/-! ## The window and the early heap -/

/-- `highest_page + PAGE_SIZE`, as `i386_paging_init` computes it. -/
def windowPageOf (heapStart : Nat) : Nat := u32 (u32 (heapStart + earlyHeapMaxsize) + pageSize)

/-- What the ASSERT of `i386_paging_init` accepts, and where the window is
then. -/
theorem i386PagingInit_window {s s' : PagingState} (h : i386PagingInit s = some s') :
    s'.windowPage = windowPageOf s'.meminfo.kernelHeapStart ∧ windowPageOf s'.meminfo.kernelHeapStart ≤ kvirtReserved := by
  simp only [i386PagingInit, Option.bind_eq_bind, Option.bind_eq_some_iff, kassert_eq_some, Option.pure_def] at h
  obtain ⟨⟨ret, s₁⟩, -, -, -, s₂, -, -, hassert, hs⟩ := h
  cases hs
  exact ⟨rfl, hassert⟩

/-- The pages of a range. -/
def asaPages (addr n : Nat) : Set Nat := Set.Ico (addr / 4096) (addr / 4096 + n)

/-- No run of calls hands out the window's page, or one of the early heap. -/
def KeepsOffBoot (a₁ : Asa) (heapStart : Nat) : Prop :=
  ∀ a, Relation.ReflTransGen AsaHighCall a₁ a → ∀ n addr a', asaAlloc a n = some (addr, a') → addr ≠ 0 →
    windowPageOf heapStart / pageSize ∉ asaPages addr n ∧
      ∀ k < earlyHeapMaxsize, u32 (heapStart + k) / pageSize ∉ asaPages addr n

/-- The pages below `KVIRT_RESERVED` are used. -/
structure AsaReserved (a : Asa) : Prop extends AsaSized a where
  reserved : ∀ j < 380, a.pages.bit j = true

theorem AsaReserved.call {a a' : Asa} (h : AsaReserved a) (hc : AsaHighCall a a') : AsaReserved a' := by
  cases hc with
  | @alloc addr n he =>
    refine ⟨h.toAsaSized.call (.alloc he), fun j hj => ?_⟩
    rcases asaAlloc_cases h.length_lt (n := n) with ⟨h0, -⟩ | ⟨f, pages, -, -, hp, h1⟩
    · cases he.symm.trans h0
      exact h.reserved j hj
    · cases he.symm.trans h1
      exact hp.mono (h.reserved j hj)
  | @free addr n r hge he =>
    refine ⟨h.toAsaSized.call (.free he), fun j hj => ?_⟩
    obtain ⟨-, hw⟩ := asaFree_wiped he
    unfold kvirtReserved at hge
    rw [h.pageSize] at hw
    rw [hw.outside (by omega)]
    exact h.reserved j hj

/-- A range that `asa_alloc` returns lies in `[KVIRT_RESERVED, KVIRT_MAX)`. -/
theorem AsaReserved.pages {a a' : Asa} (h : AsaReserved a) {n addr : Nat} (he : asaAlloc a n = some (addr, a'))
    (hne : addr ≠ 0) : asaPages addr n ⊆ Set.Ico 380 0x3FFFF := by
  obtain ⟨-, -, hf, -⟩ := h.toAsaSized.alloc he hne
  have hle := hf.le_hi
  rw [h.length] at hle
  intro p hp
  simp only [asaPages, Set.mem_Ico] at hp
  refine ⟨?_, by omega⟩
  by_contra hlow
  have hclear := hf.clear p hp.1 hp.2
  rw [h.reserved p (by omega)] at hclear
  cases hclear

/-- **When `asa_alloc` keeps off the window and the early heap**: exactly
when the window lies below `KVIRT_RESERVED`. -/
theorem asa_keeps_off_boot_iff {σ : Type} (ki : KallocInterface σ) (mem : Nat → Word) (a₀ a₁ : Asa) (s s' : σ)
    (hinit : asaInit ki mem a₀ 4096 s = some ((.success, a₁), s')) (heapStart : Nat)
    (hassert : windowPageOf heapStart ≤ kvirtReserved) :
    KeepsOffBoot a₁ heapStart ↔ windowPageOf heapStart < kvirtReserved := by
  have hup := asaInit_upTo hinit
  constructor
  · intro hoff
    by_contra hge
    -- The first page handed out is the window.
    have hw : windowPageOf heapStart = kvirtReserved := by omega
    obtain ⟨a', he, -⟩ := hup.alloc (n := 1) (by decide) (by decide)
    have hnot := (hoff a₁ .refl 1 _ a' he (by decide)).1
    rw [hw] at hnot
    exact hnot ⟨by decide, by decide⟩
  · intro hw a hrun n addr a' he hne
    have h : AsaReserved a := by
      clear he hne
      induction hrun with
      | refl => exact ⟨hup.sized, fun j hj => (hup.bit j (by omega)).trans (decide_eq_true hj)⟩
      | tail _ hc ih => exact ih.call hc
    have hsub := h.pages he hne
    have hpages (p : Nat) (hp : p < 380 ∨ 0x3FFFF ≤ p) : p ∉ asaPages addr n := by
      intro hmem
      obtain ⟨h1, h2⟩ := hsub hmem
      omega
    unfold windowPageOf u32 earlyHeapMaxsize pageSize kvirtReserved at hw
    refine ⟨hpages _ ?_, fun k hk => hpages _ ?_⟩
    · unfold windowPageOf u32 earlyHeapMaxsize pageSize
      omega
    · unfold u32 pageSize
      unfold earlyHeapMaxsize at hk
      omega

/-- The heap of a kernel that ends at `0x110000`. -/
theorem asa_keeps_off_boot_low : ∃ a₁,
    asaInit placeAt12b000 (fun _ => 0) ⟨⟨0, 0, fun _ => 0⟩, 0⟩ 4096 () = some ((.success, a₁), ()) ∧
    KeepsOffBoot a₁ 0x111000 := by
  have hk : kmalloc placeAt12b000 32768 kallocCritical () = some (0x12b000, ()) := rfl
  obtain ⟨a₁, h0⟩ := asaInit_ok (fun _ => 0) ⟨⟨0, 0, fun _ => 0⟩, 0⟩ hk (by decide)
  exact ⟨a₁, h0, (asa_keeps_off_boot_iff _ _ _ a₁ () () h0 0x111000 (by decide)).mpr (by decide)⟩

/-- The last heap start that the ASSERT accepts: the first page handed out is
the window. -/
theorem asa_alloc_hands_out_window : windowPageOf 0x12b000 ≤ kvirtReserved ∧ ∃ a₁ a',
    asaInit placeAt12b000 (fun _ => 0) ⟨⟨0, 0, fun _ => 0⟩, 0⟩ 4096 () = some ((.success, a₁), ()) ∧
    asaAlloc a₁ 1 = some (windowPageOf 0x12b000, a') := by
  have hk : kmalloc placeAt12b000 32768 kallocCritical () = some (0x12b000, ()) := rfl
  obtain ⟨a₁, h0⟩ := asaInit_ok (fun _ => 0) ⟨⟨0, 0, fun _ => 0⟩, 0⟩ hk (by decide)
  obtain ⟨a', h1, -⟩ := (asaInit_upTo h0).alloc (n := 1) (by decide) (by decide)
  exact ⟨by decide, a₁, a', h0, h1⟩

end ShawnOS
