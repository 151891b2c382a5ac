/-
Runs of clear positions in a bit map, and the scan that looks for one.

`scan` walks the positions from left to right with two registers, where the
run being counted began and how long it is so far, and stops when the count
reaches `n`. `scan_some` and `scan_none`: it finds the leftmost run of `n`
clear positions of the stretch it walks, and nothing exactly when there is
none. `clearCount` counts clear positions; filling a clear run takes its
length off. `take_one` is the step of a list of pairwise apart things that
gives one of them up.
-/
import Mathlib.Algebra.GroupWithZero.Nat
import Mathlib.Data.Finset.Card
import Mathlib.Data.List.Perm.Basic
import Mathlib.Order.Interval.Finset.Nat

namespace Runs

/-- `n` clear positions from `f` on. -/
def ClearRun (u : Nat → Bool) (f n : Nat) : Prop := ∀ j, f ≤ j → j < f + n → u j = false

theorem ClearRun.mono {u : Nat → Bool} {f n g m : Nat} (h : ClearRun u f n) (hg : f ≤ g)
    (hm : g + m ≤ f + n) : ClearRun u g m :=
  fun j h1 h2 => h j (by omega) (by omega)

theorem ClearRun.snoc {u : Nat → Bool} {f n : Nat} (h : ClearRun u f n) (hn : u (f + n) = false) :
    ClearRun u f (n + 1) := by
  intro j h1 h2
  by_cases hj : j = f + n
  · rw [hj]; exact hn
  · exact h j h1 (by omega)

/-- Where every position is set no clear run reaches. -/
theorem ClearRun.apart {u : Nat → Bool} {f n lo hi : Nat} (h : ClearRun u f n)
    (hset : ∀ j, lo ≤ j → j < hi → u j = true) (hn : 0 < n) (hlt : lo < hi) : f + n ≤ lo ∨ hi ≤ f := by
  by_contra hno
  have hclear := h (max f lo) (by omega) (by omega)
  rw [hset (max f lo) (by omega) (by omega)] at hclear
  cases hclear

/-- The leftmost run of `n` clear positions within `[lo, hi)`. -/
structure FirstFit (u : Nat → Bool) (lo hi n f : Nat) : Prop where
  lo_le : lo ≤ f
  le_hi : f + n ≤ hi
  clear : ClearRun u f n
  least : ∀ g, lo ≤ g → g < f → ¬ ClearRun u g n

theorem FirstFit.unique {u : Nat → Bool} {lo hi n f g : Nat} (hf : FirstFit u lo hi n f)
    (hg : FirstFit u lo hi n g) : f = g := by
  rcases Nat.lt_trichotomy f g with h | h | h
  · exact absurd hf.clear (hg.least f hf.lo_le h)
  · exact h
  · exact absurd hg.clear (hf.least g hg.lo_le h)

/-- Look for `n` clear positions among the `rem` from `i` on; `first` and
`count` describe the run that ends at `i`. -/
def scan (u : Nat → Bool) (n : Nat) : (rem i first count : Nat) → Option Nat
  | 0, _, _, _ => none
  | rem + 1, i, first, count =>
    if u i then scan u n rem (i + 1) first 0
    else
      if count + 1 = n then some (if count = 0 then i else first)
      else scan u n rem (i + 1) (if count = 0 then i else first) (count + 1)

/-- What the registers of a scan begun at `lo` say at position `i`. -/
structure ScanInv (u : Nat → Bool) (lo n i first count : Nat) : Prop where
  short : count < n
  lo_le : lo + count ≤ i
  clear : ClearRun u (i - count) count
  began : count ≠ 0 → first = i - count
  least : ∀ g, lo ≤ g → g < i - count → ¬ ClearRun u g n

theorem ScanInv.start {u : Nat → Bool} {lo n first : Nat} (hn : 0 < n) : ScanInv u lo n lo first 0 :=
  ⟨hn, by omega, fun j h1 h2 => by omega, fun h => absurd rfl h, fun g h1 h2 => by omega⟩

theorem ScanInv.first_eq {u : Nat → Bool} {lo n i first count : Nat} (h : ScanInv u lo n i first count) :
    (if count = 0 then i else first) = i - count := by
  split
  · omega
  · exact h.began ‹_›

theorem ScanInv.used {u : Nat → Bool} {lo n i first count : Nat} (h : ScanInv u lo n i first count)
    (hu : u i = true) : ScanInv u lo n (i + 1) first 0 := by
  have := h.short; have := h.lo_le
  refine ⟨by omega, by omega, fun j h1 h2 => by omega, fun h0 => absurd rfl h0, fun g h1 h2 hc => ?_⟩
  -- A run from before the counted one is excluded already; a later one meets `i`.
  by_cases hg : g < i - count
  · exact h.least g h1 hg hc
  · have := hc i (by omega) (by omega)
    rw [hu] at this
    exact Bool.noConfusion this

theorem ScanInv.run {u : Nat → Bool} {lo n i first count : Nat} (h : ScanInv u lo n i first count)
    (hu : u i = false) : ClearRun u (i - count) (count + 1) := by
  have := h.lo_le
  have hi : i - count + count = i := by omega
  exact h.clear.snoc (by rw [hi]; exact hu)

theorem ScanInv.free {u : Nat → Bool} {lo n i first count : Nat} (h : ScanInv u lo n i first count)
    (hu : u i = false) (hn : count + 1 ≠ n) :
    ScanInv u lo n (i + 1) (if count = 0 then i else first) (count + 1) := by
  have := h.short; have := h.lo_le
  have hi : i + 1 - (count + 1) = i - count := by omega
  refine ⟨by omega, by omega, ?_, fun _ => ?_, ?_⟩
  · rw [hi]; exact h.run hu
  · rw [hi]; exact h.first_eq
  · rw [hi]; exact h.least

/-- At the end of the stretch the registers exclude every fit. -/
theorem ScanInv.no_fit {u : Nat → Bool} {lo n hi first count f : Nat} (h : ScanInv u lo n hi first count) :
    ¬ FirstFit u lo hi n f := by
  intro hf
  have h1 := h.short; have h2 := h.lo_le; have h3 := hf.le_hi
  exact h.least f hf.lo_le (by omega) hf.clear

theorem scan_some {u : Nat → Bool} {lo n : Nat} {f : Nat} : ∀ {rem i first count : Nat},
    ScanInv u lo n i first count → scan u n rem i first count = some f → FirstFit u lo (i + rem) n f
  | 0, _, _, _, _, h => by simp [scan] at h
  | rem + 1, i, first, count, hi, h => by
    have e : i + (rem + 1) = i + 1 + rem := by omega
    rw [e]
    unfold scan at h
    by_cases hu : u i = true
    · rw [if_pos hu] at h
      exact scan_some (hi.used hu) h
    · rw [if_neg hu] at h
      have hu : u i = false := by simpa using hu
      by_cases hn : count + 1 = n
      · rw [if_pos hn, hi.first_eq] at h
        have := hi.lo_le
        simp only [Option.some.injEq] at h
        subst h
        exact ⟨by omega, by omega, hn ▸ hi.run hu, hi.least⟩
      · rw [if_neg hn] at h
        exact scan_some (hi.free hu hn) h

theorem scan_none {u : Nat → Bool} {lo n : Nat} : ∀ {rem i first count : Nat},
    ScanInv u lo n i first count → scan u n rem i first count = none →
      ∀ g, lo ≤ g → g + n ≤ i + rem → ¬ ClearRun u g n
  | 0, i, first, count, hi, _ => by
    intro g h1 h2
    have := hi.short; have := hi.lo_le
    exact hi.least g h1 (by omega)
  | rem + 1, i, first, count, hi, h => by
    have e : i + (rem + 1) = i + 1 + rem := by omega
    rw [e]
    unfold scan at h
    by_cases hu : u i = true
    · rw [if_pos hu] at h
      exact scan_none (hi.used hu) h
    · rw [if_neg hu] at h
      have hu : u i = false := by simpa using hu
      by_cases hn : count + 1 = n
      · rw [if_pos hn] at h
        simp at h
      · rw [if_neg hn] at h
        exact scan_none (hi.free hu hn) h

/-- A scan for no positions counts past its target and finds nothing. -/
theorem scan_zero {u : Nat → Bool} : ∀ {rem i first count : Nat}, scan u 0 rem i first count = none
  | 0, _, _, _ => rfl
  | rem + 1, i, first, count => by
    unfold scan
    rw [if_neg (Nat.succ_ne_zero count)]
    split
    · exact scan_zero
    · exact scan_zero

/-- **A whole scan is first fit**: what it finds is the leftmost run of `n`
clear positions of the stretch. -/
theorem scan_eq_some_iff {u : Nat → Bool} {lo rem n first f : Nat} (hn : 0 < n) :
    scan u n rem lo first 0 = some f ↔ FirstFit u lo (lo + rem) n f := by
  constructor
  · exact scan_some (ScanInv.start hn)
  · intro hf
    cases hs : scan u n rem lo first 0 with
    | none => exact absurd hf.clear (scan_none (ScanInv.start hn) hs f hf.lo_le hf.le_hi)
    | some g => rw [(scan_some (ScanInv.start hn) hs).unique hf]

theorem scan_eq_none_iff {u : Nat → Bool} {lo rem n first : Nat} (hn : 0 < n) :
    scan u n rem lo first 0 = none ↔ ∀ g, lo ≤ g → g + n ≤ lo + rem → ¬ ClearRun u g n := by
  constructor
  · exact scan_none (ScanInv.start hn)
  · intro h
    cases hs : scan u n rem lo first 0 with
    | none => rfl
    | some g =>
      have hf := scan_some (ScanInv.start hn) hs
      exact absurd hf.clear (h g hf.lo_le hf.le_hi)

/-! ## Counting clear positions -/

/-- The clear positions below `len`. -/
def clearCount (u : Nat → Bool) (len : Nat) : Nat := ((Finset.range len).filter fun j => u j = false).card

theorem clearCount_le (u : Nat → Bool) (len : Nat) : clearCount u len ≤ len := by
  have := Finset.card_filter_le (Finset.range len) fun j => u j = false
  simpa [clearCount] using this

theorem ClearRun.le_clearCount {u : Nat → Bool} {f n len : Nat} (h : ClearRun u f n) (hl : f + n ≤ len) :
    n ≤ clearCount u len := by
  have hsub : Finset.Ico f (f + n) ⊆ (Finset.range len).filter fun j => u j = false := by
    intro j hj
    simp only [Finset.mem_Ico] at hj
    simp only [Finset.mem_filter, Finset.mem_range]
    exact ⟨by omega, h j hj.1 hj.2⟩
  simpa [clearCount] using Finset.card_le_card hsub

/-- Used up to `r`, clear from there on. -/
theorem clearCount_upTo {u : Nat → Bool} {r len : Nat} (h : ∀ j, j < len → u j = decide (j < r)) :
    clearCount u len = len - r := by
  have he : ((Finset.range len).filter fun j => u j = false) = Finset.Ico r len := by
    ext j
    simp only [Finset.mem_filter, Finset.mem_range, Finset.mem_Ico]
    constructor
    · intro ⟨h1, h2⟩
      rw [h j h1, decide_eq_false_iff_not] at h2
      omega
    · intro ⟨h1, h2⟩
      exact ⟨h2, by rw [h j h2]; exact decide_eq_false (by omega)⟩
  rw [clearCount, he, Nat.card_Ico]

/-- Filling a clear run takes its length off the count. -/
theorem clearCount_fill {u v : Nat → Bool} {f n len : Nat}
    (hv : ∀ j, v j = (u j || decide (f ≤ j ∧ j < f + n))) (h : ClearRun u f n) (hl : f + n ≤ len) :
    clearCount v len + n = clearCount u len := by
  have hsplit : ((Finset.range len).filter fun j => u j = false) =
      ((Finset.range len).filter fun j => v j = false) ∪ Finset.Ico f (f + n) := by
    ext j
    simp only [Finset.mem_filter, Finset.mem_range, Finset.mem_union, Finset.mem_Ico, hv,
      Bool.or_eq_false_iff, decide_eq_false_iff_not]
    constructor
    · intro ⟨h1, h2⟩
      by_cases hj : f ≤ j ∧ j < f + n
      · exact .inr hj
      · exact .inl ⟨h1, h2, hj⟩
    · rintro (⟨h1, h2, -⟩ | ⟨h1, h2⟩)
      · exact ⟨h1, h2⟩
      · exact ⟨by omega, h j h1 h2⟩
  have hdisj : Disjoint ((Finset.range len).filter fun j => v j = false) (Finset.Ico f (f + n)) := by
    rw [Finset.disjoint_left]
    intro j hj hj'
    simp only [Finset.mem_filter, hv, Bool.or_eq_false_iff, decide_eq_false_iff_not] at hj
    simp only [Finset.mem_Ico] at hj'
    exact hj.2.2 hj'
  unfold clearCount
  rw [hsplit, Finset.card_union_of_disjoint hdisj]
  simp

/-! ## Giving one of several up -/

theorem take_one {α : Type} [BEq α] [LawfulBEq α] {R : α → α → Prop} (hR : ∀ {x y}, R x y → R y x)
    {l : List α} {a : α} (h : l.Pairwise R) (ha : a ∈ l) :
    (l.erase a).Pairwise R ∧ ∀ b ∈ l.erase a, R a b := by
  have hp := (List.perm_cons_erase ha).pairwise_iff hR |>.mp h
  rw [List.pairwise_cons] at hp
  exact ⟨hp.2, hp.1⟩

/-- Where there is a run there is a leftmost one. -/
theorem exists_firstFit {u : Nat → Bool} {lo hi n g : Nat} (hn : 0 < n) (h1 : lo ≤ g) (h2 : g + n ≤ hi)
    (hg : ClearRun u g n) : ∃ f, FirstFit u lo hi n f := by
  have he : lo + (hi - lo) = hi := by omega
  cases hs : scan u n (hi - lo) lo 0 0 with
  | none => exact absurd hg ((scan_eq_none_iff hn).mp hs g h1 (by omega))
  | some f =>
    have hf := (scan_eq_some_iff hn).mp hs
    rw [he] at hf
    exact ⟨f, hf⟩

/-! ## Stretches apart -/

/-- Stretches that are apart, below a bound, are together no longer than it. -/
theorem sum_le_of_apart {bound : Nat} : ∀ {l : List (Nat × Nat)}, (∀ r ∈ l, r.1 + r.2 ≤ bound) →
    l.Pairwise (fun r t => r.1 + r.2 ≤ t.1 ∨ t.1 + t.2 ≤ r.1) → (l.map (·.2)).sum ≤ bound := by
  -- The stretches are the members of a set of positions.
  have hset : ∀ {l : List (Nat × Nat)}, (∀ r ∈ l, r.1 + r.2 ≤ bound) →
      l.Pairwise (fun r t => r.1 + r.2 ≤ t.1 ∨ t.1 + t.2 ≤ r.1) → ∃ s : Finset Nat, s ⊆ Finset.range bound ∧
        s.card = (l.map (·.2)).sum ∧ ∀ x ∈ s, ∃ r ∈ l, r.1 ≤ x ∧ x < r.1 + r.2 := by
    intro l
    induction l with
    | nil => exact fun _ _ => ⟨∅, by simp, by simp, by simp⟩
    | cons r l ih =>
      intro hle hap
      rw [List.pairwise_cons] at hap
      obtain ⟨s, hsub, hcard, hmem⟩ := ih (fun t ht => hle t (List.mem_cons_of_mem _ ht)) hap.2
      have hdisj : Disjoint (Finset.Ico r.1 (r.1 + r.2)) s := by
        rw [Finset.disjoint_left]
        intro x hx hx'
        obtain ⟨t, ht, h1, h2⟩ := hmem x hx'
        have := hap.1 t ht
        simp only [Finset.mem_Ico] at hx
        omega
      refine ⟨Finset.Ico r.1 (r.1 + r.2) ∪ s, fun x hx => ?_, ?_, fun x hx => ?_⟩
      · rcases Finset.mem_union.mp hx with hx | hx
        · have := hle r List.mem_cons_self
          simp only [Finset.mem_Ico] at hx
          exact Finset.mem_range.mpr (by omega)
        · exact hsub hx
      · rw [Finset.card_union_of_disjoint hdisj, hcard]
        simp
      · rcases Finset.mem_union.mp hx with hx | hx
        · exact ⟨r, List.mem_cons_self, by simpa using hx⟩
        · obtain ⟨t, ht, hx⟩ := hmem x hx
          exact ⟨t, List.mem_cons_of_mem _ ht, hx⟩
  intro l hle hap
  obtain ⟨s, hsub, hcard, -⟩ := hset hle hap
  rw [← hcard]
  simpa using Finset.card_le_card hsub

end Runs
