/-
The address space allocator hands out disjoint ranges.

`asaAlloc_cases` says once what `asa_alloc` does: it takes the leftmost run
of clear pages (`Runs.FirstFit`), or changes nothing. `AsaInv` is what any
sequence of allocations and frees keeps; `asa_free` clears pages of the
range it is given only (often fewer than all of them), which is all the
invariant needs of it.
-/
import ShawnOS.Asa
import Mathlib.Data.Set.Lattice
import Mathlib.Logic.Relation
import Mathlib.Order.CompletePartialOrder
import Mathlib.Order.Interval.Set.Basic

namespace ShawnOS

open Word32 Runs

/-! ## One call -/

/-- The loop is the scan of `Lib.Runs`, followed by setting the run found. -/
theorem asaAllocLoop_eq {a : Asa} {n : Nat} (hl : a.pages.length < 2 ^ 32) :
    ∀ {rem i first count : Nat}, i + rem = a.pages.length → count ≤ i →
      asaAllocLoop a n rem i first count =
        match scan a.pages.bit n rem i first count with
        | none => some (0, a)
        | some f => (bitsetSetBits a.pages f n).map fun pages => (u32 (f * a.pageSize), { a with pages })
  | 0, _, _, _, _, _ => rfl
  | rem + 1, i, first, count, hi, hc => by
    have hlt : i < a.pages.length := by omega
    have hu : u32 (count + 1) = count + 1 := u32_of_lt (by omega)
    have hz := (bitsetGetBit_zero (bitsetGetBit_eq hlt)).2
    simp only [asaAllocLoop, scan, bitsetGetBit_eq hlt, hu, bind, Option.bind_some, hz]
    by_cases hb : a.pages.bit i = true
    · rw [if_neg (by simp [hb]), if_pos hb]
      exact asaAllocLoop_eq hl (by omega) (by omega)
    · rw [if_pos (by simpa using hb), if_neg hb]
      by_cases hn : count + 1 = n
      · rw [if_pos hn, if_pos hn, hn]
        simp only [Option.map_eq_bind]
        rfl
      · rw [if_neg hn, if_neg hn]
        exact asaAllocLoop_eq hl (by omega) (by omega)

/-- Taking the leftmost run of `n` clear pages. -/
theorem asaAlloc_of_firstFit {a : Asa} {n f : Nat} (hl : a.pages.length < 2 ^ 32) (hn : 0 < n)
    (hf : FirstFit a.pages.bit 0 a.pages.length n f) :
    ∃ pages, asaAlloc a n = some (u32 (f * a.pageSize), { a with pages }) ∧ a.pages.Filled pages f n := by
  have hs : scan a.pages.bit n a.pages.length 0 0 0 = some f :=
    (scan_eq_some_iff hn).mpr (by rw [Nat.zero_add]; exact hf)
  obtain ⟨pages, hp⟩ := bitsetSetBits_ok (b := a.pages) (i := f) (n := n) hf.le_hi
  refine ⟨pages, ?_, bitsetSetBits_filled hp⟩
  rw [asaAlloc, asaAllocLoop_eq hl (by omega) (by omega), hs]
  simp [hp]

/-- What `asa_alloc` can do: nothing, when no run of clear pages is long
enough, or take the leftmost one. -/
theorem asaAlloc_cases {a : Asa} {n : Nat} (hl : a.pages.length < 2 ^ 32) :
    (asaAlloc a n = some (0, a) ∧
      ∀ g, 0 < n → g + n ≤ a.pages.length → ¬ ClearRun a.pages.bit g n) ∨
    ∃ f pages, 0 < n ∧ FirstFit a.pages.bit 0 a.pages.length n f ∧ a.pages.Filled pages f n ∧
      asaAlloc a n = some (u32 (f * a.pageSize), { a with pages }) := by
  rcases Nat.eq_zero_or_pos n with rfl | hn
  · refine .inl ⟨?_, fun g h => by omega⟩
    rw [asaAlloc, asaAllocLoop_eq hl (by omega) (by omega), scan_zero]
  cases hs : scan a.pages.bit n a.pages.length 0 0 0 with
  | none =>
    refine .inl ⟨?_, fun g _ hg => (scan_eq_none_iff hn).mp hs g (Nat.zero_le _) (by omega)⟩
    rw [asaAlloc, asaAllocLoop_eq hl (by omega) (by omega), hs]
  | some f =>
    have hf := (scan_eq_some_iff hn).mp hs
    rw [Nat.zero_add] at hf
    obtain ⟨pages, h1, h2⟩ := asaAlloc_of_firstFit hl hn hf
    exact .inr ⟨f, pages, hn, hf, h2, h1⟩

/-- With the bitset `asa_init` makes, an address is a word. -/
theorem page_address_lt {a : Asa} {f : Nat} (hlen : a.pages.length = kvirtMax / a.pageSize) (hf : f ≤ a.pages.length) :
    f * a.pageSize < 2 ^ 32 := by
  have hle : f * a.pageSize ≤ kvirtMax := by
    rw [hlen] at hf
    exact (Nat.mul_le_mul_right _ hf).trans (Nat.div_mul_le_self _ _)
  exact Nat.lt_of_le_of_lt hle (by decide)

/-- **`asa_alloc` is exact first fit**: `NULL` and no change exactly when no
run of clear pages is long enough, and else the lowest such run. -/
theorem asaAlloc_exact {a : Asa} {n : Nat} (hlen : a.pages.length = kvirtMax / a.pageSize)
    (hzero : a.pages.bit 0 = true) (hn : 1 ≤ n) :
    (asaAlloc a n = some (0, a) ↔ ¬ ∃ g, g + n ≤ a.pages.length ∧ ClearRun a.pages.bit g n) ∧
    ((∃ g, g + n ≤ a.pages.length ∧ ClearRun a.pages.bit g n) →
      ∃ f pages, FirstFit a.pages.bit 0 a.pages.length n f ∧ a.pages.Filled pages f n ∧ f * a.pageSize ≠ 0 ∧
        asaAlloc a n = some (f * a.pageSize, { a with pages })) := by
  have hl : a.pages.length < 2 ^ 32 := by
    rw [hlen]
    exact Nat.lt_of_le_of_lt (Nat.div_le_self _ _) (by decide)
  rcases @asaAlloc_cases a n hl with ⟨hnull, hno⟩ | ⟨f, pages, -, hfit, hfill, halloc⟩
  · have hnone : ¬ ∃ g, g + n ≤ a.pages.length ∧ ClearRun a.pages.bit g n := fun ⟨g, hg, hrun⟩ => hno g hn hg hrun
    exact ⟨iff_of_true hnull hnone, fun h => absurd h hnone⟩
  · have hle := hfit.le_hi
    have hf : f ≠ 0 := by
      intro h0
      have hclear := hfit.clear 0 (by omega) (by omega)
      rw [hzero] at hclear
      cases hclear
    have hsize : a.pageSize ≠ 0 := by
      intro h0
      rw [h0, Nat.div_zero] at hlen
      omega
    have haddr : f * a.pageSize ≠ 0 := Nat.mul_ne_zero hf hsize
    rw [u32_of_lt (page_address_lt hlen (by omega))] at halloc
    refine ⟨iff_of_false (fun hnull => ?_) fun h => h ⟨f, hle, hfit.clear⟩,
      fun _ => ⟨f, pages, hfit, hfill, haddr, halloc⟩⟩
    rw [halloc, Option.some.injEq, Prod.mk.injEq] at hnull
    exact haddr hnull.1

/-- Every page used but the third and fourth. -/
def twoPagesClear : Asa := ⟨⟨0x3FFFF, 0, fun i => if i = 0 then 0xFFFFFFF3 else 0xFFFFFFFF⟩, 4096⟩

theorem asaAlloc_exact_two : ∃ f pages, FirstFit twoPagesClear.pages.bit 0 0x3FFFF 2 f ∧
    asaAlloc twoPagesClear 2 = some (f * 4096, { twoPagesClear with pages }) := by
  obtain ⟨f, pages, hfit, -, -, halloc⟩ := (@asaAlloc_exact twoPagesClear 2 (by decide) (by decide) (by decide)).2
    ⟨2, by decide, fun j h1 h2 => by
      obtain rfl | rfl : j = 2 ∨ j = 3 := by omega
      · decide
      · decide⟩
  exact ⟨f, pages, hfit, halloc⟩

theorem asaFree_wiped {a a' : Asa} {addr n : Nat} {r : KReturn} (h : asaFree a addr n = some (r, a')) :
    a'.pageSize = a.pageSize ∧
      a.pages.Wiped a'.pages (addr / a.pageSize) (n - addr / a.pageSize) := by
  simp only [asaFree, bind, Option.bind_eq_some_iff, pure, Option.some.injEq, Prod.mk.injEq] at h
  obtain ⟨pages, hp, -, rfl⟩ := h
  exact ⟨rfl, bitsetClearBits_wiped hp⟩

theorem asaFree_ok {a : Asa} {addr n : Nat} (h : addr / a.pageSize + n ≤ a.pages.length) :
    ∃ a', asaFree a addr n = some (.success, a') := by
  obtain ⟨pages, hp⟩ := bitsetClearBits_ok (b := a.pages) (i := addr / a.pageSize)
    (n := n - addr / a.pageSize) (by generalize addr / a.pageSize = i at h; omega)
  exact ⟨{ a with pages }, by simp [asaFree, hp]⟩

/-- Exactly the pages below `c` are used. -/
structure AsaUpTo (a : Asa) (c : Nat) : Prop where
  pageSize : a.pageSize = 4096
  length : a.pages.length = 0x3FFFF
  bit : ∀ j, j < 0x3FFFF → a.pages.bit j = decide (j < c)

/-- What `asa_init` leaves: everything below `KVIRT_RESERVED` used, every
other page clear. -/
theorem asaInit_upTo {σ : Type} {ki : KallocInterface σ} {mem : Nat → Word} {a a' : Asa} {s s' : σ}
    (h : asaInit ki mem a 4096 s = some ((.success, a'), s')) : AsaUpTo a' 380 := by
  simp only [asaInit, bind, Option.bind_eq_some_iff] at h
  obtain ⟨⟨start, t⟩, -, h⟩ := h
  split at h
  · simp at h
  simp only [Option.bind_eq_some_iff, pure, Option.some.injEq, Prod.mk.injEq, true_and] at h
  obtain ⟨pages, hp, rfl, -⟩ := h
  have hf := bitsetSetBits_filled hp
  refine ⟨rfl, hf.length, fun j hj => ?_⟩
  have h0 : (bitsetInit (fun i => mem (start + 4 * i)) start (kvirtMax / 4096)).bit j = false :=
    bitsetInit_bit (by decide) (by rw [show kvirtMax / 4096 = 0x3FFFF by decide]; exact hj)
  rw [hf.bit, h0, Bool.false_or]
  exact decide_eq_decide.mpr (by rw [show kvirtReserved / 4096 = 380 by decide]; omega)

/-- `asa_init` succeeds when its provider finds room for the bitset. -/
theorem asaInit_ok {σ : Type} {ki : KallocInterface σ} (mem : Nat → Word) (a : Asa) {s s' : σ}
    {start : Nat} (hk : kmalloc ki 32768 kallocCritical s = some (start, s')) (h0 : start ≠ 0) :
    ∃ a', asaInit ki mem a 4096 s = some ((.success, a'), s') := by
  have e : u32 (divRoundUp (kvirtMax / 4096) 32 * sizeofU32) = 32768 := by decide
  obtain ⟨pages, hp⟩ := bitsetSetBits_ok (b := bitsetInit (fun i => mem (start + 4 * i)) start (kvirtMax / 4096)) (i := 0)
    (n := kvirtReserved / 4096) (by simp only [bitsetInit]; decide)
  exact ⟨{ pages, pageSize := 4096 }, by simp [asaInit, e, hk, h0, hp]⟩

theorem AsaUpTo.firstFit {a : Asa} {c n : Nat} (h : AsaUpTo a c) (hn : 0 < n) (hc : c + n ≤ 0x3FFFF) :
    FirstFit a.pages.bit 0 a.pages.length n c := by
  refine ⟨Nat.zero_le _, by rw [h.length]; exact hc, fun j h1 h2 => ?_, fun g _ h2 hg => ?_⟩
  · rw [h.bit j (by omega)]
    exact decide_eq_false (by omega)
  · have hu := hg g (Nat.le_refl g) (by omega)
    rw [h.bit g (by omega), decide_eq_true h2] at hu
    exact Bool.noConfusion hu

/-- Above its used pages an allocator hands out pages in order. -/
theorem AsaUpTo.alloc {a : Asa} {c n : Nat} (h : AsaUpTo a c) (hn : 0 < n) (hc : c + n ≤ 0x3FFFF) :
    ∃ a', asaAlloc a n = some (c * 4096, a') ∧ AsaUpTo a' (c + n) := by
  have hf := h.firstFit hn hc
  obtain ⟨pages, h1, h2⟩ := asaAlloc_of_firstFit (by rw [h.length]; decide) hn hf
  rw [h.pageSize, u32_of_lt (by omega)] at h1
  refine ⟨_, h1, rfl, h2.length.trans h.length, fun j hj => ?_⟩
  rw [h2.bit, h.bit j hj, ← Bool.decide_or]
  exact decide_eq_decide.mpr (by omega)

/-! ## Runs -/

/-- The bytes of a range of pages given as `asa_free` is given it. -/
def asaRange (r : Nat × Nat) : Set Nat := Set.Ico r.1 (r.1 + 4096 * r.2)

/-- One call of the allocator, with the list of live ranges. -/
inductive AsaStep : Asa × List (Nat × Nat) → Asa × List (Nat × Nat) → Prop
  | alloc {a a' live addr n} : asaAlloc a n = some (addr, a') → addr ≠ 0 →
      AsaStep (a, live) (a', (addr, n) :: live)
  | null {a a' live n} : asaAlloc a n = some (0, a') → AsaStep (a, live) (a', live)
  | free {a a' live addr n r} : (addr, n) ∈ live → asaFree a addr n = some (r, a') →
      AsaStep (a, live) (a', live.erase (addr, n))

/-- A live range: whole pages above `KVIRT_RESERVED`, all marked used. -/
structure AsaLive (a : Asa) (r : Nat × Nat) : Prop where
  pos : 0 < r.2
  aligned : r.1 % 4096 = 0
  low : 380 ≤ r.1 / 4096
  high : r.1 / 4096 + r.2 ≤ a.pages.length
  used : ∀ j, r.1 / 4096 ≤ j → j < r.1 / 4096 + r.2 → a.pages.bit j = true

/-- Two ranges of pages apart. -/
def PagesApart (r t : Nat × Nat) : Prop :=
  r.1 / 4096 + r.2 ≤ t.1 / 4096 ∨ t.1 / 4096 + t.2 ≤ r.1 / 4096

theorem PagesApart.symm {r t : Nat × Nat} (h : PagesApart r t) : PagesApart t r := Or.symm h

/-- The invariant of the allocator. -/
structure AsaInv (a : Asa) (live : List (Nat × Nat)) : Prop where
  pageSize : a.pageSize = 4096
  length : a.pages.length = 0x3FFFF
  reserved : ∀ j, j < 380 → a.pages.bit j = true
  isLive : ∀ r ∈ live, AsaLive a r
  apart : live.Pairwise PagesApart

theorem AsaUpTo.inv {a : Asa} (h : AsaUpTo a 380) : AsaInv a [] := by
  refine ⟨h.pageSize, h.length, fun j hj => ?_, by simp, List.Pairwise.nil⟩
  rw [h.bit j (by omega)]
  exact decide_eq_true hj

/-- A run of clear pages is apart from a live range. -/
theorem AsaLive.apart_of_clear {a : Asa} {r : Nat × Nat} {f n : Nat} (h : AsaLive a r)
    (hc : ClearRun a.pages.bit f n) (hn : 0 < n) :
    f + n ≤ r.1 / 4096 ∨ r.1 / 4096 + r.2 ≤ f :=
  hc.apart h.used hn (Nat.lt_add_of_pos_right h.pos)

theorem AsaInv.length_lt {a : Asa} {live : List (Nat × Nat)} (h : AsaInv a live) :
    a.pages.length < 2 ^ 32 := by rw [h.length]; decide

/-- The page a run found by `asa_alloc` starts at, as an address. -/
theorem AsaInv.firstFit {a : Asa} {live : List (Nat × Nat)} {f n : Nat} (h : AsaInv a live) (hn : 0 < n)
    (hf : FirstFit a.pages.bit 0 a.pages.length n f) :
    380 ≤ f ∧ u32 (f * a.pageSize) = f * 4096 := by
  have hle := hf.le_hi
  rw [h.length] at hle
  have hlow : 380 ≤ f := by
    have hapart := hf.clear.apart (fun j _ hj => h.reserved j hj) hn (show 0 < 380 by omega)
    omega
  refine ⟨hlow, ?_⟩
  rw [h.pageSize]
  exact u32_of_lt (by omega)

theorem AsaInv.alloc {a : Asa} {live : List (Nat × Nat)} {f n : Nat} {pages : Bitset} (h : AsaInv a live)
    (hn : 0 < n) (hf : FirstFit a.pages.bit 0 a.pages.length n f) (hp : a.pages.Filled pages f n) :
    AsaInv { a with pages } ((f * 4096, n) :: live) := by
  have hlow := (h.firstFit hn hf).1
  have hdiv : f * 4096 / 4096 = f := by omega
  refine ⟨h.pageSize, hp.length.trans h.length, fun j hj => hp.mono (h.reserved j hj), ?_, ?_⟩
  · intro r hr
    rcases List.mem_cons.mp hr with rfl | hr
    · refine ⟨hn, by simp, by simp only [hdiv]; exact hlow, ?_, ?_⟩
      · simp only [hdiv, hp.length]; exact hf.le_hi
      · simp only [hdiv]; exact fun j h1 h2 => hp.inside h1 h2
    · have hl := h.isLive r hr
      exact ⟨hl.pos, hl.aligned, hl.low, by simpa [hp.length] using hl.high,
        fun j h1 h2 => hp.mono (hl.used j h1 h2)⟩
  · refine List.pairwise_cons.mpr ⟨fun r hr => ?_, h.apart⟩
    simp only [PagesApart, hdiv]
    exact (h.isLive r hr).apart_of_clear hf.clear hn

theorem AsaInv.free {a a' : Asa} {live : List (Nat × Nat)} {addr n : Nat} {r : KReturn} (h : AsaInv a live)
    (hm : (addr, n) ∈ live) (hf : asaFree a addr n = some (r, a')) :
    AsaInv a' (live.erase (addr, n)) := by
  obtain ⟨hps, hw⟩ := asaFree_wiped hf
  rw [h.pageSize] at hw
  obtain ⟨hap, hoff⟩ := take_one PagesApart.symm h.apart hm
  have hx := h.isLive _ hm
  have hlow : 380 ≤ addr / 4096 := hx.low
  refine ⟨hps.trans h.pageSize, hw.length.trans h.length, fun j hj => ?_, fun t ht => ?_, hap⟩
  · rw [hw.outside (by omega)]; exact h.reserved j hj
  · have hl := h.isLive t (List.mem_of_mem_erase ht)
    refine ⟨hl.pos, hl.aligned, hl.low, by rw [hw.length]; exact hl.high, fun j h1 h2 => ?_⟩
    -- The pages cleared are pages of the range given up, which `t` is apart from.
    have ho := hoff t ht
    simp only [PagesApart] at ho
    rw [hw.outside (by omega)]
    exact hl.used j h1 h2

theorem AsaInv.step {s t : Asa × List (Nat × Nat)} (h : AsaInv s.1 s.2) (hs : AsaStep s t) :
    AsaInv t.1 t.2 := by
  cases hs with
  | @alloc a a' live addr n he hne =>
    rcases asaAlloc_cases h.length_lt (n := n) with ⟨h0, -⟩ | ⟨f, pages, hn, hf, hp, h1⟩
    · rw [he] at h0
      simp only [Option.some.injEq, Prod.mk.injEq] at h0
      exact absurd h0.1 hne
    · rw [he] at h1
      simp only [Option.some.injEq, Prod.mk.injEq] at h1
      obtain ⟨rfl, rfl⟩ := h1
      rw [(h.firstFit hn hf).2]
      exact h.alloc hn hf hp
  | @null a a' live n he =>
    rcases asaAlloc_cases h.length_lt (n := n) with ⟨h0, -⟩ | ⟨f, pages, hn, hf, hp, h1⟩
    · rw [he] at h0
      simp only [Option.some.injEq, Prod.mk.injEq, true_and] at h0
      exact h0 ▸ h
    · rw [he] at h1
      simp only [Option.some.injEq, Prod.mk.injEq] at h1
      have hz := h.firstFit hn hf
      rw [hz.2] at h1
      omega
  | free hm hf => exact h.free hm hf

theorem AsaUpTo.reach {a₀ : Asa} (h : AsaUpTo a₀ 380) {s : Asa × List (Nat × Nat)}
    (hr : Relation.ReflTransGen AsaStep (a₀, []) s) : AsaInv s.1 s.2 := by
  induction hr with
  | refl => exact h.inv
  | tail _ hs ih => exact ih.step hs

theorem PagesApart.disjoint {a : Asa} {r t : Nat × Nat} (h : PagesApart r t) (hr : AsaLive a r)
    (ht : AsaLive a t) : Disjoint (asaRange r) (asaRange t) := by
  have h1 := hr.aligned; have h2 := ht.aligned
  rw [Set.disjoint_left]
  intro x hx hx'
  simp only [asaRange, Set.mem_Ico] at hx hx'
  simp only [PagesApart] at h
  omega

/-- **Virtual ranges are exclusive.** After any calls of `asa_alloc`, and of
`asa_free` on live ranges, the live ranges are pairwise disjoint, lie in
`[KVIRT_RESERVED, 4096 * pages.length)`, and have every page marked used. -/
theorem asa_ranges_exclusive {σ : Type} (ki : KallocInterface σ) (mem : Nat → Word) (a a₀ : Asa) (s s' : σ)
    (hinit : asaInit ki mem a 4096 s = some ((.success, a₀), s')) (b : Asa) (live : List (Nat × Nat))
    (hrun : Relation.ReflTransGen AsaStep (a₀, []) (b, live)) :
    live.Pairwise (fun r t => Disjoint (asaRange r) (asaRange t)) ∧
    (∀ r ∈ live, asaRange r ⊆ Set.Ico kvirtReserved (4096 * b.pages.length)) ∧
    ∀ r ∈ live, ∀ page, 4096 * page ∈ asaRange r → b.pages.bit page = true := by
  have h := (asaInit_upTo hinit).reach hrun
  refine ⟨?_, fun r hr => ?_, fun r hr page hp => ?_⟩
  · exact h.apart.imp_of_mem fun hr ht hap => hap.disjoint (h.isLive _ hr) (h.isLive _ ht)
  · have hl := h.isLive r hr
    have h1 := hl.aligned; have h2 := hl.low; have h3 := hl.high
    intro x hx
    simp only [asaRange, Set.mem_Ico] at hx
    simp only [Set.mem_Ico, kvirtReserved]
    simp only at h3
    omega
  · have hl := h.isLive r hr
    have h1 := hl.aligned
    simp only [asaRange, Set.mem_Ico] at hp
    exact hl.used page (by omega) (by omega)

/-- A provider that places everything at 1.2 MiB. -/
def placeAt12b000 : KallocInterface Unit where
  kallocMallocReal _ _ s := some ((0x12b000, none), s)

/-- Three pages, then two, from a fresh allocator. -/
theorem asa_ranges_exclusive_two : ∃ a₀ b,
    asaInit placeAt12b000 (fun _ => 0) ⟨⟨0, 0, fun _ => 0⟩, 0⟩ 4096 () = some ((.success, a₀), ()) ∧
    Relation.ReflTransGen AsaStep (a₀, []) (b, [(0x17f000, 2), (0x17c000, 3)]) ∧
    Disjoint (asaRange (0x17f000, 2)) (asaRange (0x17c000, 3)) := by
  have hk : kmalloc placeAt12b000 32768 kallocCritical () = some (0x12b000, ()) := rfl
  obtain ⟨a₀, h0⟩ := asaInit_ok (fun _ => 0) ⟨⟨0, 0, fun _ => 0⟩, 0⟩ hk (by decide)
  obtain ⟨a₁, h1, hu⟩ := (asaInit_upTo h0).alloc (n := 3) (by decide) (by decide)
  obtain ⟨a₂, h2, -⟩ := hu.alloc (n := 2) (by decide) (by decide)
  have hrun : Relation.ReflTransGen AsaStep (a₀, []) (a₂, [(0x17f000, 2), (0x17c000, 3)]) :=
    (Relation.ReflTransGen.single (.alloc h1 (by decide))).tail (.alloc h2 (by decide))
  have hx := (asa_ranges_exclusive placeAt12b000 _ _ a₀ () () h0 a₂ _ hrun).1
  exact ⟨a₀, a₂, h0, hrun, (List.pairwise_cons.mp hx).1 _ (by simp)⟩

end ShawnOS
