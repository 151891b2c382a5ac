/-
What one round of `kheap_malloc`'s block loop finds and marks.

The scan starts at the block's hint and wraps. `HintFit` is what it finds:
the leftmost run at or after the hint, or, only when no section at or after
the hint is free, the leftmost run before it. In every other case the
registers still hold a start at or after the hint when the scan wraps, each
section before the hint restarts the count without moving that start, and
no run is ever completed (`hintScan_dead`).
-/
import ShawnOS.Heap

namespace ShawnOS

open Word32 Runs

/-- The scan without its assertions, over the used bits `u`. -/
def hintScan (u : Nat → Bool) (len hint n : Nat) : (rem k first count : Nat) → Option Nat
  | 0, _, _, _ => none
  | rem + 1, k, first, count =>
    let i := (hint + k) % len
    if u i then hintScan u len hint n rem (k + 1) first 0
    else
      let c := if i < first then 0 else count
      let f := if ¬ i < first ∧ count = 0 then i else first
      if c + 1 = n then some f else hintScan u len hint n rem (k + 1) f (c + 1)

/-- What a scan from `hint` finds among `len` sections. -/
def HintFit (u : Nat → Bool) (hint len n f : Nat) : Prop :=
  FirstFit u hint len n f ∨ ((∀ j, hint ≤ j → j < len → u j = true) ∧ FirstFit u 0 hint n f)

theorem kheapScan_eq {cur : KheapBlock} {n : Nat} (hl : cur.firstFreeSection ≤ cur.usedSections.length)
    (h32 : 2 * cur.usedSections.length < 2 ^ 32) :
    ∀ {rem k first count : Nat}, k + rem ≤ cur.usedSections.length → count ≤ k →
      kheapScan cur n rem k first count =
        some (hintScan cur.usedSections.bit cur.usedSections.length cur.firstFreeSection n rem k first count) := by
  intro rem
  induction rem with
  | zero => intros; rfl
  | succ rem ih =>
    intro k first count hk hc
    have hpos : 0 < cur.usedSections.length := by omega
    have hu : u32 (cur.firstFreeSection + k) = cur.firstFreeSection + k := u32_of_lt (by omega)
    have hi := Nat.mod_lt (cur.firstFreeSection + k) hpos
    have hz := (bitsetGetBit_zero (bitsetGetBit_eq hi)).2
    have hu' : ∀ c, c ≤ count → u32 (c + 1) = c + 1 := fun c h => u32_of_lt (by omega)
    have hc' : (if (cur.firstFreeSection + k) % cur.usedSections.length < first then 0 else count) ≤ count := by
      split <;> omega
    simp only [kheapScan, hintScan, hu, bitsetGetBit_eq hi, bind, Option.bind_some, hz, hu' _ hc']
    by_cases hb : cur.usedSections.bit ((cur.firstFreeSection + k) % cur.usedSections.length) = true
    · rw [if_neg (by simp [hb]), if_pos hb]
      exact ih (by omega) (by omega)
    · rw [if_pos (by simpa using hb), if_neg hb]
      generalize (if (cur.firstFreeSection + k) % cur.usedSections.length < first then 0 else count) = c at hc'
      by_cases hn : c + 1 = n
      · rw [if_pos hn, if_pos hn]
        rfl
      · rw [if_neg hn, if_neg hn]
        exact ih (by omega) (by omega)

/-! ## After the wrap -/

/-- With a start at or after the hint left in the registers, nothing before
the hint is found. -/
theorem hintScan_dead {u : Nat → Bool} {len hint n : Nat} (hn : 2 ≤ n) (hh : hint ≤ len) :
    ∀ {rem k first count : Nat}, hint ≤ first → len ≤ hint + k → k + rem ≤ len →
      hintScan u len hint n rem k first count = none := by
  intro rem
  induction rem with
  | zero => intros; rfl
  | succ rem ih =>
    intro k first count hf hk hr
    have hi : (hint + k) % len = hint + k - len := by
      rw [Nat.mod_eq_sub_mod hk, Nat.mod_eq_of_lt (by omega)]
    simp only [hintScan, hi]
    rw [if_pos (show hint + k - len < first by omega),
      if_neg (show ¬ (¬ hint + k - len < first ∧ count = 0) by omega),
      if_neg (show ¬ 0 + 1 = n by omega)]
    split
    · exact ih hf (by omega) (by omega)
    · exact ih hf (by omega) (by omega)

/-- With clean registers, the part before the hint is scanned as any other. -/
theorem hintScan_wrapped {u : Nat → Bool} {len hint n : Nat} (hh : hint ≤ len) :
    ∀ {rem i first count : Nat}, first ≤ i → i + rem ≤ hint →
      hintScan u len hint n rem (len - hint + i) first count = scan u n rem i first count := by
  intro rem
  induction rem with
  | zero => intros; rfl
  | succ rem ih =>
    intro i first count hf hr
    have hi : (hint + (len - hint + i)) % len = i := by
      rw [show hint + (len - hint + i) = len + i by omega, Nat.add_mod_left, Nat.mod_eq_of_lt (by omega)]
    simp only [hintScan, scan, hi]
    rw [if_neg (show ¬ i < first by omega)]
    have he : (if ¬ i < first ∧ count = 0 then i else first) = if count = 0 then i else first := by
      by_cases h0 : count = 0
      · rw [if_pos ⟨by omega, h0⟩, if_pos h0]
      · rw [if_neg (fun h => h0 h.2), if_neg h0]
    rw [he]
    have hf' : (if count = 0 then i else first) ≤ i + 1 := by split <;> omega
    by_cases hu : u i = true
    · rw [if_pos hu, if_pos hu]
      exact @ih (i + 1) first 0 (by omega) (by omega)
    · rw [if_neg hu, if_neg hu]
      by_cases hn : count + 1 = n
      · rw [if_pos hn, if_pos hn]
      · rw [if_neg hn, if_neg hn]
        exact @ih (i + 1) _ (count + 1) hf' (by omega)

/-! ## Before the wrap -/

/-- Either no free section was seen since the hint, or the start kept is a
free one at or after the hint. -/
def Seen (u : Nat → Bool) (hint i first count : Nat) : Prop :=
  (first = 0 ∧ count = 0 ∧ ∀ j, hint ≤ j → j < i → u j = true) ∨
  (hint ≤ first ∧ first < i ∧ u first = false)

theorem Seen.first_le {u : Nat → Bool} {hint i first count : Nat} (h : Seen u hint i first count) :
    first ≤ i := by
  rcases h with ⟨rfl, -, -⟩ | ⟨-, h, -⟩
  · omega
  · omega

theorem Seen.used {u : Nat → Bool} {hint i first count : Nat} (h : Seen u hint i first count)
    (hu : u i = true) : Seen u hint (i + 1) first 0 := by
  rcases h with ⟨h1, -, h3⟩ | ⟨h1, h2, h3⟩
  · refine .inl ⟨h1, rfl, fun j hj hj' => ?_⟩
    by_cases he : j = i
    · rw [he]; exact hu
    · exact h3 j hj (by omega)
  · exact .inr ⟨h1, by omega, h3⟩

theorem Seen.free {u : Nat → Bool} {hint n i first count : Nat} (h : ScanInv u hint n i first count)
    (hu : u i = false) : Seen u hint (i + 1) (if count = 0 then i else first) (count + 1) := by
  have hlo := h.lo_le
  rw [h.first_eq]
  exact .inr ⟨by omega, by omega, h.run hu _ (Nat.le_refl _) (by omega)⟩

/-- The free section that completes the run. -/
theorem hintFit_completed_iff {u : Nat → Bool} {len hint n i first count f : Nat} (h : ScanInv u hint n i first count)
    (hu : u i = false) (hn : count + 1 = n) (hi : i < len) : i - count = f ↔ HintFit u hint len n f := by
  have hlo := h.lo_le
  have hfit : FirstFit u hint len n (i - count) := ⟨by omega, by omega, hn ▸ h.run hu, h.least⟩
  constructor
  · rintro rfl
    exact .inl hfit
  · rintro (hf | ⟨hused, -⟩)
    · exact hfit.unique hf
    · have := hused i (by omega) (by omega)
      rw [hu] at this
      exact Bool.noConfusion this

/-- **At the wrap**: behind a free section that was seen the scan is dead,
else it starts over from the first section. -/
theorem hintScan_wrap_iff {u : Nat → Bool} {len hint n f first count : Nat} (hh : hint ≤ len)
    (hi : ScanInv u hint n len first count) (hs : Seen u hint len first count) :
    hintScan u len hint n hint (len - hint) first count = some f ↔ HintFit u hint len n f := by
  rw [HintFit, or_iff_right hi.no_fit]
  rcases hs with ⟨rfl, rfl, hall⟩ | ⟨h1, h2, h3⟩
  · have hscan := @hintScan_wrapped u len hint n hh hint 0 0 0 (Nat.le_refl 0) (by omega)
    rw [Nat.add_zero] at hscan
    rw [hscan, scan_eq_some_iff hi.short, Nat.zero_add]
    exact ⟨fun h => ⟨hall, h⟩, fun h => h.2⟩
  · -- A free section was seen, so a request for one section was served there.
    have hn : 2 ≤ n := by
      by_contra hno
      have h4 := hi.short
      refine hi.least first h1 (by omega) fun j hj hj' => ?_
      rw [show j = first by omega]
      exact h3
    rw [hintScan_dead hn hh h1 (by omega) (by omega)]
    refine ⟨(fun h => by cases h), fun h => ?_⟩
    have := h.1 first h1 h2
    rw [h3] at this
    exact Bool.noConfusion this

/-- **The scan's answer** from any point before the wrap. -/
theorem hintScan_iff {u : Nat → Bool} {len hint n f : Nat} (hh : hint ≤ len) :
    ∀ {rem k first count : Nat}, hint + k + rem = len → ScanInv u hint n (hint + k) first count →
      Seen u hint (hint + k) first count →
      (hintScan u len hint n (rem + hint) k first count = some f ↔ HintFit u hint len n f) := by
  intro rem
  induction rem with
  | zero =>
    intro k first count hk hi hs
    rw [Nat.add_zero] at hk
    rw [hk] at hi hs
    rw [Nat.zero_add, show k = len - hint by omega]
    exact hintScan_wrap_iff hh hi hs
  | succ rem ih =>
    intro k first count hk hi hs
    have hm : (hint + k) % len = hint + k := Nat.mod_eq_of_lt (by omega)
    have hle := hs.first_le
    have he : (if ¬ hint + k < first ∧ count = 0 then hint + k else first) =
        if count = 0 then hint + k else first := by
      by_cases h0 : count = 0
      · rw [if_pos ⟨by omega, h0⟩, if_pos h0]
      · rw [if_neg (fun h => h0 h.2), if_neg h0]
    rw [Nat.add_right_comm]
    simp only [hintScan, hm]
    rw [if_neg (show ¬ hint + k < first by omega), he]
    by_cases hu : u (hint + k) = true
    · rw [if_pos hu]
      exact ih (by omega) (hi.used hu) (hs.used hu)
    rw [if_neg hu]
    have hu : u (hint + k) = false := by simpa using hu
    by_cases hn : count + 1 = n
    · rw [if_pos hn, hi.first_eq, Option.some.injEq]
      exact hintFit_completed_iff hi hu hn (by omega)
    · rw [if_neg hn]
      exact ih (by omega) (hi.free hu hn) (Seen.free hi hu)

/-- **What the scan finds.** -/
theorem kheapScan_spec {cur : KheapBlock} {n : Nat} (hn : 0 < n)
    (hl : cur.firstFreeSection ≤ cur.usedSections.length) (h32 : 2 * cur.usedSections.length < 2 ^ 32) :
    ∃ r, kheapScan cur n cur.usedSections.length 0 0 0 = some r ∧
      ∀ f, r = some f ↔
        HintFit cur.usedSections.bit cur.firstFreeSection cur.usedSections.length n f := by
  refine ⟨_, kheapScan_eq hl h32 (by omega) (by omega), fun f => ?_⟩
  have h := hintScan_iff (f := f) hl
    (show cur.firstFreeSection + 0 + (cur.usedSections.length - cur.firstFreeSection) =
      cur.usedSections.length by omega)
    (ScanInv.start (u := cur.usedSections.bit) hn) (.inl ⟨rfl, rfl, fun j h1 h2 => by omega⟩)
  rw [Nat.sub_add_cancel hl] at h
  exact h

theorem HintFit.clear {u : Nat → Bool} {hint len n f : Nat} (h : HintFit u hint len n f) :
    ClearRun u f n := by
  rcases h with h | ⟨-, h⟩
  · exact h.clear
  · exact h.clear

theorem HintFit.le {u : Nat → Bool} {hint len n f : Nat} (hh : hint ≤ len) (h : HintFit u hint len n f) :
    f + n ≤ len := by
  rcases h with h | ⟨-, h⟩
  · exact h.le_hi
  · exact Nat.le_trans h.le_hi hh

theorem HintFit.unique {u : Nat → Bool} {hint len n f g : Nat} (hn : 0 < n) (hf : HintFit u hint len n f)
    (hg : HintFit u hint len n g) : f = g := by
  have mixed : ∀ {f g}, FirstFit u hint len n f →
      (∀ j, hint ≤ j → j < len → u j = true) → f = g := fun h hall => by
    have hlo := h.lo_le; have hhi := h.le_hi
    have hapart := h.clear.apart hall hn (by omega)
    omega
  rcases hf with hf | ⟨hf, hf'⟩ <;> rcases hg with hg | ⟨hg, hg'⟩
  · exact hf.unique hg
  · exact mixed hf hg
  · exact (mixed hg hf).symm
  · exact hf'.unique hg'

/-! ## Marking -/

theorem Bitset.store_ones_filled (b : Bitset) {j : Nat} (hj : j % 32 = 0) :
    b.Filled (b.store (j / 32) 0xFFFFFFFF) j 32 := by
  refine ⟨rfl, rfl, fun i => ?_⟩
  rw [Bitset.store_bit]
  split
  · next h =>
    have h1 : (0xFFFFFFFF : Word).getLsbD (i % 32) = true := by
      have hi : i % 32 < 32 := Nat.mod_lt _ (by decide)
      rw [show (0xFFFFFFFF : Word) = BitVec.allOnes 32 by decide, BitVec.getLsbD_allOnes]
      exact decide_eq_true hi
    rw [h1, decide_eq_true (by omega), Bool.or_true]
  · rw [decide_eq_false (by omega), Bool.or_false]

/-- **Word at a time or bit at a time**, the loop sets the bits up to `stop`.
Where `j + 32` could wrap there are no sections. -/
theorem kheapMark_filled {stop : Nat} : ∀ {fuel j : Nat} {b : Bitset}, j ≤ stop → stop ≤ j + fuel → stop ≤ b.length →
    stop ≤ 2 ^ 32 - 32 → ∃ b', kheapMark stop fuel j b = some b' ∧ b.Filled b' j (stop - j) := by
  intro fuel
  induction fuel with
  | zero =>
    intro j b h1 h2 _ _
    refine ⟨b, if_neg (by omega), ?_⟩
    rw [show stop - j = 0 by omega]
    exact .refl b j
  | succ fuel ih =>
    intro j b h1 h2 hl hstop
    simp only [kheapMark]
    split
    · next hj =>
      rw [u32_of_lt (show j + 32 < 2 ^ 32 by omega)]
      split
      · next hw =>
        obtain ⟨b', hb', hfill⟩ := @ih (j + 32) (b.store (j / 32) 0xFFFFFFFF) (by omega) (by omega) hl hstop
        refine ⟨b', hb', ?_⟩
        rw [show stop - j = 32 + (stop - (j + 32)) by omega]
        exact (b.store_ones_filled hw.1).append hfill
      · obtain ⟨c, hc⟩ := @bitsetSetBit_ok b j (by omega)
        have hset := (bitsetSetBit_filled hc).2
        obtain ⟨b', hb', hfill⟩ := @ih (j + 1) c (by omega) (by omega) (by rw [hset.length]; exact hl) hstop
        refine ⟨b', by simp [hc, hb'], ?_⟩
        rw [show stop - j = 1 + (stop - (j + 1)) by omega]
        exact hset.append hfill
    · refine ⟨b, rfl, ?_⟩
      rw [show stop - j = 0 by omega]
      exact .refl b j

/-- A `used_sections` bitset: as long as `kheap_add_block` makes it for a
block of some size, in sections of at least four bytes. -/
def UsedSections (b : Bitset) : Prop :=
  ∃ blockSize sectionSize, blockSize < 2 ^ 32 ∧ 4 ≤ sectionSize ∧ b.length = divRoundUp blockSize sectionSize

theorem UsedSections.length_le {b : Bitset} (h : UsedSections b) : b.length ≤ 2 ^ 30 := by
  obtain ⟨blockSize, sectionSize, hlt, hsect, hlen⟩ := h
  have hsub := sub32_lt blockSize 1
  have hdiv : sub32 blockSize 1 / sectionSize ≤ sub32 blockSize 1 / 4 := Nat.div_le_div_left hsect (by decide)
  rw [hlen, divRoundUp, u32_of_lt (by omega)]
  omega

/-- **The marking loop** of `kheap_malloc` ends, and sets the bits of the run
and no others. -/
theorem kheapMark_exact {b : Bitset} (hb : UsedSections b) {firstFree nSec : Nat} (hn : 1 ≤ nSec)
    (hle : firstFree + nSec ≤ b.length) :
    ∃ b', kheapMark (u32 (firstFree + nSec)) nSec firstFree b = some b' ∧ b'.length = b.length ∧
      ∀ j, b'.bit j = true ↔ b.bit j = true ∨ (firstFree ≤ j ∧ j < firstFree + nSec) := by
  have hlen := hb.length_le
  rw [u32_of_lt (by omega)]
  obtain ⟨b', hmark, hfill⟩ := @kheapMark_filled (firstFree + nSec) nSec firstFree b (by omega) (by omega) hle (by omega)
  refine ⟨b', hmark, hfill.length, fun j => ?_⟩
  rw [hfill.bit, Bool.or_eq_true, decide_eq_true_iff]
  have hrange : firstFree + (firstFree + nSec - firstFree) = firstFree + nSec := by omega
  rw [hrange]

/-- A word and two bits of a block of 4096 bytes. -/
theorem kheapMark_exact_word : UsedSections (bitsetInit (fun _ => 0) 0 256) ∧ 1 ≤ 34 ∧
    31 + 34 ≤ (bitsetInit (fun _ => 0) 0 256).length ∧
    ∃ b', kheapMark (u32 (31 + 34)) 34 31 (bitsetInit (fun _ => 0) 0 256) = some b' ∧
      b'.length = (bitsetInit (fun _ => 0) 0 256).length ∧
      ∀ j, b'.bit j = true ↔ (bitsetInit (fun _ => 0) 0 256).bit j = true ∨ (31 ≤ j ∧ j < 31 + 34) := by
  have hb : UsedSections (bitsetInit (fun _ => 0) 0 256) := ⟨4096, 16, by decide, by decide, by decide⟩
  exact ⟨hb, by decide, by decide, kheapMark_exact hb (by decide) (by decide)⟩

end ShawnOS
