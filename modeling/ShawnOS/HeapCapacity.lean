/-
The capacity `kheap_expand` delivers.

The sizing loop stops at a page count that holds the request next to the
bitsets of one page less. A new block of `p` pages has `252 * p - 3` free
sections, all of them consecutive: they are enough for the request except
in a window of 72 sizes below each multiple of 4032, or of 8 sizes where
the first test of the loop already passes.
-/
import ShawnOS.HeapGrowth

namespace ShawnOS

open Word32 Runs

variable {σ : Type} {kp : KpagingInterface σ} {s s' : HeapState σ}

/-- The pages of a request: those of its bytes alone, if the bitsets and the
header fit next to it; else at least one more, by the lagging test. -/
def pagesAsked (size : Nat) : Nat :=
  if size + 40 ≤ 4032 * ((size - 1) / 4096 + 1) then (size - 1) / 4096 + 1
  else max ((size - 1) / 4096 + 2) ((size + 4007) / 4032)

/-- Below `min_block_size` the first test may pass. -/
theorem expandPages_small {size : Nat} (h1 : 1 ≤ size) (h2 : size < 2 ^ 20) :
    expandPages size = .ok (pagesAsked size) := by
  obtain ⟨fuel, hfuel⟩ : ∃ fuel, 2 ^ 32 = fuel + 20 + 1 := ⟨2 ^ 32 - 21, by omega⟩
  have hp : divRoundUp size pageSize = (size - 1) / 4096 + 1 := divRoundUp_of_pos h1 (by omega)
  obtain ⟨r, hr⟩ : ∃ r, r = (size - 1) / 4096 + 1 := ⟨_, rfl⟩
  have hrle : 1 ≤ r ∧ r ≤ 256 := by omega
  have hu : u32 (r * pageSize) = 4096 * r := by rw [u32_pages]; omega
  have hsub : sub32 (4096 * r) 40 = 4096 * r - 40 := sub32_of_le (by omega) (by omega)
  have hspace : spaceFor r (32 * r) = 4032 * r - 40 := by
    rw [spaceFor, hu, sizeofKheapBlock, u32_of_lt (by omega), hsub, sub32_of_le (by omega) (by omega)]
    omega
  have hasked : pagesAsked size = if size + 40 ≤ 4032 * r then r else max (r + 1) ((size + 4007) / 4032) := by
    rw [hr]
    rfl
  rw [hasked]
  unfold expandPages
  dsimp only
  rw [hp, ← hr, hu, sectionSizeDefault, bitsetSizeFor_pages (by omega) (by omega), hfuel]
  by_cases hfit : size + 40 ≤ 4032 * r
  · rw [if_pos hfit]
    exact kheapExpandPages_stop (by omega)
  · -- The first test fails; from here on the bitset size lags.
    rw [if_neg hfit, kheapExpandPages_next (by omega), u32_of_lt (show r + 1 < 2 ^ 32 by omega)]
    have hlag : Lag r (r + 1) (bitsetSizeFor (u32 (r * pageSize)) sectionSizeDefault) :=
      ⟨by omega, by rw [u32_pages, Nat.mod_eq_of_lt (by omega)], by rw [hu]⟩
    obtain ⟨k, hk⟩ : ∃ k, k = max (r + 1) ((size + 4007) / 4032) - (r + 1) := ⟨_, rfl⟩
    obtain ⟨bs, hlag', he⟩ := @kheapExpandPages_skip size (fuel + 20 - k) k r (r + 1) _ hlag (by omega) fun i hi => by
      rw [lagSpace, Nat.mod_eq_of_lt (by omega), if_neg (by omega), if_neg (by omega)]
      omega
    rw [Nat.sub_add_cancel (by omega)] at he
    have hstop : ¬ spaceFor (r + 1 + k) bs < size := by
      rw [hlag'.space, lagSpace, Nat.mod_eq_of_lt (by omega), if_neg (by omega), if_neg (by omega)]
      omega
    rw [he, show fuel + 20 - k = fuel + 19 - k + 1 by omega, kheapExpandPages_stop hstop,
      show r + 1 + k = max (r + 1) ((size + 4007) / 4032) by omega]

/-- The pages of an expansion that succeeded. -/
theorem Added.pages_asked {size p : Nat} {b : KheapBlock} (h : Added s s' b p) (h1 : 1 ≤ size)
    (h2 : size < 2 ^ 32) (hp : expandPages size = .ok p) : p = pagesAsked size := by
  have hle := h.pages_le
  by_cases hsmall : size < 2 ^ 20
  · rw [expandPages_small h1 hsmall] at hp
    exact (Except.ok.inj hp).symm
  · have hends : size ≤ 4227862488 := by
      by_contra hno
      rw [expandPages_hang (by omega) h2] at hp
      cases hp
    rw [expandPages_ok (by omega) hends] at hp
    have he := Except.ok.inj hp
    unfold pagesFor at he
    unfold pagesAsked
    split at he
    · rw [if_neg (by omega)]
      omega
    · split at he <;> omega

/-- The request fits the sections of a new block. -/
theorem pagesAsked_room_iff {size : Nat} (h1 : 1 ≤ size) :
    (size - 1) / 16 + 1 ≤ 252 * pagesAsked size - 3 ↔
      72 ≤ (size + 47) % 4032 ∨ (8 ≤ (size + 47) % 4032 ∧ 4096 * ((size + 47) / 4032) < size + 4096) := by
  unfold pagesAsked
  split
  · omega
  · omega

/-- The block at the head of the list has `n` free sections at least, and
its free sections are consecutive. -/
def HeadHolds (s : HeapState σ) (n : Nat) : Prop :=
  ∃ b next, s.heap.blocks = b :: next ∧ n ≤ b.freeSections ∧
    ∃ f, f + b.freeSections ≤ b.usedSections.length ∧
      ∀ j, j < b.usedSections.length → (b.usedSections.bit j = false ↔ f ≤ j ∧ j < f + b.freeSections)

theorem Added.headHolds_iff {n p : Nat} {b : KheapBlock} (h : Added s s' b p) :
    HeadHolds s' n ↔ n ≤ 252 * p - 3 := by
  have hf := h.fresh
  have hp := hf.pages
  constructor
  · rintro ⟨c, next, hc, hn, -⟩
    rw [h.blocks] at hc
    cases hc
    rw [hf.free] at hn
    exact hn
  · intro hn
    refine ⟨b, s.heap.blocks, h.blocks, by rw [hf.free]; exact hn, reservedSections p, ?_, fun j hj => ?_⟩
    · rw [hf.free, hf.usedLength, reservedSections]
      omega
    · rw [hf.usedLength] at hj
      rw [hf.used j hj, hf.free, decide_eq_false_iff_not, reservedSections]
      omega

theorem kheapExpand_success (h : HeapOk s) {size : Nat} (he : kheapExpand kp s size = .ok (.success, s')) :
    ∃ b p, expandPages size = .ok p ∧ Added s s' b p := by
  cases hp : expandPages size with
  | error e =>
    unfold kheapExpand at he
    rw [hp, error_bind] at he
    cases he
  | ok p =>
    rcases @kheapExpand_cases σ kp s h size p hp with ⟨h1, -⟩ | ⟨t, h1, -, -⟩ | ⟨t, b, h1, h2⟩
    · rw [h1] at he
      cases he
    · rw [h1] at he
      cases he
    · rw [h1] at he
      cases he
      exact ⟨b, p, rfl, h2⟩

/-- **When an expansion holds its request.** After any calls, an expansion
for `size` bytes that succeeds puts a block with room for them at the head,
except in the windows below the multiples of 4032. -/
theorem heap_expand_capacity_iff (kp : KpagingInterface σ) (s s' : HeapState σ) (hreach : HeapReachable kp s)
    (size : Nat) (h1 : 1 ≤ size) (h2 : size < 2 ^ 32) (he : kheapExpand kp s size = .ok (.success, s')) :
    HeadHolds s' (divRoundUp size 16) ↔
      72 ≤ (size + 47) % 4032 ∨ (8 ≤ (size + 47) % 4032 ∧ 4096 * ((size + 47) / 4032) < size + 4096) := by
  obtain ⟨b, p, hp, hadd⟩ := kheapExpand_success hreach.ok he
  rw [hadd.headHolds_iff, hadd.pages_asked h1 h2 hp, divRoundUp_of_pos h1 h2]
  exact pagesAsked_room_iff h1

/-- On a new heap, when every page can be mapped, an expansion of up to a
megabyte succeeds. -/
theorem kheapExpand_new {size : Nat} (h1 : 1 ≤ size) (h2 : size < 2 ^ 20) :
    ∃ (a₀ : Asa) (s' : HeapState Unit), HeapReachable mapAll (⟨kheapKallocInstall, a₀, ()⟩ : HeapState Unit) ∧
      kheapExpand mapAll ⟨kheapKallocInstall, a₀, ()⟩ size = .ok (.success, s') := by
  obtain ⟨a₀, hinit⟩ := asaInit_placeAt12b000
  have ha := asaInit_upTo hinit
  have hpages : 0 < pagesAsked size ∧ pagesAsked size ≤ 300 := by
    unfold pagesAsked
    split <;> omega
  rcases @kheapExpand_cases Unit mapAll _ (HeapInv.start ha ()).ok _ _ (expandPages_small h1 h2) with
    ⟨-, hno⟩ | ⟨s', -, -, hno⟩ | ⟨s', b, he, -⟩
  · exact absurd mapAll_maps hno
  · refine absurd (fun j h1 h2 => ?_) (hno mapAll_maps hpages.1 380 (by rw [ha.length]; omega))
    rw [ha.bit j (by omega)]
    exact decide_eq_false (by omega)
  · exact ⟨a₀, s', heapReachable_start hinit, he⟩

/-- A hundred bytes fit. -/
theorem heap_expand_capacity_hundred : ∃ (a₀ : Asa) (s' : HeapState Unit),
    HeapReachable mapAll (⟨kheapKallocInstall, a₀, ()⟩ : HeapState Unit) ∧
    kheapExpand mapAll ⟨kheapKallocInstall, a₀, ()⟩ 100 = .ok (.success, s') ∧ HeadHolds s' (divRoundUp 100 16) := by
  obtain ⟨a₀, s', hreach, he⟩ := @kheapExpand_new 100 (by decide) (by decide)
  exact ⟨a₀, s', hreach, he,
    (heap_expand_capacity_iff mapAll _ s' hreach 100 (by decide) (by decide) he).mpr (by decide)⟩

/-- For 3985 bytes one page is added: 249 sections for the 250 it needs. -/
theorem heap_expand_falls_short : ∃ (a₀ : Asa) (s' : HeapState Unit),
    HeapReachable mapAll (⟨kheapKallocInstall, a₀, ()⟩ : HeapState Unit) ∧
    kheapExpand mapAll ⟨kheapKallocInstall, a₀, ()⟩ 3985 = .ok (.success, s') ∧
    ¬ HeadHolds s' (divRoundUp 3985 16) := by
  obtain ⟨a₀, s', hreach, he⟩ := @kheapExpand_new 3985 (by decide) (by decide)
  obtain ⟨b, p, hp, hadd⟩ := kheapExpand_success hreach.ok he
  refine ⟨a₀, s', hreach, he, ?_⟩
  rw [hadd.headHolds_iff, hadd.pages_asked (by decide) (by decide) hp]
  decide

end ShawnOS
