/-
The bitset of `kernel/bitset.h`: a length and a pointer to 32-bit words.

`words i` is the `uint32_t` at `start + 4 * i`, for every `i`: the model can
see a write past the bitset's own words. `bit` is the set it stands for;
each operation is given by its effect on `bit`.
-/
import ShawnOS.Kernel
import ShawnOS.Lib.Runs
import Mathlib.Logic.Function.Basic

namespace ShawnOS

open Word32 Runs

abbrev Word := BitVec 32

/-- `bitset_t`. -/
structure Bitset where
  length : Nat
  start : Nat
  words : Nat → Word

/-- The bit of index `n`. -/
def Bitset.bit (b : Bitset) (n : Nat) : Bool := (b.words (n / 32)).getLsbD (n % 32)

/-- `bitset->start[i] = w`. -/
def Bitset.store (b : Bitset) (i : Nat) (w : Word) : Bitset :=
  { b with words := Function.update b.words i w }

/-- `bitset_init` on memory that holds `mem i` at `start + 4 * i`. -/
def bitsetInit (mem : Nat → Word) (start length : Nat) : Bitset where
  length
  start
  words i := if i < divRoundUp length 32 then 0 else mem i

/-- `bitset_set_bit`. -/
def bitsetSetBit (b : Bitset) (n : Nat) : Option Bitset := do
  kassert (n < b.length)
  pure (b.store (n / 32) (b.words (n / 32) ||| 1#32 <<< (n % 32)))

/-- `bitset_get_bit`: the word masked to the bit. -/
def bitsetGetBit (b : Bitset) (n : Nat) : Option Word := do
  kassert (n < b.length)
  pure (b.words (n / 32) &&& 1#32 <<< (n % 32))

/-- `bitset_clear_bit`. -/
def bitsetClearBit (b : Bitset) (n : Nat) : Option Bitset := do
  kassert (n < b.length)
  pure (b.store (n / 32) (b.words (n / 32) &&& ~~~(1#32 <<< (n % 32))))

/-- A loop that sets `n` bits, from `i` on. -/
def bitsetSetBits (b : Bitset) (i : Nat) : (n : Nat) → Option Bitset
  | 0 => some b
  | n + 1 => do
    let b ← bitsetSetBit b i
    bitsetSetBits b (i + 1) n

/-- A loop that clears `n` bits, from `i` on. -/
def bitsetClearBits (b : Bitset) (i : Nat) : (n : Nat) → Option Bitset
  | 0 => some b
  | n + 1 => do
    let b ← bitsetClearBit b i
    bitsetClearBits b (i + 1) n

/-! ## Words and bits -/

theorem getLsbD_mask {i : Nat} (hi : i < 32) (j : Nat) :
    (1#32 <<< i).getLsbD j = decide (j = i) := by
  simp only [BitVec.getLsbD_shiftLeft, BitVec.getLsbD_one, Nat.zero_lt_succ, decide_true, Bool.true_and]
  by_cases h : j = i
  · subst h; simp [hi]
  · by_cases h' : j < i
    · simp [h, h']
    · simp [h, show ¬ j - i = 0 by omega]

theorem and_mask_eq_zero {w : Word} {i : Nat} (hi : i < 32) :
    w &&& 1#32 <<< i = 0 ↔ w.getLsbD i = false := by
  constructor
  · intro h
    have := congrArg (·.getLsbD i) h
    simpa [getLsbD_mask hi] using this
  · intro h
    apply BitVec.eq_of_getLsbD_eq
    intro j hj
    by_cases hji : j = i
    · subst hji; simp [h]
    · simp [getLsbD_mask hi, hji]

@[simp] theorem Bitset.store_length (b : Bitset) (i : Nat) (w : Word) : (b.store i w).length = b.length := rfl
@[simp] theorem Bitset.store_start (b : Bitset) (i : Nat) (w : Word) : (b.store i w).start = b.start := rfl

theorem Bitset.store_bit (b : Bitset) (i : Nat) (w : Word) (n : Nat) :
    (b.store i w).bit n = if n / 32 = i then w.getLsbD (n % 32) else b.bit n := by
  simp only [bit, store, Function.update_apply]
  split <;> rfl

theorem bitsetInit_bit {mem : Nat → Word} {start length n : Nat} (hl : length < 2 ^ 32) (hn : n < length) :
    (bitsetInit mem start length).bit n = false := by
  have h : n / 32 < divRoundUp length 32 := by
    rw [divRoundUp_of_pos (by omega) hl]; omega
  simp [Bitset.bit, bitsetInit, h]

theorem bitsetGetBit_eq {b : Bitset} {n : Nat} (h : n < b.length) :
    bitsetGetBit b n = some (b.words (n / 32) &&& 1#32 <<< (n % 32)) := by
  simp [bitsetGetBit, kassert_of h]

/-- Reading a bit and testing it against zero. -/
theorem bitsetGetBit_zero {b : Bitset} {n : Nat} {w : Word} (h : bitsetGetBit b n = some w) :
    n < b.length ∧ (w = 0 ↔ b.bit n = false) := by
  simp only [bitsetGetBit, bind, Option.bind_eq_some_iff, kassert_eq_some, pure, Option.some.injEq] at h
  obtain ⟨-, hn, rfl⟩ := h
  exact ⟨hn, and_mask_eq_zero (Nat.mod_lt _ (by decide))⟩

/-! ## Ranges of bits -/

/-- `b'` is `b` with `n` more bits set, from `i` on. -/
structure Bitset.Filled (b b' : Bitset) (i n : Nat) : Prop where
  length : b'.length = b.length
  start : b'.start = b.start
  bit : ∀ j, b'.bit j = (b.bit j || decide (i ≤ j ∧ j < i + n))

/-- `b'` is `b` with `n` bits cleared, from `i` on. -/
structure Bitset.Wiped (b b' : Bitset) (i n : Nat) : Prop where
  length : b'.length = b.length
  start : b'.start = b.start
  bit : ∀ j, b'.bit j = (b.bit j && !decide (i ≤ j ∧ j < i + n))

theorem Bitset.Filled.refl (b : Bitset) (i : Nat) : b.Filled b i 0 := by
  refine ⟨rfl, rfl, fun j => ?_⟩
  rw [decide_eq_false (by omega), Bool.or_false]

theorem Bitset.Wiped.refl (b : Bitset) (i : Nat) : b.Wiped b i 0 := by
  refine ⟨rfl, rfl, fun j => ?_⟩
  rw [decide_eq_false (by omega), Bool.not_false, Bool.and_true]

theorem Bitset.Filled.append {a b c : Bitset} {i n m : Nat} (h₁ : a.Filled b i n)
    (h₂ : b.Filled c (i + n) m) : a.Filled c i (n + m) := by
  refine ⟨h₂.length.trans h₁.length, h₂.start.trans h₁.start, fun j => ?_⟩
  rw [h₂.bit, h₁.bit, Bool.or_assoc]
  congr 1
  rw [← Bool.decide_or]
  exact decide_eq_decide.mpr (by omega)

theorem Bitset.Wiped.append {a b c : Bitset} {i n m : Nat} (h₁ : a.Wiped b i n)
    (h₂ : b.Wiped c (i + n) m) : a.Wiped c i (n + m) := by
  refine ⟨h₂.length.trans h₁.length, h₂.start.trans h₁.start, fun j => ?_⟩
  rw [h₂.bit, h₁.bit, Bool.and_assoc]
  congr 1
  rw [← Bool.not_or, ← Bool.decide_or]
  exact congrArg _ (decide_eq_decide.mpr (by omega))

/-- A bit outside the range keeps its value. -/
theorem Bitset.Filled.outside {b b' : Bitset} {i n j : Nat} (h : b.Filled b' i n)
    (hj : j < i ∨ i + n ≤ j) : b'.bit j = b.bit j := by
  rw [h.bit, decide_eq_false (by omega), Bool.or_false]

theorem Bitset.Filled.inside {b b' : Bitset} {i n j : Nat} (h : b.Filled b' i n)
    (h1 : i ≤ j) (h2 : j < i + n) : b'.bit j = true := by
  rw [h.bit, decide_eq_true ⟨h1, h2⟩, Bool.or_true]

theorem Bitset.Filled.mono {b b' : Bitset} {i n j : Nat} (h : b.Filled b' i n) (hj : b.bit j = true) :
    b'.bit j = true := by
  rw [h.bit, hj, Bool.true_or]

theorem Bitset.Wiped.outside {b b' : Bitset} {i n j : Nat} (h : b.Wiped b' i n)
    (hj : j < i ∨ i + n ≤ j) : b'.bit j = b.bit j := by
  rw [h.bit, decide_eq_false (by omega), Bool.not_false, Bool.and_true]

theorem Bitset.Wiped.inside {b b' : Bitset} {i n j : Nat} (h : b.Wiped b' i n)
    (h1 : i ≤ j) (h2 : j < i + n) : b'.bit j = false := by
  rw [h.bit, decide_eq_true ⟨h1, h2⟩, Bool.not_true, Bool.and_false]

theorem bitsetSetBit_filled {b b' : Bitset} {n : Nat} (h : bitsetSetBit b n = some b') :
    n < b.length ∧ b.Filled b' n 1 := by
  simp only [bitsetSetBit, bind, Option.bind_eq_some_iff, kassert_eq_some, pure, Option.some.injEq] at h
  obtain ⟨-, hn, rfl⟩ := h
  refine ⟨hn, rfl, rfl, fun j => ?_⟩
  rw [Bitset.store_bit]
  split
  · next hj =>
    rw [BitVec.getLsbD_or, getLsbD_mask (Nat.mod_lt _ (by decide)), ← hj]
    congr 1
    exact decide_eq_decide.mpr (by omega)
  · next hj =>
    rw [decide_eq_false (by omega), Bool.or_false]

theorem bitsetClearBit_wiped {b b' : Bitset} {n : Nat} (h : bitsetClearBit b n = some b') :
    n < b.length ∧ b.Wiped b' n 1 := by
  simp only [bitsetClearBit, bind, Option.bind_eq_some_iff, kassert_eq_some, pure, Option.some.injEq] at h
  obtain ⟨-, hn, rfl⟩ := h
  refine ⟨hn, rfl, rfl, fun j => ?_⟩
  rw [Bitset.store_bit]
  split
  · next hj =>
    have hm : j % 32 < 32 := Nat.mod_lt _ (by decide)
    rw [BitVec.getLsbD_and, BitVec.getLsbD_not, getLsbD_mask (Nat.mod_lt _ (by decide)), ← hj]
    simp only [hm, decide_true, Bool.true_and]
    congr 2
    exact decide_eq_decide.mpr (by omega)
  · next hj =>
    rw [decide_eq_false (by omega), Bool.not_false, Bool.and_true]

theorem bitsetSetBit_ok {b : Bitset} {n : Nat} (h : n < b.length) :
    ∃ b', bitsetSetBit b n = some b' := by
  simp [bitsetSetBit, kassert_of h]

theorem le_of_bitsetSetBit_none {b : Bitset} {n : Nat} (h : bitsetSetBit b n = none) : b.length ≤ n := by
  by_contra hlt
  obtain ⟨b', hb'⟩ := @bitsetSetBit_ok b n (by omega)
  rw [h] at hb'
  cases hb'

theorem bitsetClearBit_ok {b : Bitset} {n : Nat} (h : n < b.length) :
    ∃ b', bitsetClearBit b n = some b' := by
  simp [bitsetClearBit, kassert_of h]

theorem bitsetSetBits_filled : ∀ {n : Nat} {b b' : Bitset} {i : Nat}, bitsetSetBits b i n = some b' →
    b.Filled b' i n
  | 0, b, b', i, h => by
    simp only [bitsetSetBits, Option.some.injEq] at h
    subst h
    exact .refl b i
  | n + 1, b, b', i, h => by
    simp only [bitsetSetBits, bind, Option.bind_eq_some_iff] at h
    obtain ⟨c, hc, h⟩ := h
    rw [Nat.add_comm n 1]
    exact (bitsetSetBit_filled hc).2.append (bitsetSetBits_filled h)

theorem bitsetClearBits_wiped : ∀ {n : Nat} {b b' : Bitset} {i : Nat}, bitsetClearBits b i n = some b' →
    b.Wiped b' i n
  | 0, b, b', i, h => by
    simp only [bitsetClearBits, Option.some.injEq] at h
    subst h
    exact .refl b i
  | n + 1, b, b', i, h => by
    simp only [bitsetClearBits, bind, Option.bind_eq_some_iff] at h
    obtain ⟨c, hc, h⟩ := h
    rw [Nat.add_comm n 1]
    exact (bitsetClearBit_wiped hc).2.append (bitsetClearBits_wiped h)

theorem bitsetSetBits_ok : ∀ {n : Nat} {b : Bitset} {i : Nat}, i + n ≤ b.length →
    ∃ b', bitsetSetBits b i n = some b'
  | 0, b, _, _ => ⟨b, rfl⟩
  | n + 1, b, i, h => by
    obtain ⟨c, hc⟩ := bitsetSetBit_ok (b := b) (n := i) (by omega)
    have hl := (bitsetSetBit_filled hc).2.length
    obtain ⟨b', hb'⟩ := bitsetSetBits_ok (n := n) (b := c) (i := i + 1) (by omega)
    exact ⟨b', by simp [bitsetSetBits, hc, hb']⟩

theorem bitsetClearBits_ok : ∀ {n : Nat} {b : Bitset} {i : Nat}, i + n ≤ b.length →
    ∃ b', bitsetClearBits b i n = some b'
  | 0, b, _, _ => ⟨b, rfl⟩
  | n + 1, b, i, h => by
    obtain ⟨c, hc⟩ := bitsetClearBit_ok (b := b) (n := i) (by omega)
    have hl := (bitsetClearBit_wiped hc).2.length
    obtain ⟨b', hb'⟩ := bitsetClearBits_ok (n := n) (b := c) (i := i + 1) (by omega)
    exact ⟨b', by simp [bitsetClearBits, hc, hb']⟩

end ShawnOS
