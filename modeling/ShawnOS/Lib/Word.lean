/-
32-bit words as naturals: wrap-around, and the two bit tricks of a word that
holds a 4096-aligned address and twelve flag bits.
-/
import Mathlib.Data.Nat.Bitwise

namespace Word32

/-- The value a 32-bit register keeps of `n`. -/
def u32 (n : Nat) : Nat := n % 2 ^ 32

/-- 32-bit subtraction, of `b` no larger than a word. -/
def sub32 (a b : Nat) : Nat := (a + 2 ^ 32 - b) % 2 ^ 32

theorem u32_lt (n : Nat) : u32 n < 2 ^ 32 := Nat.mod_lt _ (by decide)

theorem sub32_lt (a b : Nat) : sub32 a b < 2 ^ 32 := Nat.mod_lt _ (by decide)

theorem u32_of_lt {n : Nat} (h : n < 2 ^ 32) : u32 n = n := Nat.mod_eq_of_lt h

theorem sub32_of_le {a b : Nat} (ha : a < 2 ^ 32) (h : b ≤ a) : sub32 a b = a - b := by
  unfold sub32
  omega

/-- Adding flags to an aligned address. -/
theorem or_flags {a f : Nat} (ha : a % 4096 = 0) (hf : f < 4096) : a ||| f = a + f := by
  have h := Nat.two_pow_add_eq_or_of_lt (i := 12) hf (a / 4096)
  have e : 2 ^ 12 * (a / 4096) = a := by omega
  rw [e] at h
  exact h.symm

/-- Dropping the flags of an entry. -/
theorem and_page {a : Nat} (ha : a < 2 ^ 32) : a &&& 0xFFFFF000 = 4096 * (a / 4096) := by
  have e : (0xFFFFF000 : Nat) = (2 ^ 20 - 1) <<< 12 := by decide
  have e' : 4096 * (a / 4096) = (a >>> 12) <<< 12 := by
    rw [Nat.shiftLeft_eq, Nat.shiftRight_eq_div_pow, Nat.mul_comm]
  rw [e, e']
  apply Nat.eq_of_testBit_eq
  intro i
  rw [Nat.testBit_and, Nat.testBit_shiftLeft, Nat.testBit_shiftLeft, Nat.testBit_two_pow_sub_one,
    Nat.testBit_shiftRight]
  by_cases h : 12 ≤ i
  · have hi : 12 + (i - 12) = i := by omega
    rw [hi]
    by_cases h' : i < 32
    · simp [h, show i - 12 < 20 by omega]
    · have hz : a.testBit i = false :=
        Nat.testBit_lt_two_pow (Nat.lt_of_lt_of_le ha (Nat.pow_le_pow_right (by decide) (by omega)))
      simp [hz]
  · simp [h]

end Word32
