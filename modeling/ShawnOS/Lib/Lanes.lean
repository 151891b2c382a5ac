/-
Bytes in a memory of 32-bit words.

A word lies at each address divisible by four and holds four bytes, the
lowest first. Storing a byte changes its own lane of its own word, and
nothing that another address reads.
-/
import Mathlib.Logic.Function.Basic
import Mathlib.Algebra.Ring.Nat

namespace Lanes

/-- The byte in lane `k` of a word. -/
def lane (w k : Nat) : Nat := w / 256 ^ k % 256

/-- The word `w` with the byte `x` in lane `k`. -/
def setLane (w k x : Nat) : Nat := 256 ^ (k + 1) * (w / 256 ^ (k + 1)) + 256 ^ k * x + w % 256 ^ k

/-- The byte at the address `a`. -/
def byteAt (m : Nat → Nat) (a : Nat) : Nat := lane (m (4 * (a / 4))) (a % 4)

/-- The word at the address of the byte `a`, with `x` stored there. -/
def wordWith (m : Nat → Nat) (a x : Nat) : Nat := setLane (m (4 * (a / 4))) (a % 4) x

variable {w k j x a b : Nat} {m m' : Nat → Nat}

theorem lane_setLane (hx : x < 256) (hk : k < 4) (hj : j < 4) :
    lane (setLane w k x) j = if j = k then x else lane w j := by
  split
  · next he =>
    subst he
    obtain rfl | rfl | rfl | rfl : j = 0 ∨ j = 1 ∨ j = 2 ∨ j = 3 := by omega
    all_goals
      simp only [lane, setLane, Nat.reduceAdd, Nat.reducePow]
      omega
  · next hne =>
    obtain rfl | rfl | rfl | rfl : k = 0 ∨ k = 1 ∨ k = 2 ∨ k = 3 := by omega
    all_goals
      obtain rfl | rfl | rfl | rfl : j = 0 ∨ j = 1 ∨ j = 2 ∨ j = 3 := by omega
      all_goals
        simp only [lane, setLane, Nat.reduceAdd, Nat.reducePow]
        omega

/-- The byte is read from its word alone. -/
theorem byteAt_congr (h : m' (4 * (a / 4)) = m (4 * (a / 4))) : byteAt m' a = byteAt m a := by
  rw [byteAt, h, byteAt]

/-- **Store and load.** -/
theorem byteAt_update (hx : x < 256) :
    byteAt (Function.update m (4 * (a / 4)) (wordWith m a x)) b = if b = a then x else byteAt m b := by
  by_cases hword : b / 4 = a / 4
  · rw [byteAt, hword, Function.update_self, wordWith, lane_setLane hx (by omega) (by omega), byteAt, hword]
    by_cases he : b = a
    · rw [if_pos he, if_pos (by omega)]
    · rw [if_neg he, if_neg (by omega)]
  · rw [if_neg (by omega), byteAt, Function.update_of_ne (by omega), byteAt]

end Lanes
