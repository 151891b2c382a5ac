/-
Lists held in a memory of cells.

A memory gives each index a value, or `none` where nothing was stored.
`Holds m start l` says that the cells from `start` on hold `l`; a store at
either end makes the list longer, one elsewhere leaves it, and a memory
mirrored over the list's cells holds it reversed.
-/
import Mathlib.Data.Int.Init
import Mathlib.Logic.Function.Basic

namespace Cells

variable {α : Type}

/-- The cells from `start` on hold `l`. -/
def Holds (m : Int → Option α) (start : Int) (l : List α) : Prop :=
  ∀ (i : Nat) (h : i < l.length), m (start + i) = some l[i]

variable {m m' : Int → Option α} {start : Int} {l : List α}

theorem holds_nil : Holds m start [] := fun _ h => absurd h (Nat.not_lt_zero _)

/-- One list behind the other. -/
theorem holds_append {l' : List α} : Holds m start (l ++ l') ↔ Holds m start l ∧ Holds m (start + l.length) l' := by
  constructor
  · intro h
    refine ⟨fun i hi => ?_, fun i hi => ?_⟩
    · rw [h i (by rw [List.length_append]; omega), List.getElem_append_left hi]
    · have hi' := h (l.length + i) (by rw [List.length_append]; omega)
      rw [List.getElem_append_right (Nat.le_add_right _ _)] at hi'
      simpa [Int.add_assoc] using hi'
  · rintro ⟨h, h'⟩ i hi
    rw [List.length_append] at hi
    by_cases hlt : i < l.length
    · rw [List.getElem_append_left hlt]
      exact h i hlt
    · rw [List.getElem_append_right (by omega), ← h' (i - l.length) (by omega)]
      exact congrArg m (by omega)

/-- A store elsewhere. -/
theorem Holds.store_other (h : Holds m start l) {at' : Int} (hat : at' < start ∨ start + l.length ≤ at')
    (a : Option α) : Holds (Function.update m at' a) start l := fun i hi => by
  rw [Function.update_of_ne (by omega)]
  exact h i hi

/-- A store in front. -/
theorem Holds.store_before (h : Holds m (start + 1) l) (a : α) :
    Holds (Function.update m start (some a)) start (a :: l) := fun i hi => by
  cases i with
  | zero => simp
  | succ i =>
    rw [Function.update_of_ne (by omega), List.getElem_cons_succ, ← h i (Nat.lt_of_succ_lt_succ hi)]
    exact congrArg m (by omega)

/-- A store behind. -/
theorem Holds.store_behind (h : Holds m start l) (a : α) :
    Holds (Function.update m (start + l.length) (some a)) start (l ++ [a]) := fun i hi => by
  rw [List.length_append, List.length_singleton] at hi
  by_cases hlast : i = l.length
  · subst hlast
    simp
  · have hlt : i < l.length := by omega
    rw [Function.update_of_ne (by omega), List.getElem_append_left hlt]
    exact h i hlt

/-- The cells mirrored. -/
theorem Holds.mirror (h : Holds m start l)
    (hm : ∀ i, start ≤ i → i < start + l.length → m' i = m (2 * start + l.length - 1 - i)) :
    Holds m' start l.reverse := fun i hi => by
  rw [List.length_reverse] at hi
  rw [hm _ (by omega) (by omega), List.getElem_reverse]
  rw [← h (l.length - 1 - i) (by omega)]
  exact congrArg m (by omega)

end Cells
