/-
Arrays that record which of their elements are touched.

`Logged` is an array together with the indices at which it was read or
written so far. A program run on one leaves the cells it would leave of the
array alone; `Within` says where it was while it ran.
-/
import Mathlib.Logic.Function.Basic

namespace Touched

variable {ι α : Type}

/-- An array and the indices touched, the last one first. -/
structure Logged (ι α : Type) where
  cells : ι → α
  touched : List ι

/-- An array nobody has touched. -/
def Logged.start (cells : ι → α) : Logged ι α := ⟨cells, []⟩

/-- Reading the element at `i`. -/
def Logged.read (l : Logged ι α) (i : ι) : α × Logged ι α := (l.cells i, ⟨l.cells, i :: l.touched⟩)

/-- Writing the element at `i`. -/
def Logged.write [DecidableEq ι] (l : Logged ι α) (i : ι) (a : α) : Logged ι α :=
  ⟨Function.update l.cells i a, i :: l.touched⟩

/-- Only indices with the property were touched. -/
def Logged.Within (P : ι → Prop) (l : Logged ι α) : Prop := ∀ i ∈ l.touched, P i

variable {P : ι → Prop} {l : Logged ι α} {i : ι} {a : α}

@[simp] theorem start_cells (cells : ι → α) : (Logged.start cells).cells = cells := rfl

@[simp] theorem read_fst : (l.read i).1 = l.cells i := rfl

@[simp] theorem read_cells : (l.read i).2.cells = l.cells := rfl

@[simp] theorem write_cells [DecidableEq ι] : (l.write i a).cells = Function.update l.cells i a := rfl

@[simp] theorem within_start (cells : ι → α) : (Logged.start cells).Within P := fun _ h => absurd h List.not_mem_nil

@[simp] theorem within_read : (l.read i).2.Within P ↔ P i ∧ l.Within P := List.forall_mem_cons

@[simp] theorem within_write [DecidableEq ι] : (l.write i a).Within P ↔ P i ∧ l.Within P := List.forall_mem_cons

end Touched
