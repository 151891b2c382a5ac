/-
What every kernel source file shares (`kernel/kernel.h`): result codes, the
rounding macro, the memory-layout constants, and how a call can fail to
return.

`ASSERT`, `PANIC` and the page-fault handler all end in `abort()`, so a
function that can only do that is modelled in `Option`, with `none` for
`abort()`. A function with a loop that need not end is modelled in
`Except Halt`. 32-bit values are naturals; `u32` and `sub32` stand where the
C arithmetic can wrap.
-/
import ShawnOS.Lib.Word

namespace ShawnOS

open Word32

/-- `k_return_t`. -/
inductive KReturn where
  | success
  | unimpl
  | oom
  | io
  | nospace
  | notsup
  | invalop
deriving DecidableEq, Repr

/-- The value of a code. -/
def KReturn.code : KReturn → Nat
  | .success => 0
  | .unimpl => 1
  | .oom => 2
  | .io => 3
  | .nospace => 4
  | .notsup => 5
  | .invalop => 6

/-- `K_FAILED`. -/
def KReturn.failed (code : KReturn) : Bool := code != .success

/-- Why a call does not return. -/
inductive Halt where
  | abort
  | hang
deriving DecidableEq, Repr

instance : MonadLift Option (Except Halt) where
  monadLift
    | some a => .ok a
    | none => .error .abort

/-- `ASSERT`. -/
def kassert (p : Prop) [Decidable p] : Option Unit := if p then some () else none

/-- `DIV_ROUND_UP`, on 32-bit operands: `0` wraps. -/
def divRoundUp (a b : Nat) : Nat := u32 (sub32 a 1 / b + 1)

/-- `PAGE_SIZE`, also the `kpaging_data.page_size` that paging installs. -/
def pageSize : Nat := 4096

/-- `KVIRT_RESERVED`: below it memory is identity mapped. -/
def kvirtReserved : Nat := 0x17c000

/-- `KVIRT_MAX`. -/
def kvirtMax : Nat := 0x3FFFFFFF

/-- `sizeof(uint32_t)`. -/
def sizeofU32 : Nat := 4

@[simp] theorem kassert_eq_some {p : Prop} [Decidable p] {u : Unit} : kassert p = some u ↔ p := by
  simp [kassert]

theorem kassert_of {p : Prop} [Decidable p] (h : p) : kassert p = some () := by simp [kassert, h]

@[simp] theorem failed_success : KReturn.success.failed = false := rfl

theorem failed_eq_false {r : KReturn} : r.failed = false ↔ r = .success := by
  cases r <;> simp [KReturn.failed]

theorem divRoundUp_of_pos {a b : Nat} (ha : 0 < a) (h : a < 2 ^ 32) :
    divRoundUp a b = (a - 1) / b + 1 := by
  have h1 : sub32 a 1 = a - 1 := sub32_of_le h ha
  have h2 : (a - 1) / b ≤ a - 1 := Nat.div_le_self _ _
  rw [divRoundUp, h1, u32_of_lt (by omega)]

/-! ## Calls that return -/

@[simp] theorem liftM_some {α : Type} (a : α) : (liftM (some a) : Except Halt α) = .ok a := rfl

@[simp] theorem liftM_none {α : Type} : (liftM (none : Option α) : Except Halt α) = .error .abort := rfl

@[simp] theorem ok_bind {α β : Type} (a : α) (f : α → Except Halt β) : (Except.ok a >>= f) = f a := rfl

@[simp] theorem error_bind {α β : Type} (e : Halt) (f : α → Except Halt β) :
    ((Except.error e : Except Halt α) >>= f) = .error e := rfl

theorem liftM_eq_ok {α : Type} {x : Option α} {a : α} :
    (liftM x : Except Halt α) = .ok a ↔ x = some a := by
  cases x <;> simp [liftM, monadLift, MonadLift.monadLift]

theorem bind_eq_ok {α β : Type} {x : Except Halt α} {f : α → Except Halt β} {b : β} :
    (x >>= f) = .ok b ↔ ∃ a, x = .ok a ∧ f a = .ok b := by
  cases x with
  | ok a => simp [bind, Except.bind]
  | error e => simp [bind, Except.bind]

end ShawnOS
