/-
Waiting for the timer (`drivers/pc/pit.c`).

Both waits compute the tick count to wait for as a 32-bit sum and compare the
counter with it. When the sum wraps, the counter is above it before the time
has passed: at once, or at the latest when the counter stands at its highest.
-/
import ShawnOS.Pit
import Mathlib.Logic.Function.Iterate

namespace ShawnOS

open Word32

variable {φ : Type}

/-- `PIT_TIMER_CONSTANT`: ticks in a second. -/
def pitTimerConstant : Nat := 1000

/-- `pit_total_timer_ticks` after `n` more ticks. -/
def ticked (n totalTimerTicks : Nat) : Nat := (fun t => u32 (t + 1))^[n] totalTimerTicks

/-- `while (desired_ticks > pit_total_timer_ticks)`: how many ticks have passed
when it ends. `ticks` are those that come before each of its checks. -/
def pitWaitLoop (desiredTicks : Nat) : (ticks : List Nat) → (totalTimerTicks passed : Nat) → Option Nat
  | [], _, _ => none
  | n :: ticks, totalTimerTicks, passed =>
    let totalTimerTicks := ticked n totalTimerTicks
    if desiredTicks > totalTimerTicks then pitWaitLoop desiredTicks ticks totalTimerTicks (passed + n)
    else some (passed + n)

/-- `pit_timer_wait`. -/
def pitTimerWait (seconds : Nat) (ticks : List Nat) (s : PitState φ) : Option Nat :=
  let desiredTicks := u32 (s.totalTimerTicks + u32 (seconds * pitTimerConstant))
  pitWaitLoop desiredTicks ticks s.totalTimerTicks 0

/-- `pit_timer_wait_ms`. -/
def pitTimerWaitMs (ms : Nat) (ticks : List Nat) (s : PitState φ) : Option Nat :=
  let desiredTicks := u32 (s.totalTimerTicks + u32 (ms * (pitTimerConstant / 1000)))
  pitWaitLoop desiredTicks ticks s.totalTimerTicks 0

/-- However the ticks come, `needed` of them pass before the wait returns. -/
def NeverShort (wait : List Nat → Option Nat) (needed : Nat) : Prop := ∀ ticks passed, wait ticks = some passed → needed ≤ passed

/-- A tick is what `pit_irq_timer_handler` makes of one. -/
theorem pitIrqTimerHandler_ticked {intNo : Nat} {s s' : PitState φ} {called : List φ}
    (h : pitIrqTimerHandler intNo s = some (s', called)) : s'.totalTimerTicks = ticked 1 s.totalTimerTicks := by
  rw [pitIrqTimerHandler] at h
  split at h
  · cases h
  · simp only [bind, Option.bind_eq_some_iff, pure, Option.some.injEq, Prod.mk.injEq] at h
    obtain ⟨called', -, rfl, -⟩ := h
    rfl

theorem ticked_eq {n total : Nat} (h : total < 2 ^ 32) : ticked n total = u32 (total + n) := by
  induction n with
  | zero => exact (u32_of_lt h).symm
  | succ n ih =>
    rw [ticked, Function.iterate_succ_apply', ← ticked, ih]
    unfold u32
    omega

/-- The wait returns at a count that is not below `desired`. -/
theorem pitWaitLoop_some {desired total : Nat} : ∀ {ticks : List Nat} {count passed result : Nat},
    count = u32 (total + passed) → pitWaitLoop desired ticks count passed = some result → desired ≤ u32 (total + result)
  | [], _, _, _, _, h => by cases h
  | n :: ticks, count, passed, result, hcount, h => by
    have hnext : ticked n count = u32 (total + (passed + n)) := by
      rw [hcount, ticked_eq (u32_lt _)]
      unfold u32
      omega
    rw [pitWaitLoop] at h
    split at h
    · exact pitWaitLoop_some hnext h
    · next hge =>
      cases h
      rw [← hnext]
      omega

/-- **A wait for a 32-bit sum** is never short exactly when the sum does not
wrap, or there is nothing to wait for. -/
theorem neverShort_iff {total needed : Nat} (h : total < 2 ^ 32) :
    NeverShort (fun ticks => pitWaitLoop (u32 (total + u32 needed)) ticks total 0) needed ↔
      needed = 0 ∨ total + needed < 2 ^ 32 := by
  have hdesired : u32 (total + u32 needed) = u32 (total + needed) := by
    unfold u32
    omega
  rw [hdesired]
  constructor
  · intro hshort
    by_contra hcond
    -- One look at the counter, when it is at its highest.
    have htop : ticked (2 ^ 32 - 1 - total) total = 2 ^ 32 - 1 := by
      rw [ticked_eq h, show total + (2 ^ 32 - 1 - total) = 2 ^ 32 - 1 by omega, u32_of_lt (by decide)]
    have hle := u32_lt (total + needed)
    have hreturns := hshort [2 ^ 32 - 1 - total] (2 ^ 32 - 1 - total) (by
      simp only [pitWaitLoop, htop]
      rw [if_neg (by omega), Nat.zero_add])
    omega
  · intro hcond ticks passed hreturns
    have hge := @pitWaitLoop_some _ total _ _ 0 _ (u32_of_lt h).symm hreturns
    by_contra hshort
    rw [u32_of_lt (show total + needed < 2 ^ 32 by omega), u32_of_lt (by omega)] at hge
    omega

/-- **`pit_timer_wait` and `pit_timer_wait_ms`** are never short exactly when
the count they wait for is below `2^32`. -/
theorem pit_waits_never_short_iff {s : PitState φ} (h : s.totalTimerTicks < 2 ^ 32) (seconds ms : Nat) :
    (NeverShort (fun ticks => pitTimerWait seconds ticks s) (seconds * pitTimerConstant) ↔
      seconds = 0 ∨ s.totalTimerTicks + seconds * pitTimerConstant < 2 ^ 32) ∧
    (NeverShort (fun ticks => pitTimerWaitMs ms ticks s) ms ↔ ms = 0 ∨ s.totalTimerTicks + ms < 2 ^ 32) := by
  constructor
  · have hzero : seconds = 0 ↔ seconds * pitTimerConstant = 0 := by
      unfold pitTimerConstant
      omega
    rw [hzero]
    exact neverShort_iff h
  · have hone : ms * (pitTimerConstant / 1000) = ms := Nat.mul_one ms
    simp only [pitTimerWaitMs, hone]
    exact neverShort_iff h

/-- A second from boot. -/
theorem pit_waits_second : NeverShort (fun ticks => pitTimerWait 1 ticks (pitBoot 0)) 1000 :=
  (@pit_waits_never_short_iff Nat (pitBoot 0) (by decide) 1 0).1.mpr (.inr (by decide))

/-- A second, a tick before the counter wraps: the wait returns at once. -/
theorem pit_wait_short : pitTimerWait 1 [0] { pitBoot 0 with totalTimerTicks := 2 ^ 32 - 1 } = some 0 ∧
    ¬ NeverShort (fun ticks => pitTimerWait 1 ticks { pitBoot 0 with totalTimerTicks := 2 ^ 32 - 1 }) 1000 := by
  have hreturns : pitTimerWait 1 [0] { pitBoot 0 with totalTimerTicks := 2 ^ 32 - 1 } = some 0 := by decide
  refine ⟨hreturns, fun h => ?_⟩
  have := h [0] 0 hreturns
  omega

end ShawnOS
