/-
The interval timer's routines (`drivers/pc/pit.c`).

Installed routines fill the slots of an array from the front. Uninstalling
one only zeroes its rate, and the tick handler still visits its slot: the
first tick after any uninstall divides by zero. Until then each tick calls
exactly the routines that are due.
-/
import ShawnOS.Kernel
import ShawnOS.Lib.Traces

namespace ShawnOS

open Word32 Traces

variable {φ : Type}

/-- `struct pit_routine`, with routines of a type `φ`. -/
structure PitRoutine (φ : Type) where
  hz : Nat
  func : φ
deriving DecidableEq

/-- `_pit_routines`, `_pit_routines_size` and `pit_total_timer_ticks`. -/
structure PitState (φ : Type) where
  routines : List (PitRoutine φ)
  routinesSize : Nat
  totalTimerTicks : Nat

/-- At boot: 64 zeroed slots. -/
def pitBoot (null : φ) : PitState φ where
  routines := List.replicate 64 ⟨0, null⟩
  routinesSize := 0
  totalTimerTicks := 0

/-- `pit_install_scheduler_routine`: the slot's index, or -1 as 16 bits. -/
def pitInstallSchedulerRoutine (r : PitRoutine φ) (s : PitState φ) : Nat × PitState φ :=
  if s.routinesSize ≥ 64 then (0xFFFF, s)
  else (s.routinesSize, { s with routines := s.routines.set s.routinesSize r, routinesSize := s.routinesSize + 1 })

/-- `pit_uninstall_scheduler_routine`; nothing when the index lies outside
the array. -/
def pitUninstallSchedulerRoutine (index : Nat) (s : PitState φ) : Option (PitState φ) :=
  if index < s.routines.length then
    some { s with routines := s.routines.modify index fun r => { r with hz := 0 } }
  else none

/-- The loop of `pit_irq_timer_handler`, with `rem` slots left from `i` on:
the routines called. The processor faults on a modulo by zero. -/
def pitDispatch (routines : List (PitRoutine φ)) (ticks : Nat) : (rem i : Nat) → Option (List φ)
  | 0, _ => some []
  | rem + 1, i => do
    let r ← routines[i]?
    if r.hz = 0 then none
    else
      let called ← pitDispatch routines ticks rem (i + 1)
      pure (if ticks % r.hz = 0 then r.func :: called else called)

/-- `pit_irq_timer_handler`; it aborts on another interrupt than IRQ 0. -/
def pitIrqTimerHandler (intNo : Nat) (s : PitState φ) : Option (PitState φ × List φ) := do
  if sub32 intNo 32 ≠ 0 then none
  else
    let ticks := u32 (s.totalTimerTicks + 1)
    let called ← pitDispatch s.routines ticks s.routinesSize 0
    pure ({ s with totalTimerTicks := ticks }, called)

/-! ## Runs -/

/-- The timer and what was installed, in slot order, with whether it still
is. -/
structure PitRun (φ : Type) where
  pit : PitState φ
  installed : List (PitRoutine φ × Bool)

/-- A call of one of the three functions. -/
inductive PitCall (φ : Type) where
  | install (r : PitRoutine φ)
  | uninstall (index : Nat)
  | tick
deriving DecidableEq

/-- One call. -/
def pitStep (t : PitRun φ) : PitCall φ → Option (PitRun φ)
  | .install r =>
    let (index, pit) := pitInstallSchedulerRoutine r t.pit
    some ⟨pit, if index = 0xFFFF then t.installed else t.installed ++ [(r, true)]⟩
  | .uninstall index => do
    let pit ← pitUninstallSchedulerRoutine index t.pit
    pure ⟨pit, t.installed.modify index fun e => (e.1, false)⟩
  | .tick => do
    let (pit, _) ← pitIrqTimerHandler 32 t.pit
    pure { t with pit }

/-- The routines due at a tick: installed, not uninstalled, at a rate that
divides the tick count. -/
def due (installed : List (PitRoutine φ × Bool)) (ticks : Nat) : List φ :=
  (installed.filter fun e => e.2 && ticks % e.1.hz = 0).map (·.1.func)

/-- A tick divides by nothing but nonzero rates and calls what is due. -/
def TickExact (t : PitRun φ) (c : PitCall φ) : Prop :=
  c = .tick → ∃ pit, pitIrqTimerHandler 32 t.pit = some (pit, due t.installed (u32 (t.pit.totalTimerTicks + 1)))

/-- Rates are nonzero, and indices are of routines that were installed. -/
def PitAllowed (t : PitRun φ) : PitCall φ → Prop
  | .install r => 1 ≤ r.hz
  | .uninstall index => index < t.installed.length
  | .tick => True

/-- No tick comes after an uninstall. -/
def NoneRetired (t : PitRun φ) (c : PitCall φ) : Prop := c = .tick → ∀ e ∈ t.installed, e.2 = true

/-! ## The slots -/

/-- What the slot of an installed routine holds. -/
def slotOf (e : PitRoutine φ × Bool) : PitRoutine φ := if e.2 then e.1 else { e.1 with hz := 0 }

/-- The slots below the size are those of the installed routines. -/
structure PitInv (t : PitRun φ) : Prop where
  slots : t.pit.routines.length = 64
  size : t.pit.routinesSize = t.installed.length
  le : t.installed.length ≤ 64
  slot : ∀ (i : Nat) e, t.installed[i]? = some e → t.pit.routines[i]? = some (slotOf e)
  rate : ∀ e ∈ t.installed, 1 ≤ e.1.hz

theorem pitDispatch_eq {routines : List (PitRoutine φ)} (ticks : Nat) :
    ∀ {l : List (PitRoutine φ × Bool)} {i : Nat}, (∀ (j : Nat) e, l[j]? = some e → routines[i + j]? = some (slotOf e)) →
      (∀ e ∈ l, 1 ≤ e.1.hz) →
      pitDispatch routines ticks l.length i = if ∀ e ∈ l, e.2 = true then some (due l ticks) else none := by
  intro l
  induction l with
  | nil => intro i _ _; simp [pitDispatch, due]
  | cons e l ih =>
    intro i hslot hrate
    have hnext := @ih (i + 1) (fun j e' he => by
      have := hslot (j + 1) e' (by simpa using he)
      rwa [show i + (j + 1) = i + 1 + j by omega] at this) fun e' he => hrate e' (List.mem_cons_of_mem _ he)
    have h0 : routines[i]? = some (slotOf e) := hslot 0 e rfl
    have hhz := hrate e List.mem_cons_self
    rw [List.length_cons, pitDispatch, h0, hnext, Option.bind_eq_bind, Option.bind_some]
    cases hactive : e.2 with
    | false => simp [slotOf, hactive]
    | true =>
      have hz : ¬ e.1.hz = 0 := by omega
      simp only [slotOf, hactive, ite_true, hz, ite_false, List.forall_mem_cons, true_and]
      by_cases hall : ∀ e' ∈ l, e'.2 = true
      · rw [if_pos hall, if_pos hall]
        by_cases hdue : ticks % e.1.hz = 0 <;> simp [due, hactive, hdue]
      · rw [if_neg hall, if_neg hall]
        rfl

theorem pitIrqTimerHandler_eq {t : PitRun φ} (h : PitInv t) :
    pitIrqTimerHandler 32 t.pit =
      if ∀ e ∈ t.installed, e.2 = true then
        some ({ t.pit with totalTimerTicks := u32 (t.pit.totalTimerTicks + 1) },
          due t.installed (u32 (t.pit.totalTimerTicks + 1)))
      else none := by
  have hirq : ¬ sub32 32 32 ≠ 0 := by decide
  have hd := @pitDispatch_eq φ _ (u32 (t.pit.totalTimerTicks + 1)) t.installed 0
    (fun j e he => by rw [Nat.zero_add]; exact h.slot j e he) h.rate
  rw [← h.size] at hd
  rw [pitIrqTimerHandler, if_neg hirq]
  dsimp only
  rw [hd]
  split <;> rfl

theorem PitInv.start (null : φ) : PitInv (⟨pitBoot null, []⟩ : PitRun φ) :=
  ⟨by simp [pitBoot], rfl, by simp, by simp, by simp⟩

/-- The new routine gets the first slot behind the old ones. -/
theorem PitInv.install {t t' : PitRun φ} {r : PitRoutine φ} (h : PitInv t) (hr : 1 ≤ r.hz)
    (hs : pitStep t (.install r) = some t') : PitInv t' := by
  have hsize := h.size; have hle := h.le
  simp only [pitStep, pitInstallSchedulerRoutine, hsize] at hs
  by_cases hfull : t.installed.length ≥ 64
  · simp only [hfull, ite_true, Option.some.injEq] at hs
    rw [← hs]
    exact h
  · have hne : ¬ t.installed.length = 0xFFFF := by omega
    simp only [hfull, ite_false, hne, Option.some.injEq] at hs
    subst hs
    refine ⟨by simp [h.slots], by simp, by simp; omega, fun i e he => ?_, fun e he => ?_⟩
    · by_cases hi : i = t.installed.length
      · subst hi
        have hin : t.installed.length < t.pit.routines.length := by rw [h.slots]; omega
        simp at he
        subst he
        simp [hin, slotOf]
      · have hold : t.installed[i]? = some e := by
          have hlt := (List.getElem?_eq_some_iff.mp he).1
          rw [List.length_append, List.length_singleton] at hlt
          rwa [List.getElem?_append_left (by omega)] at he
        rw [List.getElem?_set_ne (Ne.symm hi)]
        exact h.slot i e hold
    · rcases List.mem_append.mp he with he | he
      · exact h.rate e he
      · rw [List.mem_singleton.mp he]
        exact hr

/-- The routine's slot keeps all but its rate. -/
theorem PitInv.uninstall {t t' : PitRun φ} {index : Nat} (h : PitInv t) (hi : index < t.installed.length)
    (hs : pitStep t (.uninstall index) = some t') : PitInv t' := by
  have hin : index < t.pit.routines.length := by rw [h.slots]; exact Nat.lt_of_lt_of_le hi h.le
  simp only [pitStep, pitUninstallSchedulerRoutine, hin, ite_true, bind, Option.bind_some, pure,
    Option.some.injEq] at hs
  subst hs
  refine ⟨by simp [h.slots], by simp [h.size], by simp [h.le], fun i e he => ?_, fun e he => ?_⟩
  · rw [List.getElem?_modify] at he ⊢
    obtain ⟨e', he', rfl⟩ := Option.map_eq_some_iff.mp he
    rw [h.slot i e' he']
    by_cases hi : index = i
    · cases hact : e'.2 <;> simp [hi, slotOf, hact]
    · simp [hi]
  · obtain ⟨i, hi⟩ := List.mem_iff_getElem?.mp he
    rw [List.getElem?_modify] at hi
    obtain ⟨e', he', rfl⟩ := Option.map_eq_some_iff.mp hi
    have hr := h.rate e' (List.mem_of_getElem? he')
    split
    · exact hr
    · exact hr

/-- Every call keeps the slots. -/
theorem PitInv.step {t t' : PitRun φ} {c : PitCall φ} (h : PitInv t) (ha : PitAllowed t c)
    (hs : pitStep t c = some t') : PitInv t' := by
  cases c with
  | install r => exact h.install ha hs
  | uninstall index => exact h.uninstall ha hs
  | tick =>
    simp only [pitStep, pitIrqTimerHandler_eq h] at hs
    split at hs
    · cases hs
      exact ⟨h.slots, h.size, h.le, h.slot, h.rate⟩
    · cases hs

/-- **One tick** is exact when no routine was uninstalled before it, and else
divides by zero. -/
theorem PitInv.tickExact_iff {t : PitRun φ} (h : PitInv t) (c : PitCall φ) : TickExact t c ↔ NoneRetired t c := by
  unfold TickExact NoneRetired
  refine forall_congr' fun _ => ?_
  rw [pitIrqTimerHandler_eq h]
  split
  · next hall => exact iff_of_true ⟨_, rfl⟩ hall
  · next hall => exact iff_of_false (fun ⟨_, h0⟩ => by cases h0) hall

/-- **When dispatch is exact**: over every sequence of calls, each tick
divides by nothing but nonzero rates and calls what is due exactly when no
tick follows an uninstall. -/
theorem pit_dispatch_exact_iff (null : φ) (calls : List (PitCall φ))
    (ha : EachStep pitStep PitAllowed ⟨pitBoot null, []⟩ calls) :
    EachStep pitStep TickExact ⟨pitBoot null, []⟩ calls ↔ EachStep pitStep NoneRetired ⟨pitBoot null, []⟩ calls :=
  eachStep_iff (fun _ c h hc => ⟨h.tickExact_iff c, fun _ _ hs => h.step hc hs⟩) (PitInv.start null) ha

instance (t : PitRun φ) : ∀ c : PitCall φ, Decidable (PitAllowed t c)
  | .install _ => inferInstanceAs (Decidable (_ ≤ _))
  | .uninstall _ => inferInstanceAs (Decidable (_ < _))
  | .tick => isTrue trivial

instance [DecidableEq φ] (t : PitRun φ) (c : PitCall φ) : Decidable (NoneRetired t c) :=
  inferInstanceAs (Decidable (_ → _))

/-- A routine called at every second tick. -/
theorem pit_dispatch_exact_two :
    EachStep pitStep PitAllowed ⟨pitBoot 0, []⟩ [.install ⟨2, 7⟩, .tick, .tick] ∧
    EachStep pitStep TickExact ⟨pitBoot 0, []⟩ [.install ⟨2, 7⟩, .tick, .tick] := by
  have ha : EachStep pitStep PitAllowed ⟨pitBoot 0, []⟩ [.install ⟨2, 7⟩, .tick, .tick] := by decide
  exact ⟨ha, (pit_dispatch_exact_iff 0 _ ha).mpr (by decide)⟩

/-- The only routine is uninstalled: the next tick divides by zero. -/
theorem pit_divides_by_zero :
    EachStep pitStep PitAllowed ⟨pitBoot 0, []⟩ [.install ⟨2, 7⟩, .uninstall 0, .tick] ∧
    ¬ EachStep pitStep TickExact ⟨pitBoot 0, []⟩ [.install ⟨2, 7⟩, .uninstall 0, .tick] := by
  refine ⟨by decide, fun h => ?_⟩
  obtain ⟨pit, he⟩ := ((h.2 _ rfl).2 _ rfl).1 rfl
  have hfault : pitIrqTimerHandler 32 (⟨List.replicate 64 ⟨0, 0⟩ |>.set 0 ⟨0, 7⟩, 1, 0⟩ : PitState Nat) = none := rfl
  cases hfault.symm.trans he

end ShawnOS
