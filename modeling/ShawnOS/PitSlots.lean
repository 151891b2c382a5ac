/-
The slots of the timer's routines over installs and uninstalls.

The table is filled from the front and a slot is never taken again: once 64
routines have been installed every install fails, however many of them were
uninstalled since. The failure is the value `0xFFFF`, and uninstalling that
writes far behind the table.
-/
import ShawnOS.Pit

namespace ShawnOS

open Traces

variable {φ : Type}

/-- The table; for each slot ever taken whether its routine is still
installed; and what installs have returned. -/
structure SlotRun (φ : Type) where
  pit : PitState φ
  live : List Bool
  returned : List Nat

/-- A call of one of the two functions. -/
inductive SlotCall (φ : Type) where
  | install (r : PitRoutine φ)
  | uninstall (index : Nat)

/-- One call. -/
def slotStep (t : SlotRun φ) : SlotCall φ → Option (SlotRun φ)
  | .install r =>
    let (index, pit) := pitInstallSchedulerRoutine r t.pit
    some ⟨pit, if index = 0xFFFF then t.live else t.live ++ [true], index :: t.returned⟩
  | .uninstall index => do
    let pit ← pitUninstallSchedulerRoutine index t.pit
    pure ⟨pit, t.live.set index false, t.returned⟩

/-- An uninstall is given what an install returned. -/
def SlotAllowed (t : SlotRun φ) : SlotCall φ → Prop
  | .install _ => True
  | .uninstall index => index ∈ t.returned

/-- The slots of `_pit_routines` that a call reads or writes. -/
def slotsTouched (t : SlotRun φ) : SlotCall φ → List Nat
  | .install _ => if t.pit.routinesSize ≥ 64 then [] else [t.pit.routinesSize]
  | .uninstall index => [index]

/-- An install fails only with 64 routines installed, and no call leaves the
table. -/
structure SlotRight (t : SlotRun φ) (c : SlotCall φ) : Prop where
  full : ∀ r, c = .install r → (pitInstallSchedulerRoutine r t.pit).1 = 0xFFFF → t.live.count true = 64
  inside : ∀ i ∈ slotsTouched t c, i < 64

/-- There is an install only while slots are left or nothing was uninstalled,
and the failure value is not uninstalled. -/
def SlotsLeft (t : SlotRun φ) : SlotCall φ → Prop
  | .install _ => t.live.length < 64 ∨ false ∉ t.live
  | .uninstall index => index ≠ 0xFFFF

/-- The slots taken, and the values returned for them. -/
structure SlotInv (t : SlotRun φ) : Prop where
  slots : t.pit.routines.length = 64
  size : t.pit.routinesSize = t.live.length
  le : t.live.length ≤ 64
  returned : ∀ i ∈ t.returned, i < t.live.length ∨ i = 0xFFFF

theorem SlotInv.start (null : φ) : SlotInv (⟨pitBoot null, [], []⟩ : SlotRun φ) :=
  ⟨by simp [pitBoot], rfl, by simp, by simp⟩

/-- An install fails when all slots were taken. -/
theorem SlotInv.install_failed {t : SlotRun φ} (h : SlotInv t) (r : PitRoutine φ) :
    (pitInstallSchedulerRoutine r t.pit).1 = 0xFFFF ↔ t.live.length = 64 := by
  have hsize := h.size; have hle := h.le
  rw [pitInstallSchedulerRoutine]
  split
  · exact iff_of_true rfl (by omega)
  · exact iff_of_false (by dsimp only; omega) (by omega)

theorem count_installed {l : List Bool} (h : l.length = 64) : l.count true = 64 ↔ false ∉ l := by
  rw [← h, List.count_eq_length]
  constructor
  · intro hall hmem
    exact Bool.noConfusion (hall false hmem)
  · intro hmem b hb
    cases b with
    | true => rfl
    | false => exact absurd hb hmem

/-- **One call** is right exactly under `SlotsLeft`. -/
theorem SlotInv.right_iff {t : SlotRun φ} {c : SlotCall φ} (h : SlotInv t) (ha : SlotAllowed t c) :
    SlotRight t c ↔ SlotsLeft t c := by
  have hsize := h.size; have hle := h.le
  cases c with
  | install r =>
    have hinside : ∀ i ∈ slotsTouched t (.install r), i < 64 := by
      rw [slotsTouched]
      split
      · simp
      · simp
        omega
    constructor
    · intro hr
      by_cases hall : t.live.length = 64
      · have hcount := hr.full r rfl ((h.install_failed r).mpr hall)
        exact .inr ((count_installed hall).mp hcount)
      · exact .inl (by omega)
    · intro hleft
      refine ⟨fun r' _ hfail => ?_, hinside⟩
      have hall := (h.install_failed r').mp hfail
      exact (count_installed hall).mpr (hleft.resolve_left (by omega))
  | uninstall index =>
    constructor
    · intro hr heq
      have hlt := hr.inside index (by simp [slotsTouched])
      omega
    · intro hne
      have hin : index < t.live.length := (h.returned index ha).resolve_right hne
      refine ⟨fun r hc => (by cases hc), ?_⟩
      simp [slotsTouched]
      omega

theorem SlotInv.step {t t' : SlotRun φ} {c : SlotCall φ} (h : SlotInv t) (hs : slotStep t c = some t') : SlotInv t' := by
  have hsize := h.size; have hle := h.le
  cases c with
  | install r =>
    by_cases hall : t.live.length = 64
    · have hpit : pitInstallSchedulerRoutine r t.pit = (0xFFFF, t.pit) := if_pos (by omega)
      simp only [slotStep, hpit, ite_true, Option.some.injEq] at hs
      subst hs
      refine ⟨h.slots, hsize, hle, fun i hi => ?_⟩
      rcases List.mem_cons.mp hi with rfl | hi
      · exact .inr rfl
      · exact h.returned i hi
    · have hne : ¬ t.pit.routinesSize = 0xFFFF := by omega
      simp only [slotStep, pitInstallSchedulerRoutine, if_neg (show ¬ t.pit.routinesSize ≥ 64 by omega), hne, ite_false,
        Option.some.injEq] at hs
      subst hs
      refine ⟨by simp [h.slots], by simp [hsize], by simp; omega, fun i hi => ?_⟩
      rw [List.length_append, List.length_singleton]
      rcases List.mem_cons.mp hi with rfl | hi
      · exact .inl (by omega)
      · exact (h.returned i hi).imp_left fun hlt => by omega
  | uninstall index =>
    simp only [slotStep, pitUninstallSchedulerRoutine, bind, Option.bind_eq_some_iff,
      Option.ite_none_right_eq_some, pure, Option.some.injEq] at hs
    obtain ⟨-, ⟨-, rfl⟩, rfl⟩ := hs
    exact ⟨by simp [h.slots], by simp [hsize], by simp [hle], by simpa using h.returned⟩

/-- Every call of a sequence is right exactly when each is under `SlotsLeft`. -/
theorem SlotInv.run_iff {t : SlotRun φ} (h : SlotInv t) {calls : List (SlotCall φ)}
    (ha : EachStep slotStep SlotAllowed t calls) :
    EachStep slotStep SlotRight t calls ↔ EachStep slotStep SlotsLeft t calls :=
  eachStep_iff (fun _ _ h hc => ⟨h.right_iff hc, fun _ _ hs => h.step hs⟩) h ha

/-- **When slots are reclaimed and in range**: over every sequence of calls in
which an uninstall is given what an install returned, exactly when no install
comes after 64 installs of which one was uninstalled, and no install's
failure value is uninstalled. -/
theorem pit_slots_right_iff (null : φ) (calls : List (SlotCall φ))
    (ha : EachStep slotStep SlotAllowed ⟨pitBoot null, [], []⟩ calls) :
    EachStep slotStep SlotRight ⟨pitBoot null, [], []⟩ calls ↔
      EachStep slotStep SlotsLeft ⟨pitBoot null, [], []⟩ calls :=
  (SlotInv.start null).run_iff ha

instance (t : SlotRun φ) : ∀ c : SlotCall φ, Decidable (SlotAllowed t c)
  | .install _ => isTrue trivial
  | .uninstall _ => inferInstanceAs (Decidable (_ ∈ _))

instance (t : SlotRun φ) : ∀ c : SlotCall φ, Decidable (SlotsLeft t c)
  | .install _ => inferInstanceAs (Decidable (_ ∨ _))
  | .uninstall _ => inferInstanceAs (Decidable (_ ≠ _))

/-- A routine installed, uninstalled and installed again. -/
theorem pit_slots_right_again : EachStep slotStep SlotAllowed ⟨pitBoot 0, [], []⟩
      [.install ⟨2, 7⟩, .uninstall 0, .install ⟨2, 7⟩] ∧
    EachStep slotStep SlotRight ⟨pitBoot 0, [], []⟩ [.install ⟨2, 7⟩, .uninstall 0, .install ⟨2, 7⟩] := by
  have ha : EachStep slotStep SlotAllowed ⟨pitBoot 0, [], []⟩ [.install ⟨2, 7⟩, .uninstall 0, .install ⟨2, 7⟩] := by
    decide
  exact ⟨ha, (pit_slots_right_iff 0 _ ha).mpr (by decide)⟩

/-- 64 installs, an uninstall of the first, and one more install. -/
def sixtyFourAndAgain : List (SlotCall Nat) := List.replicate 64 (.install ⟨2, 7⟩) ++ [.uninstall 0, .install ⟨2, 7⟩]

/-- There is no slot for the last. -/
theorem pit_slots_not_reclaimed : EachStep slotStep SlotAllowed ⟨pitBoot 0, [], []⟩ sixtyFourAndAgain ∧
    ¬ EachStep slotStep SlotRight ⟨pitBoot 0, [], []⟩ sixtyFourAndAgain := by
  have ha : EachStep slotStep SlotAllowed ⟨pitBoot 0, [], []⟩ sixtyFourAndAgain := by decide +kernel
  exact ⟨ha, fun h => absurd (((SlotInv.start 0).run_iff ha).mp h) (by decide +kernel)⟩

end ShawnOS
