/-
Resources and their holders: a pool of which some resources are in use, and
holders each of which has at most one.

`Exclusive` says that what is held is in use and held once; `Accounted` that
what is in use, beyond what was at the start, is held. Handing an unused
resource to a holder keeps the first always, and the second when the holder
had none: the resource it had would be lost. `Borrowed` adds who holds what
came into use: a set of holders that will give it back, and one that keeps
it.
-/
import Mathlib.Data.Set.Insert
import Mathlib.Logic.Function.Basic

namespace Holders

variable {ι ρ : Type*} {hold : ι → Option ρ} {used used' base : Set ρ} {i : ι} {r : ρ}

/-- What is held is in use, by one holder. -/
structure Exclusive (hold : ι → Option ρ) (used : Set ρ) : Prop where
  used : ∀ i r, hold i = some r → r ∈ used
  once : ∀ i j r, hold i = some r → hold j = some r → i = j

/-- What came into use since `base` is held. -/
def Accounted (hold : ι → Option ρ) (used base : Set ρ) : Prop :=
  ∀ r ∈ used, r ∈ base ∨ ∃ i, hold i = some r

theorem Exclusive.mono (h : Exclusive hold used) (hsub : used ⊆ used') : Exclusive hold used' :=
  ⟨fun i r hr => hsub (h.used i r hr), h.once⟩

theorem Exclusive.fresh (h : Exclusive hold used) (hr : r ∉ used) (j : ι) : hold j ≠ some r :=
  fun hj => hr (h.used j r hj)

/-- Since `base`, what came into use is held by `A`, each of which holds
something new, or by `K`. -/
structure Borrowed (hold : ι → Option ρ) (used base : Set ρ) (A K : Set ι) : Prop where
  mem : ∀ r, r ∈ used ↔ r ∈ base ∨ ∃ i, (i ∈ A ∨ i ∈ K) ∧ hold i = some r
  new : ∀ i ∈ A, ∃ r, hold i = some r ∧ r ∉ base

variable {A K : Set ι}

theorem Borrowed.base_subset (h : Borrowed hold used base A K) : base ⊆ used := fun r hr => (h.mem r).mpr (.inl hr)

theorem Borrowed.start (h : Exclusive hold used) : Borrowed hold used used ∅ K :=
  ⟨fun r => ⟨.inl, fun hr => hr.elim id fun ⟨i, _, hi⟩ => h.used i r hi⟩, fun _ hi => hi.elim⟩

variable [DecidableEq ι]

theorem update_eq_some {o : Option ρ} {j : ι} :
    Function.update hold i o j = some r ↔ (j = i ∧ o = some r) ∨ (j ≠ i ∧ hold j = some r) := by
  by_cases h : j = i
  · subst h
    simp
  · simp [h]

theorem Exclusive.give (h : Exclusive hold used) (hr : r ∉ used) :
    Exclusive (Function.update hold i (some r)) (insert r used) := by
  refine ⟨fun j x hx => ?_, fun j k x hj hk => ?_⟩
  · rcases update_eq_some.mp hx with ⟨-, he⟩ | ⟨-, hx⟩
    · cases he
      exact Set.mem_insert r used
    · exact Set.mem_insert_of_mem r (h.used j x hx)
  · rcases update_eq_some.mp hj with ⟨rfl, he⟩ | ⟨-, hj⟩
    · cases he
      rcases update_eq_some.mp hk with ⟨rfl, -⟩ | ⟨-, hk⟩
      · rfl
      · exact absurd hk (h.fresh hr k)
    · rcases update_eq_some.mp hk with ⟨-, he⟩ | ⟨-, hk⟩
      · cases he
        exact absurd hj (h.fresh hr j)
      · exact h.once j k x hj hk

theorem Exclusive.drop (h : Exclusive hold used) :
    Exclusive (Function.update hold i none) {r ∈ used | hold i ≠ some r} := by
  refine ⟨fun j x hx => ?_, fun j k x hj hk => ?_⟩
  · rcases update_eq_some.mp hx with ⟨-, he⟩ | ⟨hne, hx⟩
    · cases he
    · exact ⟨h.used j x hx, fun hi => hne (h.once j i x hx hi)⟩
  · rcases update_eq_some.mp hj with ⟨-, he⟩ | ⟨-, hj⟩
    · cases he
    · rcases update_eq_some.mp hk with ⟨-, he⟩ | ⟨-, hk⟩
      · cases he
      · exact h.once j k x hj hk

theorem Accounted.give (h : Accounted hold used base) (hi : hold i = none) :
    Accounted (Function.update hold i (some r)) (insert r used) base := by
  intro x hx
  rcases Set.mem_insert_iff.mp hx with rfl | hx
  · exact .inr ⟨i, Function.update_self ..⟩
  · rcases h x hx with hb | ⟨j, hj⟩
    · exact .inl hb
    · refine .inr ⟨j, update_eq_some.mpr (.inr ⟨fun he => ?_, hj⟩)⟩
      rw [he, hi] at hj
      cases hj

theorem Accounted.drop (h : Accounted hold used base) :
    Accounted (Function.update hold i none) {r ∈ used | hold i ≠ some r} base := by
  intro x ⟨hx, hne⟩
  rcases h x hx with hb | ⟨j, hj⟩
  · exact .inl hb
  · refine .inr ⟨j, update_eq_some.mpr (.inr ⟨fun he => ?_, hj⟩)⟩
    rw [he] at hj
    exact hne hj

/-! ## Borrowing -/

/-- One more borrows. -/
theorem Borrowed.give (h : Borrowed hold used base A K) (hA : i ∉ A) (hK : i ∉ K) (hr : r ∉ used) :
    Borrowed (Function.update hold i (some r)) (insert r used) base (insert i A) K := by
  refine ⟨fun x => ⟨fun hx => ?_, fun hx => ?_⟩, fun j hj => ?_⟩
  · rcases Set.mem_insert_iff.mp hx with rfl | hx
    · exact .inr ⟨i, .inl (Set.mem_insert i A), Function.update_self ..⟩
    · rcases (h.mem x).mp hx with hb | ⟨j, hj, hx⟩
      · exact .inl hb
      · have hne : j ≠ i := by
          rintro rfl
          exact hj.elim hA hK
        exact .inr ⟨j, hj.imp (Set.mem_insert_of_mem i) id, (Function.update_of_ne hne ..).trans hx⟩
  · rcases hx with hb | ⟨j, hj, hx⟩
    · exact Set.mem_insert_of_mem r (h.base_subset hb)
    · rcases update_eq_some.mp hx with ⟨-, he⟩ | ⟨hne, hx⟩
      · cases he
        exact Set.mem_insert r used
      · exact Set.mem_insert_of_mem r ((h.mem x).mpr (.inr ⟨j, hj.imp (fun hj => hj.resolve_left hne) id, hx⟩))
  · rcases Set.mem_insert_iff.mp hj with rfl | hj
    · exact ⟨r, Function.update_self .., fun hb => hr (h.base_subset hb)⟩
    · have hne : j ≠ i := fun he => hA (he ▸ hj)
      rw [Function.update_of_ne hne]
      exact h.new j hj

/-- One that held nothing keeps what it is given. -/
theorem Borrowed.keep (h : Borrowed hold used base A K) (hi : hold i = none) (hK : i ∈ K) :
    Borrowed (Function.update hold i (some r)) (insert r used) base A K := by
  have other {j : ι} {x : ρ} (hj : hold j = some x) : Function.update hold i (some r) j = some x := by
    have hne : j ≠ i := by
      rintro rfl
      rw [hi] at hj
      cases hj
    exact (Function.update_of_ne hne ..).trans hj
  refine ⟨fun x => ⟨fun hx => ?_, fun hx => ?_⟩, fun j hj => ?_⟩
  · rcases Set.mem_insert_iff.mp hx with rfl | hx
    · exact .inr ⟨i, .inr hK, Function.update_self ..⟩
    · exact ((h.mem x).mp hx).imp id fun ⟨j, hj, hx⟩ => ⟨j, hj, other hx⟩
  · rcases hx with hb | ⟨j, hj, hx⟩
    · exact Set.mem_insert_of_mem r (h.base_subset hb)
    · rcases update_eq_some.mp hx with ⟨-, he⟩ | ⟨-, hx⟩
      · cases he
        exact Set.mem_insert r used
      · exact Set.mem_insert_of_mem r ((h.mem x).mpr (.inr ⟨j, hj, hx⟩))
  · obtain ⟨x, hx, hnew⟩ := h.new j hj
    exact ⟨x, other hx, hnew⟩

/-- One gives back. -/
theorem Borrowed.back (h : Borrowed hold used base A K) (hex : Exclusive hold used) (hA : i ∈ A) (hK : i ∉ K) :
    Borrowed (Function.update hold i none) {r ∈ used | hold i ≠ some r} base {j ∈ A | j ≠ i} K := by
  refine ⟨fun x => ⟨fun ⟨hx, hne⟩ => ?_, fun hx => ?_⟩, fun j ⟨hj, hne⟩ => ?_⟩
  · refine ((h.mem x).mp hx).imp id fun ⟨j, hj, hx⟩ => ?_
    have hji : j ≠ i := by
      rintro rfl
      exact hne hx
    exact ⟨j, hj.imp (fun hj => ⟨hj, hji⟩) id, (Function.update_of_ne hji ..).trans hx⟩
  · rcases hx with hb | ⟨j, hj, hx⟩
    · refine ⟨h.base_subset hb, fun hx => ?_⟩
      obtain ⟨y, hy, hnew⟩ := h.new i hA
      rw [hx] at hy
      cases hy
      exact hnew hb
    · rcases update_eq_some.mp hx with ⟨-, he⟩ | ⟨hji, hx⟩
      · cases he
      · exact ⟨hex.used j x hx, fun hi => hji (hex.once j i x hx hi)⟩
  · rw [Function.update_of_ne hne]
    exact h.new j hj

end Holders
