/-
A spinlock: a word that is swapped from 0 to 1 by whoever enters and set to 0
by whoever leaves.

`Guards locked inside` says that the word tells whether somebody is inside,
and that nobody else is then. Entering needs the word to be 0, leaving needs
to be inside, and anything else may happen while the same are inside.
-/
import Mathlib.Tactic.ByContra

namespace Spinlock

variable {ι : Type} {locked : Nat} {inside inside' : ι → Prop} {c d : ι}

/-- The lock guards those inside. -/
structure Guards (locked : Nat) (inside : ι → Prop) : Prop where
  value : locked = 0 ∨ locked = 1
  busy : ∀ c, inside c → locked = 1
  alone : ∀ c d, inside c → inside d → c = d

theorem Guards.start (h : ∀ c, ¬ inside c) : Guards 0 inside :=
  ⟨.inl rfl, fun c hc => absurd hc (h c), fun c _ hc => absurd hc (h c)⟩

/-- Nobody came or went. -/
theorem Guards.stay (h : Guards locked inside) (hsame : ∀ d, inside' d → inside d) : Guards locked inside' :=
  ⟨h.value, fun c hc => h.busy c (hsame c hc), fun c d hc hd => h.alone c d (hsame c hc) (hsame d hd)⟩

/-- The swap succeeds. -/
theorem Guards.enter (h : Guards 0 inside) (hother : ∀ d, d ≠ c → inside' d → inside d) : Guards 1 inside' := by
  have honly : ∀ d, inside' d → d = c := fun d hd => by
    by_contra hne
    cases h.busy d (hother d hne hd)
  exact ⟨.inr rfl, fun _ _ => rfl, fun a b ha hb => (honly a ha).trans (honly b hb).symm⟩

/-- The lock is given back. -/
theorem Guards.leave (h : Guards locked inside) (hc : inside c) (hout : ¬ inside' c)
    (hother : ∀ d, d ≠ c → inside' d → inside d) : Guards 0 inside' := by
  refine .start fun d hd => ?_
  by_cases hdc : d = c
  · exact hout (hdc ▸ hd)
  · exact hdc (h.alone d c (hother d hdc hd) hc)

end Spinlock
