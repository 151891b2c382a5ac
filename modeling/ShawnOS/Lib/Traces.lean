/-
Traces of a partial step function.

A machine takes one input at a time and may stop. `Throughout` says that it
takes every input of a trace and that a property holds after each;
`EachStep` that a condition holds before each. When one step keeps the
property exactly under the condition, so does every trace
(`throughout_iff`).
-/
import Mathlib.Data.Option.Basic

namespace Traces

variable {σ α : Type}

/-- Every input is taken, and `good` holds after each. -/
def Throughout (step : σ → α → Option σ) (good : σ → Prop) : σ → List α → Prop
  | _, [] => True
  | s, a :: l => ∃ s', step s a = some s' ∧ good s' ∧ Throughout step good s' l

/-- `cond` holds of each input and the state before it. -/
def EachStep (step : σ → α → Option σ) (cond : σ → α → Prop) : σ → List α → Prop
  | _, [] => True
  | s, a :: l => cond s a ∧ ∀ s', step s a = some s' → EachStep step cond s' l

variable {step : σ → α → Option σ} {good : σ → Prop} {cond allowed : σ → α → Prop}

instance throughoutDecidable [DecidablePred good] : ∀ (s : σ) (l : List α), Decidable (Throughout step good s l)
  | _, [] => isTrue trivial
  | s, a :: l =>
    match h : step s a with
    | none => isFalse fun ⟨s', he, _⟩ => by rw [h] at he; cases he
    | some s' =>
      have : Decidable (Throughout step good s' l) := throughoutDecidable s' l
      decidable_of_iff (good s' ∧ Throughout step good s' l)
        ⟨fun ht => ⟨s', h, ht⟩, fun ⟨t, he, ht⟩ => by rw [h] at he; cases he; exact ht⟩

instance eachStepDecidable [∀ s a, Decidable (cond s a)] : ∀ (s : σ) (l : List α), Decidable (EachStep step cond s l)
  | _, [] => isTrue trivial
  | s, a :: l =>
    match h : step s a with
    | none =>
      decidable_of_iff (cond s a) ⟨fun hc => ⟨hc, fun s' he => by rw [h] at he; cases he⟩, fun hc => hc.1⟩
    | some s' =>
      have : Decidable (EachStep step cond s' l) := eachStepDecidable s' l
      decidable_of_iff (cond s a ∧ EachStep step cond s' l)
        ⟨fun ht => ⟨ht.1, fun t he => by rw [h] at he; cases he; exact ht.2⟩, fun ht => ⟨ht.1, ht.2 s' h⟩⟩

theorem eachStep_of_forall (h : ∀ s a, cond s a) : ∀ {l : List α} {s : σ}, EachStep step cond s l
  | [], _ => trivial
  | a :: _, s => ⟨h s a, fun _ _ => eachStep_of_forall h⟩

/-- Nothing is asked of the steps. -/
theorem eachStep_true {l : List α} {s : σ} : EachStep step (fun _ _ => True) s l := eachStep_of_forall fun _ _ => trivial

/-- **From one step to every trace**: where a step from a good state is taken
and ends in a good one exactly under `cond`, the states of a trace are good
throughout exactly when `cond` holds at each step. -/
theorem throughout_iff {inv : σ → Prop}
    (hstep : ∀ s a, inv s → good s → allowed s a → ∃ s', step s a = some s' ∧ inv s' ∧ (good s' ↔ cond s a)) :
    ∀ {l : List α} {s : σ}, inv s → good s → EachStep step allowed s l →
      (Throughout step good s l ↔ EachStep step cond s l)
  | [], _, _, _, _ => Iff.rfl
  | a :: l, s, hi, hs, ⟨ha, hl⟩ => by
    obtain ⟨s', he, hinv, hiff⟩ := hstep s a hi hs ha
    constructor
    · rintro ⟨t, ht, hgood, hrest⟩
      rw [he] at ht
      cases ht
      refine ⟨hiff.mp hgood, fun t ht => ?_⟩
      rw [he] at ht
      cases ht
      exact (throughout_iff hstep hinv hgood (hl s' he)).mp hrest
    · rintro ⟨hcond, hrest⟩
      have hgood := hiff.mpr hcond
      exact ⟨s', he, hgood, (throughout_iff hstep hinv hgood (hl s' he)).mpr (hrest s' he)⟩

/-- Two conditions that agree wherever an invariant holds, which the steps
under either keep. -/
theorem eachStep_iff {cond' : σ → α → Prop} {I : σ → Prop}
    (hstep : ∀ s a, I s → allowed s a →
      (cond s a ↔ cond' s a) ∧ (cond s a → ∀ s', step s a = some s' → I s')) :
    ∀ {l : List α} {s : σ}, I s → EachStep step allowed s l →
      (EachStep step cond s l ↔ EachStep step cond' s l)
  | [], _, _, _ => Iff.rfl
  | a :: _, s, hs, ⟨ha, hl⟩ => by
    obtain ⟨hiff, hinv⟩ := hstep s a hs ha
    constructor
    · rintro ⟨hc, hrest⟩
      exact ⟨hiff.mp hc, fun s' he => (eachStep_iff hstep (hinv hc s' he) (hl s' he)).mp (hrest s' he)⟩
    · rintro ⟨hc, hrest⟩
      have hinv' := hinv (hiff.mpr hc)
      exact ⟨hiff.mpr hc, fun s' he => (eachStep_iff hstep (hinv' s' he) (hl s' he)).mpr (hrest s' he)⟩

/-- **A run refines a run**: where each input of a trace keeps a relation
between the machine and a total one, the machine takes the whole trace and
the relation holds of where both end. -/
theorem foldlM_refines {τ : Type*} {abstractStep : τ → α → τ} {R : σ → τ → Prop} : ∀ {l : List α} {s : σ} {t : τ},
    (∀ s t a, a ∈ l → R s t → ∃ s', step s a = some s' ∧ R s' (abstractStep t a)) → R s t →
    ∃ s', l.foldlM step s = some s' ∧ R s' (l.foldl abstractStep t)
  | [], s, _, _, h => ⟨s, rfl, h⟩
  | a :: l, s, t, hstep, h => by
    obtain ⟨s₁, he, h₁⟩ := hstep s t a List.mem_cons_self h
    obtain ⟨s', hrun, h'⟩ := foldlM_refines (fun s t b hb => hstep s t b (List.mem_cons_of_mem a hb)) h₁
    exact ⟨s', by simp [he, hrun], h'⟩

/-- A loop inside a loop runs through one trace. -/
theorem foldlM_flatMap {m : Type → Type*} [Monad m] [LawfulMonad m] {τ : Type} {β γ : Type*}
    (f : τ → γ → m τ) (g : β → List γ) :
    ∀ (l : List β) (t : τ), (l.flatMap g).foldlM f t = l.foldlM (fun t b => (g b).foldlM f t) t
  | [], _ => rfl
  | b :: l, t => by
    rw [List.flatMap_cons, List.foldlM_append, List.foldlM_cons]
    exact bind_congr fun t' => foldlM_flatMap f g l t'

end Traces
