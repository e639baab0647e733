import Mathlib.Logic.Relation

/-!
# Runs of a labelled step function

A system is given by a partial step function: `step s a` is the state after the
step labelled `a`, or `none` when that step is not enabled in `s`. A run may be
restricted by a condition `ok` on each step and the state it is taken from. The
condition never changes what a step does; it only selects runs.
-/

namespace Transition

open Relation.ReflTransGen

variable {σ ι : Type*} {step : σ → ι → Option σ} {ok ok' : σ → ι → Prop} {s t : σ}

/-- Some enabled step that meets the condition leads from `s` to `t`. -/
def StepWhere (step : σ → ι → Option σ) (ok : σ → ι → Prop) (s t : σ) : Prop :=
  ∃ a, ok s a ∧ step s a = some t

/-- `t` is reached from `s` by steps that all meet the condition. -/
def Reaches (step : σ → ι → Option σ) (ok : σ → ι → Prop) : σ → σ → Prop :=
  Relation.ReflTransGen (StepWhere step ok)

/-- Execute a list of labels, failing at the first one that is not enabled or
does not meet the condition. -/
def runWhere (step : σ → ι → Option σ) (ok : σ → ι → Bool) : σ → List ι → Option σ
  | s, [] => some s
  | s, a :: rest => if ok s a then (step s a).bind fun t => runWhere step ok t rest else none

/-- Execute a list of labels without a condition. -/
def run (step : σ → ι → Option σ) : σ → List ι → Option σ := runWhere step fun _ _ => true

/-- A guarded step is taken only if its guard holds. -/
theorem of_guarded {guard : Prop} [Decidable guard]
    (taken : (if guard then some s else none) = some t) : guard ∧ s = t := by
  simpa using taken

/-- An invariant of every permitted step holds in every state reached. -/
theorem Reaches.invariant {P : σ → Prop} (reached : Reaches step ok s t) (start : P s)
    (preserved : ∀ s a t, P s → ok s a → step s a = some t → P t) : P t := by
  induction reached with
  | refl => exact start
  | tail _ last ih =>
    obtain ⟨a, allowed, taken⟩ := last
    exact preserved _ a _ ih allowed taken

theorem Reaches.weaken (reached : Reaches step ok s t) (imp : ∀ s a, ok s a → ok' s a) :
    Reaches step ok' s t :=
  mono
    (fun _ _ ⟨a, allowed, taken⟩ => ⟨a, imp _ a allowed, taken⟩) _ _ reached

/-- An executed list of labels is a run, with the condition met at every step. -/
theorem Reaches.of_runWhere {ok : σ → ι → Bool} {labels : List ι}
    (executed : runWhere step ok s labels = some t) : Reaches step (fun s a => ok s a) s t := by
  induction labels generalizing s with
  | nil =>
    simp only [runWhere, Option.some.injEq] at executed
    exact executed ▸ refl
  | cons a rest ih =>
    simp only [runWhere] at executed
    split at executed
    case isTrue allowed =>
      obtain ⟨middle, first, remaining⟩ := Option.bind_eq_some_iff.mp executed
      exact head ⟨a, allowed, first⟩ (ih remaining)
    case isFalse => cases executed

end Transition
