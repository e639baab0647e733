import Lru.Library.Transition
import Mathlib.Data.List.Chain

/-!
# Swaps of a register

A system with a register that is read as an optional value, and with a log of
swaps. If every step either leaves the log alone and keeps or clears the register,
or appends a swap of the value found there, then the log is a chain: every swap
expects what its predecessor installed.
-/

namespace Swaps

variable {σ ι ν : Type*} {step : σ → ι → Option σ} {ok : σ → ι → Prop} {s t : σ}
  {read : σ → Option ν} {log : σ → List (ν × ν)}

/-- The second swap expects what the first one installed. -/
def Follows (x y : ν × ν) : Prop := y.1 = x.2

inductive Effect (read : σ → Option ν) (log : σ → List (ν × ν)) (s t : σ) : Prop where
  | kept (same : log t = log s) (value : read t = read s)
  | cleared (same : log t = log s) (value : read t = none)
  | swapped (expected desired : ν) (appended : log t = log s ++ [(expected, desired)])
      (before : read s = some expected) (after : read t = some desired)

/-- The log is a chain, and the register holds what its last swap installed, if
anything. -/
structure Chained (read : σ → Option ν) (log : σ → List (ν × ν)) (s : σ) : Prop where
  chain : (log s).IsChain Follows
  last : ∀ x ∈ (log s).getLast?, ∀ value ∈ read s, value = x.2

theorem Chained.effect (chained : Chained read log s) (effect : Effect read log s t) :
    Chained read log t := by
  cases effect with
  | kept same value =>
    constructor
    · rw [same]
      exact chained.chain
    · rw [same, value]
      exact chained.last
  | cleared same value =>
    constructor
    · rw [same]
      exact chained.chain
    · simp [value]
  | swapped expected desired appended before after =>
    constructor
    · rw [appended]
      refine chained.chain.append (List.isChain_singleton _) ?_
      intro x last y head
      obtain rfl : (expected, desired) = y := by simpa using head
      exact chained.last x last expected before
    · rw [appended, after]
      intro x last value held
      obtain rfl : (expected, desired) = x := by simpa using last
      simpa using held.symm

theorem isChain_of_reaches (read : σ → Option ν) (reached : Transition.Reaches step ok s t)
    (start : log s = [])
    {P : σ → Prop} (initial : P s) (preserved : ∀ s a t, P s → ok s a → step s a = some t → P t)
    (effects : ∀ s a t, P s → ok s a → step s a = some t → Effect read log s t) :
    (log t).IsChain Follows := by
  have chained : P t ∧ Chained read log t := by
    refine reached.invariant (P := fun s => P s ∧ Chained read log s) ⟨initial, ?_, ?_⟩ ?_
    · rw [start]
      exact .nil
    · simp [start]
    · rintro s a t ⟨holds, chained⟩ allowed taken
      exact ⟨preserved s a t holds allowed taken,
        chained.effect (effects s a t holds allowed taken)⟩
  exact chained.2.chain

end Swaps
