import Lru.Library.Transition
import Mathlib.Logic.Function.Basic

/-!
# Compare-and-swap loops on one shared word

A method reads the word and decides on the value it has read: it returns, or it tries to
exchange the word for another one. An exchange fails if the word has changed meanwhile, and it
may fail for no reason; the method then decides again on the value that it finds. Threads run
such methods in any order, one access to the word at a time.
-/

namespace CasLoop

open Function

variable {θ μ ω ρ : Type*}

/-- What a method decides on the value it has read. -/
inductive Round (ω ρ : Type*) where
  | finish (result : ρ)
  | exchange (desired : ω) (result : ρ)

/-- The word, the method that each thread is in with the value it has read, and the results so
far. -/
structure Pool (θ μ ω ρ : Type*) where
  word : ω
  running : θ → Option (μ × ω)
  returned : List (μ × ρ) := []

inductive Action (θ μ : Type*) where
  | load (thread : θ) (method : μ)
  | attempt (thread : θ) (spurious : Bool)

variable [DecidableEq θ] [DecidableEq ω] (round : μ → ω → Round ω ρ)

/-- A thread begins a method, or goes on with the one it is in. -/
def step (p : Pool θ μ ω ρ) : Action θ μ → Option (Pool θ μ ω ρ)
  | .load thread method =>
    match p.running thread with
    | some _ => none
    | none => some { p with running := Function.update p.running thread (some (method, p.word)) }
  | .attempt thread spurious =>
    match p.running thread with
    | none => none
    | some (method, old) =>
      match round method old with
      | .finish result => some { p with
          running := Function.update p.running thread none
          returned := p.returned ++ [(method, result)] }
      | .exchange desired result =>
        if p.word = old ∧ spurious = false then some {
          word := desired
          running := Function.update p.running thread none
          returned := p.returned ++ [(method, result)] }
        else some { p with
          running := Function.update p.running thread (some (method, p.word)) }

/-- A step that begins no other method than these. -/
def Begins (allowed : μ → Prop) (_ : Pool θ μ ω ρ) : Action θ μ → Prop
  | .load _ method => allowed method
  | .attempt _ _ => True

/-- The word has a property, and only these methods are being run on it. -/
structure Guarded (allowed : μ → Prop) (P : ω → Prop) (p : Pool θ μ ω ρ) : Prop where
  word : P p.word
  running : ∀ thread method old, p.running thread = some (method, old) → allowed method

section Rules

variable {round} {allowed : μ → Prop} {P : ω → Prop} {Q : μ → ρ → Prop} {p q : Pool θ μ ω ρ}
  {a : Action θ μ}

/-- A step leaves the word and returns nothing or the result of a method that did not change
it, or a method that found the word as it had read it exchanges it and returns. -/
theorem step_cases (taken : step round p a = some q) :
    (∃ thread method, a = .load thread method ∧ q.word = p.word ∧ q.returned = p.returned ∧
        q.running = update p.running thread (some (method, p.word))) ∨
      ∃ thread method old, p.running thread = some (method, old) ∧
        ((q.word = p.word ∧ q.returned = p.returned ∧
            q.running = update p.running thread (some (method, p.word))) ∨
          (∃ result, round method old = .finish result ∧ q.word = p.word ∧
            q.returned = p.returned ++ [(method, result)] ∧
            q.running = update p.running thread none) ∨
          ∃ desired result, round method p.word = .exchange desired result ∧ q.word = desired ∧
            q.returned = p.returned ++ [(method, result)] ∧
            q.running = update p.running thread none) := by
  cases a with
  | load thread method =>
    rw [step] at taken
    split at taken
    · cases taken
    · cases taken
      exact .inl ⟨thread, method, rfl, rfl, rfl, rfl⟩
  | attempt thread spurious =>
    rw [step] at taken
    split at taken
    · cases taken
    case h_2 method old inside =>
      refine .inr ⟨thread, method, old, inside, ?_⟩
      split at taken
      case h_1 result decided =>
        cases taken
        exact .inr (.inl ⟨result, decided, rfl, rfl, rfl⟩)
      case h_2 desired result decided =>
        split at taken
        case isTrue same =>
          cases taken
          exact .inr (.inr ⟨desired, result, same.1 ▸ decided, rfl, rfl, rfl⟩)
        case isFalse =>
          cases taken
          exact .inl ⟨rfl, rfl, rfl⟩

/-- Whatever the threads do, a property of the word that the exchanges keep stays. -/
theorem step_guarded
    (closed : ∀ {method w desired result}, allowed method → P w →
      round method w = .exchange desired result → P desired)
    (begins : Begins allowed p a) (taken : step round p a = some q) (h : Guarded allowed P p) :
    Guarded allowed P q := by
  have updated : ∀ thread running, q.running = update p.running thread running →
      (∀ method old, running = some (method, old) → allowed method) →
      ∀ other method old, q.running other = some (method, old) → allowed method := by
    intro thread running eq here other method old inside
    rw [eq] at inside
    by_cases same : other = thread
    · subst same
      rw [update_self] at inside
      exact here method old inside
    · rw [update_of_ne same] at inside
      exact h.running other method old inside
  obtain ⟨thread, method, rfl, word, -, running⟩ | ⟨thread, method, old, inside, outcome⟩ :=
    step_cases taken
  · refine ⟨word ▸ h.word, updated thread _ running ?_⟩
    rintro _ _ ⟨⟩
    exact begins
  · obtain ⟨word, -, running⟩ | ⟨result, -, word, -, running⟩ |
      ⟨desired, result, decided, word, -, running⟩ := outcome
    · refine ⟨word ▸ h.word, updated thread _ running ?_⟩
      rintro _ _ ⟨⟩
      exact h.running thread method old inside
    · exact ⟨word ▸ h.word, updated thread _ running (by simp)⟩
    · refine ⟨word ▸ ?_, updated thread _ running (by simp)⟩
      exact closed (h.running thread method old inside) h.word decided

/-- In every interleaving that starts with such a word, each result is one that a method
decides on without an exchange or on such a word. -/
theorem Reaches.returned
    (closed : ∀ {method w desired result}, allowed method → P w →
      round method w = .exchange desired result → P desired)
    (finishes : ∀ {method w result}, round method w = .finish result → Q method result)
    (exchanges : ∀ {method w desired result}, P w →
      round method w = .exchange desired result → Q method result)
    (start : Guarded allowed P p)
    (reached : Transition.Reaches (step round) (Begins allowed) p q) :
    P q.word ∧ ∃ later, q.returned = p.returned ++ later ∧ ∀ e ∈ later, Q e.1 e.2 := by
  have both := reached.invariant (P := fun q => Guarded allowed P q ∧
    ∃ later, q.returned = p.returned ++ later ∧ ∀ e ∈ later, Q e.1 e.2)
    ⟨start, [], by simp, by simp⟩ ?_
  · exact ⟨both.1.word, both.2⟩
  rintro q a r ⟨guarded, later, eq, results⟩ begins taken
  refine ⟨step_guarded closed begins taken guarded, ?_⟩
  have extended : ∀ method result, Q method result →
      r.returned = q.returned ++ [(method, result)] →
      ∃ later, r.returned = p.returned ++ later ∧ ∀ e ∈ later, Q e.1 e.2 := by
    intro method result good appended
    refine ⟨later ++ [(method, result)], by rw [appended, eq, List.append_assoc], fun e he => ?_⟩
    obtain old | new := List.mem_append.mp he
    · exact results e old
    · rw [List.mem_singleton.mp new]
      exact good
  obtain ⟨_, _, -, -, returned, -⟩ | ⟨_, method, old, -, outcome⟩ := step_cases taken
  · exact ⟨later, returned.trans eq, results⟩
  · obtain ⟨-, returned, -⟩ | ⟨result, decided, -, returned, -⟩ |
      ⟨desired, result, decided, -, returned, -⟩ := outcome
    · exact ⟨later, returned.trans eq, results⟩
    · exact extended method result (finishes decided) returned
    · exact extended method result (exchanges guarded.word decided) returned

end Rules

end CasLoop
