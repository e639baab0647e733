import Lru.Library.Transition
import Mathlib.Logic.Function.Basic

/-!
# The waiters of a warm load

`swap_when_ready` waits on a condition variable under `load_mutex_`. The loader stores its
result and notifies without the mutex, so both can fall between a caller's look at the state
and its wait. And a swap resets the state, so a caller that wakes later waits again.
-/

namespace Lru.Warm.Waiters

open Function

inductive LoadState where
  | idle
  | loading
  | ready
  | failed
  deriving DecidableEq, Repr

/-- The load thread: it stores its result, then it notifies. -/
inductive Loader where
  | running
  | stored
  | finished
  deriving DecidableEq, Repr

/-- A caller of `swap_when_ready`. With the mutex it looks at the state, has found no result
or has found one. -/
inductive Caller where
  | outside
  | looking
  | unserved
  | waiting
  | woken
  | served
  deriving DecidableEq, Repr

structure State (θ : Type) where
  state : LoadState := .loading
  loader : Loader := .running
  locked : Bool := false
  callers : θ → Caller := fun _ => .outside

/-- The accesses to the shared state. A caller that is woken takes the mutex again and looks
once more. -/
inductive Action (θ : Type) where
  | lock (i : θ)
  | look (i : θ)
  | wait (i : θ)
  | spuriousWake (i : θ)
  | leave (i : θ)
  | store (ok : Bool)
  | notifyAll

variable {θ : Type} [DecidableEq θ]

def Enabled (s : State θ) : Action θ → Bool
  | .lock i => !s.locked && (s.callers i == .outside || s.callers i == .woken)
  | .look i => s.callers i == .looking
  | .wait i => s.callers i == .unserved
  | .spuriousWake i => s.callers i == .waiting
  | .leave i => s.callers i == .served
  | .store _ => s.loader == .running
  | .notifyAll => s.loader == .stored

def next (s : State θ) : Action θ → State θ
  | .lock i => { s with locked := true, callers := update s.callers i .looking }
  | .look i =>
    let result := if s.state = .ready ∨ s.state = .failed then .served else .unserved
    { s with callers := update s.callers i result }
  | .wait i => { s with locked := false, callers := update s.callers i .waiting }
  | .spuriousWake i => { s with callers := update s.callers i .woken }
  | .leave i =>
    { s with
      state := if s.state = .ready then .idle else s.state
      locked := false
      callers := update s.callers i .outside }
  | .store ok => { s with loader := .stored, state := if ok then .ready else .failed }
  | .notifyAll =>
    { s with
      loader := .finished
      callers := fun i => if s.callers i = .waiting then .woken else s.callers i }

def step (s : State θ) (a : Action θ) : Option (State θ) :=
  if Enabled s a then some (next s a) else none

/-- A caller waits, and the only thread that notifies is gone. -/
def Stranded (s : State θ) : Prop := s.loader = .finished ∧ ∃ i, s.callers i = .waiting

/-- The loader notifies while no caller is about to wait, a swap leaves no other caller
inside, and no caller comes after it. -/
def Spaced (s : State θ) : Action θ → Prop
  | .notifyAll => ∀ i, s.callers i ≠ .unserved
  | .leave i => s.state = .ready → ∀ j, j ≠ i → s.callers j = .outside
  | .lock i => s.callers i = .outside → s.state ≠ .idle
  | _ => True

/-- Once the result is taken, nobody is inside; after the notification nobody waits or is about
to wait. -/
structure Served (s : State θ) : Prop where
  running : s.loader = .running → s.state = .loading
  stored : s.loader ≠ .running → s.state ≠ .loading
  taken : s.state = .idle → ∀ i, s.callers i = .outside
  notified : s.loader = .finished → ∀ i, s.callers i ≠ .unserved ∧ s.callers i ≠ .waiting

theorem next_served {s : State θ} {a : Action θ} (h : Served s) (enabled : Enabled s a = true)
    (spaced : Spaced s a) : Served (next s a) := by
  obtain ⟨running, stored, taken, notified⟩ := h
  simp only [Enabled, Spaced] at enabled spaced
  cases a with
  | look i =>
    have inside : s.callers i = .looking := by simpa using enabled
    have untaken : s.state ≠ .idle := fun idle => by simp [taken idle i] at inside
    -- So a caller that looks after the store finds the result.
    have found (past : s.loader ≠ .running) : s.state = .ready ∨ s.state = .failed := by
      cases state : s.state with
      | idle => exact absurd state untaken
      | loading => exact absurd state (stored past)
      | ready | failed => simp
    simp only [next]
    constructor <;> grind [update_apply]
  | _ =>
    simp only [next]
    constructor <;> grind

/-- No caller is stranded in a run in which results and swaps come at such times. -/
theorem not_stranded {s : State θ} (reached : Transition.Reaches step Spaced {} s) :
    ¬Stranded s := by
  have served := reached.invariant (P := Served) (by constructor <;> simp) ?_
  · rintro ⟨finished, i, waiting⟩
    exact (served.notified finished i).2 waiting
  · intro s a t h spaced taken
    obtain ⟨enabled, rfl⟩ := Transition.of_guarded taken
    exact next_served h enabled spaced

/-- The result comes before a caller waits, and the notification after it. -/
theorem waiter_swaps : ∃ s : State Unit, s.state = .idle ∧ ¬Stranded s := by
  have reached : Transition.Reaches step Spaced {} (_ : State Unit) :=
    .head ⟨.lock (), by simp [Spaced], rfl⟩ <| .head ⟨.look (), trivial, rfl⟩ <|
      .head ⟨.store true, trivial, rfl⟩ <| .head ⟨.wait (), trivial, rfl⟩ <|
      .head ⟨.notifyAll, by simp [Spaced, next], rfl⟩ <|
      .head ⟨.lock (), by simp [Spaced, next], rfl⟩ <|
      .head ⟨.look (), trivial, rfl⟩ <| .single ⟨.leave (), by simp [Spaced], rfl⟩
  exact ⟨_, rfl, not_stranded reached⟩

/-- The result comes between a caller's look at the state and its wait; or it is taken before
another caller that was woken looks again. -/
theorem wakeups_lost :
    (∃ s : State Unit, Transition.run step {}
        [.lock (), .look (), .store true, .notifyAll, .wait ()] = some s ∧ Stranded s) ∧
      ∃ s : State Bool, Transition.run step {}
        [.lock true, .look true, .wait true, .lock false, .look false, .wait false, .store true,
          .notifyAll, .lock true, .look true, .leave true, .lock false, .look false,
          .wait false] = some s ∧ Stranded s :=
  ⟨⟨_, rfl, rfl, (), rfl⟩, _, rfl, rfl, false, rfl⟩

end Lru.Warm.Waiters
