import Lru.Library.Transition
import Mathlib.Tactic.SplitIfs

/-!
# The circuit breaker and the counters of `get`

The breaker protects the backend from a `tiered_cache` whose queries fail. It is compared
with the automaton that its configuration documents: the two differ in one thing, the
automaton starts its count anew when two failures are further apart than
`error_reset_interval`, which the code never reads.

A `get` of a sequential run asks the breaker before it queries the backend. Its counters
are followed beside two counts that the code does not keep, the `get`s that returned and
the queries that returned.
-/

namespace Lru.Tiered

open Transition

/-! ## The breaker -/

/-- `circuit_breaker_config`; times are in milliseconds. -/
structure BreakerConfig where
  errorThreshold : Nat := 5
  cooldown : Int := 5000
  successThreshold : Nat := 2
  errorResetInterval : Int := 60000

inductive CircuitState where
  | closed
  | opened
  | halfOpen
  deriving DecidableEq, Repr

structure Breaker where
  state : CircuitState := .closed
  errorCount : Nat := 0
  halfOpenSuccesses : Nat := 0
  lastFailureMs : Int := 0
  deriving DecidableEq, Repr

inductive BreakerCall where
  | allowRequest (now : Int)
  | recordSuccess
  | recordFailure (now : Int)

namespace Breaker

variable (cfg : BreakerConfig) (b : Breaker)

def allowRequest (now : Int) : Bool × Breaker :=
  if cfg.errorThreshold = 0 then (true, b)
  else
    match b.state with
    | .closed => (true, b)
    | .opened =>
      if now - b.lastFailureMs < cfg.cooldown then (false, b)
      else (true, { b with state := .halfOpen, halfOpenSuccesses := 0 })
    | .halfOpen => (true, b)

def recordSuccess : Breaker :=
  if cfg.errorThreshold = 0 then b
  else
    match b.state with
    | .halfOpen =>
      let b := { b with halfOpenSuccesses := b.halfOpenSuccesses + 1 }
      if cfg.successThreshold ≤ b.halfOpenSuccesses then
        { b with state := .closed, errorCount := 0 }
      else b
    | .closed => { b with errorCount := 0 }
    | .opened => b

def recordFailure (now : Int) : Breaker :=
  if cfg.errorThreshold = 0 then b
  else
    let b := { b with lastFailureMs := now }
    match b.state with
    | .halfOpen => { b with state := .opened }
    | .closed =>
      let b := { b with errorCount := b.errorCount + 1 }
      if cfg.errorThreshold ≤ b.errorCount then { b with state := .opened } else b
    | .opened => b

/-- A call and its decision, if it makes one. -/
def call : BreakerCall → Option Bool × Breaker
  | .allowRequest now => ((b.allowRequest cfg now).1, (b.allowRequest cfg now).2)
  | .recordSuccess => (none, b.recordSuccess cfg)
  | .recordFailure now => (none, b.recordFailure cfg now)

end Breaker

/-! ## The documented automaton -/

inductive Phase where
  /-- With the failures that have accumulated. -/
  | closed (failures : Nat)
  | opened
  /-- With the successes since it was entered. -/
  | halfOpen (successes : Nat)

structure Automaton where
  phase : Phase := .closed 0
  lastFailure : Int := 0

namespace Automaton

variable (cfg : BreakerConfig) (a : Automaton)

def state : CircuitState :=
  match a.phase with
  | .closed _ => .closed
  | .opened => .opened
  | .halfOpen _ => .halfOpen

/-- A failure at this time does not add to those before it. -/
def startsAnew (now : Int) : Bool :=
  cfg.errorResetInterval ≠ 0 && cfg.errorResetInterval < now - a.lastFailure

def failure (now : Int) : Phase :=
  match a.phase with
  | .closed failures =>
    let failures := if a.startsAnew cfg now then 1 else failures + 1
    if cfg.errorThreshold ≤ failures then .opened else .closed failures
  | .opened | .halfOpen _ => .opened

def success : Phase :=
  match a.phase with
  | .closed _ => .closed 0
  | .opened => .opened
  | .halfOpen successes =>
    if cfg.successThreshold ≤ successes + 1 then .closed 0 else .halfOpen (successes + 1)

/-- While open it rejects until the cooldown has elapsed since the last failure. -/
def request (now : Int) : Bool × Phase :=
  match a.phase with
  | .opened => if now < a.lastFailure + cfg.cooldown then (false, .opened) else (true, .halfOpen 0)
  | phase => (true, phase)

/-- An `error_threshold` of 0 turns the automaton off. -/
def call (c : BreakerCall) : Option Bool × Automaton :=
  match c with
  | .allowRequest now =>
    if cfg.errorThreshold = 0 then (some true, a)
    else (some (a.request cfg now).1, { a with phase := (a.request cfg now).2 })
  | .recordSuccess =>
    (none, if cfg.errorThreshold = 0 then a else { a with phase := a.success cfg })
  | .recordFailure now =>
    (none, if cfg.errorThreshold = 0 then a else ⟨a.failure cfg now, now⟩)

end Automaton

/-! ## The comparison -/

namespace Breaker

variable {cfg : BreakerConfig} {b : Breaker} {now : Int}

def automaton (b : Breaker) : Automaton where
  phase :=
    match b.state with
    | .closed => .closed b.errorCount
    | .opened => .opened
    | .halfOpen => .halfOpen b.halfOpenSuccesses
  lastFailure := b.lastFailureMs

/-- A failure that the closed breaker adds to earlier ones does not come too late for them. -/
def inTime (cfg : BreakerConfig) (b : Breaker) : BreakerCall → Bool
  | .recordFailure now =>
    b.state ≠ .closed || b.errorCount = 0 || !b.automaton.startsAnew cfg now
  | _ => true

theorem automaton_state : b.automaton.state = b.state := by
  unfold automaton Automaton.state
  cases b.state <;> rfl

theorem allowRequest_automaton : b.automaton.call cfg (.allowRequest now) =
    (some (b.allowRequest cfg now).1, (b.allowRequest cfg now).2.automaton) := by
  have elapsed : now < b.lastFailureMs + cfg.cooldown ↔ now - b.lastFailureMs < cfg.cooldown := by
    omega
  cases state : b.state <;>
    simp only [Automaton.call, Automaton.request, automaton, allowRequest, state, elapsed] <;>
    split_ifs <;> simp [state]

theorem recordSuccess_automaton :
    b.automaton.call cfg .recordSuccess = (none, (b.recordSuccess cfg).automaton) := by
  cases state : b.state <;>
    simp only [Automaton.call, Automaton.success, automaton, recordSuccess, state] <;>
    split_ifs <;> simp [state]

theorem recordFailure_automaton (inTime : b.inTime cfg (.recordFailure now) = true) :
    b.automaton.call cfg (.recordFailure now) = (none, (b.recordFailure cfg now).automaton) := by
  cases state : b.state with
  | closed =>
    have added : (if b.automaton.startsAnew cfg now then 1 else b.errorCount + 1) =
        b.errorCount + 1 := by
      simp only [Breaker.inTime, state] at inTime
      split_ifs <;> simp_all
    have phase : b.automaton.phase = .closed b.errorCount := by simp only [automaton, state]
    simp only [Automaton.call, Automaton.failure, recordFailure, state, added, phase]
    split_ifs <;> simp [automaton, state]
  | opened | halfOpen =>
    simp only [Automaton.call, Automaton.failure, automaton, recordFailure, state]
    split_ifs <;> simp [state]

/-- A call in time is a call of the automaton, with the same decision. -/
theorem call_automaton {c : BreakerCall} (inTime : b.inTime cfg c = true) :
    b.automaton.call cfg c = ((b.call cfg c).1, (b.call cfg c).2.automaton) := by
  cases c with
  | allowRequest now => exact allowRequest_automaton
  | recordSuccess => exact recordSuccess_automaton
  | recordFailure now => exact recordFailure_automaton inTime

/-- The breaker and the automaton take the same call. -/
def bothCall (cfg : BreakerConfig) (s : Breaker × Automaton) (c : BreakerCall) :
    Option (Breaker × Automaton) :=
  some ((s.1.call cfg c).2, (s.2.call cfg c).2)

/-- In every trace whose failures come in time the breaker is in the state of the documented
automaton and decides as it does. -/
theorem follows_automaton {a : Automaton}
    (traced : Transition.Reaches (bothCall cfg) (fun s c => s.1.inTime cfg c) ({}, {}) (b, a)) :
    a.state = b.state ∧ ∀ now, (a.call cfg (.allowRequest now)).1 = (b.allowRequest cfg now).1 := by
  have same : a = b.automaton := by
    refine traced.invariant (P := fun s => s.2 = s.1.automaton) rfl ?_
    intro s c t same inTime taken
    cases taken
    simp only [same]
    exact congrArg Prod.snd (call_automaton inTime)
  rw [same]
  exact ⟨automaton_state, fun now => congrArg Prod.fst allowRequest_automaton⟩

/-- Five failures in a row open the breaker, and it rejects until the cooldown is over. -/
theorem five_failures_open :
    ∃ b a, run (bothCall {}) ({}, {})
        (List.replicate 5 (.recordFailure 0)) = some (b, a) ∧
      a.state = .opened ∧ (a.call {} (.allowRequest 4999)).1 = some false := by
  have taken : runWhere (bothCall {}) (fun s c => s.1.inTime {} c) ({}, {})
      (List.replicate 5 (.recordFailure 0)) = some _ := rfl
  have follows := follows_automaton (.of_runWhere taken)
  exact ⟨_, _, rfl, follows.1, follows.2 4999⟩

/-- Two failures a minute and more apart open a breaker with a threshold of 2; the automaton
stays closed. -/
theorem late_failure_opens :
    ∃ b a, run (bothCall { errorThreshold := 2 }) ({}, {})
        [.recordFailure 0, .recordFailure 60001] = some (b, a) ∧
      b.state = .opened ∧ a.state = .closed ∧
      (b.allowRequest { errorThreshold := 2 } 60001).1 = false ∧
      (a.call { errorThreshold := 2 } (.allowRequest 60001)).1 = some true :=
  ⟨_, _, rfl, by decide⟩

end Breaker

/-! ## The counters of `get` -/

/-- What a `get` meets: the lookup of the primary, the clock at the request and at a failure,
the backend's reply or none if it throws, and what the primary returns for a value once it has
been promoted, or none if the promotion throws. -/
structure Meets (V : Type) where
  cached : Option V
  askedMs : Int
  failedMs : Int
  reply : Option (Option V)
  promoted : V → Option (Option V)

/-- `tiered_cache` as far as a `get` counts. The last two fields are history. -/
structure Counted where
  breaker : Breaker := {}
  primaryHits : Nat := 0
  primaryMisses : Nat := 0
  backendHits : Nat := 0
  backendMisses : Nat := 0
  promotions : Nat := 0
  circuitBreakerRejections : Nat := 0
  /-- The `get`s that returned. -/
  gets : Nat := 0
  /-- The backend queries that returned. -/
  queries : Nat := 0

namespace Counted

variable {V : Type}

/-- `get` of a sequential run, where no other leader is in flight; none if it throws. -/
def get (readThrough : Bool) (cfg : BreakerConfig) (s : Counted) (m : Meets V) :
    Option (Option V) × Counted :=
  match m.cached with
  | some value => (some value, { s with primaryHits := s.primaryHits + 1, gets := s.gets + 1 })
  | none =>
    if readThrough = false then
      (some none, { s with primaryMisses := s.primaryMisses + 1, gets := s.gets + 1 })
    else
      let asked := s.breaker.allowRequest cfg m.askedMs
      if asked.1 = false then
        (some none,
          { s with
            breaker := asked.2
            primaryMisses := s.primaryMisses + 1
            backendMisses := s.backendMisses + 1
            circuitBreakerRejections := s.circuitBreakerRejections + 1
            gets := s.gets + 1 })
      else
        match m.reply with
        | none => (none, { s with breaker := asked.2.recordFailure cfg m.failedMs })
        | some none =>
          (some none,
            { s with
              breaker := asked.2.recordSuccess cfg
              primaryMisses := s.primaryMisses + 1
              backendMisses := s.backendMisses + 1
              gets := s.gets + 1
              queries := s.queries + 1 })
        | some (some value) =>
          let s := { s with breaker := asked.2.recordSuccess cfg, queries := s.queries + 1 }
          match m.promoted value with
          | none => (none, s)
          | some handle =>
            (some handle,
              { s with
                backendHits := s.backendHits + 1
                promotions := s.promotions + 1
                gets := s.gets + 1 })

def step (readThrough : Bool) (cfg : BreakerConfig) (s : Counted) (m : Meets V) : Option Counted :=
  some (s.get readThrough cfg m).2

/-- What the statistics of the reads are to add up to. -/
structure Conserves (s : Counted) : Prop where
  primary : s.primaryHits + s.primaryMisses = s.gets
  backend : s.backendHits + s.backendMisses = s.queries
  hits : s.primaryHits + s.backendHits ≤ s.primaryHits + s.primaryMisses

/-- The primary answers, or the backend is asked and has no value. -/
def answeredOrMissing (readThrough : Bool) (cfg : BreakerConfig) (s : Counted) (m : Meets V) :
    Bool :=
  m.cached.isSome || !readThrough ||
    (s.breaker.allowRequest cfg m.askedMs).1 && m.reply.all Option.isNone

variable {readThrough : Bool} {cfg : BreakerConfig} {s t : Counted} {m : Meets V}

theorem get_conserves (h : s.Conserves) (unserved : s.backendHits = 0)
    (allowed : s.answeredOrMissing readThrough cfg m = true) :
    (s.get readThrough cfg m).2.Conserves ∧ (s.get readThrough cfg m).2.backendHits = 0 := by
  obtain ⟨primary, backend, hits⟩ := h
  rw [answeredOrMissing] at allowed
  -- The exits of `get` in its order; the last two are excluded.
  rw [get]
  cases cached : m.cached with
  | some value => exact ⟨⟨by simp only; omega, backend, by simp only; omega⟩, unserved⟩
  | none =>
    simp only [cached] at allowed ⊢
    split_ifs with offline rejected
    · exact ⟨⟨by simp only; omega, backend, by simp only; omega⟩, unserved⟩
    · simp [offline, rejected] at allowed
    · cases reply : m.reply with
      | none => exact ⟨⟨primary, backend, hits⟩, unserved⟩
      | some answer =>
        cases answer with
        | none =>
          exact ⟨⟨by simp only; omega, by simp only; omega, by simp only; omega⟩, unserved⟩
        | some value => simp [offline, reply] at allowed

/-- In every run of `get`s in which the backend never has a value to give and is never spared
a query, the statistics add up. -/
theorem statistics_conserved (reached : Transition.Reaches (step (V := V) readThrough cfg)
      (fun s m => s.answeredOrMissing readThrough cfg m) { breaker := s.breaker } t) :
    t.Conserves := by
  refine (reached.invariant (P := fun s => s.Conserves ∧ s.backendHits = 0)
    ⟨⟨rfl, rfl, Nat.le_refl _⟩, rfl⟩ ?_).1
  rintro s m t ⟨conserves, unserved⟩ allowed taken
  cases taken
  exact get_conserves conserves unserved allowed

/-- One `get` served by the primary and one that the backend cannot serve. -/
theorem two_gets_conserved :
    ∃ t, run (step (V := Nat) true {}) {}
        [⟨some 7, 0, 0, none, fun _ => none⟩, ⟨none, 0, 0, some none, fun _ => none⟩] = some t ∧
      t.gets = 2 ∧ t.queries = 1 ∧ t.Conserves := by
  have taken : runWhere (step true {}) (answeredOrMissing true {}) {}
      [⟨some 7, 0, 0, none, fun _ => none⟩, ⟨none, 0, 0, some none, fun _ => none⟩] = some _ := rfl
  exact ⟨_, rfl, rfl, rfl, statistics_conserved (s := {}) (.of_runWhere taken)⟩

/-- A value that the backend serves: the `get` returns, but the primary has neither a hit nor a
miss, and there are more hits than lookups. -/
theorem backend_hit_unaccounted :
    let t := (({} : Counted).get true {} ⟨none, 0, 0, some (some 7), fun v => some v⟩).2
    t.gets = 1 ∧ t.primaryHits + t.primaryMisses = 0 ∧ t.primaryHits + t.backendHits = 1 := by
  decide

end Counted

end Lru.Tiered
