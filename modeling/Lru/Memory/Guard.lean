import Lru.Library.Tally
import Lru.Library.Transition
import Lru.Memory.Monitor

/-!
# Concurrent memory guards

Any number of `memory_guard` objects run against one `memory_monitor` whose
budget `max_memory_bytes` is positive. Every load, compare-exchange and
read-modify-write of `current_memory_` and `reserved_bytes_` is one step of its
guard; steps of different guards interleave arbitrarily and are sequentially
consistent. A guard object is constructed, committed and destroyed once, so a
thread that uses several guards in turn is several components here.

The verdicts that come from outside the two counters are left to the
environment: the pressure callback and the OS sampler (which run before the
counters are read), the random draw of the critical tier, and the spurious
failure of `compare_exchange_weak`.

`tick` and the times stored in two of the phases are history: they are written
and never read by a step. They only serve to say in which order two steps of
different guards happened.
-/

namespace Lru.Memory

open SizeT Option

/-- The bounded number of rounds in `try_reserve`. -/
def kReserveAttempts : Nat := 8

/-- One monitor and the byte counts of the `n` guards used with it. `critical`
is the comparison of a projected footprint with the critical fraction. -/
structure GuardConfig (n : Nat) where
  maxMemoryBytes : Nat
  delta : Fin n → Nat
  critical : Nat → Bool
  max_pos : 0 < maxMemoryBytes
  max_lt : maxMemoryBytes < range
  delta_lt : ∀ i, delta i < range

/-- Where one guard stands between two accesses to the shared counters. -/
inductive Phase where
  /-- Not yet constructed. -/
  | idle
  /-- `should_admit` is about to load `current_memory_`. -/
  | admitMemory
  /-- `should_admit` is about to load `reserved_bytes_`. -/
  | admitReserved (mem : Nat)
  /-- `memory_budget_allows` is about to load `current_memory_`. -/
  | budgetMemory
  /-- `memory_budget_allows` is about to load `reserved_bytes_`. -/
  | budgetReserved (committed : Nat)
  /-- `try_reserve` begins a round. -/
  | reserveMemory (attempt : Nat)
  | reserveReserved (attempt committed : Nat)
  | reserveExchange (attempt reserved : Nat)
  /-- The exchange succeeded; `c2` and then `r2` are still to be loaded. -/
  | validateMemory (attempt : Nat)
  | validateReserved (attempt c2 since : Nat)
  /-- Validation failed; the bytes are about to be given back. -/
  | giveBack (attempt : Nat)
  /-- The constructor returned with `admitted_ == false`. -/
  | rejected
  /-- The constructor returned with `admitted_ == true`. -/
  | admitted
  /-- `commit` has run `report_insert` but not yet `release_reservation`. -/
  | commitRelease (since : Nat)
  | committed
  /-- Destroyed without a commit. -/
  | released
  deriving DecidableEq, Repr

/-- `advance` is the next access in program order. The others are the choices
of the environment and of the owner of an admitted guard. -/
inductive Action where
  | advance
  /-- The callback or the random draw refuses; the exchange fails spuriously. -/
  | refuse
  /-- Under critical OS pressure the draw accepted without the internal model. -/
  | accept
  /-- The owner destroys the admitted guard without a commit. -/
  | destroy
  deriving DecidableEq, Repr

structure GuardState (n : Nat) where
  currentMemory : Nat
  reservedBytes : Nat
  guards : Fin n → Phase
  tick : Nat

/-- A fresh monitor, before any guard is constructed. -/
def GuardState.initial (n : Nat) : GuardState n :=
  { currentMemory := 0, reservedBytes := 0, guards := fun _ => .idle, tick := 0 }

namespace GuardState

variable {n bound : Nat}

/-- Guard `i` moves to `p`, with both counters as given. -/
def move (s : GuardState n) (i : Fin n) (p : Phase) (current reserved : Nat) : GuardState n :=
  { currentMemory := current, reservedBytes := reserved,
    guards := Function.update s.guards i p, tick := s.tick + 1 }

/-- Guard `i` moves to `p` without writing a counter. -/
def goto (s : GuardState n) (i : Fin n) (p : Phase) : GuardState n :=
  s.move i p s.currentMemory s.reservedBytes

end GuardState

/-- The end of a failed round: the next one, or the final `return false`. -/
def retry (attempt : Nat) : Phase :=
  if attempt + 1 < kReserveAttempts then .reserveMemory (attempt + 1) else .rejected

/-- The two overflow-safe pre-checks of `try_reserve`. -/
def reserveFits (max committed reserved delta : Nat) : Bool :=
  !(max ≤ committed || max - committed < delta) && !(max - committed - delta < reserved)

/-- Program order of one guard: the next access from each phase. -/
def advance {n : Nat} (cfg : GuardConfig n) (s : GuardState n) (i : Fin n) :
    Option (GuardState n) :=
  let max := cfg.maxMemoryBytes
  let d := cfg.delta i
  match s.guards i with
  | .idle => some (s.goto i .admitMemory)
  | .admitMemory => some (s.goto i (.admitReserved s.currentMemory))
  | .admitReserved _ => some (s.goto i .budgetMemory)
  | .budgetMemory =>
    some (s.goto i (if max ≤ s.currentMemory then .rejected
      else .budgetReserved s.currentMemory))
  | .budgetReserved committed =>
    some (s.goto i (if budgetAllows max committed s.reservedBytes d then .reserveMemory 0
      else .rejected))
  | .reserveMemory attempt => some (s.goto i (.reserveReserved attempt s.currentMemory))
  | .reserveReserved attempt committed =>
    some (s.goto i (if reserveFits max committed s.reservedBytes d
      then .reserveExchange attempt s.reservedBytes else .rejected))
  | .reserveExchange attempt reserved =>
    if s.reservedBytes = reserved then
      some (s.move i (.validateMemory attempt) s.currentMemory (fetchAdd reserved d))
    else some (s.goto i (retry attempt))
  | .validateMemory attempt =>
    some (s.goto i (.validateReserved attempt s.currentMemory s.tick))
  | .validateReserved attempt c2 _ =>
    some (s.goto i (if c2 ≤ max ∧ s.reservedBytes ≤ max - c2 then .admitted
      else .giveBack attempt))
  | .giveBack attempt =>
    some (s.move i (retry attempt) s.currentMemory (fetchSub s.reservedBytes d))
  | .admitted =>
    some (s.move i (.commitRelease s.tick) (fetchAdd s.currentMemory d) s.reservedBytes)
  | .commitRelease _ =>
    some (s.move i .committed s.currentMemory (fetchSub s.reservedBytes d))
  | .rejected | .committed | .released => none

def guardStep {n : Nat} (cfg : GuardConfig n) (s : GuardState n) :
    Fin n × Action → Option (GuardState n)
  | (i, .advance) => advance cfg s i
  | (i, .refuse) =>
    match s.guards i with
    | .idle => some (s.goto i .rejected)
    | .admitReserved mem =>
      -- Only the critical tier draws; elsewhere the budget check decides.
      if cfg.critical (saturatingAdd mem (saturatingAdd s.reservedBytes (cfg.delta i)))
      then some (s.goto i .rejected) else none
    | .reserveExchange attempt _ => some (s.goto i (retry attempt))
    | _ => none
  | (i, .accept) =>
    match s.guards i with
    | .idle => some (s.goto i .budgetMemory)
    | _ => none
  | (i, .destroy) =>
    match s.guards i with
    | .admitted =>
      some (s.move i .released s.currentMemory (fetchSub s.reservedBytes (cfg.delta i)))
    | _ => none

/-! ## What one step can do -/

namespace Phase

/-- The bytes of a guard in this phase are part of `reserved_bytes_`. -/
def reserves : Phase → Bool
  | .validateMemory _ | .validateReserved .. | .giveBack _ | .admitted | .commitRelease _ => true
  | _ => false

/-- The bytes of a guard in this phase are part of `current_memory_`. -/
def inserted : Phase → Bool
  | .commitRelease _ | .committed => true
  | _ => false

/-- The bytes of a guard in this phase were inserted by the time `bound`, if
its reservation is dropped no earlier than that time. -/
def insertedBefore (bound : Nat) : Phase → Bool
  | .commitRelease since => since < bound
  | .committed => true
  | _ => false

/-- A phase whose bytes are in neither counter. -/
def weightless (p : Phase) : Prop := p.reserves = false ∧ p.inserted = false

theorem insertedBefore_of_not_inserted {bound : Nat} {p : Phase} (h : p.inserted = false) :
    p.insertedBefore bound = false := by
  cases p <;> simp_all [inserted, insertedBefore]

theorem weightless.ne_admitted {p : Phase} (h : p.weightless) : p ≠ .admitted := by
  rintro rfl
  exact Bool.noConfusion h.1

theorem retry_weightless (attempt : Nat) : (retry attempt).weightless := by
  unfold retry
  split <;> exact ⟨rfl, rfl⟩

theorem retry_ne_exchange (attempt a r : Nat) : retry attempt ≠ .reserveExchange a r := by
  unfold retry
  split <;> simp

end Phase

/-- The effects of a step on the two counters, with what the step has checked.
Phases whose bytes are in neither counter are not told apart. -/
inductive Effect {n : Nat} (cfg : GuardConfig n) (s : GuardState n) (i : Fin n) :
    GuardState n → Prop
  | decide (p : Phase) (before : (s.guards i).weightless) (after : p.weightless)
      (checked : ∀ a r, p = .reserveExchange a r → r + cfg.delta i ≤ cfg.maxMemoryBytes) :
      Effect cfg s i (s.goto i p)
  | reserve (attempt : Nat) (before : s.guards i = .reserveExchange attempt s.reservedBytes) :
      Effect cfg s i
        (s.move i (.validateMemory attempt) s.currentMemory
          (fetchAdd s.reservedBytes (cfg.delta i)))
  | observe (attempt : Nat) (before : s.guards i = .validateMemory attempt) :
      Effect cfg s i (s.goto i (.validateReserved attempt s.currentMemory s.tick))
  | admitted (attempt c2 since : Nat) (before : s.guards i = .validateReserved attempt c2 since)
      (checked : c2 + s.reservedBytes ≤ cfg.maxMemoryBytes) :
      Effect cfg s i (s.goto i .admitted)
  | invalidate (attempt c2 since : Nat)
      (before : s.guards i = .validateReserved attempt c2 since) :
      Effect cfg s i (s.goto i (.giveBack attempt))
  | unreserve (p : Phase) (before : s.guards i = .admitted ∨ ∃ a, s.guards i = .giveBack a)
      (after : p.weightless) (checked : ∀ a r, p ≠ .reserveExchange a r) :
      Effect cfg s i (s.move i p s.currentMemory (fetchSub s.reservedBytes (cfg.delta i)))
  | insert (before : s.guards i = .admitted) :
      Effect cfg s i
        (s.move i (.commitRelease s.tick) (fetchAdd s.currentMemory (cfg.delta i))
          s.reservedBytes)
  | settle (since : Nat) (before : s.guards i = .commitRelease since) :
      Effect cfg s i
        (s.move i .committed s.currentMemory (fetchSub s.reservedBytes (cfg.delta i)))

section Steps

variable {n : Nat} {cfg : GuardConfig n} {s t : GuardState n} {i : Fin n} {a : Action}

private theorem decide_simple {q : Phase} (phase : s.guards i = q) (p : Phase)
    (before : q.weightless) (after : p.weightless) (shape : ∀ a r, p ≠ .reserveExchange a r) :
    Effect cfg s i (s.goto i p) :=
  .decide p (phase ▸ before) after fun a r h => absurd h (shape a r)

theorem advance_effect (taken : advance cfg s i = some t) : Effect cfg s i t := by
  unfold advance at taken
  cases phase : s.guards i with simp only [phase, some.injEq] at taken
  | idle | admitMemory | admitReserved | reserveMemory =>
    exact taken ▸ decide_simple phase _ ⟨rfl, rfl⟩ ⟨rfl, rfl⟩ (by simp)
  | budgetMemory | budgetReserved =>
    refine taken ▸ decide_simple phase _ ⟨rfl, rfl⟩ ?_ ?_
    · split <;> exact ⟨rfl, rfl⟩
    · intro a r; split <;> simp
  | reserveReserved attempt committed =>
    refine taken ▸ .decide _ (by rw [phase]; exact ⟨rfl, rfl⟩) ?_ ?_
    · split <;> exact ⟨rfl, rfl⟩
    · intro a r h
      split at h
      case isTrue fits =>
        cases h
        -- The pre-checks leave room for the exchange, without wrap-around.
        simp only [reserveFits, Bool.and_eq_true, Bool.not_eq_true', Bool.or_eq_false_iff,
          decide_eq_false_iff_not] at fits
        omega
      case isFalse => exact Phase.noConfusion h
  | reserveExchange attempt reserved =>
    split at taken
    case isTrue same =>
      subst same
      exact some.inj taken ▸ .reserve attempt phase
    case isFalse =>
      exact some.inj taken ▸ decide_simple phase _ ⟨rfl, rfl⟩
        (Phase.retry_weightless _) (Phase.retry_ne_exchange _)
  | validateMemory attempt =>
    exact taken ▸ .observe attempt phase
  | validateReserved attempt c2 since =>
    subst taken
    split
    case isTrue fits => exact .admitted attempt c2 since phase (by omega)
    case isFalse => exact .invalidate attempt c2 since phase
  | giveBack attempt =>
    exact taken ▸ .unreserve _ (.inr ⟨attempt, phase⟩) (Phase.retry_weightless _)
      (Phase.retry_ne_exchange _)
  | admitted =>
    exact taken ▸ .insert phase
  | commitRelease since =>
    exact taken ▸ .settle since phase
  | rejected | committed | released => cases taken

theorem guardStep_effect (taken : guardStep cfg s (i, a) = some t) : Effect cfg s i t := by
  cases a with simp only [guardStep] at taken
  | advance => exact advance_effect taken
  | refuse =>
    split at taken
    case h_1 phase =>
      exact some.inj taken ▸ decide_simple phase _ ⟨rfl, rfl⟩
        ⟨rfl, rfl⟩ (by simp)
    case h_2 mem phase =>
      split at taken
      · exact some.inj taken ▸ decide_simple phase _ ⟨rfl, rfl⟩
          ⟨rfl, rfl⟩ (by simp)
      · simp at taken
    case h_3 attempt reserved phase =>
      exact some.inj taken ▸ decide_simple phase _ ⟨rfl, rfl⟩
        (Phase.retry_weightless _) (Phase.retry_ne_exchange _)
    case h_4 => simp at taken
  | accept =>
    split at taken
    case h_1 phase =>
      exact some.inj taken ▸ decide_simple phase _ ⟨rfl, rfl⟩
        ⟨rfl, rfl⟩ (by simp)
    case h_2 => simp at taken
  | destroy =>
    split at taken
    case h_1 phase =>
      exact some.inj taken ▸ .unreserve _ (.inl phase) ⟨rfl, rfl⟩ (by simp)
    case h_2 => simp at taken

end Steps

/-! ## Byte accounting -/

section Accounting

variable {n : Nat} {cfg : GuardConfig n} {s t : GuardState n} {i : Fin n} {c r : Nat}
  {f : Phase → Bool} {p : Phase}

/-- The bytes of a guard when its phase satisfies `f`. -/
def weight (cfg : GuardConfig n) (f : Phase → Bool) (i : Fin n) (p : Phase) : Nat :=
  if f p then cfg.delta i else 0

/-- The bytes of all guards whose phase satisfies `f`. -/
def bytes (cfg : GuardConfig n) (f : Phase → Bool) (s : GuardState n) : Nat :=
  Tally.total (weight cfg f) s.guards

/-- Bytes held in `reserved_bytes_`: by admitted guards that did not commit and
by constructors and commits in progress. -/
def heldBytes (cfg : GuardConfig n) (s : GuardState n) : Nat := bytes cfg Phase.reserves s

/-- Bytes of admitted reservations that `commit` has not yet moved to
`current_memory_` and no destructor has released. -/
def pendingBytes (cfg : GuardConfig n) (s : GuardState n) : Nat :=
  bytes cfg (fun p => p = .admitted) s

theorem bytes_move (cfg : GuardConfig n) (f : Phase → Bool) (s : GuardState n) (i : Fin n)
    (p : Phase) (c r : Nat) :
    bytes cfg f (s.move i p c r) + weight cfg f i (s.guards i) = bytes cfg f s + weight cfg f i p :=
  Tally.total_update _ _

/-- Replacing a phase by one of the same kind leaves the bytes of that kind. -/
theorem bytes_move_same (same : f p = f (s.guards i)) :
    bytes cfg f (s.move i p c r) = bytes cfg f s := by
  have moved := bytes_move cfg f s i p c r
  simp only [weight, same] at moved
  omega

/-- A phase that newly satisfies `f` adds the bytes of its guard. -/
theorem bytes_move_enter (before : f (s.guards i) = false) (after : f p = true) :
    bytes cfg f (s.move i p c r) = bytes cfg f s + cfg.delta i := by
  have moved := bytes_move cfg f s i p c r
  simpa [weight, before, after] using moved

/-- A phase that no longer satisfies `f` takes the bytes of its guard away. -/
theorem bytes_move_leave (before : f (s.guards i) = true) (after : f p = false) :
    bytes cfg f (s.move i p c r) + cfg.delta i = bytes cfg f s := by
  have moved := bytes_move cfg f s i p c r
  simpa [weight, before, after] using moved

theorem bytes_initial (h : f .idle = false) : bytes cfg f (GuardState.initial n) = 0 := by
  simp [bytes, Tally.total, weight, GuardState.initial, h]

/-- The reservation counter is exact in every state, and no value in it ever
wrapped: the exchange is only tried for a sum within the budget. -/
structure ReservedExact (cfg : GuardConfig n) (s : GuardState n) : Prop where
  reserved_eq : s.reservedBytes = heldBytes cfg s
  reserved_le : s.reservedBytes ≤ cfg.maxMemoryBytes
  exchange_le : ∀ j a r, s.guards j = .reserveExchange a r → r + cfg.delta j ≤ cfg.maxMemoryBytes

theorem ReservedExact.initial : ReservedExact cfg (GuardState.initial n) where
  reserved_eq := (bytes_initial rfl).symm
  reserved_le := Nat.zero_le _
  exchange_le _ _ _ h := Phase.noConfusion h

/-- Dropping a reservation that is counted subtracts it exactly. -/
theorem ReservedExact.fetchSub_eq (inv : ReservedExact cfg s)
    (held : (s.guards i).reserves = true) :
    fetchSub s.reservedBytes (cfg.delta i) + cfg.delta i = s.reservedBytes := by
  have part : bytes cfg Phase.reserves (s.move i .released 0 0) + cfg.delta i = _ :=
    bytes_move_leave held rfl
  have whole : s.reservedBytes = bytes cfg Phase.reserves s := inv.reserved_eq
  rw [fetchSub_of_le (Nat.lt_of_le_of_lt inv.reserved_le cfg.max_lt) (by omega)]
  omega

private theorem exchange_le_move (inv : ReservedExact cfg s)
    (checked : ∀ a x, p = .reserveExchange a x → x + cfg.delta i ≤ cfg.maxMemoryBytes) :
    ∀ j a x, (s.move i p c r).guards j = .reserveExchange a x →
      x + cfg.delta j ≤ cfg.maxMemoryBytes := by
  intro j a x phase
  by_cases same : j = i
  · subst same
    exact checked a x (by simpa [GuardState.move] using phase)
  · exact inv.exchange_le j a x (by simpa [GuardState.move, same] using phase)

/-- A guard that gives its reservation up, committed or not. -/
theorem ReservedExact.drop (inv : ReservedExact cfg s) (held : (s.guards i).reserves = true)
    (after : p.reserves = false) (checked : ∀ a r, p ≠ .reserveExchange a r) : ReservedExact cfg
      (s.move i p s.currentMemory (fetchSub s.reservedBytes (cfg.delta i))) := by
  have sub := inv.fetchSub_eq held
  have left : bytes cfg Phase.reserves (s.move i p s.currentMemory
      (fetchSub s.reservedBytes (cfg.delta i))) + cfg.delta i = _ := bytes_move_leave held after
  have whole : s.reservedBytes = bytes cfg Phase.reserves s := inv.reserved_eq
  have bound := inv.reserved_le
  refine ⟨?_, ?_, exchange_le_move inv fun a r h => absurd h (checked a r)⟩
  · change fetchSub _ _ = bytes _ _ _
    omega
  · change fetchSub _ _ ≤ _
    omega

theorem ReservedExact.effect (inv : ReservedExact cfg s) (e : Effect cfg s i t) :
    ReservedExact cfg t := by
  have exact_ : s.reservedBytes = bytes cfg Phase.reserves s := inv.reserved_eq
  cases e with
  | decide p before after checked =>
    refine ⟨?_, inv.reserved_le, exchange_le_move inv checked⟩
    exact exact_.trans (bytes_move_same (by rw [before.1, after.1])).symm
  | reserve attempt before =>
    have fits := inv.exchange_le i _ _ before
    have sum := fetchAdd_of_lt (Nat.lt_of_le_of_lt fits cfg.max_lt)
    refine ⟨?_, by simpa [GuardState.move, sum] using fits, exchange_le_move inv (by simp)⟩
    change fetchAdd _ _ = bytes _ _ _
    rw [sum, bytes_move_enter (by rw [before]; rfl) rfl, exact_]
  | observe _ before | admitted _ _ _ before | invalidate _ _ _ before | insert before =>
    refine ⟨?_, inv.reserved_le, exchange_le_move inv (by simp)⟩
    exact exact_.trans (bytes_move_same (by rw [before]; rfl)).symm
  | unreserve p before after checked =>
    have held : (s.guards i).reserves = true := by
      rcases before with h | ⟨_, h⟩ <;> rw [h] <;> rfl
    exact inv.drop held after.1 checked
  | settle since before =>
    have held : (s.guards i).reserves = true := by rw [before]; rfl
    exact inv.drop held rfl (by simp)

/-! ## The hard cap -/

/-- A commit does not run both of its steps between the two validating loads of
another constructor: when it drops the reservation, no constructor is between
loads of which the first came before this commit's `report_insert`. -/
def separated (s : GuardState n) (label : Fin n × Action) : Bool :=
  match s.guards label.1 with
  | .commitRelease since => (List.finRange n).all fun j =>
    match s.guards j with
    | .validateReserved _ _ loaded => since < loaded
    | _ => true
  | _ => true

/-- The invariant of runs whose commits are separated from validations. A
constructor that has loaded `c2` at time `since` knows that everything whose
reservation is already dropped was part of `c2`. -/
structure Capped (cfg : GuardConfig n) (s : GuardState n) : Prop where
  reserved : ReservedExact cfg s
  memory_eq : s.currentMemory = bytes cfg Phase.inserted s
  cap : bytes cfg Phase.inserted s + pendingBytes cfg s ≤ cfg.maxMemoryBytes
  commit_past : ∀ j since, s.guards j = .commitRelease since → since < s.tick
  load_past : ∀ j a c2 since, s.guards j = .validateReserved a c2 since → since < s.tick
  snapshot : ∀ j a c2 since, s.guards j = .validateReserved a c2 since →
    bytes cfg (Phase.insertedBefore since) s ≤ c2

theorem Capped.initial : Capped cfg (GuardState.initial n) where
  reserved := .initial
  memory_eq := (bytes_initial rfl).symm
  cap := by
    rw [pendingBytes, bytes_initial rfl, bytes_initial rfl]
    exact Nat.zero_le _
  commit_past _ _ h := Phase.noConfusion h
  load_past _ _ _ _ h := Phase.noConfusion h
  snapshot _ _ _ _ h := Phase.noConfusion h

/-- Bytes that are inserted or pending are either still reserved or were
inserted and released before the bound, whatever the bound is. -/
theorem inserted_add_pending_le {bound : Nat} :
    bytes cfg Phase.inserted s + pendingBytes cfg s ≤
      bytes cfg Phase.reserves s + bytes cfg (Phase.insertedBefore bound) s := by
  unfold pendingBytes bytes Tally.total
  rw [← Finset.sum_add_distrib, ← Finset.sum_add_distrib]
  refine Finset.sum_le_sum fun j _ => ?_
  cases s.guards j <;> simp [weight, Phase.inserted, Phase.reserves, Phase.insertedBefore]

/-- Before the current time every inserted byte counts as inserted. -/
theorem bytes_insertedBefore_tick
    (past : ∀ j since, s.guards j = .commitRelease since → since < s.tick) :
    bytes cfg (Phase.insertedBefore s.tick) s = bytes cfg Phase.inserted s := by
  unfold bytes Tally.total
  refine Finset.sum_congr rfl fun j _ => ?_
  cases phase : s.guards j with
  | commitRelease since => simp [weight, Phase.inserted, Phase.insertedBefore, past j since phase]
  | _ => rfl

/-- The facts about times after a step of guard `i` to `p`. Only the guard's own
new phase has to be looked at. -/
private theorem times_move (inv : Capped cfg s)
    (commit : ∀ since, p = .commitRelease since → since ≤ s.tick)
    (load : ∀ a c2 since, p = .validateReserved a c2 since →
      since ≤ s.tick ∧ bytes cfg (Phase.insertedBefore since) (s.move i p c r) ≤ c2)
    (others : ∀ since, since < s.tick →
      bytes cfg (Phase.insertedBefore since) (s.move i p c r) ≤
        bytes cfg (Phase.insertedBefore since) s ∨
      ∀ j a c2, s.guards j ≠ .validateReserved a c2 since) :
    (∀ j since, (s.move i p c r).guards j = .commitRelease since → since < s.tick + 1) ∧
    (∀ j a c2 since, (s.move i p c r).guards j = .validateReserved a c2 since →
      since < s.tick + 1) ∧
    (∀ j a c2 since, (s.move i p c r).guards j = .validateReserved a c2 since →
      bytes cfg (Phase.insertedBefore since) (s.move i p c r) ≤ c2) := by
  have guards_eq : ∀ j, (s.move i p c r).guards j = if j = i then p else s.guards j := by
    intro j
    simp only [GuardState.move, Function.update_apply]
  refine ⟨?_, ?_, ?_⟩
  · intro j since phase
    rw [guards_eq] at phase
    split at phase
    · exact Nat.lt_succ_of_le (commit since phase)
    · exact Nat.lt_succ_of_lt (inv.commit_past j since phase)
  · intro j a c2 since phase
    rw [guards_eq] at phase
    split at phase
    · exact Nat.lt_succ_of_le (load a c2 since phase).1
    · exact Nat.lt_succ_of_lt (inv.load_past j a c2 since phase)
  · intro j a c2 since phase
    rw [guards_eq] at phase
    split at phase
    · exact (load a c2 since phase).2
    · rcases others since (inv.load_past j a c2 since phase) with le | absent
      · exact le.trans (inv.snapshot j a c2 since phase)
      · exact absurd phase (absent j a c2)

/-- A step that inserts and settles nothing. What it loads, if anything, is the
current value of `current_memory_`. -/
private theorem Capped.plain (inv : Capped cfg s)
    (reserved : ReservedExact cfg (s.move i p s.currentMemory r))
    (before : (s.guards i).inserted = false) (after : p.inserted = false)
    (load : ∀ a c2 since, p = .validateReserved a c2 since → since = s.tick ∧ c2 = s.currentMemory)
    (cap : bytes cfg Phase.inserted (s.move i p s.currentMemory r) +
      pendingBytes cfg (s.move i p s.currentMemory r) ≤ cfg.maxMemoryBytes) :
    Capped cfg (s.move i p s.currentMemory r) := by
  have same : ∀ bound, bytes cfg (Phase.insertedBefore bound) (s.move i p s.currentMemory r) =
      bytes cfg (Phase.insertedBefore bound) s := fun bound =>
    bytes_move_same (by
      rw [Phase.insertedBefore_of_not_inserted before, Phase.insertedBefore_of_not_inserted after])
  obtain ⟨commits, loads, snapshots⟩ := times_move inv
    (fun since h => by rw [h] at after; exact Bool.noConfusion after)
    (fun a c2 since h => by
      obtain ⟨rfl, rfl⟩ := load a c2 since h
      refine ⟨Nat.le_refl _, ?_⟩
      rw [same, bytes_insertedBefore_tick inv.commit_past, inv.memory_eq])
    (fun since _ => .inl (same since).le)
  refine ⟨reserved, ?_, cap, commits, loads, snapshots⟩
  exact inv.memory_eq.trans (bytes_move_same (by rw [before, after])).symm

/-- The cap after a step that inserts nothing and makes nothing pending. -/
private theorem cap_move (inv : Capped cfg s) (before : (s.guards i).inserted = false)
    (after : p.inserted = false) (plain : p ≠ .admitted) :
    bytes cfg Phase.inserted (s.move i p c r) + pendingBytes cfg (s.move i p c r) ≤
      cfg.maxMemoryBytes := by
  have kept := inv.cap
  have inserted : bytes cfg Phase.inserted (s.move i p c r) = _ :=
    bytes_move_same (by rw [before, after])
  have pending := bytes_move cfg (fun q => q = .admitted) s i p c r
  simp only [weight, plain, decide_false, Bool.false_eq_true, if_false] at pending
  unfold pendingBytes at kept ⊢
  omega

theorem Capped.effect (inv : Capped cfg s) (e : Effect cfg s i t) {a : Action}
    (apart : separated s (i, a) = true) : Capped cfg t := by
  have reserved := inv.reserved.effect e
  cases e with
  | decide p before after checked =>
    refine inv.plain reserved before.2 after.2 ?_
      (cap_move inv before.2 after.2 after.ne_admitted)
    rintro a c2 since rfl
    exact Bool.noConfusion after.1
  | reserve _ before | invalidate _ _ _ before =>
    have outside : (s.guards i).inserted = false := by rw [before]; rfl
    exact inv.plain reserved outside rfl (by simp) (cap_move inv outside rfl (by simp))
  | observe attempt before =>
    have outside : (s.guards i).inserted = false := by rw [before]; rfl
    refine inv.plain reserved outside rfl ?_ (cap_move inv outside rfl (by simp))
    rintro a c2 since h
    cases h
    exact ⟨rfl, rfl⟩
  | admitted attempt c2 since before checked =>
    have outside : (s.guards i).inserted = false := by rw [before]; rfl
    refine inv.plain reserved outside rfl (by simp) ?_
    -- The two loads bound everything that is reserved now or was released since.
    calc _ ≤ bytes cfg Phase.reserves (s.goto i .admitted) +
          bytes cfg (Phase.insertedBefore since) (s.goto i .admitted) :=
        inserted_add_pending_le
      _ = s.reservedBytes + bytes cfg (Phase.insertedBefore since) s := by
        rw [GuardState.goto, bytes_move_same (by rw [before]; rfl),
          bytes_move_same (by rw [before]; rfl), inv.reserved.reserved_eq, heldBytes]
      _ ≤ s.reservedBytes + c2 := Nat.add_le_add_left (inv.snapshot i _ _ _ before) _
      _ ≤ cfg.maxMemoryBytes := by omega
  | unreserve p before after checked =>
    have outside : (s.guards i).inserted = false := by
      rcases before with h | ⟨_, h⟩ <;> rw [h] <;> rfl
    refine inv.plain reserved outside after.2 ?_ (cap_move inv outside after.2 after.ne_admitted)
    rintro a c2 since rfl
    exact Bool.noConfusion after.1
  | insert before =>
    have grown : bytes cfg Phase.inserted (s.move i (.commitRelease s.tick)
        (fetchAdd s.currentMemory (cfg.delta i)) s.reservedBytes) = _ :=
      bytes_move_enter (by rw [before]; rfl) rfl
    have shrunk : bytes cfg (fun p => p = .admitted) (s.move i (.commitRelease s.tick)
        (fetchAdd s.currentMemory (cfg.delta i)) s.reservedBytes) + cfg.delta i = _ :=
      bytes_move_leave (by simp [before]) rfl
    have cap := inv.cap
    have memory := inv.memory_eq
    have limit := cfg.max_lt
    unfold pendingBytes at cap
    obtain ⟨commits, loads, snapshots⟩ := times_move (i := i) inv
      (fun since h => (Phase.commitRelease.inj h).ge) (by simp)
      (fun since past => .inl (bytes_move_same (by
        simp [before, Phase.insertedBefore, Nat.not_lt_of_lt past])).le)
    refine ⟨reserved, ?_, ?_, commits, loads, snapshots⟩
    · exact (fetchAdd_of_lt (by omega)).trans (by omega)
    · unfold pendingBytes
      omega
  | settle since before =>
    have inserted : bytes cfg Phase.inserted (s.move i .committed s.currentMemory
        (fetchSub s.reservedBytes (cfg.delta i))) = _ := bytes_move_same (by rw [before]; rfl)
    have pending : bytes cfg (fun p => p = .admitted) (s.move i .committed s.currentMemory
        (fetchSub s.reservedBytes (cfg.delta i))) = _ := bytes_move_same (by simp [before])
    obtain ⟨commits, loads, snapshots⟩ := times_move (i := i) (p := .committed)
      (c := s.currentMemory) (r := fetchSub s.reservedBytes (cfg.delta i)) inv
      (by simp) (by simp) (fun bound _ => by
        by_cases earlier : since < bound
        · exact .inl (bytes_move_same (by simp [before, Phase.insertedBefore, earlier])).le
        · refine .inr fun j a c2 phase => earlier ?_
          simp only [separated, before, List.all_eq_true] at apart
          simpa [phase] using apart j (List.mem_finRange j))
    refine ⟨reserved, inv.memory_eq.trans inserted.symm, ?_, commits, loads, snapshots⟩
    have cap := inv.cap
    unfold pendingBytes at cap ⊢
    omega

end Accounting

/-! ## Runs -/

variable {n : Nat}

/-- In every run `reserved_bytes_` is exactly what the guards hold. -/
theorem reserved_exact_of_reaches (cfg : GuardConfig n) {s : GuardState n}
    (reached : Transition.Reaches (guardStep cfg) (fun _ _ => True) (GuardState.initial n) s) :
    ReservedExact cfg s :=
  reached.invariant .initial fun _ _ _ inv _ taken => inv.effect (guardStep_effect taken)

/-- The hard cap. In every run whose commits are separated from validations,
`current_memory_` and the admitted reservations that are still to be moved into
it stay within `max_memory_bytes`, and the reservation counter is exact. -/
theorem guards_within_cap (cfg : GuardConfig n) {s : GuardState n}
    (reached : Transition.Reaches (guardStep cfg) (fun s label => separated s label)
      (GuardState.initial n) s) :
    s.currentMemory + pendingBytes cfg s ≤ cfg.maxMemoryBytes ∧
      s.reservedBytes = heldBytes cfg s := by
  have inv : Capped cfg s := reached.invariant .initial fun _ _ _ inv apart taken =>
    inv.effect (guardStep_effect taken) apart
  exact ⟨inv.memory_eq ▸ inv.cap, inv.reserved.reserved_eq⟩

/-- Three guards of 4, 2 and 6 bytes against a budget of 10. -/
def raceConfig : GuardConfig 3 where
  maxMemoryBytes := 10
  delta := ![4, 2, 6]
  critical projected := 10 * 95 ≤ projected * 100
  max_pos := by decide
  max_lt := by decide
  delta_lt := by decide

def advances (i : Fin 3) (count : Nat) : List (Fin 3 × Action) := List.replicate count (i, .advance)

/-- The first guard is constructed and committed while the second is between
the two validating loads, but dropped its reservation only afterwards. -/
theorem overlapping_commit_within_cap :
    ∃ s, Transition.runWhere (guardStep raceConfig) separated (GuardState.initial 3)
        (advances 0 11 ++ advances 1 9 ++ advances 0 1 ++ advances 1 1) = some s ∧
      s.guards 0 = .committed ∧ s.guards 1 = .admitted ∧
      s.currentMemory + pendingBytes raceConfig s ≤ raceConfig.maxMemoryBytes := by
  obtain ⟨s, executed, phases⟩ : ∃ s, Transition.runWhere (guardStep raceConfig) separated
      (GuardState.initial 3) (advances 0 11 ++ advances 1 9 ++ advances 0 1 ++ advances 1 1) =
        some s ∧ s.guards 0 = .committed ∧ s.guards 1 = .admitted := by decide
  exact ⟨s, executed, phases.1, phases.2, (guards_within_cap raceConfig (.of_runWhere executed)).1⟩

theorem admitted_bytes_reserved :
    ∃ s, s.guards 0 = .admitted ∧ s.reservedBytes = heldBytes raceConfig s := by
  obtain ⟨s, executed, admitted⟩ : ∃ s, Transition.run (guardStep raceConfig)
      (GuardState.initial 3) (advances 0 10 ++ advances 2 8) = some s ∧
        s.guards 0 = .admitted := by decide
  exact ⟨s, admitted, (reserved_exact_of_reaches raceConfig
    ((Transition.Reaches.of_runWhere executed).weaken fun _ _ _ => trivial)).reserved_eq⟩

/-- The third guard passes `should_admit` on the empty monitor and loads
`committed == 0`; the first commits before `reserved` is loaded, the second
between the two validating loads. All three guards are admitted, and 12 bytes
are accounted against a budget of 10. -/
theorem race_exceeds_cap :
    ∃ s, Transition.run (guardStep raceConfig) (GuardState.initial 3)
        (advances 2 5 ++ advances 0 10 ++ advances 1 10 ++ advances 2 1 ++ advances 0 2 ++
          advances 2 3 ++ advances 1 2 ++ advances 2 1) = some s ∧
      s.guards 2 = .admitted ∧
      raceConfig.maxMemoryBytes < s.currentMemory + pendingBytes raceConfig s := by
  decide

end Lru.Memory
