import Lru.Tiered.Model

/-!
# Ownership of a key's write-back

A queued entry is live as long as the record of its key carries its generation. Between
the claim of a mutation and the next mutation of the key, a live entry and a put that is
under way can only carry the value of that mutation; then the backend holds it once the
mutation has returned. Two things can break this: a callback with another value, and a
full queue whose oldest entry takes the record of a put under way with it.
-/

namespace Lru.Tiered

open Function

variable {K V : Type} [DecidableEq K] {e : WritebackEntry K V} {record : Option WritebackKeyState}
  {x : Option V}

/-- Past the claim of a mutation, the value is the one that it has set. -/
def Stage.Meets : Stage V → V → Prop
  | .claimed x, value | .settled x, value => x = some value
  | .untouched, _ | .begun, _ => True

instance [DecidableEq V] (g : Stage V) (value : V) : Decidable (g.Meets value) :=
  match g with
  | .claimed x | .settled x => inferInstanceAs (Decidable (x = some value))
  | .untouched | .begun => .isTrue trivial

namespace Worker

/-- The entries that the worker has still to look at. -/
def batch : Worker K V → List (WritebackEntry K V)
  | draining batch | putting _ batch | landed _ batch => batch

end Worker

namespace Store

/-- The entries that are queued or in the worker's batch. -/
def entries (s : Store K V) : List (WritebackEntry K V) := s.writebackQueue ++ s.worker.batch

/-- The record of the entry's key carries its generation. -/
def Live (s : Store K V) (e : WritebackEntry K V) : Prop :=
  ∃ r, s.writebackKeys e.key = some r ∧ r.gen = e.gen

omit [DecidableEq K] in
theorem live_iff {s : Store K V} :
    s.Live e ↔ (s.writebackKeys e.key).any (·.gen = e.gen) = true := by
  simp [Live, Option.any_eq_true]

instance (s : Store K V) (e : WritebackEntry K V) : Decidable (s.Live e) :=
  decidable_of_iff _ live_iff.symm

/-- Stale entries are not live, stale puts are not under way, and the backend holds what
the last mutation says. -/
structure Owned (stage : K → Stage V) (s : Store K V) : Prop where
  gens : ∀ e ∈ s.entries, e.gen ≤ s.writebackGen
  live : ∀ e ∈ s.entries, s.Live e → (stage e.key).Meets e.value
  putting : ∀ item batch, s.worker = .putting item batch →
    s.inFlight item.key = true ∧ (stage item.key).Meets item.value
  settled : ∀ key x, stage key = .settled x → s.backend key = x

/-- The full queue takes no record of a put under way with it. -/
def DropsSafely (cfg : Config) (s : Store K V) : Prop :=
  cfg.asyncWritebackQueueCapacity ≤ s.writebackQueue.length →
    ∀ oldest ∈ s.writebackQueue.head?, s.Live oldest → s.inFlight oldest.key = false

instance (cfg : Config) (s : Store K V) : Decidable (s.DropsSafely cfg) :=
  inferInstanceAs (Decidable (_ → ∀ oldest ∈ s.writebackQueue.head?, _ → _))

variable {stage : K → Stage V} {s : Store K V} {key : K} {value : V}

theorem inFlight_setKey {key other : K} :
    (s.setKey key record).inFlight other =
      if other = key then record.any (·.inFlight) else s.inFlight other := by
  by_cases same : other = key
  · subst same
    simp [inFlight, setKey]
  · simp [inFlight, setKey, same]

/-- Changing the record of one key makes no entry of another key live. -/
theorem live_setKey
    (live : (s.setKey key record).Live e) :
    e.key = key ∧ (∃ r, record = some r ∧ r.gen = e.gen) ∨ e.key ≠ key ∧ s.Live e := by
  obtain ⟨r, found, gen⟩ := live
  by_cases same : e.key = key
  · refine .inl ⟨same, r, ?_, gen⟩
    rw [same] at found
    simpa [setKey] using found
  · refine .inr ⟨same, r, ?_, gen⟩
    simpa [setKey, same] using found

namespace Owned

variable (owned : s.Owned stage) {batch : List (WritebackEntry K V)} {item : WritebackEntry K V}
include owned

theorem dropOldest
    (safe : ∀ oldest ∈ s.writebackQueue.head?, s.Live oldest → s.inFlight oldest.key = false) :
    s.dropOldest.Owned stage := by
  rw [Store.dropOldest]
  split
  · exact owned
  case h_2 oldest rest queue =>
    have inside : ∀ e ∈ rest ++ s.worker.batch, e ∈ s.entries := by
      intro e he
      rw [entries, queue]
      exact List.mem_cons_of_mem oldest he
    have shorter : Owned stage { s with writebackQueue := rest } :=
      ⟨fun e he => owned.gens e (inside e he), fun e he => owned.live e (inside e he),
        owned.putting, owned.settled⟩
    dsimp only
    split
    case isFalse => exact shorter
    case isTrue own =>
      have safe : s.inFlight oldest.key = false := by
        exact safe oldest (by rw [queue]; rfl) (live_iff.mpr own)
      refine ⟨shorter.gens, ?_, ?_, shorter.settled⟩
      · intro e he live
        obtain ⟨-, r, none, -⟩ | ⟨-, live⟩ := live_setKey live
        · cases none
        · exact shorter.live e he live
      · intro item batch working
        obtain ⟨flying, meets⟩ := shorter.putting item batch working
        refine ⟨?_, meets⟩
        rw [inFlight_setKey]
        split
        case isFalse => exact flying
        case isTrue same =>
          rw [same] at flying
          cases safe.symm.trans flying

theorem stampAndAppend (meets : (stage key).Meets value) :
    (s.stampAndAppend key value).Owned stage := by
  have entry : ∀ e ∈ (s.stampAndAppend key value).entries,
      e ∈ s.entries ∨ e = ⟨key, value, s.writebackGen + 1⟩ := by
    intro e he
    simp only [entries, Store.stampAndAppend, setKey, List.mem_append, List.mem_singleton] at he ⊢
    tauto
  refine ⟨?_, ?_, ?_, owned.settled⟩
  · intro e he
    rcases entry e he with old | rfl
    · exact Nat.le_succ_of_le (owned.gens e old)
    · exact Nat.le_refl _
  · intro e he live
    rcases entry e he with old | rfl
    · -- The new generation is larger than those of all entries before.
      obtain ⟨-, r, same, gen⟩ | ⟨-, live⟩ := live_setKey live
      · cases same
        have bound := owned.gens e old
        simp only at gen
        omega
      · exact owned.live e old live
    · exact meets
  · intro item batch working
    obtain ⟨flying, meets⟩ := owned.putting item batch working
    refine ⟨?_, meets⟩
    show (s.setKey key _).inFlight item.key = true
    rw [inFlight_setKey]
    split
    case isFalse => exact flying
    case isTrue same => simpa [← same] using flying

/-- A callback keeps ownership if its value is the owner's and the queue drops safely. -/
theorem onEvict {cfg : Config} (async : 0 < cfg.asyncWritebackQueueCapacity)
    (safe : s.DropsSafely cfg) (meets : (stage key).Meets value) :
    (s.onEvict cfg key value).Owned stage := by
  rw [Store.onEvict, if_neg (Nat.ne_of_gt async)]
  refine stampAndAppend ?_ meets
  split
  case isTrue full => exact owned.dropOldest (safe full)
  case isFalse => exact owned

/-- A claim waits for a put under way and leaves no live entry of its key. -/
theorem claim {t : Store K V} (claimed : s.claim key = some t) :
    t.Owned (update stage key (.claimed x)) := by
  rw [Store.claim] at claimed
  split at claimed
  case isTrue => cases claimed
  case isFalse calm =>
    cases claimed
    have beside {other : K} (ne : other ≠ key) :
        update stage key (.claimed x) other = stage other := update_of_ne ne ..
    refine ⟨owned.gens, ?_, ?_, ?_⟩
    · intro e he live
      obtain ⟨-, r, none, -⟩ | ⟨ne, live⟩ := live_setKey live
      · cases none
      · rw [beside ne]
        exact owned.live e he live
    · intro item batch working
      obtain ⟨flying, meets⟩ := owned.putting item batch working
      have ne : item.key ≠ key := by
        rintro same
        rw [same] at flying
        exact calm flying
      rw [beside ne, inFlight_setKey, if_neg ne]
      exact ⟨flying, meets⟩
    · intro other y settled
      by_cases same : other = key
      · rw [same, update_self] at settled
        cases settled
      · rw [beside same] at settled
        exact owned.settled other y settled

/-- A key enters a stage that asks for no more than its last one did. -/
theorem relabel {now : Stage V} {backend : K → Option V}
    (weaker : ∀ v, (stage key).Meets v → now.Meets v)
    (beside : ∀ other, other ≠ key → backend other = s.backend other)
    (settles : ∀ y, now = .settled y → backend key = y) :
    Owned (update stage key now) { s with backend := backend } := by
  have meets (other : K) (v : V) (before : (stage other).Meets v) :
      (update stage key now other).Meets v := by
    by_cases here : other = key
    · subst here
      rw [update_self]
      exact weaker v before
    · rwa [update_of_ne here]
  refine ⟨owned.gens, fun e he live => meets _ _ (owned.live e he live), ?_, ?_⟩
  · intro item batch working
    obtain ⟨flying, before⟩ := owned.putting item batch working
    exact ⟨flying, meets _ _ before⟩
  · intro other y settled
    by_cases here : other = key
    · subst here
      exact settles y (update_self other now stage ▸ settled)
    · rw [update_of_ne here] at settled
      exact (beside other here).trans (owned.settled other y settled)

/-- A mutation that begins takes every promise about its key back. -/
theorem begin : s.Owned (update stage key .begun) :=
  owned.relabel (fun _ _ => trivial) (fun _ _ => rfl) (by rintro _ ⟨⟩)

/-- The backend's part of a mutation settles its key. -/
theorem settle (claimed : stage key = .claimed x) :
    (s.put key x).Owned (update stage key (.settled x)) := by
  refine owned.relabel (fun v meets => ?_) (fun _ => (update_of_ne · ..)) ?_
  · rw [claimed] at meets
    exact meets
  · rintro _ ⟨⟩
    exact update_self ..

/-! ### The worker -/

theorem check (working : s.worker = .draining (item :: batch)) :
    (s.check item batch).Owned stage := by
  have inside : ∀ e ∈ s.writebackQueue ++ batch, e ∈ s.entries := by
    intro e he
    rw [entries, working]
    simp only [Worker.batch, List.mem_append, List.mem_cons] at he ⊢
    tauto
  rw [Store.check]
  split
  case isFalse =>
    exact ⟨fun e he => owned.gens e (inside e he), fun e he => owned.live e (inside e he), nofun,
      owned.settled⟩
  case isTrue own =>
    have live : s.Live item := live_iff.mpr own
    obtain ⟨r, found, gen⟩ := live
    have here : item ∈ s.entries := by
      rw [entries, working]
      simp [Worker.batch]
    refine ⟨fun e he => owned.gens e (inside e he), ?_, ?_, owned.settled⟩
    · intro e he live'
      have live' : (s.setKey item.key (some ⟨item.gen, true⟩)).Live e := live'
      obtain ⟨same, r', record, gen'⟩ | ⟨-, live'⟩ := live_setKey live'
      · cases record
        refine owned.live e (inside e he) ⟨r, ?_, gen.trans gen'⟩
        rw [same]
        exact found
      · exact owned.live e (inside e he) live'
    · rintro item' batch' working'
      cases working'
      refine ⟨?_, owned.live item here ⟨r, found, gen⟩⟩
      show (s.setKey item.key _).inFlight item.key = true
      rw [inFlight_setKey, if_pos rfl]
      rfl

theorem publish (working : s.worker = .landed item batch) : (s.publish item batch).Owned stage := by
  have drained : Owned stage { s with worker := .draining batch } := by
    have same : s.entries = s.writebackQueue ++ batch := by rw [entries, working]; rfl
    exact ⟨fun e he => owned.gens e (same ▸ he), fun e he => owned.live e (same ▸ he), nofun,
      owned.settled⟩
  rw [Store.publish]
  split
  case h_2 => exact drained
  case h_1 r found =>
    refine ⟨drained.gens, ?_, nofun, drained.settled⟩
    intro e he live
    obtain ⟨same, r', record, gen⟩ | ⟨-, live⟩ := live_setKey live
    · refine drained.live e he ⟨r, by rw [same]; exact found, ?_⟩
      split at record
      · cases record
      · cases record
        exact gen
    · exact drained.live e he live

theorem workerStep {throws : Bool} : (s.workerStep throws).Owned stage := by
  rw [Store.workerStep]
  split
  case h_1 working =>
    have same : s.entries = [] ++ s.writebackQueue := by
      rw [entries, working]
      simp [Worker.batch]
    exact ⟨fun e he => owned.gens e (same ▸ he), fun e he => owned.live e (same ▸ he), nofun,
      owned.settled⟩
  case h_2 item batch working => exact owned.check working
  case h_3 item batch working =>
    have same : s.entries = s.writebackQueue ++ batch := by rw [entries, working]; rfl
    obtain ⟨-, meets⟩ := owned.putting item batch working
    split
    case isTrue =>
      exact ⟨fun e he => owned.gens e (same ▸ he), fun e he => owned.live e (same ▸ he), nofun,
        owned.settled⟩
    case isFalse =>
      refine ⟨fun e he => owned.gens e (same ▸ he), fun e he => owned.live e (same ▸ he), nofun, ?_⟩
      intro key x settled
      show update s.backend item.key (some item.value) key = x
      by_cases here : key = item.key
      · rw [here, update_self]
        rw [← here, settled] at meets
        exact meets.symm
      · rw [update_of_ne here]
        exact owned.settled key x settled
  case h_4 item batch working => exact owned.publish working

end Owned

end Store

end Lru.Tiered
