import Lru.Compact.Model
import Lru.Mm.Additions

/-!
# Does `add` tell the truth?

`compact_cache` evicts whatever it takes, so there only a size limit of zero makes `add`
report an item that was dropped.
-/

namespace Lru.CompactCache

open Mm (unlimited)

variable {K V : Type} [DecidableEq K] {c : CompactCache K V} {key : K} {sec : Nat}

/-- `add` returns `true` iff the key was absent and now has the value, and `false` only
if nothing changed. -/
structure AddExact (c : CompactCache K V) (key : K) (value : V) (sec : Nat) : Prop where
  added : (c.add key value sec).1 = .ok true ↔
    c.lookup key = none ∧ (c.add key value sec).2.lookup key = some value
  unchanged : (c.add key value sec).1 = .ok false →
    ∀ other, (c.add key value sec).2.lookup other = c.lookup other

theorem lookup_link {value : V} : (c.link key value sec).lookup key = some value := by
  simp only [link, collect]
  split <;> simp [lookup, find]

/-- A new key is stored unless the size limit is zero. -/
theorem lookup_setBody_iff {value : V} (absent : c.lookup key = none) :
    (c.setBody key value sec).lookup key = some value ↔ c.maxSize ≠ 0 := by
  have missing : c.find key = none := by simpa [lookup] using absent
  simp only [setBody, missing]
  split
  case isTrue zero => simp [absent, zero]
  case isFalse positive => exact iff_of_true lookup_link positive

theorem addExact_iff (c : CompactCache K V) (key : K) (value : V) (sec : Nat) :
    c.AddExact key value sec ↔ c.isShutdown = true ∨ c.lookup key ≠ none ∨ c.maxSize ≠ 0 := by
  cases closed : c.isShutdown with
  | true =>
    have throws : c.add key value sec = (.error "compact_cache::add: cache is shutdown", c) := by
      simp [add, closed]
    refine iff_of_true ⟨?_, ?_⟩ (.inl rfl)
    · rw [throws]
      simp only [reduceCtorEq, false_iff]
      rintro ⟨absent, stored⟩
      simp [absent] at stored
    · simp [throws]
  | false =>
    cases held : c.lookup key with
    | some old =>
      have refused : c.add key value sec = (.ok false, c) := by
        have found : (c.find key).isSome = true := by
          obtain ⟨slot, found, -⟩ := Option.map_eq_some_iff.mp held
          simp [found]
        simp [add, closed, found]
      refine iff_of_true ⟨?_, ?_⟩ (.inr (.inl (by simp)))
      · simp [refused, held]
      · simp [refused]
    | none =>
      have added : c.add key value sec = (.ok true, c.setBody key value sec) := by
        have missing : c.find key = none := by simpa [lookup] using held
        simp [add, closed, missing]
      simp
      rw [← ne_eq, ← lookup_setBody_iff held]
      constructor
      · intro exact
        have stored := (exact.added.mp (by rw [added])).2
        rwa [added] at stored
      · intro stored
        refine ⟨?_, ?_⟩
        · rw [added]
          exact iff_of_true rfl ⟨held, stored⟩
        · simp [added]

end Lru.CompactCache

namespace Lru

open Mm Strategy

/-- `add` tells the truth iff the key is resident or the insertion finds room. -/
theorem add_exact_iff {K V : Type} [DecidableEq K] {env : Env K V} :
    (∀ (strategy : Strategy) (s : State K V) (key : K) (value : V) (sec : Nat),
      strategy.Reachable env s →
      (AddExact env (strategy.policy env) s key value sec ↔
        s.record env key ≠ none ∨ strategy.CanInsert env s key value)) ∧
    ∀ (c : CompactCache K V) (key : K) (value : V) (sec : Nat),
      c.AddExact key value sec ↔ c.isShutdown = true ∨ c.lookup key ≠ none ∨ c.maxSize ≠ 0 :=
  ⟨fun _ _ _ _ sec reachable => addExact_iff sec reachable.wf, CompactCache.addExact_iff⟩

section Samples

open Mm.Strategy (intEnv)

/-- `mm_lru` with `max_size` 1 after `set(1, 10)`. -/
def fullState : State Nat Nat :=
  (Strategy.mmLru.policy intEnv).set intEnv
    (State.empty (fun _ => default) { maxSize := 1 } {} 0) 1 10 0

def heldState : State Nat Nat := ((Strategy.mmLru.policy intEnv).get intEnv fullState 1 0).2

theorem fullState_reachable : mmLru.Reachable intEnv fullState :=
  ⟨fun _ => default, { maxSize := 1 }, {}, 0, .single ⟨.set 1 10 0, nofun, rfl⟩⟩

theorem heldState_reachable : mmLru.Reachable intEnv heldState := by
  obtain ⟨memory, settings, sketch, sec, reached⟩ := fullState_reachable
  exact ⟨memory, settings, sketch, sec, reached.tail ⟨.get 1 0, nofun, rfl⟩⟩

theorem add_exact_after_eviction : AddExact intEnv (mmLru.policy intEnv) fullState 2 20 0 := by
  refine (add_exact_iff.1 .mmLru fullState 2 20 0 fullState_reachable).mpr (.inr ⟨rfl, fun _ => ?_⟩)
  exact ⟨1, 1, ⟨by decide +kernel, fun _ => ⟨rfl, Nat.one_pos⟩, .inl rfl⟩, Nat.le_refl 1,
    by decide +kernel, .inl rfl⟩

/-- With everything pinned `add` returns `true` and stores nothing. -/
theorem add_reports_dropped_key :
    mmLru.Reachable intEnv heldState ∧
      ((mmLru.policy intEnv).add intEnv heldState 2 20 0).1 = true ∧
      ((mmLru.policy intEnv).add intEnv heldState 2 20 0).2.record intEnv 2 = none ∧
      ¬ AddExact intEnv (mmLru.policy intEnv) heldState 2 20 0 := by
  have missing : ((mmLru.policy intEnv).add intEnv heldState 2 20 0).2.record intEnv 2 = none := by
    decide +kernel
  refine ⟨heldState_reachable, rfl, missing, fun exact => ?_⟩
  have stored := (exact.added.mp rfl).2
  simp [missing] at stored

end Samples

end Lru
