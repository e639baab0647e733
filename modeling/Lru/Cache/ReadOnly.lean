import Lru.Cache.Capacity

/-!
# Leaving the read-only mode

In critical mode a cache is read-only for writers and open for removals, so that
they can bring its memory down. The mode is cleared by `check_memory_pressure`
alone. Among the calls that a cache in critical mode lets through, only
`set_max_memory` runs that check; every other call leaves the mode as it is,
however much memory it frees.
-/

namespace Lru.Cache

open Mm State

variable {K V : Type} {c : Cache K V} {strategy : Strategy} {d : Cache K V} {env : Env K V}

/-- The call reaches `check_memory_pressure` when the cache is in critical mode. -/
def Call.rechecksPressure : Call K V → Bool
  | .setMaxMemory _ => true
  | _ => false

/-! ## Calls in critical mode -/

section Guards

variable {α : Type} {fnName : String} {rejected proceed result : α × Cache K V}
  (critical : c.memoryCriticalMode = true)

include critical

theorem not_proceeds_of_critical : c.preWriteCheck fnName ≠ .ok .kProceed := by
  rw [Layer.preWriteCheck]
  split_ifs <;> simp

theorem preWriteCheck_of_critical (isOpen : c.closed = false) (running : c.quiesced = false) :
    c.preWriteCheck fnName = .ok .kRejectInsert := by
  simp [Layer.preWriteCheck, isOpen, running, critical]

/-- A guarded write does not get past its check. -/
theorem guarded_critical (afterReject : rejected.2.memoryCriticalMode = true) :
    (c.guarded fnName rejected proceed).2.memoryCriticalMode = true :=
  guarded_keeps (P := (·.memoryCriticalMode = true)) critical afterReject fun proceeds =>
    absurd proceeds (not_proceeds_of_critical critical)

theorem guardedRemoval_critical (after : result.2.memoryCriticalMode = true) :
    (c.guardedRemoval fnName result).2.memoryCriticalMode = true :=
  guarded_critical critical after

theorem reported_critical {mm : State K V} {limiterOver : Bool} :
    ({ c with mm := mm }.reportMemory limiterOver).memoryCriticalMode = true :=
  SameModes.reportMemory.critical_eq.trans critical

end Guards

section Calls

variable [DecidableEq K] (critical : c.memoryCriticalMode = true) (key : K) (a : Ambient K)

include critical

theorem drainRing_critical : (c.drainRing env strategy a).memoryCriticalMode = true := by
  rw [drainRing]
  split <;> exact critical

theorem get_critical : (c.get env strategy key a).2.memoryCriticalMode = true := by
  rw [get]
  split
  · exact critical
  split
  · split <;> exact critical
  · exact critical

theorem peek_critical : (c.peek env key).2.memoryCriticalMode = true := by
  rw [peek]
  split <;> exact critical

theorem getView_critical : (c.getView env key).2.memoryCriticalMode = true := by
  have read : (c.peek env key).2.memoryCriticalMode = true := peek_critical critical key
  rw [getView]
  split
  case h_1 d missed =>
    rw [missed] at read
    exact read
  case h_2 i d pinned =>
    rw [pinned] at read
    exact read

theorem getShared_critical : (c.getShared env key a).2.memoryCriticalMode = true := by
  rw [getShared]
  split
  · exact critical
  split <;> exact critical

theorem delEx_critical : (c.delEx env strategy key a).2.memoryCriticalMode = true := by
  apply guardedRemoval_critical critical
  rw [delExBody]
  split
  · exact critical
  split
  · exact reported_critical critical
  · exact critical

theorem pop_critical : (c.pop env strategy key a).2.memoryCriticalMode = true := by
  apply guardedRemoval_critical critical
  split
  · exact critical
  · exact reported_critical critical

theorem popLru_critical : (c.popLru env strategy a).2.memoryCriticalMode = true := by
  have drained : (c.drainRing env strategy a).memoryCriticalMode = true :=
    drainRing_critical critical a
  apply guardedRemoval_critical critical
  split
  · exact drained
  · exact reported_critical drained

theorem evict_critical : (c.evict env strategy a).2.memoryCriticalMode = true := by
  have drained : (c.drainRing env strategy a).memoryCriticalMode = true :=
    drainRing_critical critical a
  apply guardedRemoval_critical critical
  split
  · exact reported_critical drained
  · exact drained

theorem step_critical [DecidableEq V] {call : Call K V}
    (unchecked : call.rechecksPressure = false) (taken : c.step env strategy call = some d) :
    d.memoryCriticalMode = true := by
  cases call with try cases taken
  | set | setWithTtl | setWithAbsoluteExpiry | add | replace | setPrehashed | cas =>
    exact guarded_critical critical critical
  | setMulti pairs =>
    exact setMulti_keeps (P := (·.memoryCriticalMode = true)) pairs
      (fun _ _ _ critical => guarded_critical critical critical) critical
  | get key a => exact get_critical critical key a
  | peek key => exact peek_critical critical key
  | getView key => exact getView_critical critical key
  | getShared key a => exact getShared_critical critical key a
  | contains key a =>
    rw [contains]
    split <;> exact critical
  | del | forceDel | flush =>
    exact guardedRemoval_critical critical (reported_critical critical)
  | delEx key a => exact delEx_critical critical key a
  | pop key a => exact pop_critical critical key a
  | popLru a =>
    obtain ⟨-, rfl⟩ := Transition.of_guarded taken
    exact popLru_critical critical a
  | evict a => exact evict_critical critical a
  | maxSize | maxMemory => exact reported_critical critical
  | setMaxMemory bytes => cases unchecked
  | evictExpired | setMemoryWatermarks | setQuiesced | shutdown | monitor => exact critical
  | mm op =>
    obtain ⟨mm, -, rfl⟩ := Option.map_eq_some_iff.mp taken
    exact critical

end Calls

/-! ## The next `set` -/

section Relief

variable [DecidableEq K] [DecidableEq V]

/-- The memory is strictly below the soft watermark of a finite budget, with the
watermarks in order. -/
structure Relieved (env : Env K V) (d : Cache K V) : Prop where
  budget_pos : d.watermarkBudget d.mm.settings.maxMemory ≠ 0
  budget_finite : d.watermarkBudget d.mm.settings.maxMemory ≠ unlimited
  ordered : d.memorySoftWatermark ≤ d.memoryCriticalWatermark
  below : env.rounding.div (env.rounding.ofNat d.mm.stats.currentMemory)
    (env.rounding.ofNat (d.watermarkBudget d.mm.settings.maxMemory)) < d.memorySoftWatermark

/-- With the memory below the soft watermark, no `set` is turned away for the
critical mode. -/
def ReadOnlyLeft (env : Env K V) (d : Cache K V) : Prop :=
  d.Relieved env → d.preWriteCheck "set" ≠ .ok .kRejectInsert

/-- A cache in critical mode that takes any calls except `set_max_memory` turns
away the next `set` even when its memory is below the soft watermark. Only a cache
that is shut down or quiesced by then does not: its `set` throws. -/
theorem readOnlyLeft_iff (critical : c.memoryCriticalMode = true)
    (run : Transition.Reaches (fun c : Cache K V => c.step env strategy)
      (fun _ call => call.rechecksPressure = false) c d) :
    d.ReadOnlyLeft env ↔ (d.Relieved env → d.closed = true ∨ d.quiesced = true) := by
  have still : d.memoryCriticalMode = true :=
    run.invariant critical
      fun _ call _ critical => step_critical critical
  rw [ReadOnlyLeft, Layer.preWriteCheck, still]
  cases d.closed <;> cases d.quiesced <;> simp

end Relief

section Samples

open Mm.Strategy (intEnv)

def tightCache : Cache Nat Nat :=
  { mm := State.empty (fun _ => default) { maxMemory := 64, callbacks := { reject := true } } {} 0 }

/-- One item fills it, which starts the critical mode. -/
def criticalCache : Cache Nat Nat := (tightCache.set intEnv .mmLru 1 10 {}).2

def relievedCache : Cache Nat Nat := (criticalCache.del intEnv .mmLru 1 {}).2

theorem criticalCache_reachable : criticalCache.Reachable intEnv .mmLru := by
  have start : tightCache.Reachable intEnv .mmLru :=
    ⟨tightCache, ⟨fun _ => default, { maxMemory := 64, callbacks := { reject := true } }, {}, 0,
      rfl⟩, .refl⟩
  exact start.step (.set 1 10 {}) trivial rfl

theorem criticalCache_critical : criticalCache.memoryCriticalMode = true := by decide +kernel

theorem relievedCache_relieved : relievedCache.Relieved intEnv := by
  constructor <;> decide +kernel

/-- Everything was deleted, and the cache refuses to store key `2` all the same. -/
theorem empty_cache_stays_readOnly :
    criticalCache.Reachable intEnv .mmLru ∧ criticalCache.memoryCriticalMode = true ∧
      criticalCache.step intEnv .mmLru (.del 1 {}) = some relievedCache ∧
      relievedCache.mm.stats.currentMemory = 0 ∧ relievedCache.Relieved intEnv ∧
      relievedCache.set intEnv .mmLru 2 20 {} = (.ok (), relievedCache.reportWriteRejected 2 20) ∧
      (relievedCache.set intEnv .mmLru 2 20 {}).2.mm.find intEnv 2 = none ∧
      ¬ relievedCache.ReadOnlyLeft intEnv := by
  have relieved := relievedCache_relieved
  have still : relievedCache.memoryCriticalMode = true :=
    step_critical criticalCache_critical rfl
      (show criticalCache.step intEnv .mmLru (.del 1 {}) = some relievedCache from rfl)
  have rejects : relievedCache.preWriteCheck "set" = .ok .kRejectInsert :=
    preWriteCheck_of_critical still (by decide +kernel) (by decide +kernel)
  refine ⟨criticalCache_reachable, criticalCache_critical, rfl, by decide +kernel, relieved, ?_,
    by decide +kernel, ?_⟩
  · rw [set, guarded, rejects]
  · intro left
    exact left relieved rejects

/-- Shut down after that, its `set` throws instead. -/
theorem closed_cache_not_rejected :
    Relieved intEnv { relievedCache with closed := true } ∧
      ReadOnlyLeft intEnv { relievedCache with closed := true } := by
  have run : Transition.Reaches (fun c : Cache Nat Nat => c.step intEnv .mmLru)
      (fun _ call => call.rechecksPressure = false) criticalCache
      { relievedCache with closed := true } :=
    .tail (.single ⟨.del 1 {}, rfl, rfl⟩) ⟨.shutdown {}, rfl, rfl⟩
  have relieved := relievedCache_relieved
  refine ⟨⟨relieved.1, relieved.2, relieved.3, relieved.4⟩, ?_⟩
  exact (readOnlyLeft_iff criticalCache_critical run).mpr fun _ => .inl rfl

end Samples

end Lru.Cache
