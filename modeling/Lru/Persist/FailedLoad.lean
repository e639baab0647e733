import Lru.Persist.Accounting
import Lru.Persist.RoundTrip

/-!
# Loads that throw

`parse_serialized_data` throws before anything is changed. What comes after it can throw
too: `set_config` when the saved configuration does not pass `validate()`, and
`load_state` when the saved dimensions are malformed. By then the cache has been
flushed, and in `mm_lru` also filled with the items of the file.
-/

namespace Lru.Persist

open Mm State Binary SizeT Strategy

variable {K V : Type} [DecidableEq K] {env : Env K V} {strategy : Strategy} {s t : State K V}
  {keys : Codec K} {values : Codec V} {data : List UInt8} {sec : Nat} {parsed : ParsedData K V}
  {items : List (SerializedItem K V)}

/-- Residents, values, order, queue assignment, sketch, configuration and statistics are the
same. -/
structure SameCache (strategy : Strategy) (s t : State K V) : Prop where
  sequence : ∀ q, t.sequence q = s.sequence q
  sketch : strategy.hasSketch = true → t.sketch = s.sketch
  config : t.settings.config = s.settings.config
  stats : t.stats = s.stats

/-- A load that throws leaves the cache as it was. -/
def FailsCleanly (env : Env K V) (strategy : Strategy) (keys : Codec K) (values : Codec V)
    (s : State K V) (data : List UInt8) (sec : Nat) : Prop :=
  ∀ message t, deserialize env strategy s keys values data sec = .threw message t →
    SameCache strategy s t

/-- A flush that is followed by the linking of these items shows no difference: what has no
handle comes back in its place, and the statistics have the right size and what the hash
table will report once only the pinned items are left. -/
structure NothingLost (strategy : Strategy) (s : State K V) (items : List (SerializedItem K V)) :
    Prop where
  residents : ∀ q, s.pinnedSequence q ++ added strategy items q = s.sequence q
  counter : s.stats.currentSize = s.table.length
  hash : s.stats.hash = s.hashTable.report (s.table.filter fun i => (s.heap i).hasActiveHandle)
  sketch : strategy.hasSketch = true → s.sketch.reset = s.sketch

/-- The load of this data does not throw, or what it does before shows no difference. -/
structure SafeToLoad (env : Env K V) (strategy : Strategy) (s : State K V)
    (parsed : ParsedData K V) : Prop where
  config : strategy.validate env.rounding (newConfig strategy s.settings.config parsed.config) ≠
      none →
    NothingLost strategy s (if strategy = .mmLru then parsed.items else [])
  sketch : strategy.validate env.rounding (newConfig strategy s.settings.config parsed.config) =
      none →
    strategy.hasSketch = true → MalformedSketch parsed.cmsState →
      NothingLost strategy s [] ∧ newConfig strategy s.settings.config parsed.config =
        s.settings.config

/-- The state in which the configuration is checked. -/
def checkedState (env : Env K V) (strategy : Strategy) (s : State K V) (parsed : ParsedData K V) :
    State K V :=
  if strategy = .mmLru then
    restorePoint (rebuildItems env .mmLru ((Strategy.mmLru.policy env).flush env s) parsed.items)
      parsed.listState
  else (strategy.policy env).flush env s

theorem rebuildFromParsed_eq_threw {message : String} :
    rebuildFromParsed env strategy s parsed sec = .threw message t ↔
      (strategy.validate env.rounding (newConfig strategy
          ((strategy.policy env).flush env s).settings.config parsed.config) = some message ∧
        checkedState env strategy s parsed = t) ∨
      (strategy.validate env.rounding (newConfig strategy
          ((strategy.policy env).flush env s).settings.config parsed.config) = none ∧
        strategy.hasSketch = true ∧ MalformedSketch parsed.cmsState ∧
        "count_min_sketch: malformed dimensions in load_state" = message ∧
        (strategy.policy env).setConfig ((strategy.policy env).flush env s) (newConfig strategy
          ((strategy.policy env).flush env s).settings.config parsed.config) sec = t) := by
  cases strategy with
  | mmLru =>
    simp only [rebuildFromParsed, applyConfig_eq_threw, checkedState, if_true,
      hasSketch, Bool.false_eq_true, false_and, and_false, or_false]
  | mmFifo =>
    simp [rebuildFromParsed, validate, checks, hasSketch]
  | mm2q =>
    simp [rebuildFromParsed, Outcome.andThen_eq_threw, applyConfig_eq_threw, checkedState,
      hasSketch]
  | mmTinyLfu | mmWTinyLfu =>
    simp [rebuildFromParsed, Outcome.andThen_eq_threw, applyConfig_eq_threw, checkedState,
      applyConfig_eq_returned, loadSketch_eq_threw, walksPastEnd_of_ne_mmLru,
      hasSketch]

omit [DecidableEq K] in
theorem linkedCount_eq_of_sequence (same : ∀ q, t.sequence q = s.sequence q) :
    t.linkedCount = s.linkedCount := by
  have length : ∀ q, (t.queue q).length = (s.queue q).length := by
    intro q
    simpa [State.sequence] using congrArg List.length (same q)
  simp only [linkedCount, length]

/-- What a flush and the linking of the file leave is compared with what was there. -/
theorem Rebuilt.sameCache_iff (h : Rebuilt env strategy s items t) (wf : s.WellFormed env)
    (small : s.stats.currentMemory < range)
    (size : (strategy.policy env).size t = t.linkedCount)
    (reset : strategy.hasSketch = true → t.sketch = s.sketch.reset) :
    SameCache strategy s t ↔ NothingLost strategy s items := by
  have table : s.table.length = s.linkedCount := wf.table_length
  have counted : t.stats.currentSize = t.linkedCount :=
    (congrArg Stats.currentSize h.stats_eq).trans size
  constructor
  · intro same
    refine ⟨fun q => ?_, ?_, ?_, fun lfu => (reset lfu).symm.trans (same.sketch lfu)⟩
    · rw [← h.sequence, same.sequence]
    · rw [← same.stats, counted, linkedCount_eq_of_sequence same.sequence, table]
    · rw [← same.stats, h.stats_eq]
  · intro lost
    have sequence : ∀ q, t.sequence q = s.sequence q := fun q =>
      (h.sequence q).trans (lost.residents q)
    have memory : t.stats.currentMemory = s.stats.currentMemory := by
      have balance := h.memory_modEq
      rw [weight_eq t, h.settings_eq, sequence, sequence, sequence, ← weight_eq s] at balance
      exact (Nat.ModEq.add_right_cancel' _ balance).eq_of_lt_of_lt (h.memory_lt small) small
    have number : t.stats.currentSize = s.stats.currentSize := by
      rw [counted, linkedCount_eq_of_sequence sequence, ← table, lost.counter]
    refine ⟨sequence, fun lfu => (reset lfu).trans (lost.sketch lfu),
      congrArg Settings.config h.settings_eq, ?_⟩
    rw [h.stats_eq] at memory number
    rw [h.stats_eq]
    simp only at memory number
    rw [memory, number, ← lost.hash]

theorem sameCache_flush_iff (wf : s.WellFormed env) (small : s.stats.currentMemory < range) :
    SameCache strategy s ((strategy.policy env).flush env s) ↔ NothingLost strategy s [] := by
  have survived := strategy.flush_survives wf
  refine (Rebuilt.of_survives survived).sameCache_iff wf small ?_ fun lfu => flush_sketch lfu
  rw [(strategy.laws env).eviction.size_eq survived.wf]
  exact survived.wf.table_length

theorem sameCache_checkedState_iff (wf : s.WellFormed env)
    (small : s.stats.currentMemory < range) :
    SameCache strategy s (checkedState env strategy s parsed) ↔
      NothingLost strategy s (if strategy = .mmLru then parsed.items else []) := by
  rw [checkedState]
  split
  case isFalse => exact sameCache_flush_iff wf small
  case isTrue lru =>
    subst lru
    have survived := mmLru.flush_survives wf
    have rebuilt : Rebuilt env .mmLru s parsed.items _ :=
      .unseen (.after_flush survived (rebuildItems_rebuilt survived.wf))
        (restorePoint_unseen _ parsed.listState)
    exact rebuilt.sameCache_iff wf small rfl nofun

/-- The new configuration of an LFU strategy is all that `set_config` changes after the flush. -/
theorem sameCache_setConfig_iff (lfu : strategy.hasSketch = true) (wf : s.WellFormed env)
    (small : s.stats.currentMemory < range) {config : Config} :
    SameCache strategy s
        ((strategy.policy env).setConfig ((strategy.policy env).flush env s) config sec) ↔
      NothingLost strategy s [] ∧ config = s.settings.config := by
  have survived := strategy.flush_survives wf
  have kept : ((strategy.policy env).flush env s).settings.config = s.settings.config :=
    congrArg Settings.config survived.settings_eq
  rw [setConfig_of_allPinned lfu survived.allPinned, ← sameCache_flush_iff wf small]
  constructor
  · intro same
    exact ⟨⟨same.sequence, same.sketch, kept, same.stats⟩, same.config⟩
  · rintro ⟨same, rfl⟩
    exact ⟨same.sequence, same.sketch, rfl, same.stats⟩

/-- A failed load leaves the cache untouched iff everything that is thrown after the flush is
thrown in a cache that the flush does not change. -/
theorem failsCleanly_iff (env : Env K V) (strategy : Strategy) (keys : Codec K) (values : Codec V)
    (s : State K V) (data : List UInt8) (sec : Nat) (wf : s.WellFormed env)
    (small : s.stats.currentMemory < range) :
    FailsCleanly env strategy keys values s data sec ↔
      ∀ parsed, parseSerializedData keys values (typeId strategy) data = .ok parsed →
        SafeToLoad env strategy s parsed := by
  have survived := strategy.flush_survives wf
  have kept : ((strategy.policy env).flush env s).settings.config = s.settings.config :=
    congrArg Settings.config survived.settings_eq
  rw [FailsCleanly, deserialize]
  cases parseSerializedData keys values (typeId strategy) data with
  | error thrown =>
    -- The parser throws before the cache is touched.
    constructor
    · rintro - _ ⟨⟩
    · rintro - message t ⟨⟩
      exact ⟨fun _ => rfl, fun _ => rfl, rfl, rfl⟩
  | ok parsed =>
    simp only [rebuildFromParsed_eq_threw, kept, Except.ok.injEq, forall_eq']
    constructor
    · intro clean
      refine ⟨fun rejected => ?_, fun accepted lfu malformed => ?_⟩
      · obtain ⟨message, rejected⟩ := Option.ne_none_iff_exists'.mp rejected
        exact (sameCache_checkedState_iff wf small).mp
          (clean message _ (.inl ⟨rejected, rfl⟩))
      · exact (sameCache_setConfig_iff lfu wf small).mp
          (clean _ _ (.inr ⟨accepted, lfu, malformed, rfl, rfl⟩))
    · rintro safe message t (⟨rejected, rfl⟩ | ⟨accepted, lfu, malformed, -, rfl⟩)
      · refine (sameCache_checkedState_iff wf small).mpr (safe.config ?_)
        simp [rejected]
      · exact (sameCache_setConfig_iff lfu wf small).mpr (safe.sketch accepted lfu malformed)

section Samples

open Serde

/-- A file without items and with an insertion point that `validate()` refuses. -/
def specNineFile : List UInt8 :=
  serializeFromSnapshot word32 word32 { type := .lru, config := { lruInsertionPointSpec := 9 } }

/-- `set(1, 10)` and a flush while a handle holds the item. -/
def heldState : State UInt32 UInt32 :=
  (Transition.runWhere (mmLru.step wordEnv) (fun _ op => !op.isPopLru)
    newState [.rehash id { gauges := fun nodes => (nodes.length / 16, nodes.length) },
      .set 1 10 0, .peek 1, .flush]).getD newState

theorem heldState_reachable : mmLru.Reachable wordEnv heldState := .getD (by decide +kernel)

/-- The exception comes after another flush, which finds nothing to do. -/
theorem heldState_failsCleanly :
    heldState.sequence 0 = [(1, 10)] ∧ heldState.stats.hash.loadFactor = 1 / 16 ∧
      (∃ t, deserialize wordEnv .mmLru heldState word32 word32 specNineFile 0 =
        .threw "mm_lru_config: lru_insertion_point_spec must be in [0, 7]" t) ∧
      FailsCleanly wordEnv .mmLru word32 word32 heldState specNineFile 0 := by
  have accepted : parseSerializedData word32 word32 .lru specNineFile =
      .ok { config := { lruInsertionPointSpec := 9 } } := by decide +kernel
  refine ⟨by decide +kernel, by decide +kernel, ?_, ?_⟩
  · rw [deserialize, typeId, accepted]
    exact ⟨_, rebuildFromParsed_eq_threw.mpr (.inl ⟨by decide +kernel, rfl⟩)⟩
  · refine (failsCleanly_iff wordEnv .mmLru word32 word32 heldState specNineFile 0
      heldState_reachable.wf (by decide +kernel)).mpr fun parsed ok => ?_
    obtain rfl := Except.ok.inj (accepted.symm.trans ok)
    have lfu : mmLru.hasSketch ≠ true := by decide
    refine ⟨fun _ => ⟨?_, ?_, ?_, fun has => absurd has lfu⟩, fun _ has => absurd has lfu⟩
    · decide +kernel
    · decide +kernel
    · decide +kernel

/-- The exception comes when the item of the cache is already gone. -/
theorem specNine_loses_item :
    mmLru.Reachable wordEnv savedState ∧ savedState.sequence 0 = [(1, 10)] ∧
      (∃ t, deserialize wordEnv .mmLru savedState word32 word32 specNineFile 0 =
          .threw "mm_lru_config: lru_insertion_point_spec must be in [0, 7]" t ∧
        t.sequence 0 = []) ∧
      ¬ FailsCleanly wordEnv .mmLru word32 word32 savedState specNineFile 0 := by
  have accepted : parseSerializedData word32 word32 .lru specNineFile =
      .ok { config := { lruInsertionPointSpec := 9 } } := by decide +kernel
  have threw : ∃ t, deserialize wordEnv .mmLru savedState word32 word32 specNineFile 0 =
      .threw "mm_lru_config: lru_insertion_point_spec must be in [0, 7]" t ∧ t.sequence 0 = [] := by
    refine ⟨checkedState wordEnv .mmLru savedState { config := { lruInsertionPointSpec := 9 } },
      ?_, by decide⟩
    rw [deserialize, typeId, accepted]
    exact rebuildFromParsed_eq_threw.mpr (.inl ⟨by decide, rfl⟩)
  refine ⟨savedState_reachable, by decide, threw, fun clean => ?_⟩
  obtain ⟨t, threw, empty⟩ := threw
  have same := (clean _ t threw).sequence 0
  rw [empty] at same
  exact absurd same (by decide)

end Samples

end Lru.Persist
