import Lru.Persist.Snapshot

/-!
# Loading a snapshot

`deserialize` parses first and only then changes the cache: it flushes, links the
items behind what survives the flush, and applies the saved configuration. Two of
these steps can throw, and two of them trust the data: the sketch is read without a
look at the number of its words, and `mm_lru` walks as many links as the saved tail
size says.
-/

namespace Lru

/-- How a load ends. An exception leaves a state behind; `undefined` is a read past the
end of an array or through a null link. -/
inductive Outcome (σ : Type) where
  | returned (s : σ)
  | threw (message : String) (s : σ)
  | undefined

namespace Outcome

variable {σ : Type} {o : Outcome σ} {next : σ → Outcome σ} {message : String} {s : σ}

def andThen (o : Outcome σ) (next : σ → Outcome σ) : Outcome σ :=
  match o with
  | returned s => next s
  | threw message s => threw message s
  | undefined => undefined

theorem andThen_eq_threw :
    o.andThen next = .threw message s ↔
      o = .threw message s ∨ ∃ u, o = .returned u ∧ next u = .threw message s := by
  cases o <;> simp [andThen]

theorem andThen_eq_returned :
    o.andThen next = .returned s ↔ ∃ u, o = .returned u ∧ next u = .returned s := by
  cases o <;> simp [andThen]

theorem andThen_eq_undefined :
    o.andThen next = .undefined ↔ o = .undefined ∨ ∃ u, o = .returned u ∧ next u = .undefined := by
  cases o <;> simp [andThen]

theorem andThen_returns_iff (always : ∀ u, ∃ t, next u = .returned t) :
    (∃ t, o.andThen next = .returned t) ↔ ∃ t, o = .returned t := by
  cases o <;> simp [andThen, always]

end Outcome

end Lru

namespace Lru.Mm

variable {K V : Type}

/-! ## Checks of a configuration -/

namespace Strategy

/-- The checks that both LFU configurations make after those of their ratios. -/
def cmsChecks (name : String) (c : Config) : List (Bool × String) :=
  [(c.cmsWindowMultiplier = 0, name ++ ": cms_window_multiplier must be >= 1"),
    (c.cmsErrorThreshold.le 0, name ++ ": cms_error_threshold must be > 0"),
    (c.cmsHashCount = 0, name ++ ": cms_hash_count must be >= 1"),
    (!c.lruRefreshRatio.ge 0, name ++ ": lru_refresh_ratio must be non-negative")]

def windowCheck (name : String) (c : Config) : Bool × String :=
  (c.windowToCacheSizeRatio ≤ 0 || 1 / 2 < c.windowToCacheSizeRatio,
    name ++ ": window_to_cache_size_ratio must be in (0, 0.5]")

/-- The checks of `validate()` in their order, each with what it throws when it fires. -/
def checks (rounding : Rounding) (c : Config) : Strategy → List (Bool × String)
  | mmLru =>
    [(7 < c.lruInsertionPointSpec, "mm_lru_config: lru_insertion_point_spec must be in [0, 7]"),
      (!c.lruRefreshRatio.ge 0, "mm_lru_config: lru_refresh_ratio must be non-negative"),
      (c.overflowTolerance < 0, "mm_lru_config: overflow_tolerance must be non-negative")]
  | mmFifo => []
  | mm2q =>
    [(!c.hotRatio.ge 0 || !c.warmRatio.ge 0,
        "mm_2q_config: hot_ratio and warm_ratio must be non-negative and finite"),
      (!c.lruRefreshRatio.ge 0, "mm_2q_config: lru_refresh_ratio must be non-negative"),
      (1 < rounding.add c.hotRatio.toRat c.warmRatio.toRat,
        "mm_2q_config: hot_ratio + warm_ratio must not exceed 1.0"),
      (c.ghostRatio < 0, "mm_2q_config: ghost_ratio must be non-negative and finite"),
      (1 < c.ghostRatio, "mm_2q_config: ghost_ratio must not exceed 1.0")]
  | mmTinyLfu => windowCheck "mm_tiny_lfu_config" c :: cmsChecks "mm_tiny_lfu_config" c
  | mmWTinyLfu =>
    windowCheck "mm_wtiny_lfu_config" c ::
      (c.protectionRatio < 0 || 1 < c.protectionRatio,
        "mm_wtiny_lfu_config: protection_ratio must be in [0, 1]") ::
      cmsChecks "mm_wtiny_lfu_config" c

/-- `validate()`: what it throws, if anything. -/
def validate (rounding : Rounding) (strategy : Strategy) (c : Config) : Option String :=
  ((strategy.checks rounding c).find? Prod.fst).map Prod.snd

/-- The walk of `set_config` that clears the tail flags follows `tail_size_` links from the
insertion point. -/
def walksPastEnd (strategy : Strategy) (s : State K V) (c : Config) : Bool :=
  match strategy, s.insertionPoint with
  | mmLru, some point =>
    c.lruInsertionPointSpec == 0 && (point :: MmLru.after s point).length < s.tailSize
  | _, _ => false

def applyConfig [DecidableEq K] (env : Env K V) (strategy : Strategy) (s : State K V) (c : Config)
    (sec : Nat) : Outcome (State K V) :=
  match strategy.validate env.rounding c with
  | some message => .threw message s
  | none =>
    if strategy.walksPastEnd s c then .undefined
    else .returned ((strategy.policy env).setConfig s c sec)

end Strategy

namespace Sketch

def kMaxWidth : Nat := 1000000

def kMaxDepth : Nat := 64

/-- `load_state`, which reads as many words as the first two of them say. -/
def loadState (s : Sketch) : List UInt32 → Outcome Sketch
  | width :: depth :: totalAccesses :: decayStep :: _saturated :: cells =>
    if width.toNat = 0 ∨ depth.toNat = 0 ∨ kMaxWidth < width.toNat ∨ kMaxDepth < depth.toNat then
      .threw "count_min_sketch: malformed dimensions in load_state" s
    else if cells.length < depth.toNat * width.toNat then .undefined
    else .returned { s with
      width := width.toNat
      depth := depth.toNat
      totalAccesses := totalAccesses.toNat
      decayStep := decayStep.toNat
      cells := fun i => (cells.getD i 0).toNat }
  | _ => .undefined

end Sketch

end Lru.Mm

namespace Lru.Persist

open Mm Binary Serde

variable {K V : Type}

/-! ## Rebuilding -/

/-- The configuration of the target with the saved fields of its strategy. -/
def newConfig (strategy : Strategy) (config : Config) (c : SerializedMmConfig) : Config :=
  match strategy with
  | .mmLru =>
    { config with
      lruInsertionPointSpec := c.lruInsertionPointSpec.toNat
      updateOnRead := c.updateOnRead
      updateOnWrite := c.updateOnWrite
      tryLockUpdate := c.tryLockUpdate
      lruRefreshRatio := c.lruRefreshRatio
      mmReconfigureIntervalSecs := c.mmReconfigureIntervalSecs.toNat
      defaultLruRefreshTime := c.lruRefreshTime.toNat }
  | .mm2q =>
    { config with
      updateOnRead := c.updateOnRead
      updateOnWrite := c.updateOnWrite
      tryLockUpdate := c.tryLockUpdate
      lruRefreshRatio := c.lruRefreshRatio
      mmReconfigureIntervalSecs := c.mmReconfigureIntervalSecs.toNat
      hotRatio := c.hotRatio
      warmRatio := c.warmRatio
      rebalanceOnRecordAccess := c.rebalanceOnRecordAccess
      defaultLruRefreshTime := c.lruRefreshTime.toNat }
  | .mmFifo => config
  | .mmTinyLfu | .mmWTinyLfu =>
    { config with
      lruRefreshRatio := c.lruRefreshRatio
      cmsWindowMultiplier := c.cmsWindowMultiplier.toNat
      cmsErrorThreshold := c.cmsErrorThreshold
      cmsHashCount := c.cmsHashCount.toNat
      tryLockUpdate := c.tryLockUpdate
      defaultLruRefreshTime := c.lruRefreshTime.toNat }

/-- The list that an item with this saved `queue_id` is linked into. -/
def queueOf (strategy : Strategy) (id : UInt8) : QueueId :=
  match strategy with
  | .mmLru | .mmFifo => 0
  | .mm2q | .mmWTinyLfu => if id.toNat < 3 then Fin.ofNat 3 id.toNat else 0
  | .mmTinyLfu => if id.toNat < 2 then Fin.ofNat 3 id.toNat else 0

def restoredHook (item : SerializedItem K V) : Hook :=
  { updateTime := item.updateTime.toNat, isAccessed := item.flags &&& 2 ≠ 0 }

section Rebuild

variable [DecidableEq K] (env : Env K V) (strategy : Strategy) (s : State K V)

/-- One round of the loop of `rebuild_from_serialized`. The item is linked whether or not the
table takes its key. -/
def linkSerialized (item : SerializedItem K V) : State K V :=
  let s := s.linkNew env item.key item.value (queueOf strategy item.queueId) 0 (restoredHook item)
    fun i l => l ++ [i]
  s.addMemory (s.settings.calcItemMemory env item.key item.value)

/-- The part of `rebuild_from_serialized` that all strategies share. -/
def rebuildItems (items : List (SerializedItem K V)) : State K V :=
  let s := (strategy.policy env).flush env s
  let s := items.foldl (linkSerialized env strategy) s
  s.storeSize ((strategy.policy env).size s)

/-- Flag the first `tailSize` items from position `pos` on. -/
def markTail (pos tailSize : Nat) : State K V :=
  (((s.queue 0).drop pos).take tailSize).foldl
    (fun s i => s.modifyHook i fun h => { h with isTail := true }) s

/-- The end of `mm_lru::rebuild_from_serialized`. -/
def restorePoint (l : SerializedListState) : State K V :=
  let s := { s with tailSize := 0, insertionPoint := none }
  let pos := l.insertionPointPos.toNat
  if pos ≠ 2 ^ 32 - 1 ∧ pos < MmLru.size s then
    match (s.queue 0)[pos]? with
    | none => s
    | some point =>
      { markTail s pos l.tailSize.toNat with
        insertionPoint := some point, tailSize := l.tailSize.toNat }
  else s

/-- The end of `mm_2q::rebuild_from_serialized`. -/
def registerAndRebalance : State K V :=
  Mm2q.rebalance env (s.modifyStats fun x => { x with insertions := x.insertions + 1 })

/-- `sketch_mut().load_state`, unless there are no words. -/
def loadSketch (words : List UInt32) : Outcome (State K V) :=
  if words.isEmpty then .returned s
  else
    match s.sketch.loadState words with
    | .returned sketch => .returned { s with sketch := sketch }
    | .threw message _ => .threw message s
    | .undefined => .undefined

def rebuildFromParsed (parsed : ParsedData K V) (sec : Nat) : Outcome (State K V) :=
  let s := (strategy.policy env).flush env s
  let config := newConfig strategy s.settings.config parsed.config
  match strategy with
  | .mmLru =>
    let s := restorePoint (rebuildItems env .mmLru s parsed.items) parsed.listState
    Strategy.mmLru.applyConfig env s config sec
  | .mm2q =>
    (Strategy.mm2q.applyConfig env s config sec).andThen fun s =>
      .returned (registerAndRebalance env (rebuildItems env .mm2q s parsed.items))
  | .mmFifo =>
    .returned (parsed.items.foldl
      (fun s item => (Strategy.mmFifo.policy env).set env s item.key item.value sec) s)
  | .mmTinyLfu | .mmWTinyLfu =>
    (strategy.applyConfig env s config sec).andThen fun s =>
      (loadSketch s parsed.cmsState).andThen fun s =>
        .returned (rebuildItems env strategy s parsed.items)

def deserialize (keys : Codec K) (values : Codec V) (data : List UInt8) (sec : Nat) :
    Outcome (State K V) :=
  match parseSerializedData keys values (typeId strategy) data with
  | .error message => .threw message s
  | .ok parsed => rebuildFromParsed env strategy s parsed sec

end Rebuild

/-! ## How the steps end -/

section Steps

variable [DecidableEq K] {env : Env K V} {strategy : Strategy} {s t : State K V} {sec : Nat}
  {message : String} {c : Config}

/-- The words of the sketch have dimensions that `load_state` refuses. -/
def MalformedSketch (words : List UInt32) : Prop :=
  ∃ width depth total decay saturated cells,
    words = width :: depth :: total :: decay :: saturated :: cells ∧
      (width.toNat = 0 ∨ depth.toNat = 0 ∨ Sketch.kMaxWidth < width.toNat ∨
        Sketch.kMaxDepth < depth.toNat)

omit [DecidableEq K] in
theorem loadSketch_eq_threw {words : List UInt32} :
    loadSketch s words = .threw message t ↔
      MalformedSketch words ∧
        "count_min_sketch: malformed dimensions in load_state" = message ∧ s = t := by
  rcases words with _ | ⟨w, _ | ⟨d, _ | ⟨total, _ | ⟨decay, _ | ⟨saturated, cells⟩⟩⟩⟩⟩
  case cons.cons.cons.cons.cons =>
    simp only [loadSketch, Sketch.loadState, List.isEmpty_cons, Bool.false_eq_true, if_false]
    by_cases malformed : w.toNat = 0 ∨ d.toNat = 0 ∨ Sketch.kMaxWidth < w.toNat ∨
        Sketch.kMaxDepth < d.toNat
    · simp [malformed, MalformedSketch]
    · by_cases short : cells.length < d.toNat * w.toNat <;>
        simp [malformed, short, MalformedSketch]
  all_goals simp [loadSketch, Sketch.loadState, MalformedSketch]

omit [DecidableEq K] in
theorem walksPastEnd_of_ne_mmLru (other : strategy ≠ .mmLru) (s : State K V) (c : Config) :
    strategy.walksPastEnd s c = false := by
  cases strategy with
  | mmLru => exact absurd rfl other
  | mmFifo | mm2q | mmTinyLfu | mmWTinyLfu => rfl

theorem applyConfig_eq_threw : strategy.applyConfig env s c sec = .threw message t ↔
      strategy.validate env.rounding c = some message ∧ s = t := by
  rw [Strategy.applyConfig]
  cases strategy.validate env.rounding c with
  | some m => simp
  | none =>
    simp only
    split <;> simp

theorem applyConfig_eq_returned : strategy.applyConfig env s c sec = .returned t ↔
      strategy.validate env.rounding c = none ∧ strategy.walksPastEnd s c = false ∧
        (strategy.policy env).setConfig s c sec = t := by
  rw [Strategy.applyConfig]
  cases strategy.validate env.rounding c with
  | some m => simp
  | none =>
    cases strategy.walksPastEnd s c <;> simp

theorem applyConfig_eq_undefined : strategy.applyConfig env s c sec = .undefined ↔
      strategy.validate env.rounding c = none ∧ strategy.walksPastEnd s c = true := by
  rw [Strategy.applyConfig]
  cases strategy.validate env.rounding c with
  | some m => simp
  | none =>
    cases strategy.walksPastEnd s c <;> simp

theorem deserialize_eq_returned {keys : Codec K} {values : Codec V} {data : List UInt8} :
    deserialize env strategy s keys values data sec = .returned t ↔
      ∃ parsed, parseSerializedData keys values (typeId strategy) data = .ok parsed ∧
        rebuildFromParsed env strategy s parsed sec = .returned t := by
  rw [deserialize]
  cases parseSerializedData keys values (typeId strategy) data <;> simp

end Steps

end Lru.Persist
