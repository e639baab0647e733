import Lru.Mm.Strategy
import Lru.Persist.Format

/-!
# Snapshots of a strategy

`collect_snapshot` copies what is saved of a strategy: some fields of its
configuration, the insertion point of `mm_lru`, the sketch of the LFU strategies,
and of every item its key, value, time, flags and queue. Expiry times and handles
are not part of it.
-/

namespace Lru.Mm

namespace Sketch

def tableSize (s : Sketch) : Nat := s.depth * s.width

def saturated (s : Sketch) : Nat :=
  ((List.range s.tableSize).filter fun i => s.cells i = kCounterMax).length

def serializedStateWords (s : Sketch) : Nat := 5 + s.tableSize

def stateWords (s : Sketch) : List UInt32 :=
  [UInt32.ofNat s.width, UInt32.ofNat s.depth, UInt32.ofNat s.totalAccesses,
    UInt32.ofNat s.decayStep, UInt32.ofNat s.saturated] ++
    (List.range s.tableSize).map fun i => UInt32.ofNat (s.cells i)

def saveState (s : Sketch) : Except String (List UInt32) :=
  if 2 ^ 32 - 1 < s.width ∨ 2 ^ 32 - 1 < s.depth ∨ 2 ^ 32 - 1 < s.serializedStateWords then
    .error "count_min_sketch: dimensions exceed uint32_t serialization limit"
  else .ok s.stateWords

theorem length_stateWords (s : Sketch) : s.stateWords.length = s.serializedStateWords := by
  simp [stateWords, serializedStateWords]
  omega

end Sketch

namespace Strategy

def hasSketch : Strategy → Bool
  | mmTinyLfu | mmWTinyLfu => true
  | mmLru | mmFifo | mm2q => false

end Strategy

end Lru.Mm

namespace Lru.Persist

open Mm Binary

variable {K V : Type} {env : Env K V}

def typeId : Strategy → MmTypeId
  | .mmLru => .lru
  | .mmFifo => .fifo
  | .mm2q => .twoQ
  | .mmTinyLfu => .tinyLfu
  | .mmWTinyLfu => .wTinyLfu

def writtenConfig (strategy : Strategy) (s : State K V) : SerializedMmConfig :=
  let c := s.settings.config
  match strategy with
  | .mmLru =>
    { lruRefreshTime := UInt32.ofNat s.lruRefreshTime
      lruInsertionPointSpec := UInt8.ofNat c.lruInsertionPointSpec
      updateOnRead := c.updateOnRead
      updateOnWrite := c.updateOnWrite
      tryLockUpdate := c.tryLockUpdate
      lruRefreshRatio := c.lruRefreshRatio
      mmReconfigureIntervalSecs := UInt32.ofNat c.mmReconfigureIntervalSecs }
  | .mm2q =>
    { lruRefreshTime := UInt32.ofNat s.lruRefreshTime
      updateOnRead := c.updateOnRead
      updateOnWrite := c.updateOnWrite
      tryLockUpdate := c.tryLockUpdate
      lruRefreshRatio := c.lruRefreshRatio
      mmReconfigureIntervalSecs := UInt32.ofNat c.mmReconfigureIntervalSecs
      hotRatio := c.hotRatio
      warmRatio := c.warmRatio
      rebalanceOnRecordAccess := c.rebalanceOnRecordAccess }
  | .mmFifo => {}
  | .mmTinyLfu | .mmWTinyLfu =>
    { lruRefreshTime := UInt32.ofNat s.lruRefreshTime
      lruRefreshRatio := c.lruRefreshRatio
      cmsWindowMultiplier := UInt32.ofNat c.cmsWindowMultiplier
      cmsErrorThreshold := c.cmsErrorThreshold
      cmsHashCount := UInt32.ofNat c.cmsHashCount
      tryLockUpdate := c.tryLockUpdate }

def writtenListState (strategy : Strategy) (s : State K V) : SerializedListState :=
  if strategy = .mmLru ∧ s.insertionPointPos ≠ unlimited then
    ⟨UInt32.ofNat s.insertionPointPos, UInt32.ofNat s.tailSize⟩
  else {}

/-- `hook.flags` of a linked item: tail, accessed and linked. -/
def hookFlags (h : Hook) : UInt8 :=
  (if h.isTail then 1 else 0) + (if h.isAccessed then 2 else 0) + 4

def itemRecord (item : Item K V) : SerializedItem K V where
  key := item.key
  value := item.value
  updateTime := UInt32.ofNat item.hook.updateTime
  flags := hookFlags item.hook
  queueId := UInt8.ofNat item.queueId

/-- The words of the sketch, if there is one. -/
def cmsWords (strategy : Strategy) (s : State K V) : Except String (List UInt32) :=
  if strategy.hasSketch then s.sketch.saveState else .ok []

/-- The snapshot with these words of the sketch. -/
def snapshotWith (strategy : Strategy) (s : State K V) (cmsState : List UInt32) :
    CacheSnapshot K V where
  type := typeId strategy
  config := writtenConfig strategy s
  listState := writtenListState strategy s
  cmsState := cmsState
  items := s.liveItems.map fun i => itemRecord (s.heap i)

def collectSnapshot (strategy : Strategy) (s : State K V) : Except String (CacheSnapshot K V) :=
  (cmsWords strategy s).map (snapshotWith strategy s)

section Serializers

variable (keys : Codec K) (values : Codec V) (strategy : Strategy) (s : State K V)

/-- `serialize_impl`, which writes `size()` as the number of items. -/
def serialize [DecidableEq K] (env : Env K V) : Except String (List UInt8) :=
  (collectSnapshot strategy s).map fun snap =>
    frame ((strategy.policy env).size s) snap.type snap.featureFlags
      (snap.writePayload keys values)

def save : Except String (List UInt8) :=
  (collectSnapshot strategy s).map (serializeFromSnapshot keys values)

variable {strategy s}

theorem length_liveItems [DecidableEq K] (wf : s.WellFormed env) :
    s.liveItems.length = (strategy.policy env).size s := by
  have length := wf.table_length
  rw [(strategy.laws env).eviction.size_eq wf]
  simp only [State.liveItems, List.length_append]
  exact length.symm

theorem serialize_eq_save [DecidableEq K] (wf : s.WellFormed env) :
    serialize keys values strategy s env = save keys values strategy s := by
  have count : ∀ words, (snapshotWith strategy s words).items.length =
      (strategy.policy env).size s := by
    intro words
    rw [snapshotWith, List.length_map, length_liveItems wf]
  rw [serialize, save, collectSnapshot]
  cases cmsWords strategy s with
  | error message => rfl
  | ok words =>
    simp only [Except.map, serializeFromSnapshot, count]

end Serializers

end Lru.Persist
