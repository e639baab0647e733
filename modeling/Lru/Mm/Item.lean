import Lru.Library.Double
import Lru.Library.Rounding
import Lru.Library.SizeT

/-!
# Cache items, configuration and reports

The data shared by the five eviction strategies: the `cache_item` allocation
with its reference count and list hook, the configuration fields the strategies
read, the statistics counters they write and the events they collect for the
registered callbacks.

The exclusive bit of the reference count is set and cleared inside one
operation, so it is not part of an item between two steps of a sequential run.
-/

namespace Lru.Mm

/-- What the templates know about the key and value types: the hash functor,
the value left behind by a move, a default-constructed value, the constant part
of the memory estimate, and the rounding of `double` arithmetic. `KeyEqual` is
equality of `K`. -/
structure Env (K V : Type) where
  hash : K → Nat
  movedKey : K → K
  movedValue : V → V
  defaultValue : V
  itemOverhead : Nat
  rounding : Rounding

/-- `kAccessRefMax`: the access count saturates at 32 bits. -/
def kAccessRefMax : Nat := 2 ^ 32 - 1

/-- `unlimited`, the sentinel of `max_size_` and `max_memory_`. -/
def unlimited : Nat := SizeT.max

/-- The queue that links an item. Single-list strategies only use queue `0`. -/
abbrev QueueId := Fin 3

/-- The numerals `0`, `1` and `2` name queues. -/
instance neZero_queueCount : NeZero 3 := ⟨by decide⟩

theorem queueId_cases : ∀ q : QueueId, q = 0 ∨ q = 1 ∨ q = 2 := by decide

/-- Address of an allocated item. -/
abbrev ItemId := Nat

/-- `intrusive_hook` without its links: the list order is kept by the queues. -/
structure Hook where
  updateTime : Nat := 0
  isTail : Bool := false
  isAccessed : Bool := false
  deriving DecidableEq, Repr, Inhabited

/-- The part of a `cache_item` that the hash table and the readers see. -/
structure Body (K V : Type) where
  key : K
  value : V
  queueId : QueueId := 0
  /-- Absolute expiry; `0` means no TTL. -/
  expiryNs : Nat := 0
  /-- Number of live handles. -/
  accessRef : Nat := 0
  /-- The `kLinked` bit: the item is in the container. -/
  linked : Bool := false
  cachedHash : Nat := 0
  deriving DecidableEq, Repr, Inhabited

structure Item (K V : Type) extends Body K V where
  hook : Hook := {}
  deriving DecidableEq, Repr, Inhabited

namespace Body

variable {K V : Type}

def hasActiveHandle (b : Body K V) : Bool := 0 < b.accessRef

/-- `incRef` succeeds on a linked item whose count is not saturated. -/
def canPin (b : Body K V) : Bool := b.linked && b.accessRef < kAccessRefMax

/-- `markForEviction` succeeds on a linked item without handles. -/
def canMarkForEviction (b : Body K V) : Bool := b.linked && !b.hasActiveHandle

/-- `is_expired`: the expiry lies at or before the clock reading. -/
def isExpired (b : Body K V) (nowNs : Nat) : Bool := b.expiryNs != 0 && b.expiryNs ≤ nowNs

end Body

inductive OverflowPolicy where
  | kAllowGrowth
  | kRejectInsert
  | kForceEvict
  deriving DecidableEq, Repr, Inhabited

inductive AccessMode where
  | read
  | write
  deriving DecidableEq, Repr, Inhabited

/-- The configuration fields read by the strategies, under the names of the
configuration structures; a strategy ignores the fields it does not have. -/
structure Config where
  lruInsertionPointSpec : Nat := 0
  defaultLruRefreshTime : Nat := 60
  lruRefreshRatio : Double := ⟨0⟩
  mmReconfigureIntervalSecs : Nat := 0
  updateOnWrite : Bool := false
  updateOnRead : Bool := true
  tryLockUpdate : Bool := true
  evictionSearchTries : Nat := 3
  deferPromotion : Bool := true
  maxPendingDeletion : Nat := 0
  overflowTolerance : ℚ := 1 / 10
  overflowPolicyValue : OverflowPolicy := .kAllowGrowth
  /-- The `double` next to 0.3. -/
  hotRatio : Double := ⟨0x3FD3333333333333⟩
  /-- The `double` next to 0.4. -/
  warmRatio : Double := ⟨0x3FD999999999999A⟩
  enableGhostQueue : Bool := true
  ghostRatio : ℚ := 1 / 2
  maxGhostEntries : Nat := 0
  rebalanceOnRecordAccess : Bool := true
  windowToCacheSizeRatio : ℚ := 1 / 100
  protectionRatio : ℚ := 8 / 10
  protectionFreq : Nat := 3
  newcomerWinsOnTie : Bool := true
  cmsWindowMultiplier : Nat := 32
  /-- 5.0. -/
  cmsErrorThreshold : Double := ⟨0x4014000000000000⟩
  cmsHashCount : Nat := 4
  deriving DecidableEq, Repr, Inhabited

def kLruRefreshTimeCap : Nat := 900

/-- An event collected for the callbacks of its kind. -/
inductive Event (K V : Type) where
  | hit (key : K) (value : V)
  | miss (key : K)
  | insert (key : K) (value : V)
  | evict (key : K) (value : V)
  | update (key : K) (value : V)
  | expire (key : K) (value : V)
  | reject (key : K) (value : V)
  deriving DecidableEq, Repr

/-- For which kinds of events a callback is registered. -/
structure Callbacks where
  hit : Bool := false
  miss : Bool := false
  insert : Bool := false
  eviction : Bool := false
  update : Bool := false
  expire : Bool := false
  reject : Bool := false
  deriving DecidableEq, Repr, Inhabited

/-- Whether some callback is registered for this kind of event. -/
def Callbacks.has {K V : Type} (c : Callbacks) : Event K V → Bool
  | .hit .. => c.hit
  | .miss _ => c.miss
  | .insert .. => c.insert
  | .evict .. => c.eviction
  | .update .. => c.update
  | .expire .. => c.expire
  | .reject .. => c.reject

/-- Diagnostics of a hash table, as the table has them and as `refresh_hash_stats` copies
them into the statistics. -/
structure HashStats where
  loadFactor : ℚ := 0
  maxChainLength : Nat := 0
  rehashCount : Nat := 0
  rehashTotalTimeNs : Nat := 0
  rehashMigratedItems : Nat := 0
  overloadThreshold : ℚ := 2
  overloadEvents : Nat := 0
  deriving DecidableEq, Repr, Inhabited

/-- A hash table as its diagnostics show it. -/
structure HashTable where
  /-- The threshold is first the `float` next to 3.2. -/
  counters : HashStats := { overloadThreshold := 13421773 / 4194304 }
  /-- Load factor and longest chain, for the nodes that the table holds. -/
  gauges : List ItemId → ℚ × Nat := fun _ => (0, 0)

def HashTable.report (t : HashTable) (nodes : List ItemId) : HashStats :=
  { t.counters with loadFactor := (t.gauges nodes).1, maxChainLength := (t.gauges nodes).2 }

/-- The statistics counters written by the modelled operations. -/
structure Stats where
  currentSize : Nat := 0
  currentMemory : Nat := 0
  hits : Nat := 0
  misses : Nat := 0
  insertions : Nat := 0
  evictions : Nat := 0
  evictionsCapacity : Nat := 0
  evictionsTtl : Nat := 0
  evictionFailed : Nat := 0
  ttlCheckedCount : Nat := 0
  ttlExpiredCount : Nat := 0
  pendingDeletionSkipped : Nat := 0
  hash : HashStats := {}
  deriving DecidableEq, Repr, Inhabited

/-- What the owner of the cache configures at run time. -/
structure Settings (K V : Type) where
  maxSize : Nat := unlimited
  maxMemory : Nat := unlimited
  config : Config := {}
  callbacks : Callbacks := {}
  evictionPredicate : Option (K → V → Bool) := none
  keySizeFn : Option (K → Nat) := none
  valueSizeFn : Option (V → Nat) := none

def Settings.calcItemMemory {K V : Type} (env : Env K V) (c : Settings K V) (key : K) (value : V) :
    Nat :=
  (env.itemOverhead + (match c.keySizeFn with | some f => f key * 2 | none => 0) +
    (match c.valueSizeFn with | some f => f value | none => 0)) % SizeT.range

/-- The eviction predicate vetoes this pair. -/
def Settings.vetoes {K V : Type} (c : Settings K V) (p : K × V) : Bool :=
  match c.evictionPredicate with
  | some pred => !pred p.1 p.2
  | none => false

end Lru.Mm
