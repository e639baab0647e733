import Lru.Mm.Effects

/-!
# Strategies as records of their parts

The five strategy classes have the same public operations, written out five
times. What differs is collected in `Policy`: how items are searched, evicted,
inserted and unlinked, and which operations clean up first. The public
operations are defined once over it.
-/

namespace Lru.Mm

variable {K V : Type}

open State

/-- What distinguishes one strategy class from the others. -/
structure Policy (K V : Type) where
  size : State K V → Nat
  liveCount : State K V → Nat
  /-- The item that `evict` would take from this state. -/
  victim : State K V → Option ItemId
  evict : State K V → State K V
  /-- `insert_new` gives up at once. -/
  noCapacity : State K V → Bool
  /-- What `insert_new` does before it looks for a first victim. -/
  prepare : State K V → K → State K V
  /-- `insert_new` at time `sec`, with an expiry (`0` for none). -/
  insertNew : State K V → K → V → Nat → Nat → State K V
  /-- `record_access_at`; `mm_fifo` has none. -/
  recordAccess : State K V → ItemId → AccessMode → Nat → Bool × State K V
  /-- What `get` does after recording the access. -/
  afterGet : State K V → ItemId → State K V
  /-- Unlinking in `erase_impl` and `erase_expired_impl`. -/
  removeErased : State K V → ItemId → State K V
  /-- Unlinking in `force_del`, `pop` and `pop_lru`. -/
  removeForced : State K V → ItemId → State K V
  /-- Unlinking in `flush`. -/
  removeFlushed : State K V → ItemId → State K V
  /-- What `flush` does to an item that it leaves in place. -/
  keepFlushed : State K V → ItemId → State K V
  /-- What `flush` resets at its end. -/
  afterFlush : State K V → State K V
  /-- The item that `pop_lru` takes. -/
  popTail : State K V → Option ItemId
  /-- `force_del` refuses a pinned item in this state. -/
  pendingDeletionAtCap : State K V → Bool
  /-- What `max_size` does before it shrinks to a finite size. -/
  beforeResize : State K V → Nat → State K V
  /-- What `max_size` does at its end. -/
  afterResize : State K V → State K V
  /-- What `set_config` does with a new configuration in place. -/
  reconfigure : State K V → Nat → State K V
  /-- `set` and `add` start with `cleanup_pending_deletion()`. -/
  cleanupOnSet : Bool
  cleanupOnReplace : Bool
  cleanupOnPop : Bool
  cleanupOnSweep : Bool
  /-- `set_with_expiry` on a resident key calls the index for expiry `0` too. -/
  pushesZeroExpiry : Bool
  /-- `update_existing` collects its event before it shrinks. -/
  collectsUpdateFirst : Bool
  /-- `erase_impl` and `erase_expired_impl` refuse a pinned item. -/
  rechecksHandle : Bool

namespace Policy

section Operations

variable [DecidableEq K] (env : Env K V) (p : Policy K V) (s : State K V)

/-- `cleanup_pending_deletion()` in those operations that start with it. -/
def cleanupIf (b : Bool) (s : State K V) : State K V := if b then s.cleanupPendingDeletion else s

def shrinkToFit : State K V := (s.shrinkLoop p.evict p.size).1

/-- Account for a change of the memory estimate. -/
def adjustMemory (s : State K V) (before after : Nat) : State K V :=
  if before < after then s.addMemory (after - before)
  else if after < before then s.subMemory (before - after)
  else s

def collectUpdate (s : State K V) (i : ItemId) : State K V :=
  s.collect (.update (s.heap i).key (s.heap i).value)

/-- The first half of `update_existing`: swap the value in, record the access and
account for the memory. -/
def storeValue (i : ItemId) (value : V) (sec : Nat) : State K V :=
  let before := s.itemMemory env i
  let s := s.modify i fun item => { item with value := value }
  let s := (p.recordAccess s i .write sec).2
  adjustMemory s before (s.itemMemory env i)

def updateExisting (i : ItemId) (value : V) (sec : Nat) : State K V :=
  let s := p.storeValue env s i value sec
  if p.collectsUpdateFirst then p.shrinkToFit (collectUpdate s i)
  else collectUpdate (p.shrinkToFit s) i

def set (key : K) (value : V) (sec : Nat) : State K V :=
  let s := cleanupIf p.cleanupOnSet s
  match s.find env key with
  | none => p.insertNew s key value 0 sec
  | some i => p.updateExisting env s i value sec

def setWithExpiry (key : K) (value : V) (expiryNs sec : Nat) : State K V :=
  match s.find env key with
  | none => p.insertNew s key value expiryNs sec
  | some i =>
    let s := p.updateExisting env s i value sec
    let s := s.modify i fun item => { item with expiryNs := expiryNs }
    if expiryNs = 0 && !p.pushesZeroExpiry then s
    else s.ttlIndexPush (p.liveCount s) key expiryNs

def add (key : K) (value : V) (sec : Nat) : Bool × State K V :=
  let s := cleanupIf p.cleanupOnSet s
  match s.find env key with
  | none => (true, p.insertNew s key value 0 sec)
  | some i => (false, (p.recordAccess s i .read sec).2)

def replace (key : K) (value : V) (sec : Nat) : Bool × State K V :=
  let s := cleanupIf p.cleanupOnReplace s
  match s.find env key with
  | none => (false, s)
  | some i => (true, p.updateExisting env s i value sec)

/-- `get` of the strategy: no expiry check, and the handle is empty when the
count is saturated. -/
def get (key : K) (sec : Nat) : Option ItemId × State K V :=
  match s.find env key with
  | none =>
    let s := s.modifyStats fun x => { x with misses := x.misses + 1 }
    (none, s.collect (.miss key))
  | some i =>
    let s := (p.recordAccess s i .read sec).2
    let s := p.afterGet s i
    let s := s.modifyStats fun x => { x with hits := x.hits + 1 }
    let s := s.collect (.hit key (s.heap i).value)
    if (s.heap i).canPin then (some i, s.incRef i) else (none, s)

def promote (key : K) (sec : Nat) : Bool × State K V :=
  match s.find env key with
  | none => (false, s)
  | some i => p.recordAccess s i .read sec

/-- `erase_impl` and `erase_expired_impl`, which differ in their counters and in
the event. -/
def erase (count : Stats → Stats) (event : K → V → Event K V) (key : K) : State K V :=
  match s.find env key with
  | none => s
  | some i =>
    if p.rechecksHandle && (s.heap i).hasActiveHandle then s
    else
      let e := event (s.heap i).key (s.heap i).value
      let s := (s.subMemory (s.itemMemory env i)).modifyStats count
      let s := s.collect e
      let s := (p.removeErased (s.eraseKey env key) i).retire i
      s.storeSize (p.size s)

def eraseImpl (key : K) : State K V := p.erase env s id .evict key

def eraseExpiredImpl (key : K) : State K V :=
  p.erase env s (fun x =>
    { x with ttlExpiredCount := x.ttlExpiredCount + 1, evictionsTtl := x.evictionsTtl + 1 })
    .expire key

def del (key : K) : Bool × State K V :=
  let s := s.cleanupPendingDeletion
  match s.find env key with
  | none => (false, s)
  | some i => if (s.heap i).hasActiveHandle then (false, s) else (true, p.eraseImpl env s key)

/-- Take a found item out of table and list, with the accounting that
`force_del` and `pop` share. -/
def takeOut (key : K) (i : ItemId) : State K V :=
  let mem := s.itemMemory env i
  let s := p.removeForced (s.eraseKey env key) i
  (s.subMemory mem).storeSize (p.size s)

def forceDel (key : K) : Bool × State K V :=
  let s := s.cleanupPendingDeletion
  match s.find env key with
  | none => (false, s)
  | some i =>
    if (s.heap i).hasActiveHandle then
      if p.pendingDeletionAtCap s then
        (false, s.modifyStats fun x =>
          { x with pendingDeletionSkipped := x.pendingDeletionSkipped + 1 })
      else
        let s := p.takeOut env s key i
        (true, { s with pendingDeletion := s.pendingDeletion ++ [i] })
    else
      let e := Event.evict (s.heap i).key (s.heap i).value
      (true, ((p.takeOut env s key i).collect e).retire i)

def pop (key : K) : Option V × State K V :=
  let s := cleanupIf p.cleanupOnPop s
  match s.find env key with
  | none => (none, s)
  | some i =>
    if (s.heap i).hasActiveHandle then (none, s)
    else (some (s.heap i).value, (p.takeOut env s key i).retire i)

/-- The part of `pop_lru` that takes the item out. The key and the value are moved
out of the item before `map_.erase` looks for the key. -/
def popItem (i : ItemId) : State K V :=
  let key := (s.heap i).key
  let mem := s.itemMemory env i
  let s := s.modify i fun item =>
    { item with key := env.movedKey item.key, value := env.movedValue item.value }
  let s := (p.removeForced ((s.subMemory mem).eraseKey env key) i).retire i
  s.storeSize (p.size s)

def popLru : Option (K × V) × State K V :=
  let s := s.cleanupPendingDeletion
  match p.popTail s with
  | none => (none, s)
  | some i =>
    match s.find env (s.heap i).key with
    | none => (none, s)
    | some _ => (some ((s.heap i).key, (s.heap i).value), p.popItem env s i)

def flushOne (acc : State K V × List ItemId) (i : ItemId) : State K V × List ItemId :=
  let s := acc.1
  if (s.heap i).hasActiveHandle then (p.keepFlushed s i, acc.2)
  else if (s.heap i).canMarkForEviction then
    let e := Event.evict (s.heap i).key (s.heap i).value
    let s := (s.subMemory (s.itemMemory env i)).collect e
    (p.removeFlushed (s.eraseKey env (s.heap i).key) i, acc.2 ++ [i])
  else acc

def flush : State K V :=
  let (s, toRetire) := s.liveItems.foldl (p.flushOne env) (s, [])
  let s := toRetire.foldl State.retire s.refreshHashStats
  let s := p.afterFlush s
  (s.storeSize (p.size s)).cleanupPendingDeletion

end Operations

/-! ## The expiry sweep -/

section Sweep

variable [DecidableEq K] (env : Env K V) (p : Policy K V)

inductive ProbeResult where
  | absent
  | stale
  | pinned
  | ready
  deriving DecidableEq, Repr

def ttlProbeEntry (s : State K V) (key : K) (heapExpiry : Nat) : ProbeResult :=
  match s.find env key with
  | none => .absent
  | some i =>
    if (s.heap i).expiryNs != heapExpiry then .stale
    else if (s.heap i).hasActiveHandle then .pinned
    else .ready

/-- The entry with the earliest expiry, and the index without it. -/
def popEarliest (index : List (Nat × K)) : Option ((Nat × K) × List (Nat × K)) :=
  match (index.map Prod.fst).min? with
  | none => none
  | some least => (index.find? fun e => e.1 == least).map fun e =>
    (e, index.eraseP fun e => e.1 == least)

/-- The loop of `sweep`. Each round takes one entry out of the index, so the
length of the index bounds the rounds. -/
def sweepLoop (nowNs budget : Nat) :
    Nat → State K V → Nat → List (Nat × K) → State K V × Nat × List (Nat × K)
  | 0, s, evicted, deferred => (s, evicted, deferred)
  | fuel + 1, s, evicted, deferred =>
    if budget ≠ 0 ∧ budget ≤ evicted then (s, evicted, deferred)
    else
      match popEarliest s.ttlIndex with
      | none => (s, evicted, deferred)
      | some ((expiryNs, key), rest) =>
        if nowNs < expiryNs then (s, evicted, deferred)
        else
          let s := { s with ttlIndex := rest }
          match ttlProbeEntry env s key expiryNs with
          | .absent => sweepLoop nowNs budget fuel s evicted deferred
          | .stale => sweepLoop nowNs budget fuel s evicted deferred
          | .pinned => sweepLoop nowNs budget fuel s evicted (deferred ++ [(expiryNs, key)])
          | .ready =>
            sweepLoop nowNs budget fuel (p.eraseExpiredImpl env s key) (evicted + 1) deferred

/-- `evict_expired_n`; a batch size of `0` means no limit. -/
def evictExpiredN (s : State K V) (nowNs batchSize : Nat) : Nat × State K V :=
  let s := cleanupIf p.cleanupOnSweep s
  let (s, evicted, deferred) := p.sweepLoop env nowNs batchSize s.ttlIndex.length s 0 []
  (evicted, { s with ttlIndex := s.ttlIndex ++ deferred })

end Sweep

/-! ## Limits and configuration -/

section Settings

variable (p : Policy K V) (s : State K V)

def maxSize (newMax : Nat) : State K V :=
  let s := { s with settings := { s.settings with maxSize := newMax } }
  p.afterResize (if newMax = unlimited then s else p.shrinkToFit (p.beforeResize s newMax))

def maxMemory (newMax : Nat) : State K V :=
  let s := { s with settings := { s.settings with maxMemory := newMax } }
  if newMax = unlimited then s else p.shrinkToFit s

/-- `set_config`, for a configuration that passes `validate()`. -/
def setConfig (config : Config) (sec : Nat) : State K V :=
  p.reconfigure { s with settings := { s.settings with config := config } } sec

end Settings

end Policy

end Lru.Mm
