import Lru.Cache.Model
import Lru.Library.Sharding
import Lru.Mm.ShardedMmLru

/-!
# `unified_cache` over `sharded_mm_lru`

The write entry points of the traits with striped locking. A call locks the shard
of its key; where the source has a branch for these traits, the branch does to the
shard what the other one does to the whole strategy object. The lock is not
recursive, so the capacity gate cannot evict from the shard that the call holds.
-/

namespace Lru

open Mm (State Env Strategy ShardedMmLru unlimited)

structure Striped (K V : Type) (n : Nat) extends Layer where
  mm : ShardedMmLru K V n

namespace Striped

variable {K V : Type} {n : Nat} [NeZero n]

/-! ## Checks before a write -/

section Checks

variable (env : Env K V) (c : Striped K V n)

/-- `report_write_rejected` goes to the shard of the key. -/
def reportWriteRejected (key : K) (value : V) : Striped K V n :=
  { c with mm := c.mm.modifyShard (c.mm.shardFor env key) fun s => s.collect (.reject key value) }

/-- `is_defer_promotion_enabled` asks the first shard. -/
def defersPromotion : Bool := (c.mm.shards 0).settings.config.deferPromotion

def reportMemory (limiterOver : Bool) : Striped K V n :=
  { c with toLayer := c.toLayer.reportMemory c.mm.currentMemory limiterOver }

/-- `check_memory_pressure` and `dispatch_oom_event`. -/
def applyMemoryPressure : Striped K V n :=
  { c with
    toLayer := c.toLayer.applyMemoryPressure env.rounding c.mm.maxMemory c.mm.currentMemory }

variable [DecidableEq K]

def promoteKey (sec : Nat) (m : ShardedMmLru K V n) (key : K) : ShardedMmLru K V n :=
  m.modifyShard (m.shardFor env key) fun s => Cache.promoteKey env .mmLru sec s key

def drainRing (a : Ambient K) : Striped K V n :=
  if c.defersPromotion then { c with mm := a.drained.foldl (promoteKey env a.sec) c.mm } else c

/-- The bytes that `check_memory_admission` asks for. -/
def admissionBytes (key : K) (value : V) (present : Bool) : Nat :=
  let newItemSize := (c.mm.shards (c.mm.shardFor env key)).settings.calcItemMemory env key value
  if present then SizeT.fetchAdd c.mm.currentMemory newItemSize else newItemSize

def checkMemoryAdmission (key : K) (value : V) (a : Ambient K) : Bool × Striped K V n :=
  if c.memoryMonitor.active then
    let i := c.mm.shardFor env key
    let present := ((c.mm.shards i).contains env key a.nowNs).1
    let (admitted, monitor) := c.memoryMonitor.shouldAdmit env.rounding a.draw
      (c.admissionBytes env key value present)
    (admitted, { c with
      mm := c.mm.modifyShard i fun s => (s.contains env key a.nowNs).2
      memoryMonitor := monitor })
  else (true, c)

/-- `apply_overflow_policy_for_set` on the given shard. -/
def applyOverflowPolicyForSet (key : K) (i : Fin n) (a : Ambient K) : Bool × Striped K V n :=
  let (passes, shard) := Cache.applyOverflowPolicyForSet { mm := c.mm.shards i } env .mmLru key a
  (passes, { c with mm := c.mm.modifyShard i fun _ => shard.mm })

/-- The steps between `pre_write_check` and the write. Both refusals are reported, or
neither is. -/
def admitWrite (reports : Bool) (key : K) (value : V) (i : Fin n) (a : Ambient K) :
    Bool × Striped K V n :=
  let refuse (c : Striped K V n) := if reports then c.reportWriteRejected env key value else c
  let c := c.drainRing env a
  match c.checkMemoryAdmission env key value a with
  | (false, c) => (false, refuse c)
  | (true, c) =>
    match c.applyOverflowPolicyForSet env key i a with
    | (false, c) => (false, refuse c)
    | (true, c) => (true, c)

/-- The reclaim loop of `enforce_capacity_after_insert`. -/
def reclaim (cap : Nat) (held : Fin n) : Nat → ShardedMmLru K V n → ShardedMmLru K V n
  | 0, m => m
  | tries + 1, m =>
    if m.size ≤ cap then m
    else
      let t := (m.evictLru env (some held)).2
      if m.size ≤ t.size then t else reclaim cap held tries t

/-- `enforce_capacity_after_insert`. The shard counts a rejection and the manager of
the whole object collects it. -/
def enforceCapacityAfterInsert (key : K) (sizeBefore : Nat) : Striped K V n :=
  let cap := c.mm.maxSize
  if cap = unlimited then c
  else if c.mm.size ≤ cap then c
  else
    let i := c.mm.shardFor env key
    let m := reclaim env cap i Cache.kMaxReclaimTries c.mm
    if m.size ≤ cap then { c with mm := m }
    else
      let m := if sizeBefore < m.size then m.forceDel env key else m
      { c with
        mm := (m.modifyShard i State.noteEvictionFailed).collect (.reject key env.defaultValue) }

end Checks

/-! ## Writes -/

section Writes

variable [DecidableEq K] (env : Env K V) (c : Striped K V n)

def setBody (key : K) (value : V) (a : Ambient K) : Striped K V n :=
  match c.admitWrite env true key value (c.mm.shardFor env key) a with
  | (false, c) => c
  | (true, c) =>
    let sizeBefore := c.mm.size
    let c := { c with mm := c.mm.set env key value a.sec }
    let c := c.enforceCapacityAfterInsert env key sizeBefore
    (c.applyMemoryPressure env).reportMemory a.limiterOver

def set (key : K) (value : V) (a : Ambient K) : Except CacheError Unit × Striped K V n :=
  match c.preWriteCheck "set" with
  | .error e => (.error e, c)
  | .ok .kRejectInsert => (.ok (), c.reportWriteRejected env key value)
  | .ok .kProceed => (.ok (), c.setBody env key value a)

end Writes

end Striped

end Lru
