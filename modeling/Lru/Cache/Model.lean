import Lru.Memory.Monitor
import Lru.Mm.Strategy

/-!
# `unified_cache`

The cache layer over one strategy object, for the traits with one lock and no
compact representation. Calls are serialised by that lock, so a call is a
function on the state; what a call learns from outside is its `Ambient`.

Latency histograms, traces, the access ring (apart from the keys that a call
drains from it) and per-cache handle statistics are left out.
-/

namespace Lru

open Mm (State Env Strategy Policy ItemId unlimited)

/-- What the cache layer of every trait keeps besides its strategy object. -/
structure Layer where
  memoryMonitor : Memory.Monitor := {}
  closed : Bool := false
  quiesced : Bool := false
  memoryCriticalMode : Bool := false
  memorySoftWatermark : ℚ := 85 / 100
  memoryCriticalWatermark : ℚ := 95 / 100
  /-- The events handed to the OOM handler. -/
  oomEvents : List (Nat × Nat) := []

structure Cache (K V : Type) extends Layer where
  mm : State K V

/-- What one call reads from outside: the coarse and the fine clock, the keys that
it drains from the access rings, the random draw of the memory monitor and the
verdict of its growth limiter. -/
structure Ambient (K : Type) where
  sec : Nat := 0
  nowNs : Nat := 0
  drained : List K := []
  draw : ℚ := 0
  limiterOver : Bool := false

/-- The exceptions thrown by the modelled calls, with their texts. -/
inductive CacheError where
  | cacheClosed (what : String)
  | refcountOverflow (what : String)
  /-- Thrown by the store of the compact traits. -/
  | logicError (what : String)
  deriving DecidableEq, Repr

inductive PreWriteResult where
  | kProceed
  | kRejectInsert
  deriving DecidableEq, Repr

namespace Layer

variable (l : Layer)

def preWriteCheck (fnName : String) : Except CacheError PreWriteResult :=
  if l.closed then .error (.cacheClosed ("unified_cache::" ++ fnName ++ ": cache is shut down"))
  else if l.quiesced then
    .error (.cacheClosed
      ("unified_cache::" ++ fnName ++ ": cache is quiesced for a transactional snapshot"))
  else if l.memoryCriticalMode then .ok .kRejectInsert
  else .ok .kProceed

/-- `maybe_report_memory_to_monitor`, for the strategy's memory. -/
def reportMemory (curMem : Nat) (limiterOver : Bool) : Layer :=
  if l.memoryMonitor.active then
    { l with memoryMonitor := l.memoryMonitor.reportMemory curMem limiterOver }
  else l

/-- The budget that the watermarks refer to: the strategy's own, or the monitor's. -/
def watermarkBudget (own : Nat) : Nat :=
  if own = unlimited ∨ own = 0 then l.memoryMonitor.maxMemoryBytes else own

/-- `check_memory_pressure` for the strategy's budget and memory, with the event for
the OOM handler. -/
def checkMemoryPressure (r : Rounding) (own curMem : Nat) : Option (Nat × Nat) × Layer :=
  let maxMem := l.watermarkBudget own
  if maxMem = unlimited ∨ maxMem = 0 then (none, l)
  else
    let ratio := r.div (r.ofNat curMem) (r.ofNat maxMem)
    if l.memoryCriticalWatermark ≤ ratio then
      (if l.memoryCriticalMode then none else some (curMem, maxMem),
        { l with memoryCriticalMode := true })
    else if ratio < l.memorySoftWatermark ∧ l.memoryCriticalMode then
      (none, { l with memoryCriticalMode := false })
    else (none, l)

/-- `check_memory_pressure` and `dispatch_oom_event`. -/
def applyMemoryPressure (r : Rounding) (own curMem : Nat) : Layer :=
  match l.checkMemoryPressure r own curMem with
  | (none, l) => l
  | (some e, l) => { l with oomEvents := l.oomEvents ++ [e] }

end Layer

namespace Cache

variable {K V : Type}

/-! ## Checks before a write -/

section Checks

variable (c : Cache K V)

def reportWriteRejected (key : K) (value : V) : Cache K V :=
  { c with mm := c.mm.collect (.reject key value) }

variable (env : Env K V) (strategy : Strategy)

def defersPromotion : Bool := strategy.hasDeferPromotion && c.mm.settings.config.deferPromotion

def reportMemory (limiterOver : Bool) : Cache K V :=
  { c with toLayer := c.toLayer.reportMemory c.mm.stats.currentMemory limiterOver }

/-- `check_memory_pressure` and `dispatch_oom_event`. -/
def applyMemoryPressure : Cache K V :=
  { c with
    toLayer := c.toLayer.applyMemoryPressure env.rounding c.mm.settings.maxMemory
      c.mm.stats.currentMemory }

variable [DecidableEq K]

/-- One key of `promote_keys`: promote it and report a hit while the item is
pinned. -/
def promoteKey (sec : Nat) (s : State K V) (key : K) : State K V :=
  let s := ((strategy.policy env).promote env s key sec).2
  match s.peek env key with
  | (none, s) => s
  | (some i, s) => (s.collect (.hit key (s.heap i).value)).decRef i

def drainRing (a : Ambient K) : Cache K V :=
  if c.defersPromotion strategy then
    { c with mm := a.drained.foldl (promoteKey env strategy a.sec) c.mm }
  else c

/-- The bytes that `check_memory_admission` asks for. -/
def admissionBytes (key : K) (value : V) (present : Bool) : Nat :=
  let newItemSize := c.mm.settings.calcItemMemory env key value
  if present then SizeT.fetchAdd c.mm.stats.currentMemory newItemSize else newItemSize

def checkMemoryAdmission (key : K) (value : V) (a : Ambient K) : Bool × Cache K V :=
  if c.memoryMonitor.active then
    let (present, mm) := c.mm.contains env key a.nowNs
    let (admitted, monitor) := c.memoryMonitor.shouldAdmit env.rounding a.draw
      (c.admissionBytes env key value present)
    (admitted, { c with mm := mm, memoryMonitor := monitor })
  else (true, c)

def effectiveCap : Nat :=
  env.rounding.scale c.mm.settings.maxSize
    (env.rounding.add 1 c.mm.settings.config.overflowTolerance)

def applyOverflowPolicyForSet (key : K) (a : Ambient K) : Bool × Cache K V :=
  let policy := if strategy.hasOverflowPolicy then c.mm.settings.config.overflowPolicyValue
    else .kAllowGrowth
  if policy = .kAllowGrowth then (true, c)
  else
    let (present, mm) := c.mm.contains env key a.nowNs
    let c := { c with mm := mm }
    if present then (true, c)
    else if c.mm.settings.maxSize = unlimited then (true, c)
    else if (strategy.policy env).size c.mm < c.effectiveCap env then (true, c)
    else if policy = .kRejectInsert then (false, c)
    else
      match c.mm.tail 0 with
      | none => (true, c)
      | some t =>
        (true, { c with mm := ((strategy.policy env).forceDel env c.mm (c.mm.heap t).key).2 })

/-- The steps between `pre_write_check` and the write itself: drain the rings and
ask the memory monitor and the overflow policy. The entry points differ in which
refusal they report. -/
def admitWrite (reportsAdmission reportsOverflow : Bool) (key : K) (value : V) (a : Ambient K) :
    Bool × Cache K V :=
  let c := c.drainRing env strategy a
  match c.checkMemoryAdmission env key value a with
  | (false, c) => (false, if reportsAdmission then c.reportWriteRejected key value else c)
  | (true, c) =>
    match c.applyOverflowPolicyForSet env strategy key a with
    | (false, c) => (false, if reportsOverflow then c.reportWriteRejected key value else c)
    | (true, c) => (true, c)

def kMaxReclaimTries : Nat := 8

/-- The reclaim loop of `enforce_capacity_after_insert`. -/
def reclaim (cap : Nat) : Nat → State K V → State K V
  | 0, s => s
  | tries + 1, s =>
    if (strategy.policy env).size s ≤ cap then s
    else
      let t := (strategy.policy env).evict s
      if (strategy.policy env).size s ≤ (strategy.policy env).size t then t
      else reclaim cap tries t

def enforceCapacityAfterInsert (key : K) (sizeBefore : Nat) : Cache K V :=
  let size := (strategy.policy env).size
  let cap := c.mm.settings.maxSize
  if cap = unlimited then c
  else if size c.mm ≤ cap then c
  else
    let mm := reclaim env strategy cap kMaxReclaimTries c.mm
    if size mm ≤ cap then { c with mm := mm }
    else
      let mm := if sizeBefore < size mm then ((strategy.policy env).forceDel env mm key).2 else mm
      { c with mm := mm.noteEvictionRejected key env.defaultValue }

end Checks

/-! ## Writes -/

/-- Run a body behind `pre_write_check`: an exception leaves the cache as it is, the
critical mode runs `rejected` instead. -/
def guarded {α : Type} (c : Cache K V) (fnName : String) (rejected proceed : α × Cache K V) :
    Except CacheError α × Cache K V :=
  match c.preWriteCheck fnName with
  | .error e => (.error e, c)
  | .ok .kRejectInsert => (.ok rejected.1, rejected.2)
  | .ok .kProceed => (.ok proceed.1, proceed.2)

variable [DecidableEq K] (env : Env K V) (strategy : Strategy) (c : Cache K V)

def setBody (key : K) (value : V) (a : Ambient K) : Cache K V :=
  match c.admitWrite env strategy true true key value a with
  | (false, c) => c
  | (true, c) =>
    let sizeBefore := (strategy.policy env).size c.mm
    let c := { c with mm := (strategy.policy env).set env c.mm key value a.sec }
    let c := c.enforceCapacityAfterInsert env strategy key sizeBefore
    (c.applyMemoryPressure env).reportMemory a.limiterOver

def set (key : K) (value : V) (a : Ambient K) : Except CacheError Unit × Cache K V :=
  c.guarded "set" ((), c.reportWriteRejected key value) ((), c.setBody env strategy key value a)

def setWithExpiryNsImpl (key : K) (value : V) (expiryNs : Nat) (a : Ambient K) : Cache K V :=
  match c.admitWrite env strategy true false key value a with
  | (false, c) => c
  | (true, c) =>
    let sizeBefore := (strategy.policy env).size c.mm
    let c := { c with
      mm := (strategy.policy env).setWithExpiry env c.mm key value expiryNs a.sec }
    let c := c.enforceCapacityAfterInsert env strategy key sizeBefore
    c.reportMemory a.limiterOver

/-- The deadline of `set_with_ttl`: `effectiveNs` is the TTL after the jitter. -/
def expiryOfTtl (ttlNs : Int) (effectiveNs nowNs : Nat) : Nat :=
  if 0 < ttlNs then SizeT.fetchAdd nowNs effectiveNs else 0

def setWithTtl (key : K) (value : V) (ttlNs : Int) (effectiveNs : Nat) (a : Ambient K) :
    Except CacheError Unit × Cache K V :=
  c.guarded "set_with_ttl" ((), c)
    ((), c.setWithExpiryNsImpl env strategy key value (expiryOfTtl ttlNs effectiveNs a.nowNs) a)

def setWithAbsoluteExpiry (key : K) (value : V) (expiryNs : Nat) (a : Ambient K) :
    Except CacheError Unit × Cache K V :=
  c.guarded "set_with_absolute_expiry" ((), c)
    ((), c.setWithExpiryNsImpl env strategy key value expiryNs a)

def addBody (key : K) (value : V) (a : Ambient K) : Bool × Cache K V :=
  match c.admitWrite env strategy true false key value a with
  | (false, c) => (false, c)
  | (true, c) =>
    let (added, mm) := (strategy.policy env).add env c.mm key value a.sec
    (added, { c with mm := mm }.reportMemory a.limiterOver)

def add (key : K) (value : V) (a : Ambient K) : Except CacheError Bool × Cache K V :=
  c.guarded "add" (false, c) (c.addBody env strategy key value a)

def replace (key : K) (value : V) (a : Ambient K) : Except CacheError Bool × Cache K V :=
  let c' := c.drainRing env strategy a
  let (replaced, mm) := (strategy.policy env).replace env c'.mm key value a.sec
  c.guarded "replace" (false, c) (replaced, { c' with mm := mm }.reportMemory a.limiterOver)

/-- `set_prehashed` past `pre_write_check`. Without shards the hash is not used. -/
def setPrehashedBody (key : K) (value : V) (a : Ambient K) : Cache K V :=
  match c.admitWrite env strategy true false key value a with
  | (false, c) => c
  | (true, c) =>
    let c := { c with mm := (strategy.policy env).set env c.mm key value a.sec }
    (c.applyMemoryPressure env).reportMemory a.limiterOver

def setPrehashed (key : K) (_hash : Nat) (value : V) (a : Ambient K) :
    Except CacheError Unit × Cache K V :=
  c.guarded "set_prehashed" ((), c) ((), c.setPrehashedBody env strategy key value a)

/-- `set_multi` without shards: one `set` for each pair, up to an exception. -/
def setMulti : Cache K V → List ((K × V) × Ambient K) → Except CacheError Unit × Cache K V
  | c, [] => (.ok (), c)
  | c, ((key, value), a) :: rest =>
    match c.set env strategy key value a with
    | (.error e, c) => (.error e, c)
    | (.ok (), c) => setMulti c rest

/-- `cas` past `pre_write_check`. The item stays pinned until the call returns. -/
def casBody [DecidableEq V] (key : K) (expected desired : V) (a : Ambient K) : Bool × Cache K V :=
  match c.mm.peekForGet env key a.nowNs with
  | (none, mm) => (false, { c with mm := mm })
  | (some i, mm) =>
    let c := { c with mm := mm }
    let release := fun c : Cache K V => { c with mm := c.mm.decRef i }
    if (c.mm.heap i).value ≠ expected then (false, release c)
    else
      match c.checkMemoryAdmission env key desired a with
      | (false, c) => (false, release c)
      | (true, c) =>
        let c := { c with mm := (strategy.policy env).set env c.mm key desired a.sec }
        (true, release (c.reportMemory a.limiterOver))

def cas [DecidableEq V] (key : K) (expected desired : V) (a : Ambient K) :
    Except CacheError Bool × Cache K V :=
  c.guarded "cas" (false, c.reportWriteRejected key desired)
    (c.casBody env strategy key expected desired a)

/-! ## Reads -/

/-- The last `incRef` on this key failed because the count is saturated. -/
def pinOverflows (key : K) : Bool :=
  match c.mm.find env key with
  | none => false
  | some i => !(c.mm.heap i).canPin

def noteMiss (key : K) : Cache K V :=
  { c with mm := (c.mm.modifyStats fun x => { x with misses := x.misses + 1 }).collect (.miss key) }

def noteHit (key : K) (i : ItemId) : Cache K V :=
  let mm := c.mm.modifyStats fun x => { x with hits := x.hits + 1 }
  { c with mm := mm.collect (.hit key (mm.heap i).value) }

/-- The exception of `get` on a saturated count. -/
def refcountOverflowOnGet : CacheError :=
  .refcountOverflow ("unified_cache::get: refcount overflow on key " ++
    "(access_ref saturated — likely a handle leak)")

/-- `get`: a pinned item, nothing on a miss. -/
def get (key : K) (a : Ambient K) : Except CacheError (Option ItemId) × Cache K V :=
  if c.closed then (.error (.cacheClosed "unified_cache::get: cache is shut down"), c)
  else
    match c.mm.peekForGet env key a.nowNs with
    | (none, mm) =>
      if c.pinOverflows env key then
        (.error refcountOverflowOnGet, { c with mm := mm })
      else (.ok none, { c with mm := mm }.noteMiss key)
    | (some i, mm) =>
      let mm := if c.defersPromotion strategy then mm
        else ((strategy.policy env).promote env mm key a.sec).2
      (.ok (some i), { c with mm := mm }.noteHit key i)

/-- `peek`: a pinned item, whatever its expiry. -/
def peek (key : K) : Option ItemId × Cache K V :=
  if c.closed then (none, c)
  else
    let (item, mm) := c.mm.peek env key
    (item, { c with mm := mm })

/-- `get_view`: the handle is released before the call returns. -/
def getView (key : K) : Option V × Cache K V :=
  match c.peek env key with
  | (none, c) => (none, c)
  | (some i, c) => (some (c.mm.heap i).value, { c with mm := c.mm.decRef i })

def getShared (key : K) (a : Ambient K) : Option V × Cache K V :=
  if c.closed then (none, c)
  else
    match c.mm.peekForGet env key a.nowNs with
    | (none, mm) => (none, { c with mm := mm }.noteMiss key)
    | (some i, mm) =>
      let c := { c with mm := mm }.noteHit key i
      (some (c.mm.heap i).value, { c with mm := c.mm.decRef i })

def contains (key : K) (a : Ambient K) : Bool × Cache K V :=
  if c.closed then (false, c)
  else
    let (present, mm) := c.mm.contains env key a.nowNs
    (present, { c with mm := mm })

/-! ## Removals, sweeps and limits -/

/-- A removal past its guard: run the strategy's operation and report the memory. -/
def removing {α : Type} (a : Ambient K) (result : α × State K V) : α × Cache K V :=
  (result.1, { c with mm := result.2 }.reportMemory a.limiterOver)

/-- A removal that ignores the critical mode. -/
def guardedRemoval {α : Type} (fnName : String) (result : α × Cache K V) :
    Except CacheError α × Cache K V :=
  c.guarded fnName result result

def del (key : K) (a : Ambient K) : Except CacheError Bool × Cache K V :=
  c.guardedRemoval "del" (c.removing a ((strategy.policy env).del env c.mm key))

def forceDel (key : K) (a : Ambient K) : Except CacheError Bool × Cache K V :=
  c.guardedRemoval "force_del" (c.removing a ((strategy.policy env).forceDel env c.mm key))

inductive DelResult where
  | kSuccess
  | kNotFound
  | kPinned
  deriving DecidableEq, Repr

def delExBody (key : K) (a : Ambient K) : DelResult × Cache K V :=
  match c.mm.contains env key a.nowNs with
  | (false, mm) => (.kNotFound, { c with mm := mm })
  | (true, mm) =>
    match (strategy.policy env).del env mm key with
    | (true, mm) => (.kSuccess, { c with mm := mm }.reportMemory a.limiterOver)
    | (false, mm) => (.kPinned, { c with mm := mm })

def delEx (key : K) (a : Ambient K) : Except CacheError DelResult × Cache K V :=
  c.guardedRemoval "del_ex" (c.delExBody env strategy key a)

/-- `pop`; the memory is reported when something was popped. -/
def pop (key : K) (a : Ambient K) : Except CacheError (Option V) × Cache K V :=
  c.guardedRemoval "pop" <|
    match (strategy.policy env).pop env c.mm key with
    | (none, mm) => (none, { c with mm := mm })
    | (some value, mm) => (some value, { c with mm := mm }.reportMemory a.limiterOver)

def popLru (a : Ambient K) : Except CacheError (Option (K × V)) × Cache K V :=
  let c' := c.drainRing env strategy a
  c.guardedRemoval "pop_lru" <|
    match (strategy.policy env).popLru env c'.mm with
    | (none, mm) => (none, { c' with mm := mm })
    | (some entry, mm) => (some entry, { c' with mm := mm }.reportMemory a.limiterOver)

def evict (a : Ambient K) : Except CacheError Bool × Cache K V :=
  let c' := c.drainRing env strategy a
  let mm := (strategy.policy env).evict c'.mm
  let evicted : Bool := (strategy.policy env).size mm < (strategy.policy env).size c'.mm
  let after := { c' with mm := mm }
  c.guardedRemoval "evict" (evicted, if evicted then after.reportMemory a.limiterOver else after)

/-- `flush`. It drains the rings whether or not promotion is deferred. -/
def flush (a : Ambient K) : Except CacheError Unit × Cache K V :=
  let drained := a.drained.foldl (promoteKey env strategy a.sec) c.mm
  c.guardedRemoval "flush" (c.removing a ((), (strategy.policy env).flush env drained))

/-- `evict_expired_now` and the TTL cleaner, which have no guard. -/
def evictExpired (batchSize : Nat) (a : Ambient K) : Nat × Cache K V :=
  let (evicted, mm) := (strategy.policy env).evictExpiredN env c.mm a.nowNs batchSize
  (evicted, { c with mm := mm })

def maxSize (newMax : Nat) (a : Ambient K) : Cache K V :=
  { c with mm := (strategy.policy env).maxSize c.mm newMax }.reportMemory a.limiterOver

def maxMemory (newMax : Nat) (a : Ambient K) : Cache K V :=
  { c with mm := (strategy.policy env).maxMemory c.mm newMax }.reportMemory a.limiterOver

def setMaxMemory (bytes : Nat) : Cache K V :=
  let c := { c with
    mm := (strategy.policy env).maxMemory c.mm bytes
    memoryMonitor := c.memoryMonitor.setMaxMemory (if bytes = unlimited then 0 else bytes) }
  c.applyMemoryPressure env

end Cache

end Lru
