import Lru.Library.Transition
import Mathlib.Data.List.Dedup
import Mathlib.Logic.Function.Basic

/-!
# `tiered_cache`

Threads that get, set and delete keys of a primary cache in front of a storage backend,
the promotion of keys from the backend, evictions, and the worker that writes evicted
values back. Every operation of the primary, every operation of the backend and every
critical section of the write-back queue and of the in-flight table is one step.

The primary is a map that may evict and refuse; what it does in a step is part of the
step's label. It runs the eviction callbacks at the end of a call, outside its lock, so
a thread owes callbacks until it has run them.
-/

namespace Lru.Tiered

open Function

/-- The configuration fields that the steps read. -/
structure Config where
  writeBackOnEvict : Bool := false
  readThrough : Bool := true
  /-- 0 for a write-back inside the callback. -/
  asyncWritebackQueueCapacity : Nat := 4096

/-- Where the value of a resident key comes from: a client, or a fetch from the backend
made when this many mutations of the key had begun. -/
inductive Origin where
  | client
  | fetched (stamp : Nat)
  deriving DecidableEq, Repr

structure Entry (V : Type) where
  value : V
  origin : Origin
  deriving DecidableEq, Repr

structure WritebackEntry (K V : Type) where
  key : K
  value : V
  gen : Nat
  deriving DecidableEq, Repr

structure WritebackKeyState where
  gen : Nat
  inFlight : Bool
  deriving DecidableEq, Repr

/-- Where the write-back worker is: the entries that it has taken off the queue, and
what it does with the one before them. -/
inductive Worker (K V : Type) where
  | draining (batch : List (WritebackEntry K V))
  /-- `in_flight` is set, the put has not landed. -/
  | putting (item : WritebackEntry K V) (batch : List (WritebackEntry K V))
  | landed (item : WritebackEntry K V) (batch : List (WritebackEntry K V))
  deriving DecidableEq, Repr

/-- A mutation: a value to set, or none to delete. -/
structure Mutation (K V : Type) where
  key : K
  value : Option V
  deriving DecidableEq, Repr

inductive Query (V : Type) where
  | found (value : V)
  | missing
  | rejected
  | threw
  deriving DecidableEq, Repr

inductive Answer (V : Type) where
  | value (entry : Entry V)
  | miss
  | exception
  deriving DecidableEq, Repr

/-- Where a thread is inside a call. A mutation carries its number among those of its
key; a `get` carries how many had to be counted as returned when it began. -/
inductive Call (K V : Type) where
  | idle
  /-- `set` or `del` before the primary's operation. -/
  | mutatePrimary (m : Mutation K V) (index : Nat)
  /-- Before `claim_writeback_ownership`. -/
  | claim (m : Mutation K V) (index : Nat)
  /-- Before the backend's operation. -/
  | mutateBackend (m : Mutation K V) (index : Nat)
  /-- `get` before its fast path. -/
  | readPrimary (key : K) (since : Nat)
  | lookup (key : K) (since : Nat)
  | race (key : K) (since : Nat)
  /-- A follower that waits for a query. -/
  | follow (key : K) (since query : Nat)
  | reread (key : K) (since query : Nat)
  /-- A follower that has read the primary again. -/
  | followed (key : K) (since query : Nat) (answer : Answer V)
  /-- The leader before the circuit breaker. -/
  | allowRequest (key : K) (since query : Nat)
  | fetch (key : K) (since query : Nat)
  | promote (key : K) (since query : Nat) (value : V) (stamp : Nat)
  | readBack (key : K) (since query : Nat) (value : V)
  /-- The leader before it leaves the in-flight table. -/
  | leave (key : K) (since query : Nat) (outcome : Query V) (answer : Answer V)
  | fulfil (key : K) (since query : Nat) (outcome : Query V) (answer : Answer V)
  /-- `promote_from_backend` at one of its keys. -/
  | probe (key : K)
  | pull (key : K)
  | push (key : K) (value : V) (stamp : Nat)
  deriving DecidableEq, Repr

/-- A thread and the eviction callbacks that it has to run before it goes on. -/
structure Thread (K V : Type) where
  call : Call K V := .idle
  owed : List (K × V) := []
  deriving DecidableEq, Repr

def Thread.isIdle {K V : Type} : Thread K V → Bool
  | ⟨.idle, []⟩ => true
  | _ => false

/-- How far the last mutation of a key is: begun, past its claim, or returned. -/
inductive Stage (V : Type) where
  | untouched
  | begun
  | claimed (value : Option V)
  | settled (value : Option V)
  deriving DecidableEq, Repr

/-- The backend and the write-back bookkeeping. -/
structure Store (K V : Type) where
  backend : K → Option V
  writebackQueue : List (WritebackEntry K V) := []
  writebackKeys : K → Option WritebackKeyState := fun _ => none
  writebackGen : Nat := 0
  worker : Worker K V := .draining []

structure State (K V T : Type) where
  primary : K → Option (Entry V)
  store : Store K V
  /-- The query of the leader that fetches a key. -/
  inflight : K → Option Nat := fun _ => none
  /-- How a query ended, once its promise is fulfilled. -/
  futures : Nat → Option (Query V) := fun _ => none
  nextQuery : Nat := 0
  threads : T → Thread K V := fun _ => {}
  /-- History: the mutations of a key that have begun, and one more than the largest
  number of those that have changed the primary and of those that have returned. -/
  begun : K → Nat := fun _ => 0
  applied : K → Nat := fun _ => 0
  returned : K → Nat := fun _ => 0
  stage : K → Stage V := fun _ => .untouched

/-- What the outside decides in a step: whether the primary refuses a write or a
removal, what it evicts and what it drops without a callback, the verdict of the circuit
breaker, and whether the backend throws. -/
structure Choice (K : Type) where
  refused : Bool := false
  evicted : List K := []
  dropped : List K := []
  allowed : Bool := true
  throws : Bool := false

inductive Op (K V : Type) where
  | mutate (m : Mutation K V)
  | get (key : K)
  | promoteFromBackend (key : K)

inductive Label (K V T : Type) where
  /-- An idle thread begins a call. -/
  | call (i : T) (op : Op K V)
  /-- A thread takes the next step of its call. -/
  | advance (i : T) (c : Choice K)
  /-- The primary evicts for an idle thread. -/
  | evict (i : T) (c : Choice K)
  /-- A thread runs the first of the callbacks that it owes. -/
  | deliver (i : T)
  | worker (throws : Bool)

/-! ## The write-back queue -/

namespace Store

variable {K V : Type} [DecidableEq K] (cfg : Config) (s : Store K V)

def put (key : K) (value : Option V) : Store K V :=
  { s with backend := update s.backend key value }

def setKey (key : K) (record : Option WritebackKeyState) : Store K V :=
  { s with writebackKeys := update s.writebackKeys key record }

/-- A put of the worker for this key is under way. -/
def inFlight (key : K) : Bool := (s.writebackKeys key).any (·.inFlight)

def dropOldest : Store K V :=
  match s.writebackQueue with
  | [] => s
  | oldest :: rest =>
    let s := { s with writebackQueue := rest }
    if (s.writebackKeys oldest.key).any (·.gen = oldest.gen) then s.setKey oldest.key none else s

/-- The last part of the callback: stamp the entry and append it. -/
def stampAndAppend (key : K) (value : V) : Store K V :=
  let gen := s.writebackGen + 1
  { s.setKey key (some ⟨gen, s.inFlight key⟩) with
    writebackGen := gen
    writebackQueue := s.writebackQueue ++ [⟨key, value, gen⟩] }

/-- The eviction callback of `setup_writeback`. -/
def onEvict (key : K) (value : V) : Store K V :=
  if cfg.asyncWritebackQueueCapacity = 0 then s.put key (some value)
  else
    stampAndAppend
      (if cfg.asyncWritebackQueueCapacity ≤ s.writebackQueue.length then s.dropOldest else s)
      key value

/-- `claim_writeback_ownership`, or nothing while it has to wait. -/
def claim (key : K) : Option (Store K V) :=
  if s.inFlight key then none else some (s.setKey key none)

/-- The first critical section of `flush_one_writeback`. -/
def check (item : WritebackEntry K V) (batch : List (WritebackEntry K V)) : Store K V :=
  if (s.writebackKeys item.key).any (·.gen = item.gen) then
    { s.setKey item.key (some ⟨item.gen, true⟩) with worker := .putting item batch }
  else { s with worker := .draining batch }

/-- The last critical section of `flush_one_writeback`. -/
def publish (item : WritebackEntry K V) (batch : List (WritebackEntry K V)) : Store K V :=
  let s := { s with worker := .draining batch }
  match s.writebackKeys item.key with
  | some r => s.setKey item.key (if r.gen = item.gen then none else some ⟨r.gen, false⟩)
  | none => s

/-- The worker's steps: swap the queue out; for each entry check its record, put, and
clear the flag. -/
def workerStep (throws : Bool) : Store K V :=
  match s.worker with
  | .draining [] => { s with worker := .draining s.writebackQueue, writebackQueue := [] }
  | .draining (item :: batch) => s.check item batch
  | .putting item batch =>
    { if throws then s else s.put item.key (some item.value) with worker := .landed item batch }
  | .landed item batch => s.publish item batch

end Store

namespace State

variable {K V T : Type} [DecidableEq K] [DecidableEq T] (cfg : Config) (s : State K V T)

def setThread (i : T) (thread : Thread K V) : State K V T :=
  { s with threads := update s.threads i thread }

def setCall (i : T) (call : Call K V) : State K V T :=
  s.setThread i { s.threads i with call := call }

/-! ## The primary -/

/-- Keys leave the primary; the evicted ones owe their callbacks. -/
def leavePrimary (i : T) (c : Choice K) : State K V T :=
  let evicted := c.evicted.dedup.filterMap fun key => (s.primary key).map fun e => (key, e.value)
  { s with
    primary := fun key => if key ∈ c.evicted ∨ key ∈ c.dropped then none else s.primary key
    threads := update s.threads i
      { s.threads i with
        owed := (s.threads i).owed ++ if cfg.writeBackOnEvict then evicted else [] } }

def primarySet (i : T) (key : K) (entry : Entry V) (c : Choice K) : State K V T :=
  leavePrimary cfg
    (if c.refused then s else { s with primary := update s.primary key (some entry) }) i c

/-- `primary_.del`, which runs the eviction callback for the removed item. -/
def primaryDel (i : T) (key : K) (c : Choice K) : State K V T :=
  leavePrimary cfg s i (if c.refused then c else { c with evicted := key :: c.evicted })

/-! ## Calls -/

def begin (i : T) : Op K V → State K V T
  | .mutate m =>
    { s.setCall i (.mutatePrimary m (s.begun m.key)) with
      begun := update s.begun m.key (s.begun m.key + 1)
      stage := update s.stage m.key .begun }
  | .get key => s.setCall i (.readPrimary key (s.returned key))
  | .promoteFromBackend key => s.setCall i (.probe key)

/-- The primary's part of `set` and of `del`. -/
def mutatePrimary (i : T) (m : Mutation K V) (index : Nat) (c : Choice K) : State K V T :=
  let t := match m.value with
    | some value => s.primarySet cfg i m.key ⟨value, .client⟩ c
    | none => s.primaryDel cfg i m.key c
  { t with applied := update s.applied m.key (max (s.applied m.key) (index + 1)) }

def settle (i : T) (m : Mutation K V) (index : Nat) : State K V T :=
  { s.setCall i .idle with
    returned := update s.returned m.key (max (s.returned m.key) (index + 1))
    stage := update s.stage m.key (.settled m.value) }

def answer (key : K) : Answer V :=
  match s.primary key with
  | some entry => .value entry
  | none => .miss

/-- Where a step that changes nothing but its thread leads, or nothing if the thread has to
wait: the lookups of `get` and of `promote_from_backend`, the verdict of the circuit
breaker and the query itself. -/
def nextCall (c : Choice K) : Call K V → Option (Call K V)
  | .readPrimary key since =>
    if (s.primary key).isSome || !cfg.readThrough then some .idle else some (.lookup key since)
  | .lookup key since =>
    match s.inflight key with
    | some query => some (.follow key since query)
    | none => some (.race key since)
  | .follow key since query =>
    if (s.futures query).isSome then some (.reread key since query) else none
  | .reread key since query => some (.followed key since query (s.answer key))
  | .followed _ _ _ _ => some .idle
  | .allowRequest key since query =>
    if c.allowed then some (.fetch key since query)
    else some (.leave key since query .rejected .miss)
  | .fetch key since query =>
    if c.throws then some (.leave key since query .threw .exception)
    else
      match s.store.backend key with
      | some value => some (.promote key since query value (s.begun key))
      | none => some (.leave key since query .missing .miss)
  | .readBack key since query value => some (.leave key since query (.found value) (s.answer key))
  | .probe key => if (s.primary key).isSome then some .idle else some (.pull key)
  | .pull key =>
    if c.throws then some .idle
    else
      match s.store.backend key with
      | some value => some (.push key value (s.begun key))
      | none => some .idle
  | _ => none

def raceForLeader (i : T) (key : K) (since : Nat) : State K V T :=
  match s.inflight key with
  | some query => s.setCall i (.follow key since query)
  | none =>
    { s.setCall i (.allowRequest key since s.nextQuery) with
      inflight := update s.inflight key (some s.nextQuery)
      nextQuery := s.nextQuery + 1 }

/-- The next step of a call, or nothing if the thread has to wait. -/
def proceed (i : T) (c : Choice K) : Call K V → Option (State K V T)
  | .mutatePrimary m index =>
    let t := s.mutatePrimary cfg i m index c
    -- Without write-back a `set` is over; a `del` always goes on to the backend.
    if m.value.isSome && !cfg.writeBackOnEvict then some (t.settle i m index)
    else some (t.setCall i (.claim m index))
  | .claim m index =>
    (s.store.claim m.key).map fun store =>
      { s.setCall i (.mutateBackend m index) with
        store := store
        stage := update s.stage m.key (.claimed m.value) }
  | .mutateBackend m index => some { s.settle i m index with store := s.store.put m.key m.value }
  | .race key since => some (s.raceForLeader i key since)
  | .promote key since query value stamp =>
    some ((s.primarySet cfg i key ⟨value, .fetched stamp⟩ c).setCall i
      (.readBack key since query value))
  | .leave key since query outcome answer =>
    some
      { s.setCall i (.fulfil key since query outcome answer) with
        inflight := update s.inflight key none }
  | .fulfil _ _ query outcome _ =>
    some
      { s.setCall i .idle with futures := update s.futures query (some outcome) }
  | .push key value stamp =>
    some ((s.primarySet cfg i key ⟨value, .fetched stamp⟩ c).setCall i .idle)
  | call => (s.nextCall cfg c call).map (s.setCall i)

def step : Label K V T → Option (State K V T)
  | .call i op =>
    if (s.threads i).isIdle then some (s.begin i op) else none
  | .advance i c =>
    if (s.threads i).owed = [] then s.proceed cfg i c (s.threads i).call else none
  | .evict i c =>
    if (s.threads i).isIdle then some (s.leavePrimary cfg i c) else none
  | .deliver i =>
    match (s.threads i).owed with
    | [] => none
    | (key, value) :: rest =>
      some
        { s.setThread i { s.threads i with owed := rest } with
          store := s.store.onEvict cfg key value }
  | .worker throws => some { s with store := s.store.workerStep throws }

/-- Nothing is queued, recorded or fetched, and no thread is in a call. The two stores may
hold anything. -/
structure Initial : Prop where
  queue : s.store.writebackQueue = []
  keys : s.store.writebackKeys = fun _ => none
  worker : s.store.worker = .draining []
  inflight : s.inflight = fun _ => none
  futures : s.futures = fun _ => none
  threads : s.threads = fun _ => {}
  returned : s.returned = fun _ => 0
  stage : s.stage = fun _ => .untouched
  origin : ∀ key entry, s.primary key = some entry → entry.origin = .client

/-! ## Changes of the primary -/

/-- `t` differs from `s` at most in the primary, in what the threads owe and in the counts of
applied mutations. -/
structure ChangesPrimary (s t : State K V T) : Prop where
  store : t.store = s.store
  futures : t.futures = s.futures
  nextQuery : t.nextQuery = s.nextQuery
  inflight : t.inflight = s.inflight
  returned : t.returned = s.returned
  stage : t.stage = s.stage
  calls : ∀ j, (t.threads j).call = (s.threads j).call

theorem leavePrimary_changes (s : State K V T) (i : T) (c : Choice K) :
    ChangesPrimary s (s.leavePrimary cfg i c) := by
  refine ⟨rfl, rfl, rfl, rfl, rfl, rfl, fun j => ?_⟩
  by_cases same : j = i
  · subst same
    simp [leavePrimary]
  · simp [leavePrimary, same]

theorem primarySet_changes (s : State K V T) (i : T) (key : K) (entry : Entry V) (c : Choice K) :
    ChangesPrimary s (s.primarySet cfg i key entry c) := by
  rw [primarySet]
  split
  · exact leavePrimary_changes cfg s i c
  · obtain ⟨store, futures, nextQuery, inflight, returned, stage, calls⟩ := leavePrimary_changes cfg
      { s with primary := update s.primary key (some entry) } i c
    exact ⟨store, futures, nextQuery, inflight, returned, stage, calls⟩

theorem mutatePrimary_changes {s : State K V T} {i : T} {m : Mutation K V} {index : Nat}
    {c : Choice K} : ChangesPrimary s (s.mutatePrimary cfg i m index c) := by
  rw [mutatePrimary]
  cases m.value with
  | some value =>
    obtain ⟨store, futures, nextQuery, inflight, returned, stage, calls⟩ :=
      primarySet_changes cfg s i m.key ⟨value, .client⟩ c
    exact ⟨store, futures, nextQuery, inflight, returned, stage, calls⟩
  | none =>
    obtain ⟨store, futures, nextQuery, inflight, returned, stage, calls⟩ :=
      leavePrimary_changes cfg s i
        (if c.refused then c else { c with evicted := m.key :: c.evicted })
    exact ⟨store, futures, nextQuery, inflight, returned, stage, calls⟩

end State

end Lru.Tiered
