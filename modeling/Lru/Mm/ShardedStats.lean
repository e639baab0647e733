import Lru.Mm.Flush
import Mathlib.Algebra.BigOperators.ModEq

/-!
# Statistics of `sharded_mm_lru`

Every shard keeps its own statistics, and `stats` adds them up. The diagnostics of a hash
table are copied into the statistics of its shard by `refresh_hash_stats` and `flush`;
the object then writes the aggregate of all copies over the copy of the first shard.
Next to every shard stands what its own operations have made of it.
-/

namespace Lru.Mm

variable {K V : Type} {n : Nat}

open State SizeT Strategy Option Function

/-- The counters that the waiting, searching and draining code adds to. -/
inductive Tally where
  | writeLockWaitCount
  | readLockWaitCount
  | tryLockFailCount
  | evictionSearchSteps
  | pinnedSkipCount
  | evictionsExplicit
  | ttlCleanupBacklog
  | incRefOverflowCount
  | stampedeCoalescedCount
  | tlsRingFlushCount
  | tlsRingDroppedPromotions
  deriving DecidableEq, Repr

/-- The counters of `cache_stats` that a shard writes. -/
inductive Counter where
  | hits
  | misses
  | insertions
  | evictions
  | currentSize
  | currentMemory
  | evictionFailed
  | evictionsCapacity
  | evictionsTtl
  | ttlExpiredCount
  | ttlCheckedCount
  | rehashCount
  | rehashTotalTimeNs
  | rehashMigratedItems
  | hashOverloadEvents
  | tally (t : Tally)
  deriving DecidableEq, Repr

/-- A shard with its statistics: `state.stats`, which end with the diagnostics that the shard
has copied itself, what stands in the place of that copy now, and the remaining counters. -/
structure Shard (K V : Type) where
  state : State K V
  hashStats : HashStats := {}
  tallies : Tally → Nat := fun _ => 0

namespace Shard

def counter (s : Shard K V) : Counter → Nat
  | .hits => s.state.stats.hits
  | .misses => s.state.stats.misses
  | .insertions => s.state.stats.insertions
  | .evictions => s.state.stats.evictions
  | .currentSize => s.state.stats.currentSize
  | .currentMemory => s.state.stats.currentMemory
  | .evictionFailed => s.state.stats.evictionFailed
  | .evictionsCapacity => s.state.stats.evictionsCapacity
  | .evictionsTtl => s.state.stats.evictionsTtl
  | .ttlExpiredCount => s.state.stats.ttlExpiredCount
  | .ttlCheckedCount => s.state.stats.ttlCheckedCount
  | .rehashCount => s.hashStats.rehashCount
  | .rehashTotalTimeNs => s.hashStats.rehashTotalTimeNs
  | .rehashMigratedItems => s.hashStats.rehashMigratedItems
  | .hashOverloadEvents => s.hashStats.overloadEvents
  | .tally t => s.tallies t

/-- The shard in a state that has just copied the diagnostics of its table. -/
def copied (s : Shard K V) (t : State K V) : Shard K V :=
  { s with state := t, hashStats := t.stats.hash }

def refreshHashStats (s : Shard K V) : Shard K V := s.copied s.state.refreshHashStats

def flush [DecidableEq K] (env : Env K V) (s : Shard K V) : Shard K V :=
  s.copied ((MmLru.policy env).flush env s.state)

inductive Op (K V : Type) where
  /-- A call of the strategy. -/
  | call (op : Mm.Op K V)
  | refreshHashStats
  | add (t : Tally) (count : Nat)
  | store (t : Tally) (value : Nat)

def Op.writes (t : Tally) : Op K V → Bool
  | .add u _ | .store u _ => u = t
  | _ => false

/-- The shard after an operation of its own. -/
def step [DecidableEq K] (env : Env K V) (s : Shard K V) : Op K V → Option (Shard K V)
  | .call .flush => some (s.flush env)
  | .call op => (Strategy.mmLru.step env s.state op).map fun t => { s with state := t }
  | .refreshHashStats => some s.refreshHashStats
  | .add t count => some { s with
      tallies := update s.tallies t (SizeT.fetchAdd (s.tallies t) count) }
  | .store t value => some { s with tallies := update s.tallies t value }

theorem step_call [DecidableEq K] {env : Env K V} {s : Shard K V} {op : Mm.Op K V}
    (other : op ≠ .flush) : s.step env (.call op) =
      (Strategy.mmLru.step env s.state op).map fun t => { s with state := t } := by
  cases op <;> first | rfl | exact absurd rfl other

end Shard

/-! ## The object -/

/-- The shards, each with what its own operations alone have made of it. -/
structure ShardedStats (K V : Type) (n : Nat) where
  shards : Fin n → Shard K V
  own : Fin n → Shard K V
  maxSize : Nat := unlimited
  maxMemory : Nat := unlimited

structure Snapshot where
  maxSize : Nat
  maxMemory : Nat
  counter : Counter → Nat
  hashLoadFactor : Rat
  maxChainLength : Nat
  hashOverloadThreshold : Rat

namespace ShardedStats

def floatMax : Rat := 2 ^ 128 - 2 ^ 104

section Statistics

variable (m : ShardedStats K V n)

def total (shards : Fin n → Shard K V) (c : Counter) : Nat :=
  (List.finRange n).foldl (fun sum i => SizeT.fetchAdd sum ((shards i).counter c)) 0

/-- `stats`. The count of waits for a read lock is not among the sums. -/
def stats : Snapshot where
  maxSize := m.maxSize
  maxMemory := m.maxMemory
  counter
    | .tally .readLockWaitCount => 0
    | c => total m.shards c
  hashLoadFactor := (List.finRange n).foldl (fun x i => max x (m.shards i).hashStats.loadFactor) 0
  maxChainLength :=
    (List.finRange n).foldl (fun x i => max x (m.shards i).hashStats.maxChainLength) 0
  hashOverloadThreshold :=
    ((List.finRange n).foldl (fun (least : Option Rat) i =>
      let threshold := (m.shards i).hashStats.overloadThreshold
      match least with
      | none => some threshold
      | some x => some (if threshold < x then threshold else x)) none).getD 0

/-- The smallest positive threshold in `aggregate_hash_stats_internal`. -/
def strictestThreshold : Rat × Bool :=
  (List.finRange n).foldl (fun (strictest : Rat × Bool) i =>
    let threshold := (m.shards i).hashStats.overloadThreshold
    if 0 < threshold then (if threshold < strictest.1 then threshold else strictest.1, true)
    else strictest) (floatMax, false)

def aggregateHashStatsInternal [NeZero n] : ShardedStats K V n :=
  let first := m.shards 0
  let aggregate : HashStats :=
    { first.hashStats with
      loadFactor := (List.finRange n).foldl (fun x i => max x (m.shards i).hashStats.loadFactor) 0
      maxChainLength :=
        (List.finRange n).foldl (fun x i => max x (m.shards i).hashStats.maxChainLength) 0
      overloadEvents := total m.shards .hashOverloadEvents
      overloadThreshold := if m.strictestThreshold.2 then m.strictestThreshold.1
        else first.hashStats.overloadThreshold }
  { m with shards := update m.shards 0 { first with hashStats := aggregate } }

end Statistics

section Operations

variable [DecidableEq K] [NeZero n] (env : Env K V) (m : ShardedStats K V n)

def refreshHashStats : ShardedStats K V n :=
  aggregateHashStatsInternal
    { m with
      shards := fun i => (m.shards i).refreshHashStats
      own := fun i => (m.own i).refreshHashStats }

def flush : ShardedStats K V n :=
  aggregateHashStatsInternal
    { m with
      shards := fun i => (m.shards i).flush env
      own := fun i => (m.own i).flush env }

inductive Step (K V : Type) (n : Nat) where
  /-- An operation of one shard. -/
  | own (i : Fin n) (op : Shard.Op K V)
  | refreshHashStats
  | flush
  | stats

def step : Step K V n → Option (ShardedStats K V n)
  | .own i op => do
      let shard ← (m.shards i).step env op
      let own ← (m.own i).step env op
      return { m with
        shards := update m.shards i shard, own := update m.own i own }
  | .refreshHashStats => some m.refreshHashStats
  | .flush => some (m.flush env)
  | .stats => some m

end Operations

/-! ## Agreement with the shards' own counters -/

/-- The aggregate says what the shards have counted themselves. -/
def Truthful (m : ShardedStats K V n) : Prop := ∀ c, m.stats.counter c = total m.own c

/-- Two shards that differ in the gauges of the statistics at most. -/
structure Alike (a b : Shard K V) : Prop where
  state_eq : a.state = b.state
  tallies_eq : a.tallies = b.tallies
  rehashCount_eq : a.hashStats.rehashCount = b.hashStats.rehashCount
  rehashTotalTimeNs_eq : a.hashStats.rehashTotalTimeNs = b.hashStats.rehashTotalTimeNs
  rehashMigratedItems_eq : a.hashStats.rehashMigratedItems = b.hashStats.rehashMigratedItems
  overloadEvents_eq : a.hashStats.overloadEvents ≡ b.hashStats.overloadEvents [MOD SizeT.range]

/-- No wait for a read lock has been counted, and every shard is like its own. -/
structure Unmixed (m : ShardedStats K V n) : Prop where
  alike : ∀ i, Alike (m.shards i) (m.own i)
  unwaited : ∀ i, (m.own i).tallies .readLockWaitCount = 0

theorem Alike.counter_eq {a b : Shard K V} (h : Alike a b) (c : Counter) :
    a.counter c ≡ b.counter c [MOD range] := by
  cases c with
  | hashOverloadEvents => exact h.overloadEvents_eq
  | rehashCount => exact congrArg (· % _) h.rehashCount_eq
  | rehashTotalTimeNs => exact congrArg (· % _) h.rehashTotalTimeNs_eq
  | rehashMigratedItems => exact congrArg (· % _) h.rehashMigratedItems_eq
  | tally t => exact congrArg (fun f : Tally → Nat => f t % _) h.tallies_eq
  | _ => simp only [Nat.ModEq, Shard.counter, h.state_eq]

theorem total_eq (shards : Fin n → Shard K V) (c : Counter) :
    total shards c = (∑ i, (shards i).counter c) % range :=
  foldl_finRange_fetchAdd fun i => (shards i).counter c

variable {m : ShardedStats K V n}

theorem Unmixed.truthful (h : Unmixed m) : m.Truthful := by
  intro c
  by_cases waits : c = .tally .readLockWaitCount
  · subst waits
    have zero : ∀ i, (m.own i).counter (.tally .readLockWaitCount) = 0 := h.unwaited
    rw [total_eq]
    simp [stats, zero]
  · have sum : m.stats.counter c = total m.shards c := by
      cases c with
      | tally t => cases t <;> first | rfl | exact absurd rfl waits
      | _ => rfl
    rw [sum, total_eq, total_eq]
    exact Nat.ModEq.sum fun i _ => (h.alike i).counter_eq c

/-- Where only the first shard has overload events, writing their sum over its count
changes nothing. -/
theorem aggregate_unmixed [NeZero n] (h : Unmixed m)
    (single : ∀ i, i ≠ 0 → (m.shards i).hashStats.overloadEvents = 0) :
    Unmixed m.aggregateHashStatsInternal := by
  have sum : total m.shards .hashOverloadEvents ≡ (m.shards 0).hashStats.overloadEvents
      [MOD range] := by
    rw [total_eq]
    refine (Nat.mod_modEq _ _).trans (congrArg (· % _) ?_)
    exact Finset.sum_eq_single 0 (fun i _ other => single i other)
      (absurd (Finset.mem_univ _))
  refine ⟨fun i => ?_, h.unwaited⟩
  by_cases first : i = 0
  · subst first
    have alike := h.alike 0
    exact { alike with overloadEvents_eq := sum.trans alike.overloadEvents_eq }
  · simp only [aggregateHashStatsInternal, update_of_ne first]
    exact h.alike i

theorem Alike.copied {a b : Shard K V} (h : Alike a b) (t : State K V) :
    Alike (a.copied t) (b.copied t) where
  state_eq := rfl
  tallies_eq := h.tallies_eq
  rehashCount_eq := rfl
  rehashTotalTimeNs_eq := rfl
  rehashMigratedItems_eq := rfl
  overloadEvents_eq := rfl

theorem Alike.refresh {a b : Shard K V} (h : Alike a b) :
    Alike a.refreshHashStats b.refreshHashStats := by
  rw [Shard.refreshHashStats, h.state_eq]
  exact h.copied _

variable [DecidableEq K] {env : Env K V}

theorem Alike.flush {a b : Shard K V} (h : Alike a b) : Alike (a.flush env) (b.flush env) := by
  rw [Shard.flush, h.state_eq]
  exact h.copied _

/-- An operation of a shard does not read the statistics. -/
theorem Alike.step {a b a' b' : Shard K V} {op : Shard.Op K V} (h : Alike a b)
    (left : a.step env op = some a') (right : b.step env op = some b') : Alike a' b' := by
  cases op with
  | call op =>
    obtain rfl | other := em (op = .flush)
    · cases left
      cases right
      exact h.flush
    · simp only [Shard.step_call other, map_eq_some_iff, h.state_eq] at left right
      obtain ⟨t, taken, rfl⟩ := left
      obtain ⟨u, same, rfl⟩ := right
      cases taken.symm.trans same
      exact { h with state_eq := rfl }
  | refreshHashStats =>
    cases left
    cases right
    exact h.refresh
  | add | store =>
    cases left
    cases right
    exact { h with tallies_eq := by simp only [h.tallies_eq] }

theorem tallies_of_not_writes {a b : Shard K V} {op : Shard.Op K V} {t : Tally}
    (other : op.writes t = false) (taken : a.step env op = some b) :
    b.tallies t = a.tallies t := by
  cases op with
  | call op =>
    obtain rfl | other := em (op = .flush)
    · cases taken
      rfl
    · simp only [Shard.step_call other, map_eq_some_iff] at taken
      obtain ⟨_, -, rfl⟩ := taken
      rfl
  | refreshHashStats =>
    cases taken
    rfl
  | add u count | store u value =>
    cases taken
    exact update_of_ne (fun same => by simp [Shard.Op.writes, same] at other) _ _

section Runs

variable [NeZero n]

/-- At an aggregation no shard but the first has had an overload event, and no wait for a
read lock is counted. -/
def CountsApart (m : ShardedStats K V n) : Step K V n → Prop
  | .own _ op => op.writes .readLockWaitCount = false
  | .refreshHashStats | .flush =>
    ∀ i, i ≠ 0 → (m.shards i).state.hashTable.counters.overloadEvents = 0
  | .stats => True

instance (m : ShardedStats K V n) : (a : Step K V n) → Decidable (m.CountsApart a)
  | .own _ op => inferInstanceAs (Decidable (op.writes .readLockWaitCount = false))
  | .refreshHashStats | .flush => inferInstanceAs
    (Decidable (∀ i, i ≠ 0 → (m.shards i).state.hashTable.counters.overloadEvents = 0))
  | .stats => inferInstanceAs (Decidable True)

theorem step_unmixed {t : ShardedStats K V n} {a : Step K V n} (h : Unmixed m)
    (apart : m.CountsApart a) (taken : m.step env a = some t) : Unmixed t := by
  cases a with
  | own i op =>
    simp only [step, bind_eq_bind, bind_eq_some_iff, pure_def, some.injEq] at taken
    obtain ⟨shard, left, own, right, rfl⟩ := taken
    refine ⟨fun j => ?_, fun j => ?_⟩
    · by_cases same : j = i
      · subst same
        simpa using (h.alike j).step left right
      · simpa [same] using h.alike j
    · by_cases same : j = i
      · subst same
        simpa using (tallies_of_not_writes apart right).trans (h.unwaited j)
      · simpa [same] using h.unwaited j
  | refreshHashStats =>
    cases taken
    exact aggregate_unmixed ⟨fun i => (h.alike i).refresh, h.unwaited⟩ apart
  | flush =>
    cases taken
    refine aggregate_unmixed ⟨fun i => (h.alike i).flush, h.unwaited⟩ fun i other => ?_
    obtain ⟨nodes, copied⟩ : ∃ nodes, ((m.shards i).flush env).hashStats =
        (m.shards i).state.hashTable.report nodes := mmLru.flushParts.flush_hash
    exact (congrArg HashStats.overloadEvents copied).trans (apart i other)
  | stats =>
    cases taken
    exact h

def start (memory : Fin n → ItemId → Item K V) (settings : Fin n → Settings K V) (sec : Nat)
    (maxSize maxMemory : Nat) : ShardedStats K V n where
  shards i := { state := State.empty (memory i) (settings i) {} sec }
  own i := { state := State.empty (memory i) (settings i) {} sec }
  maxSize := maxSize
  maxMemory := maxMemory

/-- In a run in which overload events outside the first shard never meet an aggregation,
and no wait for a read lock is counted, every counter of the aggregate is the sum of the
shards' own. -/
theorem stats_truthful (env : Env K V) (memory : Fin n → ItemId → Item K V)
    (settings : Fin n → Settings K V) (sec maxSize maxMemory : Nat) {m : ShardedStats K V n}
    (reached : Transition.Reaches (step env) CountsApart
      (start memory settings sec maxSize maxMemory) m) : m.Truthful := by
  refine (reached.invariant ?_ fun s a t => step_unmixed).truthful
  exact ⟨fun i => ⟨rfl, rfl, rfl, rfl, rfl, rfl⟩, fun _ => rfl⟩

end Runs

def pair : ShardedStats Nat Nat 2 := start (fun _ _ => default) (fun _ => {}) 0 unlimited unlimited

/-- Overload events of the first shard are counted once, however often they are
aggregated. -/
theorem first_shard_truthful : ∃ m, Transition.Reaches (step intEnv) CountsApart pair m ∧
    m.stats.counter .hashOverloadEvents = 3 ∧ m.Truthful := by
  have executed : (Transition.runWhere (step intEnv) (fun m a => decide (m.CountsApart a))
      pair [.own 0 (.call (.rehash id { counters := { overloadEvents := 3 } })), .refreshHashStats,
        .own 1 (.call (.set 1 10 0)), .flush]).map
        (fun m => m.stats.counter .hashOverloadEvents) = some 3 := by
    decide +kernel
  obtain ⟨m, ran, counted⟩ := map_eq_some_iff.mp executed
  have reached :=
    (Transition.Reaches.of_runWhere ran).weaken fun _ _ apart => of_decide_eq_true apart
  exact ⟨m, reached, counted, stats_truthful _ _ _ _ _ _ reached⟩

/-- One overload event of the second shard is counted twice after a `flush`, and a wait for
a read lock not at all. -/
theorem second_shard_counted_twice :
    (Transition.run (step intEnv) pair
        [.own 1 (.call (.rehash id { counters := { overloadEvents := 1 } })), .flush]).map (fun m =>
          (m.stats.counter .hashOverloadEvents, total m.own .hashOverloadEvents)) = some (2, 1) ∧
    (Transition.run (step intEnv) pair [.own 1 (.add .readLockWaitCount 1)]).map (fun m =>
      (m.stats.counter (.tally .readLockWaitCount), total m.own (.tally .readLockWaitCount))) =
        some (0, 1) := by
  decide +kernel

end ShardedStats

end Lru.Mm
