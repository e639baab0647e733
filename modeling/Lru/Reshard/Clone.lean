import Lru.Cache.Striped
import Lru.Mm.Sequence
import Mathlib.Algebra.Order.BigOperators.Group.List
import Mathlib.Algebra.Order.Group.Nat

/-!
# `clone_and_reshard`

A new striped cache is constructed for the given number of shards, and the items of
the old one are set into it one by one. Both calls take an overload or a fallback that
they do not ask for: the constructor passes the number of shards where the capacity is
expected, and `rbegin()` of a striped cache runs over the first shard from its head.
-/

namespace Lru.Reshard

open Finset

variable {K V : Type} {m n : Nat}

open Mm (State Env ShardedMmLru Item ItemId unlimited)

/-! ## Construction -/

def kMinItemsPerShard : Nat := 2

def shardsForCapacity (requestedShards maxSize : Nat) : Nat :=
  if maxSize = unlimited then requestedShards
  else
    let shards := if maxSize < requestedShards then maxSize else requestedShards
    let byQuota := maxSize / kMinItemsPerShard
    let shards := if byQuota < shards then byQuota else shards
    if shards = 0 then 1 else shards

/-- The number of shards that `make_sharded_config_for_stripes` asks for, in the overload
with two arguments. The shards have their own locks, so their number need not be that
of the stripes. -/
def makeShardedConfigForStripes (numStripes maxSize : Nat) : Nat :=
  shardsForCapacity numStripes maxSize

/-- `distribute_max_size` without amplification: the quotas of the shards. -/
def distributeMaxSize (maxSize n : Nat) : Except String (Fin n → Nat) :=
  if maxSize = unlimited then .ok fun _ => unlimited
  else if maxSize < n then
    .error ("sharded_mm_lru: max_size (" ++ toString maxSize ++ ") < num_shards (" ++ toString n ++
      "); refusing to silently amplify capacity. Either raise max_size to >= num_shards, " ++
      "lower num_shards, or pass allow_amplification = true in sharded_mm_lru_config to " ++
      "explicitly accept the per-shard floor of 1.")
  else
    .ok fun i =>
      let quota := maxSize / n + if i < maxSize % n then 1 else 0
      if quota = 0 then 1 else quota

/-- What the call learns from outside: the memory limit that the trait sets by default (0
without one), the memory and the clock that the shards are constructed with, and what
each `set` of the copy reads. -/
structure Surroundings (K V : Type) where
  defaultMaxMemory : Nat := 0
  memory : ItemId → Item K V
  sec : Nat := 0
  calls : K → Ambient K

def newCache (o : Surroundings K V) (maxSize : Nat) (quotas : Fin n → Nat) : Striped K V n :=
  { memoryMonitor := { maxMemoryBytes := o.defaultMaxMemory }
    mm :=
      { shards := fun i => State.empty o.memory { maxSize := quotas i } {} o.sec
        maxSize := maxSize } }

/-- The constructor with three arguments. It passes `num_shards` to the parameter
`max_size` of `make_sharded_config_for_stripes`. -/
def construct (o : Surroundings K V) (maxSize numStripes numShards : Nat) :
    Except String (Striped K V (makeShardedConfigForStripes numStripes numShards)) :=
  (distributeMaxSize maxSize _).map (newCache o maxSize)

/-! ## The copy -/

/-- `rbegin()`. The strategy has only `begin()`, which runs over its first shard. -/
def rbegin [NeZero m] (mm : ShardedMmLru K V m) : List (K × V) := (mm.shards 0).sequence 0

section Copy

variable [DecidableEq K] [NeZero n] (env : Env K V) (o : Surroundings K V)

/-- One round of the loop. The new cache is open, so `set` does not throw. -/
def copyOne (c : Striped K V n) (p : K × V) : Striped K V n := (c.set env p.1 p.2 (o.calls p.1)).2

def cloneAndReshard [NeZero m] (old : Striped K V m) (newNumShards : Nat)
    [NeZero (makeShardedConfigForStripes newNumShards newNumShards)] :
    Except String (Striped K V (makeShardedConfigForStripes newNumShards newNumShards)) :=
  (construct o old.mm.maxSize newNumShards newNumShards).map
    ((rbegin old.mm).foldl (copyOne env o))

end Copy

/-! ## The new shards -/

theorem shardsForCapacity_self (finite : n ≠ unlimited) :
    shardsForCapacity n n = max 1 (n / 2) := by
  have halved : n / 2 ≤ n := Nat.div_le_self n 2
  simp only [shardsForCapacity, kMinItemsPerShard, if_neg finite, if_neg (lt_irrefl n)]
  split_ifs <;> omega

instance [NeZero n] : NeZero (makeShardedConfigForStripes n n) := by
  refine ⟨?_⟩
  rw [makeShardedConfigForStripes]
  by_cases endless : n = unlimited
  · rw [shardsForCapacity, if_pos endless]
    exact NeZero.ne n
  · rw [shardsForCapacity_self endless]
    exact ne_of_gt (lt_of_lt_of_le Nat.zero_lt_one (le_max_left _ _))

theorem sum_quotas (a : Nat) {r : Nat} (small : r ≤ n) :
    ((List.finRange n).map fun i => a + if i.val < r then 1 else 0).sum = n * a + r := by
  rw [← Fin.sum_univ_def, Fin.sum_univ_eq_sum_range (fun i => a + if i < r then 1 else 0) n,
    sum_add_distrib, sum_const, card_range, smul_eq_mul,
    ← card_filter]
  have below : (range n).filter (· < r) = range r := by
    ext i
    simp
    omega
  rw [below, card_range]

/-- The quotas of a new cache: every shard takes an item, and a single one only if the
whole cache does. -/
structure Distributed (maxSize : Nat) (quotas : Fin n → Nat) : Prop where
  pos : ∀ i, 0 < quotas i
  one_iff : ∀ i, quotas i = 1 ↔ maxSize = 1
  finite : maxSize ≠ unlimited → ∀ i, quotas i ≠ unlimited
  sum_le : maxSize ≠ unlimited → ((List.finRange n).map quotas).sum ≤ maxSize

/-- At most as many shards as items are asked for, so the constructor succeeds. -/
theorem distributeMaxSize_ok [NeZero n] {maxSize : Nat} (within : n ≤ maxSize)
    (sized : maxSize ≤ unlimited) :
    ∃ quotas, distributeMaxSize maxSize (makeShardedConfigForStripes n n) = .ok quotas ∧
      Distributed maxSize quotas := by
  have positive : 0 < n := pos_of_ne_zero (NeZero.ne n)
  by_cases endless : maxSize = unlimited
  · have many : unlimited ≠ 1 := by decide
    refine ⟨fun _ => unlimited, if_pos endless, fun _ => by decide, fun _ => ?_, ?_, ?_⟩
    · rw [endless]
    · exact absurd endless
    · exact absurd endless
  · have bounded : n ≠ unlimited := by omega
    have shards : makeShardedConfigForStripes n n = max 1 (n / 2) := shardsForCapacity_self bounded
    rw [shards]
    have few : max 1 (n / 2) ≤ maxSize := by omega
    have halved : max 1 (n / 2) = 1 ∨ 2 * max 1 (n / 2) ≤ maxSize := by omega
    have some : 0 < max 1 (n / 2) := lt_of_lt_of_le Nat.zero_lt_one (le_max_left _ _)
    generalize max 1 (n / 2) = shards at few halved some
    have share : 0 < maxSize / shards := Nat.div_pos few some
    have sum := sum_quotas (maxSize / shards) (Nat.mod_lt maxSize some).le
    rw [Nat.div_add_mod] at sum
    refine ⟨fun i => maxSize / shards + if i.val < maxSize % shards then 1 else 0,
      ?_, ?_, ?_, ?_, ?_⟩
    · rw [distributeMaxSize, if_neg endless, if_neg (not_lt.mpr few)]
      refine congrArg Except.ok (funext fun i => if_neg ?_)
      omega
    · intro i
      omega
    · intro i
      obtain rfl | halved := halved
      · simp [Nat.mod_one]
      · have two : 2 ≤ maxSize / shards := (Nat.le_div_iff_mul_le some).mpr halved
        omega
    · intro _ i
      have mem := List.mem_map_of_mem (f := fun i : Fin shards =>
        maxSize / shards + if i.val < maxSize % shards then 1 else 0) (List.mem_finRange i)
      have le := List.single_le_sum (fun _ _ => Nat.zero_le _) _ mem
      omega
    · intro _
      exact sum.le

end Lru.Reshard
