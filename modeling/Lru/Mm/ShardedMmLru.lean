import Lru.Mm.Strategy

/-!
# `sharded_mm_lru`

An array of `mm_lru` objects. The hash of a key selects the shard that holds it,
and every operation on a key runs on that shard alone. The object keeps the
limits it has distributed, and a callback manager of its own next to those of the
shards.
-/

namespace Lru.Mm

variable {K V : Type} {n : Nat} {i : Fin n}

open State

structure ShardedMmLru (K V : Type) (n : Nat) where
  shards : Fin n → State K V
  maxSize : Nat := unlimited
  maxMemory : Nat := unlimited
  mixShardHash : Bool := true
  /-- `unified_callbacks_`: the registered kinds, and what it has collected itself. -/
  callbacks : Callbacks := {}
  events : List (Event K V) := []

namespace ShardedMmLru

def splitmix (hash : Nat) : Nat :=
  let z := UInt64.ofNat hash + 0x9e3779b97f4a7c15
  let z := (z ^^^ (z >>> 30)) * 0xbf58476d1ce4e5b9
  let z := (z ^^^ (z >>> 27)) * 0x94d049bb133111eb
  (z ^^^ (z >>> 31)).toNat

section Access

variable (env : Env K V) (m : ShardedMmLru K V n)

def shardForHash [NeZero n] (hash : Nat) : Fin n :=
  Fin.ofNat n (if m.mixShardHash then splitmix hash else hash)

def shardFor [NeZero n] (key : K) : Fin n := m.shardForHash (env.hash key)

def modifyShard (i : Fin n) (f : State K V → State K V) : ShardedMmLru K V n :=
  { m with shards := Function.update m.shards i (f (m.shards i)) }

def sumShards (f : State K V → Nat) : Nat :=
  (List.finRange n).foldl (fun total i => SizeT.fetchAdd total (f (m.shards i))) 0

/-- `size()` adds up the counters of the shards. -/
def size : Nat := m.sumShards fun s => s.stats.currentSize

def currentMemory : Nat := m.sumShards fun s => s.stats.currentMemory

/-- Collect an event in the manager of the object itself. -/
def collect (e : Event K V) : ShardedMmLru K V n :=
  if m.callbacks.has e then { m with events := m.events ++ [e] } else m

end Access

section Operations

variable [DecidableEq K] [NeZero n] (env : Env K V) (m : ShardedMmLru K V n)

def set (key : K) (value : V) (sec : Nat) : ShardedMmLru K V n :=
  m.modifyShard (m.shardFor env key) fun s => (MmLru.policy env).set env s key value sec

def forceDel (key : K) : ShardedMmLru K V n :=
  m.modifyShard (m.shardFor env key) fun s => ((MmLru.policy env).forceDel env s key).2

/-- The quota that `evict_lru` compares the shards with. -/
def perShardQuota : Nat := if m.maxSize = unlimited then unlimited else m.maxSize / n

/-- One round of the search for the shard to evict from: a shard above the quota goes
before the others, then a larger one before a smaller one. -/
def betterShard (best : Option (Fin n × Nat × Bool)) (i : Fin n) : Option (Fin n × Nat × Bool) :=
  let size := (m.shards i).stats.currentSize
  if size = 0 then best
  else
    let overQuota : Bool := m.perShardQuota ≠ unlimited && m.perShardQuota < size
    match best with
    | none => some (i, size, overQuota)
    | some (_, bestSize, bestOverQuota) =>
      if (overQuota && !bestOverQuota) || (overQuota == bestOverQuota && bestSize < size) then
        some (i, size, overQuota)
      else best

def bestShard : Option (Fin n) := ((List.finRange n).foldl m.betterShard none).map Prod.fst

/-- `evict_lru`. The lock of a shard that the caller holds cannot be taken again. -/
def evictLru (held : Option (Fin n)) : Bool × ShardedMmLru K V n :=
  match m.bestShard with
  | none => (false, m.modifyShard 0 noteEvictionFailed)
  | some i =>
    if held = some i then (false, m.modifyShard i noteEvictionFailed)
    else
      let after := m.modifyShard i (MmLru.evictLru env)
      if (m.shards i).stats.currentSize ≤ (after.shards i).stats.currentSize then
        (false, after.modifyShard i noteEvictionFailed)
      else (true, after)

end Operations

/-! ## Sizes -/

section Sizes

variable {m : ShardedMmLru K V n}

@[simp]
theorem modifyShard_same (f : State K V → State K V) :
    (m.modifyShard i f).shards i = f (m.shards i) := by
  simp [modifyShard]

theorem modifyShard_of_ne {j : Fin n} (f : State K V → State K V)
    (other : j ≠ i) : (m.modifyShard i f).shards j = m.shards j :=
  Function.update_of_ne other _ _

@[simp]
theorem collect_shards {e : Event K V} : (m.collect e).shards = m.shards := by
  rw [collect]
  split <;> rfl

/-- The wrapped sum is at most the sum of bounds of the terms. -/
theorem sumShards_le {f : State K V → Nat} {bound : Fin n → Nat}
    (le : ∀ i, f (m.shards i) ≤ bound i) :
    m.sumShards f ≤ ((List.finRange n).map bound).sum := by
  have general : ∀ (l : List (Fin n)) (total : Nat),
      l.foldl (fun total i => SizeT.fetchAdd total (f (m.shards i))) total ≤
        total + (l.map bound).sum := by
    intro l
    induction l with
    | nil => simp
    | cons i l ih =>
      intro total
      rw [List.foldl_cons, List.map_cons, List.sum_cons]
      have wrapped : SizeT.fetchAdd total (f (m.shards i)) ≤ total + f (m.shards i) :=
        Nat.mod_le _ _
      have later := ih (SizeT.fetchAdd total (f (m.shards i)))
      have here := le i
      omega
  have all := general (List.finRange n) 0
  rw [sumShards]
  omega

end Sizes

end ShardedMmLru

end Lru.Mm
