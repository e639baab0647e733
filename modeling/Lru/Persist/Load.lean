import Lru.Cache.Unified
import Lru.Persist.Loaded

/-!
# `load` and `load_per_shard`

A plain cache parses the bytes and rebuilds its strategy object. A striped one reads a
header of its own and then one snapshot for each shard, and rebuilds shard after shard;
nothing looks at the hash of a key. The compact traits have no branch for either, so
they load into the strategy object behind the store.
-/

namespace Lru.Persist

open Mm State Binary Serde List ShardedMmLru

variable {K V : Type} {n : Nat}

/-! ## The sharded format -/

section Parsing

variable (keys : Codec K) (values : Codec V)

def readSpan : Reader (List UInt8) := do
  let len ← readU32 endOfData
  takeBytes "binary_reader: span exceeds data bounds" len.toNat

/-- The part of `parse_sharded_serialized_data` that reads the header, up to the number of
shards that it declares. -/
def readShardedHeader (data : List UInt8) : Reader UInt32 := do
  let magic ← readU32 endOfData
  require (magic = kSerializationMagic) "sharded_mm_lru deserialize: invalid magic number"
  let version ← readU32 endOfData
  require (version = kSerializationVersion) ("sharded_mm_lru deserialize: unsupported version " ++
    toString version ++ " (only version " ++ toString kSerializationVersion ++ " is supported)")
  let numShards ← readU32 endOfData
  let _mmType ← readU32 endOfData
  let headerSize ← readU32 endOfData
  require (kV5HeaderSize.toNat ≤ headerSize.toNat ∧ headerSize.toNat ≤ data.length)
    "sharded_mm_lru deserialize: invalid header_size"
  let _flags ← readU32 endOfData
  let _featureFlags ← readU64 endOfData
  let checksum ← readU32 endOfData
  require (crc32 (data.drop headerSize.toNat) = checksum)
    "sharded_mm_lru deserialize: header checksum mismatch"
  pure numShards

/-- One round of the loop of `parse_sharded_serialized_data`. -/
def readShard : Reader (ParsedData K V) := do
  let span ← readSpan
  StateT.lift (parseSerializedData keys values .lru span)

def parseShardedSerializedData (data : List UInt8) : Except String (List (ParsedData K V)) := do
  let (numShards, payload) ← (readShardedHeader data).run data
  let (parsed, _) ← (many (readShard keys values) numShards.toNat).run payload
  pure parsed

end Parsing

/-! ## Rebuilding the shards -/

section Rebuild

variable [DecidableEq K] (env : Env K V)

/-- The loop over the shards and their data. -/
def rebuildShards (sec : Nat) :
    List (Fin n × ParsedData K V) → ShardedMmLru K V n → Outcome (ShardedMmLru K V n)
  | [], m => .returned m
  | (i, parsed) :: rest, m =>
    match rebuildFromParsed env .mmLru (m.shards i) parsed sec with
    | .returned s => rebuildShards sec rest (m.modifyShard i fun _ => s)
    | .threw message s => .threw message (m.modifyShard i fun _ => s)
    | .undefined => .undefined

/-- `rebuild_sharded_from_parsed`, with what it says to another number of shards. -/
def rebuildShardedFromParsed (mismatch : String) (m : ShardedMmLru K V n)
    (parsed : List (ParsedData K V)) (sec : Nat) : Outcome (ShardedMmLru K V n) :=
  if parsed.length ≠ n then .threw mismatch m
  else rebuildShards env sec ((List.finRange n).zip parsed) m

end Rebuild

/-- The items that a sharded file has for a shard. -/
def shardItems (parsed : List (ParsedData K V)) (j : Fin n) : List (SerializedItem K V) :=
  (parsed[j.val]?.getD {}).items

section Returned

variable [DecidableEq K] {env : Env K V} {sec : Nat} {m m' : ShardedMmLru K V n}
  {l : List (Fin n × ParsedData K V)}

theorem rebuildShards_cons_returned {i : Fin n} {p : ParsedData K V}
    {rest : List (Fin n × ParsedData K V)} :
    rebuildShards env sec ((i, p) :: rest) m = .returned m' ↔
      ∃ s, rebuildFromParsed env .mmLru (m.shards i) p sec = .returned s ∧
        rebuildShards env sec rest (m.modifyShard i fun _ => s) = .returned m' := by
  rw [rebuildShards]
  cases rebuildFromParsed env .mmLru (m.shards i) p sec <;> simp

/-- What the loop does to each shard, if no shard comes twice. -/
theorem rebuildShards_shards (nodup : (l.map Prod.fst).Nodup)
    (returned : rebuildShards env sec l m = .returned m') : (∀ i p, (i, p) ∈ l →
        rebuildFromParsed env .mmLru (m.shards i) p sec = .returned (m'.shards i)) ∧
      (∀ i, i ∉ l.map Prod.fst → m'.shards i = m.shards i) := by
  induction l generalizing m with
  | nil =>
    cases returned
    exact ⟨fun _ _ => nofun, fun _ _ => rfl⟩
  | cons x rest ih =>
    obtain ⟨i, p⟩ := x
    rw [map_cons, nodup_cons] at nodup
    obtain ⟨s, rebuilt, later⟩ := rebuildShards_cons_returned.mp returned
    obtain ⟨others, same⟩ := ih nodup.2 later
    refine ⟨fun j q hj => ?_, fun j hj => ?_⟩
    · obtain head | tail := mem_cons.mp hj
      · obtain ⟨rfl, rfl⟩ := Prod.mk.inj head
        rw [same j nodup.1, modifyShard_same]
        exact rebuilt
      · have other : j ≠ i := by
          rintro rfl
          exact nodup.1 (mem_map.mpr ⟨_, tail, rfl⟩)
        rw [← others j q tail, modifyShard_of_ne _ other]
    · rw [map_cons, mem_cons, not_or] at hj
      rw [same j hj.2, modifyShard_of_ne _ hj.1]

theorem rebuildShards_fields (returned : rebuildShards env sec l m = .returned m') :
    m'.mixShardHash = m.mixShardHash ∧ m'.maxSize = m.maxSize := by
  induction l generalizing m with
  | nil =>
    cases returned
    exact ⟨rfl, rfl⟩
  | cons x rest ih =>
    obtain ⟨s, -, later⟩ := rebuildShards_cons_returned.mp returned
    exact ih (m := m.modifyShard x.1 fun _ => s) later

structure ShardsLoaded (env : Env K V) (m : ShardedMmLru K V n) (parsed : List (ParsedData K V))
    (m' : ShardedMmLru K V n) : Prop where
  loaded : ∀ j, Loaded env (m.shards j) (shardItems parsed j) (m'.shards j)
  counted : ∀ j, (m'.shards j).stats.currentSize = (m'.shards j).linkedCount
  mixShardHash_eq : m'.mixShardHash = m.mixShardHash
  maxSize_eq : m'.maxSize = m.maxSize

theorem rebuildShardedFromParsed_loaded {mismatch : String} {parsed : List (ParsedData K V)}
    (wf : ∀ j, (m.shards j).WellFormed env)
    (returned : rebuildShardedFromParsed env mismatch m parsed sec = .returned m') :
    ShardsLoaded env m parsed m' := by
  rw [rebuildShardedFromParsed] at returned
  split at returned
  · cases returned
  · rename_i same
    have count : parsed.length = n := not_not.mp same
    have indices : ((finRange n).zip parsed).map Prod.fst = finRange n := by
      rw [map_fst_zip (by rw [length_finRange, count])]
    have nodup : (((finRange n).zip parsed).map Prod.fst).Nodup := by
      rw [indices]
      exact nodup_finRange n
    obtain ⟨shards, -⟩ := rebuildShards_shards nodup returned
    obtain ⟨mix, limit⟩ := rebuildShards_fields returned
    have each : ∀ j : Fin n, ∃ p : ParsedData K V, shardItems parsed j = p.items ∧
        rebuildFromParsed env .mmLru (m.shards j) p sec = .returned (m'.shards j) := by
      intro j
      have inside : j.val < parsed.length := count ▸ j.isLt
      refine ⟨parsed[j.val], by simp [shardItems, inside], shards j _ ?_⟩
      refine mem_iff_getElem.mpr ⟨j.val, by simp [count], ?_⟩
      simp
    refine ⟨fun j => ?_, fun j => ?_, mix, limit⟩
    · obtain ⟨p, items, rebuilt⟩ := each j
      rw [items]
      exact rebuildFromParsed_loaded (by decide) (wf j) rebuilt
    · obtain ⟨p, -, rebuilt⟩ := each j
      exact mmLru_counted rebuilt

end Returned

end Lru.Persist

namespace Lru

open Mm (State Env Strategy)
open Binary (Codec)
open Persist

/-! ## Entry points -/

variable {K V : Type} {n : Nat} [DecidableEq K] (env : Env K V) (keys : Codec K) (values : Codec V)

/-- `load` of a cache over one strategy object. -/
def Cache.load (strategy : Strategy) (c : Cache K V) (data : List UInt8) (sec : Nat)
    (limiterOver : Bool) : Outcome (Cache K V) :=
  match deserialize env strategy c.mm keys values data sec with
  | .returned mm => .returned ({ c with mm := mm }.reportMemory limiterOver)
  | .threw message mm => .threw message { c with mm := mm }
  | .undefined => .undefined

/-- What `load` and `load_per_shard` of a striped cache have in common. -/
def Striped.loadShards (mismatch : String) (c : Striped K V n) (data : List UInt8) (sec : Nat)
    (limiterOver : Bool) : Outcome (Striped K V n) :=
  match parseShardedSerializedData keys values data with
  | .error message => .threw message c
  | .ok parsed =>
    match rebuildShardedFromParsed env mismatch c.mm parsed sec with
    | .returned mm => .returned ({ c with mm := mm }.reportMemory limiterOver)
    | .threw message mm => .threw message { c with mm := mm }
    | .undefined => .undefined

def Striped.load : Striped K V n → List UInt8 → Nat → Bool → Outcome (Striped K V n) :=
  Striped.loadShards env keys values "deserialization: num_shards mismatch"

def Striped.loadPerShard : Striped K V n → List UInt8 → Nat → Bool → Outcome (Striped K V n) :=
  Striped.loadShards env keys values "load_per_shard: num_shards mismatch"

/-- The same end with another view of the state. -/
def Outcome.map {σ τ : Type} (f : σ → τ) : Outcome σ → Outcome τ
  | .returned s => .returned (f s)
  | .threw message s => .threw message (f s)
  | .undefined => .undefined

namespace Unified

def load (u : Unified K V n) (data : List UInt8) (sec : Nat) (limiterOver : Bool) :
    Lru.Outcome (Unified K V n) :=
  match u with
  | plain strategy c =>
    (c.load env keys values strategy data sec limiterOver).map (plain strategy)
  | striped c => (c.load env keys values data sec limiterOver).map striped
  | compact base store =>
    (base.load env keys values .mmLru data sec limiterOver).map fun base => compact base store
  | compactStriped base store =>
    (base.load env keys values data sec limiterOver).map fun base => compactStriped base store

/-- `load_per_shard`, which is `load` unless the cache is striped. -/
def loadPerShard (u : Unified K V n) (data : List UInt8) (sec : Nat) (limiterOver : Bool) :
    Lru.Outcome (Unified K V n) :=
  match u with
  | plain _ _ | compact _ _ => u.load env keys values data sec limiterOver
  | striped c => (c.loadPerShard env keys values data sec limiterOver).map striped
  | compactStriped base store =>
    (base.loadPerShard env keys values data sec limiterOver).map fun base =>
      compactStriped base store

end Unified

end Lru
