import Lru.Cache.Model
import Lru.Persist.Rebuild

/-!
# `warm_cache_manager`

The manager keeps a pointer to the live cache, collects the changes that the cache's
callbacks report, and writes two files: a full snapshot, and the changes since the last
tick. `load_with_delta` builds a new cache from the two files and only then swaps the
pointer. The manager is generic in the cache type, so the model is; every strategy is an
instance.
-/

namespace Lru.Warm

open Binary Mm Persist.Serde

variable {K V : Type}

/-- A cache type as the manager uses it, with the serializers of its keys and values. -/
structure CacheType (K V : Type) where
  Cache : Type
  keys : Codec K
  values : Codec V
  /-- `std::make_shared<cache_type>(max_size)`. -/
  make : Nat → Cache
  maxSize : Cache → Nat
  save : Cache → Except String (List UInt8)
  load : Cache → List UInt8 → Outcome Cache
  set : Cache → K → V → Except CacheError Cache
  remove : Cache → K → Except CacheError Cache
  /-- The key/value pairs that a cache holds. -/
  pairs : Cache → K → Option V

/-! ## The delta file -/

/-- One entry of a delta; the operation codes are 0 and 1. -/
inductive DeltaEntry (K V : Type) where
  | insert (key : K) (value : V)
  | remove (key : K)
  deriving DecidableEq, Repr

def kDeltaMagic : UInt32 := 0x4C525544

def kDeltaVersion : UInt32 := 1

section Format

variable (keys : Codec K) (values : Codec V)

def DeltaEntry.write : DeltaEntry K V → List UInt8
  | insert key value => 0 :: (keys.write key ++ values.write value)
  | remove key => 1 :: keys.write key

/-- The data that `take_incremental_snapshot` writes. -/
def writeDelta (entries : List (DeltaEntry K V)) : List UInt8 :=
  u32 kDeltaMagic ++ (u32 kDeltaVersion ++ (u32 (lengthWord entries.length) ++
    entries.flatMap (DeltaEntry.write keys values)))

/-- One entry; nothing for an unknown operation. -/
def readEntry : Reader (Option (DeltaEntry K V)) := do
  let op ← readU8 endOfData
  let key ← keys.read
  if op = 0 then
    let value ← values.read
    pure (some (.insert key value))
  else if op = 1 then pure (some (.remove key))
  else pure none

def readEntries : Nat → Reader (Option (List (DeltaEntry K V)))
  | 0 => pure (some [])
  | n + 1 => do
      match ← readEntry keys values with
      | none => pure none
      | some entry =>
        let rest ← readEntries n
        pure (rest.map (entry :: ·))

/-- The entries of a delta file; nothing where the source returns `false`. -/
def readDelta : Reader (Option (List (DeltaEntry K V))) := do
  let magic ← readU32 endOfData
  if magic ≠ kDeltaMagic then pure none
  else
    let version ← readU32 endOfData
    if version ≠ kDeltaVersion then pure none
    else
      let count ← readU32 endOfData
      if 10000000 < count.toNat then pure none
      else readEntries keys values count.toNat

/-- The entries that the data decode to, if they do. -/
def decodeDelta (data : List UInt8) : Option (List (DeltaEntry K V)) :=
  match (readDelta keys values).run data with
  | .error _ => none
  | .ok (entries, _) => entries

end Format

/-! ## The manager -/

/-- What the file system answers for a path. -/
inductive File where
  | missing
  /-- `std::filesystem::exists` throws. -/
  | statusUnknown
  | notOpened
  /-- `tellg` fails. -/
  | sizeUnknown
  /-- The buffer for the data cannot be allocated. -/
  | tooLarge
  | readFails
  | readable (data : List UInt8)
  deriving DecidableEq, Repr

/-- Present, but `load_with_delta` cannot get at the data and does not throw. -/
def File.Unreadable (file : File) : Prop :=
  file = .notOpened ∨ file = .sizeUnknown ∨ file = .readFails

/-- `warm_cache_manager`. The live pointer is the address of the cache and the cache. -/
structure Manager (type : CacheType K V) where
  live : Option (Nat × type.Cache)
  /-- The address of the next cache that is made. -/
  nextObject : Nat
  fresh : ∀ object ∈ live, object.1 < nextObject
  enabled : Bool := false
  /-- The caches that carry the callbacks. -/
  hooked : List Nat := []
  /-- The merged `delta_state_->shards`; no value for a removed key. -/
  delta : List (K × Option V) := []
  fullSnapshotInterval : Nat := 10
  snapshotTickCount : Nat := 0

namespace Manager

variable {type : CacheType K V} (m : Manager type)

/-- `enable_delta_tracking`, without the test whether the callbacks are attached. -/
def attach : Manager type :=
  { m with enabled := true, hooked := (m.live.map (·.1)).toList ++ m.hooked }

def enableDeltaTracking : Manager type := if m.enabled then m else m.attach

def reattachDeltaCallbacks : Manager type := if m.enabled then m.attach else m

def publishStaged (staged : type.Cache) : Manager type :=
  reattachDeltaCallbacks
    { m with
      live := some (m.nextObject, staged)
      nextObject := m.nextObject + 1
      fresh := fun object same => by
        cases same
        exact Nat.lt_succ_self _ }

end Manager

/-! ## `load_with_delta` -/

section Load

variable (type : CacheType K V)

def applyEntries : type.Cache → List (DeltaEntry K V) → Except CacheError type.Cache
  | cache, [] => .ok cache
  | cache, .insert key value :: rest => (type.set cache key value).bind fun c => applyEntries c rest
  | cache, .remove key :: rest => (type.remove cache key).bind fun c => applyEntries c rest

/-- How a call ends: it returns `false` or catches an exception, it returns `true` as it
is, it publishes a cache and returns `true`, or it is undefined. -/
inductive Exit (C : Type) where
  | fails
  | keeps
  | publishes (cache : C)
  | undefined

/-- The second phase, on the cache that holds the full snapshot. -/
def applyDelta (cache : type.Cache) : File → Exit type.Cache
  | .missing => .publishes cache
  | .statusUnknown => .fails
  | .notOpened => .keeps
  | .sizeUnknown => .keeps
  | .tooLarge => .fails
  | .readFails => .keeps
  | .readable data =>
    match decodeDelta type.keys type.values data with
    | none => .fails
    | some entries =>
      match applyEntries type cache entries with
      | .ok cache => .publishes cache
      | .error _ => .fails

/-- Both phases. Every way in which the full file cannot be read returns `false`. -/
def reconstruct (current : Option type.Cache) (full delta : File) : Exit type.Cache :=
  match current, full with
  | some current, .readable data =>
    match type.load (type.make (type.maxSize current)) data with
    | .returned cache => applyDelta type cache delta
    | .threw _ _ => .fails
    | .undefined => .undefined
  | _, _ => .fails

variable {type} {current staged cache : type.Cache} {full delta : File}

theorem applyDelta_eq_publishes :
    applyDelta type staged delta = .publishes cache ↔
      delta = .missing ∧ staged = cache
      ∨ ∃ data entries, delta = .readable data
        ∧ decodeDelta type.keys type.values data = some entries
        ∧ applyEntries type staged entries = .ok cache := by
  cases delta with
  | missing => simp [applyDelta]
  | statusUnknown | notOpened | sizeUnknown | tooLarge | readFails => simp [applyDelta]
  | readable data =>
    cases decoded : decodeDelta type.keys type.values data with
    | none => simp [applyDelta, decoded]
    | some entries =>
      cases applied : applyEntries type staged entries <;> simp [applyDelta, decoded, applied]

theorem reconstruct_eq_publishes :
    reconstruct type (some current) full delta = .publishes cache ↔
      ∃ data staged, full = .readable data
        ∧ type.load (type.make (type.maxSize current)) data = .returned staged
        ∧ applyDelta type staged delta = .publishes cache := by
  cases full with
  | missing | statusUnknown | notOpened | sizeUnknown | tooLarge | readFails => simp [reconstruct]
  | readable data =>
    cases loaded : type.load (type.make (type.maxSize current)) data <;>
      simp [reconstruct, loaded]

end Load

/-- `load_with_delta`, or nothing if the call is undefined. -/
def Manager.loadWithDelta {type : CacheType K V} (m : Manager type) (full delta : File) :
    Option (Bool × Manager type) :=
  match reconstruct type (m.live.map (·.2)) full delta with
  | .fails => some (false, m)
  | .keeps => some (true, m)
  | .publishes cache => some (true, m.publishStaged cache)
  | .undefined => none

/-! ## Strategies as cache types -/

section Strategies

variable [DecidableEq K] (env : Env K V) (strategy : Strategy)

/-- What a restore takes from outside: the serializers, the memory and the sketch of a
new cache, and what its calls read. -/
structure Surroundings (K V : Type) where
  keys : Codec K
  values : Codec V
  memory : ItemId → Item K V
  sketch : Nat → Sketch
  ambient : Ambient K

def strategyCache (around : Surroundings K V) : CacheType K V where
  Cache := Cache K V
  keys := around.keys
  values := around.values
  make size :=
    { mm := State.empty around.memory { maxSize := size } (around.sketch size) around.ambient.sec }
  maxSize c := c.mm.settings.maxSize
  save c := Persist.save around.keys around.values strategy c.mm
  load c data :=
    match Persist.deserialize env strategy c.mm around.keys around.values data
        around.ambient.sec with
    | .returned s => .returned ({ c with mm := s }.reportMemory around.ambient.limiterOver)
    | .threw message s => .threw message { c with mm := s }
    | .undefined => .undefined
  set c key value :=
    match c.set env strategy key value around.ambient with
    | (.ok (), c) => .ok c
    | (.error e, _) => .error e
  remove c key :=
    match c.guardedRemoval "remove" (c.removing around.ambient
        ((strategy.policy env).del env c.mm key)) with
    | (.ok _, c) => .ok c
    | (.error e, _) => .error e
  pairs c key := (c.mm.find env key).map fun i => (c.mm.heap i).value

end Strategies

/-! ## A small cache -/

def byteLayout : Layout UInt8 where
  size := 1
  image b := [b]
  value bytes := bytes.headD 0
  length_image _ := rfl
  value_image _ := rfl

def byteEnv : Env UInt8 UInt8 := Strategy.integers UInt8.toNat

/-- `unified_cache<uint8_t, uint8_t>` over `mm_lru`. -/
def byteCache : CacheType UInt8 UInt8 :=
  strategyCache byteEnv .mmLru
    ⟨trivial byteLayout, trivial byteLayout, fun _ => default, fun _ => {}, {}⟩

end Lru.Warm
