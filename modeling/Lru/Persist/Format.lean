import Lru.Library.Double
import Lru.Persist.Crc32
import Lru.Persist.Serde

/-!
# The snapshot format

A snapshot is a header of 36 bytes, the configuration, what the strategy keeps
besides its items, and the items from head to tail, list by list. The header holds
the number of items, the kind of strategy and a checksum of everything behind it.
The parser also reads a header size, which says where the checksummed part begins.
-/

namespace Lru.Persist

open Binary Serde

variable {K V : Type}

def kSerializationMagic : UInt32 := 0x5355524C

def kSerializationVersion : UInt32 := 5

def kV5HeaderSize : UInt32 := 36

inductive MmTypeId where
  | lru
  | twoQ
  | tinyLfu
  | wTinyLfu
  | fifo
  | shardedLru
  deriving DecidableEq, Repr

def MmTypeId.word : MmTypeId → UInt32
  | lru => 0
  | twoQ => 1
  | tinyLfu => 2
  | wTinyLfu => 3
  | fifo => 4
  | shardedLru => 5

/-! ## Records -/

structure SerializedMmConfig where
  lruRefreshTime : UInt32 := 60
  lruRefreshRatio : Double := ⟨0⟩
  updateOnWrite : Bool := false
  updateOnRead : Bool := true
  tryLockUpdate : Bool := true
  lruInsertionPointSpec : UInt8 := 0
  mmReconfigureIntervalSecs : UInt32 := 0
  hotRatio : Double := ⟨0x3FD3333333333333⟩
  warmRatio : Double := ⟨0x3FD999999999999A⟩
  rebalanceOnRecordAccess : Bool := true
  cmsWindowMultiplier : UInt32 := 32
  cmsErrorThreshold : Double := ⟨0x4014000000000000⟩
  cmsHashCount : UInt32 := 4
  deriving DecidableEq, Repr

def boolByte (b : Bool) : UInt8 := if b then 1 else 0

def readDouble : Reader Double := do
  let bits ← readU64 endOfData
  pure ⟨bits⟩

def readBool : Reader Bool := do
  let byte ← readU8 endOfData
  pure (byte ≠ 0)

namespace SerializedMmConfig

def write (c : SerializedMmConfig) : List UInt8 :=
  u32 c.lruRefreshTime ++ (u64 c.lruRefreshRatio.bits ++ ([boolByte c.updateOnWrite] ++
    ([boolByte c.updateOnRead] ++ ([boolByte c.tryLockUpdate] ++ ([c.lruInsertionPointSpec] ++
    (u32 c.mmReconfigureIntervalSecs ++ (u64 c.hotRatio.bits ++ (u64 c.warmRatio.bits ++
    ([boolByte c.rebalanceOnRecordAccess] ++ (u32 c.cmsWindowMultiplier ++
    (u64 c.cmsErrorThreshold.bits ++ (u32 c.cmsHashCount ++ []))))))))))))

def read : Reader SerializedMmConfig := do
  let lruRefreshTime ← readU32 endOfData
  let lruRefreshRatio ← readDouble
  let updateOnWrite ← readBool
  let updateOnRead ← readBool
  let tryLockUpdate ← readBool
  let lruInsertionPointSpec ← readU8 endOfData
  let mmReconfigureIntervalSecs ← readU32 endOfData
  let hotRatio ← readDouble
  let warmRatio ← readDouble
  let rebalanceOnRecordAccess ← readBool
  let cmsWindowMultiplier ← readU32 endOfData
  let cmsErrorThreshold ← readDouble
  let cmsHashCount ← readU32 endOfData
  pure ⟨lruRefreshTime, lruRefreshRatio, updateOnWrite, updateOnRead, tryLockUpdate,
    lruInsertionPointSpec, mmReconfigureIntervalSecs, hotRatio, warmRatio,
    rebalanceOnRecordAccess, cmsWindowMultiplier, cmsErrorThreshold, cmsHashCount⟩

end SerializedMmConfig

structure SerializedItem (K V : Type) where
  key : K
  value : V
  updateTime : UInt32 := 0
  flags : UInt8 := 0
  queueId : UInt8 := 0
  deriving DecidableEq, Repr

namespace SerializedItem

variable (keys : Codec K) (values : Codec V)

def write (item : SerializedItem K V) : List UInt8 :=
  keys.write item.key ++ (values.write item.value ++ (u32 item.updateTime ++
    ([item.flags] ++ ([item.queueId] ++ []))))

def read : Reader (SerializedItem K V) := do
  let key ← keys.read
  let value ← values.read
  let updateTime ← readU32 endOfData
  let flags ← readU8 endOfData
  let queueId ← readU8 endOfData
  pure ⟨key, value, updateTime, flags, queueId⟩

end SerializedItem

/-- `serialized_list_state`; an unset insertion point is the largest number. -/
structure SerializedListState where
  insertionPointPos : UInt32 := 0xFFFFFFFF
  tailSize : UInt32 := 0
  deriving DecidableEq, Repr

namespace SerializedListState

def write (l : SerializedListState) : List UInt8 :=
  u32 l.insertionPointPos ++ (u32 l.tailSize ++ (u32 0 ++ (u32 0 ++ (u32 0 ++ []))))

/-- The last three words are skipped. -/
def read : Reader SerializedListState := do
  let insertionPointPos ← readU32 endOfData
  let tailSize ← readU32 endOfData
  let _ ← readU32 endOfData
  let _ ← readU32 endOfData
  let _ ← readU32 endOfData
  pure ⟨insertionPointPos, tailSize⟩

end SerializedListState

structure ParsedData (K V : Type) where
  featureFlags : UInt64 := 0
  config : SerializedMmConfig := {}
  listState : SerializedListState := {}
  cmsState : List UInt32 := []
  items : List (SerializedItem K V) := []
  deriving DecidableEq, Repr

/-- `cache_snapshot`: the same data and the kind of strategy. -/
structure CacheSnapshot (K V : Type) extends ParsedData K V where
  type : MmTypeId
  deriving DecidableEq, Repr

/-! ## Writing -/

section Writing

variable (keys : Codec K) (values : Codec V)

/-- The words of a sketch behind their number. -/
def writeCms (words : List UInt32) : List UInt8 :=
  u32 (lengthWord words.length) ++ words.flatMap u32

/-- What is written between configuration and items. -/
def CacheSnapshot.writeExtra (snap : CacheSnapshot K V) : List UInt8 :=
  match snap.type with
  | .lru | .shardedLru => snap.listState.write
  | .tinyLfu | .wTinyLfu => writeCms snap.cmsState
  | .twoQ | .fifo => []

def CacheSnapshot.writePayload (snap : CacheSnapshot K V) : List UInt8 :=
  snap.config.write ++ (snap.writeExtra ++
    (snap.items.flatMap (SerializedItem.write keys values) ++ []))

/-- A header of 36 bytes; `count` is the number of items or of shards. -/
def writeHeader (count type headerSize flags : UInt32) (featureFlags : UInt64)
    (checksum : UInt32) : List UInt8 :=
  u32 kSerializationMagic ++ (u32 kSerializationVersion ++ (u32 count ++ (u32 type ++
    (u32 headerSize ++ (u32 flags ++ (u64 featureFlags ++ (u32 checksum ++ [])))))))

/-- Put a header with the checksum in front of a payload. -/
def frame (count : Nat) (type : MmTypeId) (featureFlags : UInt64) (payload : List UInt8) :
    List UInt8 :=
  writeHeader (lengthWord count) type.word kV5HeaderSize 0 featureFlags (crc32 payload) ++ payload

def serializeFromSnapshot (snap : CacheSnapshot K V) : List UInt8 :=
  frame snap.items.length snap.type snap.featureFlags (snap.writePayload keys values)

end Writing

/-! ## Parsing -/

structure Header where
  count : UInt32
  headerSize : UInt32
  flags : UInt32
  featureFlags : UInt64
  checksum : UInt32
  deriving DecidableEq, Repr

section Parsing

variable (keys : Codec K) (values : Codec V) (expected : MmTypeId)

/-- The part of `parse_serialized_data` that reads the header. The checksum covers what
lies behind the header size it declares. -/
def readHeader (data : List UInt8) : Reader Header := do
  let magic ← readU32 endOfData
  require (magic = kSerializationMagic) "deserialize: invalid magic number"
  let version ← readU32 endOfData
  let count ← readU32 endOfData
  require (count.toNat ≤ 10000000) "deserialize: item_count exceeds reasonable limit"
  let type ← readU32 endOfData
  require (type = expected.word) ("deserialize: mm_type mismatch (expected " ++
    toString expected.word ++ ", got " ++ toString type ++ ")")
  require (version = kSerializationVersion) ("deserialize: unsupported version " ++
    toString version ++ " (only version " ++ toString kSerializationVersion ++ " is supported)")
  let headerSize ← readU32 endOfData
  require (kV5HeaderSize.toNat ≤ headerSize.toNat ∧ headerSize.toNat ≤ data.length)
    "deserialize: invalid header_size"
  let flags ← readU32 endOfData
  let featureFlags ← readU64 endOfData
  let checksum ← readU32 endOfData
  require (crc32 (data.drop headerSize.toNat) = checksum)
    "deserialize: header checksum mismatch (data corrupted)"
  pure ⟨count, headerSize, flags, featureFlags, checksum⟩

def readCms : Reader (List UInt32) := do
  let words ← readU32 endOfData
  require (words.toNat ≤ 1000000) "deserialization: cms_words exceeds reasonable limit"
  many (readU32 endOfData) words.toNat

/-- What is read between configuration and items. -/
def readExtra : Reader (SerializedListState × List UInt32) :=
  match expected with
  | .lru | .shardedLru => do
      let listState ← SerializedListState.read
      pure (listState, [])
  | .tinyLfu | .wTinyLfu => do
      let cmsState ← readCms
      pure ({}, cmsState)
  | .twoQ | .fifo => pure ({}, [])

/-- The part of `parse_serialized_data` behind the header. -/
def readPayload (header : Header) : Reader (ParsedData K V) := do
  let config ← SerializedMmConfig.read
  let extra ← readExtra expected
  let items ← many (SerializedItem.read keys values) header.count.toNat
  pure ⟨header.featureFlags, config, extra.1, extra.2, items⟩

def parseSerializedData (data : List UInt8) : Except String (ParsedData K V) := do
  let (header, payload) ← (readHeader expected data).run data
  let (parsed, _) ← (readPayload keys values expected header).run payload
  pure parsed

end Parsing

/-! ## Inspection -/

structure SerializationHeaderInfo where
  magic : UInt32 := 0
  version : UInt32 := 0
  itemCount : UInt32 := 0
  mmType : UInt32 := 0
  headerSize : UInt32 := 0
  flags : UInt32 := 0
  featureFlags : UInt64 := 0
  checksum : UInt32 := 0
  computedChecksum : UInt32 := 0
  magicOk : Bool := false
  versionSupported : Bool := false
  checksumOk : Bool := false
  migrated : Bool := false
  payloadOffset : Nat := 0
  deriving DecidableEq, Repr

/-- The reads of `inspect_serialization_header`, which never run out of data. -/
def inspectHeader (data : List UInt8) : Reader SerializationHeaderInfo := do
  let magic ← readU32 endOfData
  let version ← readU32 endOfData
  let info : SerializationHeaderInfo := {
    magic, version, magicOk := magic = kSerializationMagic
    versionSupported := version = kSerializationVersion }
  if magic ≠ kSerializationMagic then pure info
  else if version ≠ kSerializationVersion then pure { info with versionSupported := false }
  else if data.length < kV5HeaderSize.toNat then pure info
  else
    let itemCount ← readU32 endOfData
    if 10000000 < itemCount.toNat then pure { info with itemCount, versionSupported := false }
    else
      let mmType ← readU32 endOfData
      let headerSize ← readU32 endOfData
      let flags ← readU32 endOfData
      let featureFlags ← readU64 endOfData
      let checksum ← readU32 endOfData
      let info := { info with itemCount, mmType, headerSize, flags, featureFlags, checksum }
      if headerSize.toNat < kV5HeaderSize.toNat ∨ data.length < headerSize.toNat then
        pure { info with versionSupported := false }
      else
        let computedChecksum := crc32 (data.drop headerSize.toNat)
        pure { info with
          payloadOffset := headerSize.toNat, computedChecksum
          checksumOk := computedChecksum = checksum }

def inspectSerializationHeader (data : List UInt8) : SerializationHeaderInfo :=
  if data.length < 8 then {}
  else
    match (inspectHeader data).run data with
    | .ok (info, _) => info
    | .error _ => {}

end Lru.Persist
