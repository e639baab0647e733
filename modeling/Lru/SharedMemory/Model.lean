import Lru.Persist.Serde

/-!
# Warm restarts from shared memory

`warm_restart_cache`: `save` writes length-prefixed records into the data region of a
mapped segment and then the counters of its header, `attach` reads them back in a
later process. A save is modelled as the list of its stores in program order, one
for each byte of the data region and one for each field of the header, so that a
crash is a prefix of that list. The segment is mapped and its lock is a flag.
-/

namespace Lru.SharedMemory

open Binary List
open Lru.Persist.Serde (Layout lengthWord)

variable {α K V : Type}

/-! ## Keys and values as bytes -/

/-- How values stand in the data region: what `write_bytes` copies, of the length
`byte_size`, and what `read_bytes` makes of it. -/
structure Payload (α : Type) where
  bytes : α → List UInt8
  read : List UInt8 → α
  read_bytes : ∀ a, read (bytes a) = a

namespace Payload

def elements (layout : Layout α) : Nat → List UInt8 → List α
  | 0, _ => []
  | n + 1, src => layout.value (src.take layout.size) :: elements layout n (src.drop layout.size)

theorem length_images (layout : Layout α) (l : List α) :
    (l.flatMap layout.image).length = l.length * layout.size := by
  induction l with
  | nil => simp
  | cons a rest ih =>
    rw [flatMap_cons, length_append, ih, layout.length_image, length_cons]
    ring

theorem elements_images {layout : Layout α} {l : List α} :
    elements layout l.length (l.flatMap layout.image) = l := by
  induction l with
  | nil => rfl
  | cons a rest ih =>
    have first : (layout.image a ++ rest.flatMap layout.image).take layout.size
        = layout.image a := take_left' (layout.length_image a)
    have later : (layout.image a ++ rest.flatMap layout.image).drop layout.size
        = rest.flatMap layout.image := drop_left' (layout.length_image a)
    rw [flatMap_cons, length_cons, elements, first, later, ih, layout.value_image]

/-- `std::basic_string` and `std::vector` of trivially copyable elements. -/
def sequence (layout : Layout α) (sized : 0 < layout.size) : Payload (List α) where
  bytes l := l.flatMap layout.image
  read src := elements layout (src.length / layout.size) src
  read_bytes l := by
    rw [length_images, Nat.mul_div_cancel _ sized]
    exact elements_images

/-- A trivially copyable type; too few bytes give its default. -/
def object [Inhabited α] (layout : Layout α) : Payload α where
  bytes := layout.image
  read src := if layout.size ≤ src.length then layout.value (src.take layout.size) else default
  read_bytes a := by
    have all : (layout.image a).take layout.size = layout.image a :=
      take_of_length_le (Nat.le_of_eq (layout.length_image a))
    rw [layout.length_image, if_pos (Nat.le_refl _), all, layout.value_image]

def string : Payload (List UInt8) where
  bytes l := l
  read src := src
  read_bytes _ := rfl

end Payload

/-! ## The segment -/

def magicNumber : Nat := 0x4C52554D53484300

def currentVersion : Nat := 2

structure Segment where
  magic : Nat
  version : Nat
  itemCount : Nat
  lastAttachTimestamp : Nat
  dataCrc32 : UInt32
  dataSizeBytes : UInt32
  data : List UInt8
deriving DecidableEq

/-- A new segment with a data region of this size. -/
def Segment.create (size : Nat) : Segment where
  magic := magicNumber
  version := currentVersion
  itemCount := 0
  lastAttachTimestamp := 0
  dataCrc32 := 0
  dataSizeBytes := 0
  data := replicate size 0

/-- The header is one of this format: `has_previous_data_` of a process that maps a
segment which already exists. -/
def Segment.hasPreviousData (s : Segment) : Bool :=
  s.magic == magicNumber && s.version == currentVersion

/-- An entry of the table, after `k` rounds. -/
def crcEntry : Nat → Nat → Nat
  | 0, c => c
  | k + 1, c => crcEntry k (if c &&& 1 = 1 then 0xEDB88320 ^^^ (c >>> 1) else c >>> 1)

def crc32Table : List Nat := (range 256).map (crcEntry 8)

def crc32Compute (data : List UInt8) : UInt32 :=
  let crc := data.foldl
    (fun crc byte => crc32Table.getD ((crc ^^^ byte.toNat) &&& 0xFF) 0 ^^^ (crc >>> 8)) 0xFFFFFFFF
  UInt32.ofNat (crc ^^^ 0xFFFFFFFF)

/-! ## Stores -/

inductive Store where
  | data (offset : Nat) (byte : UInt8)
  | itemCount (n : Nat)
  | dataSizeBytes (n : UInt32)
  | dataCrc32 (crc : UInt32)
deriving DecidableEq

def Store.apply (s : Segment) : Store → Segment
  | .data offset byte => { s with data := s.data.set offset byte }
  | .itemCount n => { s with itemCount := n }
  | .dataSizeBytes n => { s with dataSizeBytes := n }
  | .dataCrc32 crc => { s with dataCrc32 := crc }

def Segment.after (s : Segment) (stores : List Store) : Segment := stores.foldl Store.apply s

def memcpy : Nat → List UInt8 → List Store
  | _, [] => []
  | p, byte :: rest => .data p byte :: memcpy (p + 1) rest

section Save

variable (keys : Payload K) (values : Payload V)

/-- The record of an item: both payloads behind their lengths. -/
def record (item : K × V) : List UInt8 :=
  u32 (lengthWord (keys.bytes item.1).length) ++ keys.bytes item.1
    ++ u32 (lengthWord (values.bytes item.2).length) ++ values.bytes item.2

def recordSize (item : K × V) : Nat :=
  4 + (keys.bytes item.1).length + 4 + (values.bytes item.2).length

structure Saved where
  stores : List Store
  cursor : Nat
  written : Nat

def saveItems (regionSize : Nat) : Nat → List (K × V) → Saved
  | p, [] => ⟨[], p, 0⟩
  | p, item :: rest =>
    if regionSize < p + recordSize keys values item then ⟨[], p, 0⟩ -- data region full
    else
      let later := saveItems regionSize (p + recordSize keys values item) rest
      ⟨memcpy p (record keys values item) ++ later.stores, later.cursor, later.written + 1⟩

def saveStores (s : Segment) (items : List (K × V)) : List Store :=
  let saved := saveItems keys values s.data.length 0 items
  -- The checksum is computed over the region as the loop left it.
  let region := (s.after saved.stores).data
  let crc := if 0 < saved.cursor then crc32Compute (region.take saved.cursor) else 0
  saved.stores ++
    [.itemCount saved.written, .dataSizeBytes (UInt32.ofNat saved.cursor), .dataCrc32 crc]

def save (s : Segment) (items : List (K × V)) : Nat × Segment :=
  ((saveItems keys values s.data.length 0 items).written, s.after (saveStores keys values s items))

/-- The loop of `attach`: up to `claimed` records from the bytes between the cursor
and `end`. -/
def attachItems : Nat → List UInt8 → List (K × V)
  | 0, _ => []
  | claimed + 1, left =>
    if left.length < 4 then []
    else
      let klen := toNat (left.take 4)
      let left := left.drop 4
      if left.length < klen then [] -- corrupt: key extends past end
      else
        let k := keys.read (left.take klen)
        let left := left.drop klen
        if left.length < 4 then []
        else
          let vlen := toNat (left.take 4)
          let left := left.drop 4
          if left.length < vlen then [] -- corrupt: value extends past end
          else
            let v := values.read (left.take vlen)
            (k, v) :: attachItems claimed (left.drop vlen)

/-- The result of `attach`: what the inserter was called with, what is returned, and
the segment. -/
structure Attached (K V : Type) where
  handed : List (K × V)
  recovered : Nat
  segment : Segment

/-- `attach_with_timeout` in a process that mapped the existing segment. -/
def attach (inserter : K × V → Bool) (acquired : Bool) (now : Nat) (s : Segment) : Attached K V :=
  if !s.hasPreviousData then ⟨[], 0, s⟩
  else if !acquired then ⟨[], 0, s⟩ -- timeout
  else
    let validBytes := s.dataSizeBytes.toNat
    if s.data.length < validBytes then ⟨[], 0, s⟩
    else if 0 < validBytes ∧ crc32Compute (s.data.take validBytes) ≠ s.dataCrc32 then ⟨[], 0, s⟩
    else
      let region := if 0 < validBytes then s.data.take validBytes else s.data
      let handed := attachItems keys values s.itemCount region
      ⟨handed, handed.countP inserter, { s with lastAttachTimestamp := now }⟩

end Save

end Lru.SharedMemory
