import Mathlib.Algebra.Order.BigOperators.Group.List
import Lru.SharedMemory.Model

/-!
# What a completed save hands to the next process

A save writes the records of the longest prefix of the items that fits the data region.
Lengths and the size of the data are kept in 32 bits, so the next process gets exactly
these items as long as they take less than 4 GiB.
-/

namespace Lru.SharedMemory

open Binary List
open Lru.Persist.Serde (lengthWord toNat_lengthWord_of_lt)

variable {K V : Type} (keys : Payload K) (values : Payload V) {s t : Segment}
  {items : List (K × V)} {n now : Nat}

/-! ## Stores -/

namespace Segment

variable (s : Segment)

@[simp] theorem after_nil : s.after [] = s := rfl

theorem after_cons (store : Store) (rest : List Store) :
    s.after (store :: rest) = (store.apply s).after rest := rfl

theorem after_append (first later : List Store) :
    s.after (first ++ later) = (s.after first).after later := foldl_append

end Segment

/-- A store into the data region: the header and the size of the region stay. -/
def Store.IsData : Store → Prop
  | .data _ _ => True
  | _ => False

theorem memcpy_isData (p : Nat) (bytes : List UInt8) : ∀ store ∈ memcpy p bytes, store.IsData := by
  induction bytes generalizing p with
  | nil => simp [memcpy]
  | cons byte rest ih =>
    intro store mem
    rw [memcpy, mem_cons] at mem
    obtain rfl | mem := mem
    · trivial
    · exact ih (p + 1) store mem

/-- Everything of a segment but the contents of its data region. -/
structure SameHeader (s t : Segment) : Prop where
  magic : t.magic = s.magic
  version : t.version = s.version
  itemCount : t.itemCount = s.itemCount
  dataCrc32 : t.dataCrc32 = s.dataCrc32
  dataSizeBytes : t.dataSizeBytes = s.dataSizeBytes
  length_data : t.data.length = s.data.length

theorem SameHeader.refl (s : Segment) : SameHeader s s := ⟨rfl, rfl, rfl, rfl, rfl, rfl⟩

theorem sameHeader_after {stores : List Store} (all : ∀ store ∈ stores, store.IsData)
    (s : Segment) : SameHeader s (s.after stores) := by
  induction stores generalizing s with
  | nil => exact .refl s
  | cons store rest ih =>
    have later := ih (fun x hx => all x (by simp [hx])) (store.apply s)
    have first := all store (by simp)
    cases store with
    | data offset byte =>
      refine ⟨later.magic, later.version, later.itemCount, later.dataCrc32, later.dataSizeBytes, ?_⟩
      rw [Segment.after_cons, later.length_data]
      exact length_set
    | itemCount | dataSizeBytes => exact first.elim
    | dataCrc32 crc => exact first.elim

/-- A copy inside the region replaces exactly its bytes. -/
theorem data_after_memcpy (front bytes old back : List UInt8) (same : bytes.length = old.length)
    (data : s.data = front ++ old ++ back) :
    (s.after (memcpy front.length bytes)).data = front ++ bytes ++ back := by
  induction bytes generalizing front old s with
  | nil =>
    have empty : old = [] := length_eq_zero_iff.mp same.symm
    rw [memcpy, Segment.after_nil, data, empty]
  | cons byte rest ih =>
    obtain _ | ⟨first, old⟩ := old
    · simp at same
    have stored : (Store.apply s (.data front.length byte)).data =
        (front ++ [byte]) ++ old ++ back := by
      show s.data.set front.length byte = _
      rw [data]
      simp
    have later := ih (front ++ [byte]) old (by simpa using same) stored
    rw [length_append, length_singleton] at later
    rw [memcpy, Segment.after_cons, later]
    simp

/-! ## The items that fit -/

def totalSize (items : List (K × V)) : Nat := (items.map (recordSize keys values)).sum

/-- The longest prefix whose records fit into this many bytes. -/
structure LongestFit (regionSize : Nat) (items fit : List (K × V)) : Prop where
  isPrefix : fit <+: items
  fits : totalSize keys values fit ≤ regionSize
  longest : ∀ other, other <+: items → totalSize keys values other ≤ regionSize → other <+: fit

def fitting : Nat → List (K × V) → List (K × V)
  | _, [] => []
  | room, item :: rest =>
    if room < recordSize keys values item then []
    else item :: fitting (room - recordSize keys values item) rest

@[simp] theorem totalSize_cons (item : K × V) (rest : List (K × V)) :
    totalSize keys values (item :: rest)
      = recordSize keys values item + totalSize keys values rest := rfl

theorem fitting_longestFit (room : Nat) (items : List (K × V)) :
    LongestFit keys values room items (fitting keys values room items) := by
  induction items generalizing room with
  | nil =>
    refine ⟨prefix_rfl, Nat.zero_le _, fun other pre _ => pre⟩
  | cons item rest ih =>
    rw [fitting]
    split
    case isTrue full =>
      refine ⟨?_, Nat.zero_le _, fun other pre within => ?_⟩
      · exact nil_prefix
      · cases other with
        | nil => exact nil_prefix
        | cons x later =>
          obtain ⟨rfl, -⟩ := cons_prefix_cons.mp pre
          rw [totalSize_cons] at within
          omega
    case isFalse enough =>
      obtain ⟨isPrefix, fits, longest⟩ := ih (room - recordSize keys values item)
      refine ⟨cons_prefix_cons.mpr ⟨rfl, isPrefix⟩, ?_, fun other pre within => ?_⟩
      · rw [totalSize_cons]
        omega
      · cases other with
        | nil => exact nil_prefix
        | cons x later =>
          obtain ⟨rfl, shorter⟩ := cons_prefix_cons.mp pre
          rw [totalSize_cons] at within
          exact cons_prefix_cons.mpr ⟨rfl, longest later shorter (by omega)⟩

theorem LongestFit.unique {room : Nat} {items fit other : List (K × V)}
    (h : LongestFit keys values room items fit) (h' : LongestFit keys values room items other) :
    fit = other :=
  List.IsPrefix.eq_of_length (h'.longest fit h.isPrefix h.fits)
    (le_antisymm (h'.longest fit h.isPrefix h.fits).length_le
      (h.longest other h'.isPrefix h'.fits).length_le)

/-! ## The writer -/

def records (items : List (K × V)) : List UInt8 := items.flatMap (record keys values)

@[simp] theorem length_record (item : K × V) :
    (record keys values item).length = recordSize keys values item := by
  simp [record, recordSize, add_assoc]

theorem length_records : (records keys values items).length = totalSize keys values items := by
  rw [records, length_flatMap, totalSize]
  simp

/-- The loop from a cursor on: `front` stands before the cursor, `back` behind it. -/
theorem saveItems_spec {regionSize : Nat} {front back : List UInt8}
    (size : regionSize = front.length + back.length) (items : List (K × V))
    (data : s.data = front ++ back) :
    let saved := saveItems keys values regionSize front.length items
    let fit := fitting keys values back.length items
    saved.written = fit.length
      ∧ saved.cursor = front.length + totalSize keys values fit
      ∧ (∀ store ∈ saved.stores, store.IsData)
      ∧ (s.after saved.stores).data
          = front ++ records keys values fit ++ back.drop (totalSize keys values fit) := by
  induction items generalizing front back s with
  | nil => simp [saveItems, fitting, totalSize, records, data]
  | cons item rest ih =>
    rw [saveItems, fitting]
    by_cases full : back.length < recordSize keys values item
    · rw [if_pos full, if_pos (by omega)]
      simp [totalSize, records, data]
    rw [if_neg full, if_neg (by omega)]
    have copied : (s.after (memcpy front.length (record keys values item))).data
        = (front ++ record keys values item) ++ back.drop (recordSize keys values item) := by
      refine data_after_memcpy front _ (back.take (recordSize keys values item)) _ ?_ ?_
      · rw [length_record, length_take]
        omega
      · rw [append_assoc, take_append_drop, data]
    have later := ih (by
      rw [length_append, length_record, length_drop]
      omega) copied
    simp only [length_append, length_record, length_drop] at later
    obtain ⟨written, cursor, isData, left⟩ := later
    refine ⟨?_, ?_, ?_, ?_⟩
    · rw [length_cons]
      exact congrArg (· + 1) written
    · rw [totalSize_cons, ← add_assoc]
      exact cursor
    · intro store mem
      rcases mem_append.mp mem with mem | mem
      · exact memcpy_isData _ _ store mem
      · exact isData store mem
    · rw [Segment.after_append]
      refine left.trans ?_
      rw [drop_drop, totalSize_cons, records, records]
      simp

/-- The items a save of this segment writes. -/
def savedItems (s : Segment) (items : List (K × V)) : List (K × V) :=
  fitting keys values s.data.length items

theorem totalSize_savedItems_le (s : Segment) (items : List (K × V)) :
    totalSize keys values (savedItems keys values s items) ≤ s.data.length :=
  (fitting_longestFit keys values s.data.length items).fits

/-- The segment after the loop of a save, before the header is written. -/
theorem saveItems_of_segment (s : Segment) (items : List (K × V)) :
    let saved := saveItems keys values s.data.length 0 items
    let fit := savedItems keys values s items
    saved.written = fit.length
      ∧ saved.cursor = totalSize keys values fit
      ∧ (∀ store ∈ saved.stores, store.IsData)
      ∧ (s.after saved.stores).data
          = records keys values fit ++ s.data.drop (totalSize keys values fit) := by
  have size : s.data.length = ([] : List UInt8).length + s.data.length := by simp
  have spec := saveItems_spec keys values size items (show s.data = [] ++ s.data from rfl)
  simpa [savedItems] using spec

structure Completed (items : List (K × V)) (s t : Segment) : Prop where
  magic : t.magic = s.magic
  version : t.version = s.version
  itemCount : t.itemCount = (savedItems keys values s items).length
  dataSizeBytes : t.dataSizeBytes
    = UInt32.ofNat (totalSize keys values (savedItems keys values s items))
  dataCrc32 : t.dataCrc32 = if 0 < totalSize keys values (savedItems keys values s items)
    then crc32Compute (records keys values (savedItems keys values s items)) else 0
  data : t.data = records keys values (savedItems keys values s items)
    ++ s.data.drop (totalSize keys values (savedItems keys values s items))

theorem save_completed (s : Segment) (items : List (K × V)) :
    Completed keys values items s (save keys values s items).2 := by
  obtain ⟨written, cursor, isData, data⟩ := saveItems_of_segment keys values s items
  have header := sameHeader_after isData s
  set saved := savedItems keys values s items
  have region : (records keys values saved
      ++ s.data.drop (totalSize keys values saved)).take (totalSize keys values saved)
      = records keys values saved := take_left' (length_records keys values)
  have same : (save keys values s items).2
      = (s.after (saveItems keys values s.data.length 0 items).stores).after
        [.itemCount saved.length, .dataSizeBytes (UInt32.ofNat (totalSize keys values saved)),
          .dataCrc32 (if 0 < totalSize keys values saved
            then crc32Compute (records keys values saved) else 0)] := by
    show s.after (saveStores keys values s items) = _
    simp only [saveStores]
    rw [Segment.after_append, cursor, written, data, region]
  rw [same]
  exact ⟨header.magic, header.version, rfl, rfl, rfl, data⟩

theorem Completed.length_data (completed : Completed keys values items s t) :
    t.data.length = s.data.length := by
  have fits := totalSize_savedItems_le keys values s items
  rw [completed.data, length_append, length_records, length_drop]
  omega

theorem Completed.take_data (completed : Completed keys values items s t) :
    t.data.take (totalSize keys values (savedItems keys values s items))
      = records keys values (savedItems keys values s items) := by
  rw [completed.data]
  exact take_left' (length_records keys values)

theorem Completed.recordedSize (completed : Completed keys values items s t)
    (small : totalSize keys values (savedItems keys values s items) < 2 ^ 32) :
    t.dataSizeBytes.toNat = totalSize keys values (savedItems keys values s items) := by
  rw [completed.dataSizeBytes]
  exact UInt32.toNat_ofNat_of_lt small

/-! ## The reader -/

theorem toNat_u32 (small : n < 2 ^ 32) : toNat (u32 (lengthWord n)) = n := by
  rw [u32, toNat_ofNat, toNat_lengthWord_of_lt small]
  exact Nat.mod_eq_of_lt small

/-- The first record is read back, whatever follows it. -/
theorem attachItems_record {item : K × V} (small : recordSize keys values item < 2 ^ 32)
    (claimed : Nat) (rest : List UInt8) :
    attachItems keys values (claimed + 1) (record keys values item ++ rest)
      = item :: attachItems keys values claimed rest := by
  have klen : (keys.bytes item.1).length < 2 ^ 32 := by
    rw [recordSize] at small
    omega
  have vlen : (values.bytes item.2).length < 2 ^ 32 := by
    rw [recordSize] at small
    omega
  rw [attachItems, record]
  simp [append_assoc, toNat_u32 klen, toNat_u32 vlen, keys.read_bytes, values.read_bytes]

/-- Any number of records is read back up to the last one, if nothing follows it. -/
theorem attachItems_records (small : totalSize keys values items < 2 ^ 32) (claimed : Nat) :
    attachItems keys values claimed (records keys values items) = items.take claimed := by
  induction items generalizing claimed with
  | nil => cases claimed <;> simp [records, attachItems]
  | cons item rest ih =>
    rw [totalSize_cons] at small
    cases claimed with
    | zero => rfl
    | succ claimed =>
      rw [records, flatMap_cons, attachItems_record keys values (by omega)]
      rw [← records, ih (by omega), take_succ_cons]

/-- The records in front of a region are read back, if no more are claimed. -/
theorem attachItems_records_append (small : totalSize keys values items < 2 ^ 32)
    (rest : List UInt8) :
    attachItems keys values items.length (records keys values items ++ rest) = items := by
  induction items with
  | nil => rfl
  | cons item later ih =>
    rw [totalSize_cons] at small
    rw [records, flatMap_cons, append_assoc, length_cons,
      attachItems_record keys values (by omega), ← records, ih (by omega)]

/-- What `attach` hands over in a process that got the lock. -/
theorem attach_handed (inserter : K × V → Bool) (valid : s.hasPreviousData = true)
    (within : s.dataSizeBytes.toNat ≤ s.data.length) :
    (attach keys values inserter true now s).handed =
      if 0 < s.dataSizeBytes.toNat then
        if crc32Compute (s.data.take s.dataSizeBytes.toNat) = s.dataCrc32 then
          attachItems keys values s.itemCount (s.data.take s.dataSizeBytes.toNat)
        else []
      else attachItems keys values s.itemCount s.data := by
  rw [attach, valid]
  rw [if_neg (not_lt.mpr within)]
  by_cases some : 0 < s.dataSizeBytes.toNat
  · by_cases same : crc32Compute (s.data.take s.dataSizeBytes.toNat) = s.dataCrc32
    · simp [some, same]
    · simp [some, same]
  · simp [some]

/-! ## Round trip -/

/-- The segment holds a header of this format. -/
def Initialised (s : Segment) : Prop := s.hasPreviousData = true

/-- The next process gets the longest prefix that fits, in order, and no length was cut. -/
structure RoundTrips (s : Segment) (items : List (K × V)) : Prop where
  handed : ∀ inserter now, LongestFit keys values s.data.length items
    (attach keys values inserter true now (save keys values s items).2).handed
  recordedSize : ∀ fit, LongestFit keys values s.data.length items fit →
    (save keys values s items).2.dataSizeBytes.toNat = totalSize keys values fit
  recordedLengths : ∀ fit, LongestFit keys values s.data.length items fit → ∀ item ∈ fit,
    (lengthWord (keys.bytes item.1).length).toNat = (keys.bytes item.1).length
      ∧ (lengthWord (values.bytes item.2).length).toNat = (values.bytes item.2).length

/-- A completed save is handed over as a whole. -/
theorem Completed.handed (completed : Completed keys values items s t)
    (valid : s.hasPreviousData = true)
    (small : totalSize keys values (savedItems keys values s items) < 2 ^ 32)
    (inserter : K × V → Bool) :
    (attach keys values inserter true now t).handed = savedItems keys values s items := by
  have size := completed.recordedSize keys values small
  have fits := totalSize_savedItems_le keys values s items
  have still : t.hasPreviousData = true := by
    rw [Segment.hasPreviousData, completed.magic, completed.version]
    exact valid
  have length := completed.length_data keys values
  rw [attach_handed keys values inserter still (by omega), size,
    completed.take_data keys values, completed.dataCrc32, completed.itemCount]
  split
  case isTrue some =>
    rw [if_pos rfl, attachItems_records keys values small, take_length]
  case isFalse none =>
    rw [completed.data, attachItems_records_append keys values small]

/-- The next process gets what was saved exactly if the records that fit take less than
4 GiB. -/
theorem roundTrips_iff (s : Segment) (valid : Initialised s) (items : List (K × V)) :
    RoundTrips keys values s items ↔
      totalSize keys values (savedItems keys values s items) < 2 ^ 32 := by
  have longest := fitting_longestFit keys values s.data.length items
  have completed := save_completed keys values s items
  constructor
  · intro trips
    have size := trips.recordedSize (savedItems keys values s items) longest
    rw [← size]
    exact UInt32.toNat_lt _
  · intro small
    refine ⟨fun inserter now => ?_, fun fit isLongest => ?_, fun fit isLongest item mem => ?_⟩
    · rw [completed.handed keys values valid small inserter]
      exact longest
    · rw [completed.recordedSize keys values small]
      exact congrArg (totalSize keys values) (longest.unique keys values isLongest)
    · have same : fit = savedItems keys values s items := isLongest.unique keys values longest
      have within : recordSize keys values item ≤ totalSize keys values _ :=
        le_sum_of_mem (mem_map_of_mem (same ▸ mem))
      rw [recordSize] at within
      exact ⟨toNat_lengthWord_of_lt (by omega), toNat_lengthWord_of_lt (by omega)⟩

/-- A small segment and items of which the last does not fit. -/
def smallSegment : Segment := .create 30

def smallItems : List (List UInt8 × List UInt8) := [([1], [2, 3]), ([4], []), ([5, 6], [7, 8])]

theorem smallItems_roundTrip :
    Initialised smallSegment ∧ RoundTrips .string .string smallSegment smallItems :=
  have valid : Initialised smallSegment := rfl
  ⟨valid, (roundTrips_iff .string .string smallSegment valid smallItems).mpr (by decide)⟩

/-- Strings that are read take no more than the bytes they are read from. -/
theorem totalSize_attachItems_le (claimed : Nat) (left : List UInt8) :
    totalSize .string .string (attachItems .string .string claimed left) ≤ left.length := by
  induction claimed generalizing left with
  | zero => exact Nat.zero_le _
  | succ claimed ih =>
    rw [attachItems]
    split
    case isTrue => exact Nat.zero_le _
    dsimp only
    split
    case isTrue => exact Nat.zero_le _
    split
    case isTrue => exact Nat.zero_le _
    split
    case isTrue => exact Nat.zero_le _
    have later := ih ((((left.drop 4).drop (toNat (left.take 4))).drop 4).drop
      (toNat (((left.drop 4).drop (toNat (left.take 4))).take 4)))
    rw [totalSize_cons, recordSize]
    simp only [Payload.string, length_take, length_drop] at *
    omega

/-- A segment of more than 4 GiB with one item of that size. -/
def wideSegment : Segment := .create (2 ^ 32 + 8)

def zeros (n : Nat) : List UInt8 × List UInt8 := ([], List.replicate n 0)

theorem recordSize_zeros : recordSize .string .string (zeros n) = n + 8 := by
  simp [recordSize, zeros, Payload.string]
  omega

def wideItem : List UInt8 × List UInt8 := zeros (2 ^ 32)

theorem recordSize_wideItem : recordSize .string .string wideItem = 2 ^ 32 + 8 := recordSize_zeros

theorem length_wideSegment : wideSegment.data.length = 2 ^ 32 + 8 := by
  rw [wideSegment, Segment.create, length_replicate]

theorem savedItems_wideItem : savedItems .string .string wideSegment [wideItem] = [wideItem] := by
  rw [savedItems, length_wideSegment, fitting, recordSize_wideItem, if_neg (lt_irrefl _),
    fitting]

/-- The recorded size is cut to 8 bytes, so the item that fits does not come back. -/
theorem wideItem_lost (inserter : List UInt8 × List UInt8 → Bool) (now : Nat) :
    ¬ LongestFit .string .string wideSegment.data.length [wideItem]
      (attach .string .string inserter true now
        (save .string .string wideSegment [wideItem]).2).handed := by
  intro isLongest
  have completed := save_completed .string .string wideSegment [wideItem]
  have valid : Initialised (save .string .string wideSegment [wideItem]).2 := by
    rw [Initialised, Segment.hasPreviousData, completed.magic, completed.version]
    rfl
  have total : totalSize .string .string (savedItems .string .string wideSegment [wideItem])
      = 2 ^ 32 + 8 := by
    rw [savedItems_wideItem, totalSize_cons, recordSize_wideItem]
    rfl
  have size : (save .string .string wideSegment [wideItem]).2.dataSizeBytes.toNat = 8 := by
    rw [completed.dataSizeBytes, total]
    rfl
  have length : (save .string .string wideSegment [wideItem]).2.data.length = 2 ^ 32 + 8 := by
    rw [completed.length_data, length_wideSegment]
  have same := isLongest.unique _ _ (fitting_longestFit .string .string _ [wideItem])
  have short : totalSize .string .string (attach .string .string inserter true now
      (save .string .string wideSegment [wideItem]).2).handed ≤ 8 := by
    rw [attach_handed .string .string inserter valid (by omega), size, if_pos (by decide)]
    split
    case isTrue =>
      refine (totalSize_attachItems_le _ _).trans ?_
      rw [length_take]
      exact min_le_left _ _
    case isFalse => exact Nat.zero_le _
  rw [same] at short
  rw [savedItems] at total
  omega

/-- The item of more than 4 GiB fits its segment and is lost. -/
theorem wideItem_not_roundTrip :
    Initialised wideSegment ∧ ¬ RoundTrips .string .string wideSegment [wideItem] :=
  ⟨rfl, fun trips => wideItem_lost (fun _ => true) 0 (trips.handed _ 0)⟩

end Lru.SharedMemory
