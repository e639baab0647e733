import Lru.SharedMemory.RoundTrip

/-!
# A crash in the middle of a save

The stores of a save reach the mapping in program order: first the records, then the item
count, the size and the checksum. Wherever they stop, the next process gets nothing or a
prefix of the items of one of the two saves. While the old size and checksum are in the
header, a region that passes the check is the old one; once the new item count is there,
all records are.
-/

namespace Lru.SharedMemory

open Binary List

variable {K V : Type} (keys : Payload K) (values : Payload V) {items : List (K × V)} {t : Segment}
  {acquired : Bool} {now : Nat}

/-- The segment a crash leaves behind after the first `j` stores of a save. -/
def crashed (s : Segment) (items : List (K × V)) (j : Nat) : Segment :=
  s.after ((saveStores keys values s items).take j)

/-- Two byte ranges with one checksum are equal. -/
def NoCollision (x y : List UInt8) : Prop := crc32Compute x = crc32Compute y → x = y

instance (x y : List UInt8) : Decidable (NoCollision x y) :=
  inferInstanceAs (Decidable (crc32Compute x = crc32Compute y → x = y))

/-! ## The exits of `attach` -/

theorem handed_cases (inserter : K × V → Bool) (acquired : Bool) (now : Nat) (s : Segment) :
    let handed := (attach keys values inserter acquired now s).handed
    handed = []
      ∨ (0 < s.dataSizeBytes.toNat
        ∧ crc32Compute (s.data.take s.dataSizeBytes.toNat) = s.dataCrc32
        ∧ handed = attachItems keys values s.itemCount (s.data.take s.dataSizeBytes.toNat))
      ∨ (s.dataSizeBytes.toNat = 0 ∧ handed = attachItems keys values s.itemCount s.data) := by
  intro handed
  by_cases skipped : s.hasPreviousData = false ∨ acquired = false
      ∨ s.data.length < s.dataSizeBytes.toNat
  · left
    show (attach keys values inserter acquired now s).handed = []
    rw [attach]
    rcases skipped with h | h | h <;> simp [h]
  simp only [not_or, Bool.not_eq_false, Nat.not_lt] at skipped
  obtain ⟨valid, rfl, within⟩ := skipped
  have spec : handed = _ := attach_handed keys values inserter valid within
  rw [spec]
  by_cases some : 0 < s.dataSizeBytes.toNat
  · rw [if_pos some]
    by_cases same : crc32Compute (s.data.take s.dataSizeBytes.toNat) = s.dataCrc32
    · rw [if_pos same]
      exact .inr (.inl ⟨some, same, rfl⟩)
    · rw [if_neg same]
      exact .inl rfl
  · rw [if_neg some]
    exact .inr (.inr ⟨by omega, rfl⟩)

/-- An empty list of records is an empty list of items. -/
theorem eq_nil_of_totalSize (empty : totalSize keys values items = 0) : items = [] := by
  cases items with
  | nil => rfl
  | cons item rest =>
    rw [totalSize_cons, recordSize] at empty
    omega

/-- Records with their count and their size are handed over as a whole or not at all. -/
theorem handed_of_records {rest : List UInt8}
    (small : totalSize keys values items < 2 ^ 32) (count : t.itemCount = items.length)
    (recorded : t.dataSizeBytes = UInt32.ofNat (totalSize keys values items))
    (data : t.data = records keys values items ++ rest)
    (inserter : K × V → Bool) :
    (attach keys values inserter acquired now t).handed <+: items := by
  have size : t.dataSizeBytes.toNat = totalSize keys values items := by
    rw [recorded]
    exact UInt32.toNat_ofNat_of_lt small
  have front : t.data.take t.dataSizeBytes.toNat = records keys values items := by
    rw [data, size]
    exact take_left' (length_records keys values)
  rcases handed_cases keys values inserter acquired now t with none | ⟨-, -, handed⟩ | ⟨-, handed⟩
  · rw [none]
    exact nil_prefix
  · rw [front, count, attachItems_records keys values small, take_length] at handed
    exact handed ▸ prefix_rfl
  · rw [data, count, attachItems_records_append keys values small] at handed
    exact handed ▸ prefix_rfl

/-! ## The store sequence -/

theorem crashed_cases {s : Segment} {j : Nat} :
    SameHeader s (crashed keys values s items j)
      ∨ ∃ filled : Segment, SameHeader s filled
        ∧ filled.data = records keys values (savedItems keys values s items)
          ++ s.data.drop (totalSize keys values (savedItems keys values s items))
        ∧ (crashed keys values s items j
            = { filled with itemCount := (savedItems keys values s items).length }
          ∨ crashed keys values s items j
            = { filled with
                itemCount := (savedItems keys values s items).length
                dataSizeBytes := UInt32.ofNat
                  (totalSize keys values (savedItems keys values s items)) }
          ∨ crashed keys values s items j = (save keys values s items).2) := by
  obtain ⟨written, cursor, isData, data⟩ := saveItems_of_segment keys values s items
  simp only [crashed, saveStores, save]
  rw [written, cursor]
  generalize saveItems keys values s.data.length 0 items = saved at isData data ⊢
  by_cases early : j ≤ saved.stores.length
  · left
    rw [take_append_of_le_length early]
    exact sameHeader_after (fun store mem => isData store (mem_of_mem_take mem)) s
  right
  refine ⟨s.after saved.stores, sameHeader_after isData s, data, ?_⟩
  obtain ⟨more, rfl⟩ : ∃ more, j = saved.stores.length + (more + 1) :=
    ⟨j - saved.stores.length - 1, by omega⟩
  rw [take_length_add_append, Segment.after_append]
  rcases more with _ | _ | more
  · exact .inl rfl
  · exact .inr (.inl rfl)
  · right
    right
    rw [Segment.after_append, take_of_length_le (by simp)]

/-! ## Crash consistency -/

section Crash

variable {s before : Segment} {old new : List (K × V)}

/-- A region that passes the check of the old header is the old one. -/
theorem Completed.checked (completed : Completed keys values old s before)
    (small : s.data.length < 2 ^ 32) {region : List UInt8}
    (fresh : NoCollision (region.take before.dataSizeBytes.toNat)
      (before.data.take before.dataSizeBytes.toNat))
    (some : 0 < before.dataSizeBytes.toNat)
    (same : crc32Compute (region.take before.dataSizeBytes.toNat) = before.dataCrc32) :
    region.take before.dataSizeBytes.toNat
      = records keys values (savedItems keys values s old) := by
  have fits := totalSize_savedItems_le keys values s old
  have size := completed.recordedSize keys values (by omega)
  have front := completed.take_data keys values
  rw [← size] at front
  rw [← front]
  refine fresh ?_
  rw [same, completed.dataCrc32, if_pos (by omega), front]

/-- Under the old size and checksum the next process gets a prefix of the old items, or
the old size is zero and the region is not checked. -/
theorem Completed.handed_of_oldChecks (completed : Completed keys values old s before)
    (small : s.data.length < 2 ^ 32)
    (size : t.dataSizeBytes = before.dataSizeBytes) (crc : t.dataCrc32 = before.dataCrc32)
    (fresh : NoCollision (t.data.take before.dataSizeBytes.toNat)
      (before.data.take before.dataSizeBytes.toNat))
    (inserter : K × V → Bool) :
    let handed := (attach keys values inserter acquired now t).handed
    handed <+: old
      ∨ (savedItems keys values s old = [] ∧
        handed = attachItems keys values t.itemCount t.data) := by
  have fits := totalSize_savedItems_le keys values s old
  have oldSize := completed.recordedSize keys values (by omega)
  have cases := handed_cases keys values inserter acquired now t
  rw [size, crc] at cases
  rcases cases with none | ⟨some, same, handed⟩ | ⟨zero, handed⟩
  · rw [none]
    exact .inl nil_prefix
  · rw [completed.checked keys values small fresh some same,
      attachItems_records keys values (by omega)] at handed
    rw [handed]
    have cut (n : Nat) : (savedItems keys values s old).take n <+: savedItems keys values s old :=
      take_prefix n _
    exact .inl ((cut _).trans (fitting_longestFit keys values _ old).isPrefix)
  · exact .inr ⟨eq_nil_of_totalSize keys values (by omega), handed⟩

/-- Wherever a save stops after an earlier completed one, the next process gets nothing or
a prefix of the items of one of the two. -/
theorem crash_single_save (s : Segment) (small : s.data.length + 128 < 2 ^ 32)
    (old new : List (K × V)) (j : Nat)
    (fresh : let before := (save keys values s old).2
      NoCollision ((crashed keys values before new j).data.take before.dataSizeBytes.toNat)
        (before.data.take before.dataSizeBytes.toNat))
    (inserter : K × V → Bool) (acquired : Bool) (now : Nat) :
    let handed := (attach keys values inserter acquired now
      (crashed keys values (save keys values s old).2 new j)).handed
    handed <+: old ∨ handed <+: new := by
  have completed := save_completed keys values s old
  generalize (save keys values s old).2 = before at completed fresh ⊢
  have smallNew := totalSize_savedItems_le keys values before new
  rw [completed.length_data keys values] at smallNew
  have newItems := (fitting_longestFit keys values before.data.length new).isPrefix
  rcases crashed_cases keys values with
    header | ⟨filled, header, data, newCount | newSize | finished⟩
  · -- Only records were written: the header is the old one as a whole.
    rcases completed.handed_of_oldChecks keys values (by omega) header.dataSizeBytes
      header.dataCrc32 fresh inserter with old | ⟨none, handed⟩
    · exact .inl old
    · rw [header.itemCount, completed.itemCount, none] at handed
      rw [handed]
      exact .inl nil_prefix
  · -- The new count is there, and so are all new records.
    rcases completed.handed_of_oldChecks keys values (by omega)
      (by rw [newCount]; exact header.dataSizeBytes)
      (by rw [newCount]; exact header.dataCrc32) fresh inserter with old | ⟨-, handed⟩
    · exact .inl old
    · right
      rw [handed, newCount]
      rw [data, attachItems_records_append keys values (by omega)]
      exact newItems
  · -- The new size covers exactly the new records.
    have all : (crashed keys values before new j).data = records keys values
        (savedItems keys values before new) ++ before.data.drop
          (totalSize keys values (savedItems keys values before new)) := by
      rw [newSize]
      exact data
    exact .inr ((handed_of_records keys values (by omega) (by rw [newSize]) (by rw [newSize]) all
      inserter).trans newItems)
  · have completed := save_completed keys values before new
    rw [finished]
    exact .inr ((handed_of_records keys values (by omega) completed.itemCount
      completed.dataSizeBytes completed.data _).trans newItems)

end Crash

/-- The second save stops behind its first record: the check fails and nothing is read. -/
theorem crash_after_first_record :
    let before := (save .string .string smallSegment smallItems).2
    let handed := (attach .string .string (fun _ => true) true 0
      (crashed .string .string before smallItems.reverse 12)).handed
    handed <+: smallItems ∨ handed <+: smallItems.reverse :=
  crash_single_save .string .string smallSegment (by decide) smallItems smallItems.reverse 12
    (by decide +kernel) (fun _ => true) true 0

end Lru.SharedMemory
