import Lru.Filter.RejectFirst
import Mathlib.Algebra.Group.Nat.Defs
import Mathlib.Data.List.Dedup

/-!
# How long the reject-first tracker remembers

`approx_split_set` over a dense set: the entries of a split stand in the order of
insertion, `begin()` is the first of them and `erase` moves the last one into the hole. A
full split then replaces its first entry only: each newcomer is gone at the next one, and
the entries behind the first stay whatever is offered.
-/

namespace Lru.Filter.ApproxSplitSet

open List

def eraseBegin (entries : List Nat) : List Nat := (entries.set 0 (entries.getLastD 0)).dropLast

/-- What `insert_and_check` does to the entries of the split. -/
def record (capacity : Nat) (entries : List Nat) (keyHash : Nat) : List Nat :=
  if keyHash ∈ entries then entries
  else
    let entries := entries ++ [keyHash]
    if capacity < entries.length then eraseBegin entries else entries

def insert (t : ApproxSplitSet) (keyHash : Nat) : ApproxSplitSet :=
  let split := keyHash % t.numSplits
  { t with
    splits := Function.update t.splits split (record t.maxPerSplit (t.splits split) keyHash) }

theorem eraseBegin_perm (x : Nat) (l : List Nat) : (eraseBegin (x :: l)).Perm l := by
  obtain rfl | ⟨front, last, rfl⟩ := l.eq_nil_or_concat'
  · exact .refl []
  · have replaced : eraseBegin (x :: (front ++ [last])) = last :: front := by
      rw [eraseBegin, ← cons_append, getLastD_concat, cons_append, set_cons_zero, ← cons_append,
        dropLast_concat]
    exact replaced ▸ (perm_append_singleton last front).symm

/-- This is `insert_and_check` with `begin()` at the first entry, up to the order in which a
split keeps its entries. -/
theorem insert_perm (t : ApproxSplitSet) (keyHash i : Nat) :
    ((t.insert keyHash).splits i).Perm ((t.insertAndCheck keyHash 0).2.splits i) := by
  by_cases own : i = keyHash % t.numSplits
  · subst own
    by_cases seen : keyHash ∈ t.splits (keyHash % t.numSplits)
    · simp [insert, record, insertAndCheck, seen]
    · obtain ⟨x, l, entries⟩ := exists_cons_of_ne_nil
        (append_ne_nil_of_right_ne_nil (t.splits (keyHash % t.numSplits)) (cons_ne_nil keyHash []))
      simp only [insert, record, insertAndCheck, contains_iff_mem, seen, if_false, entries,
        Function.update_self, Nat.zero_mod, eraseIdx_cons_zero]
      split
      · exact eraseBegin_perm x l
      · exact .refl _
  · simp only [insert, insertAndCheck, Function.update_of_ne own]
    split
    · exact .refl _
    · exact .of_eq (Function.update_of_ne own ..).symm

/-- The hashes of a split's stream that were untracked when they were offered. -/
def newcomers (capacity : Nat) : List Nat → List Nat → List Nat
  | _, [] => []
  | entries, keyHash :: stream =>
    (if keyHash ∈ entries then [] else [keyHash])
      ++ newcomers capacity (record capacity entries keyHash) stream

/-- A state of the tracker: a split is a set of hashes of its own, within the capacity. -/
structure WellFormed (t : ApproxSplitSet) : Prop where
  pos : 0 < t.numSplits
  nodup : ∀ i < t.numSplits, (t.splits i).Nodup
  length_le : ∀ i < t.numSplits, (t.splits i).length ≤ t.maxPerSplit
  filed : ∀ i < t.numSplits, ∀ keyHash ∈ t.splits i,
    keyHash < 2 ^ 64 ∧ keyHash % t.numSplits = i

/-- With `capacity` entries to a split, a tracked hash that is not offered again is gone
once `bound` distinct newcomers of its split have been offered. -/
def WindowBounded (capacity bound : Nat) : Prop :=
  ∀ t : ApproxSplitSet, t.WellFormed → t.maxPerSplit = capacity →
    ∀ keyHash, t.contains keyHash →
      ∀ stream : List Nat, (∀ x ∈ stream, x < 2 ^ 64) → keyHash ∉ stream →
        let split := keyHash % t.numSplits
        bound ≤ (newcomers capacity (t.splits split)
          (stream.filter (· % t.numSplits == split))).dedup.length →
        ¬(stream.foldl insert t).contains keyHash

variable {capacity bound keyHash x first : Nat} {entries rest stream : List Nat}

theorem foldl_insert_splits {i : Nat} : ∀ t : ApproxSplitSet,
    (stream.foldl insert t).numSplits = t.numSplits
      ∧ (stream.foldl insert t).splits i =
        (stream.filter (· % t.numSplits == i)).foldl (record t.maxPerSplit) (t.splits i) := by
  induction stream with
  | nil => exact fun t => ⟨rfl, rfl⟩
  | cons x stream ih =>
    intro t
    refine ⟨(ih (t.insert x)).1, (ih (t.insert x)).2.trans ?_⟩
    by_cases own : x % t.numSplits = i
    · subst own
      simp [insert]
    · simp [insert, own, Function.update_of_ne (Ne.symm own)]

theorem contains_foldl_insert {t : ApproxSplitSet} :
    (stream.foldl insert t).contains keyHash ↔
      keyHash ∈ (stream.filter (· % t.numSplits == keyHash % t.numSplits)).foldl
        (record t.maxPerSplit) (t.splits (keyHash % t.numSplits)) := by
  obtain ⟨numSplits, splits⟩ := foldl_insert_splits t
  rw [contains, contains_iff_mem, numSplits, splits]

/-! ## A single place -/

theorem mem_of_mem_record (mem : keyHash ∈ record capacity entries x) :
    keyHash = x ∨ keyHash ∈ entries := by
  have appended : keyHash ∈ entries ++ [x] := by
    rw [record] at mem
    split at mem
    · exact mem_append_left _ mem
    dsimp only at mem
    split at mem
    · obtain kept | last := mem_or_eq_of_mem_set (dropLast_subset _ mem)
      · exact kept
      · simp [last]
    · exact mem
  simpa [or_comm] using appended

theorem not_mem_foldl_record (untracked : keyHash ∉ entries) (absent : keyHash ∉ stream) :
    keyHash ∉ stream.foldl (record capacity) entries := by
  induction stream generalizing entries with
  | nil => exact untracked
  | cons x stream ih =>
    obtain ⟨ne, absent⟩ := not_or.mp (mt mem_cons.mpr absent)
    exact ih (fun mem => (mem_of_mem_record mem).elim ne untracked) absent

/-- The only entry goes out at the first newcomer. -/
theorem windowBounded_one (pos : 0 < bound) : WindowBounded 1 bound := by
  intro t wf single keyHash tracked stream _ absent split reached
  rw [contains_foldl_insert, single]
  have entries : t.splits split = [keyHash] := by
    have mem := contains_iff_mem.mp tracked
    obtain ⟨only, entries⟩ := length_eq_one_iff.mp (Nat.le_antisymm
      (single ▸ wf.length_le _ (Nat.mod_lt _ wf.pos)) (length_pos_of_mem mem))
    rw [entries] at mem ⊢
    rw [mem_singleton.mp mem]
  rw [entries] at reached ⊢
  have absent : keyHash ∉ stream.filter (· % t.numSplits == split) :=
    fun mem => absent (mem_of_mem_filter mem)
  cases own : stream.filter (· % t.numSplits == split) with
  | nil =>
    rw [own] at reached
    exact absurd (Nat.lt_of_lt_of_le pos reached) (Nat.lt_irrefl 0)
  | cons x stream =>
    obtain ⟨ne, absent⟩ := not_or.mp (mt mem_cons.mpr (own ▸ absent))
    have replaced : record 1 [keyHash] x = [x] := by simp [record, eraseBegin, Ne.symm ne]
    rw [foldl_cons, replaced]
    exact not_mem_foldl_record (by simpa using ne) absent

/-! ## More places -/

/-- In a full split the newcomer takes the first place. -/
theorem record_of_full (untracked : x ∉ first :: rest)
    (full : capacity = rest.length + 1) : record capacity (first :: rest) x = x :: rest := by
  rw [record, if_neg untracked, if_pos (by simp [full]), eraseBegin, getLastD_concat,
    cons_append, set_cons_zero, ← cons_append, dropLast_concat]

theorem foldl_record_of_full (stream : List Nat) (first : Nat)
    (full : capacity = rest.length + 1) :
    ∃ last, stream.foldl (record capacity) (first :: rest) = last :: rest := by
  induction stream generalizing first with
  | nil => exact ⟨first, rfl⟩
  | cons x stream ih =>
    rw [foldl_cons]
    by_cases tracked : x ∈ first :: rest
    · rw [record, if_pos tracked]
      exact ih first
    · rw [record_of_full tracked full]
      exact ih x

/-- Hashes above all entries of a full split are newcomers, each of them. -/
theorem newcomers_range' {start : Nat} (full : capacity = rest.length + 1)
    (below : ∀ y ∈ first :: rest, y < start) :
    newcomers capacity (first :: rest) (range' start bound) = range' start bound := by
  induction bound generalizing first start with
  | zero => rfl
  | succ bound ih =>
    have untracked : start ∉ first :: rest := fun mem => Nat.lt_irrefl _ (below _ mem)
    rw [range'_succ, newcomers, if_neg untracked, record_of_full untracked full, ih]
    · rfl
    · intro y mem
      obtain rfl | mem := mem_cons.mp mem
      · exact Nat.lt_succ_self _
      · exact Nat.lt_succ_of_lt (below y (.tail _ mem))

def filled (capacity : Nat) : ApproxSplitSet where
  numSplits := 1
  maxPerSplit := capacity
  splits _ := List.range' 0 capacity

theorem filled_wellFormed (room : capacity ≤ 2 ^ 64) : (filled capacity).WellFormed where
  pos := Nat.one_pos
  nodup _ _ := nodup_range'
  length_le _ _ := Nat.le_of_eq length_range'
  filed i lt y mem := by
    have below := (mem_range'_1.mp mem).2
    exact ⟨by omega, (Nat.mod_one y).trans (Nat.lt_one_iff.mp lt).symm⟩

/-- With a second place no number of newcomers is enough. -/
theorem not_windowBounded (places : 2 ≤ capacity) (room : capacity + bound ≤ 2 ^ 64) :
    ¬WindowBounded capacity bound := by
  intro bounded
  obtain ⟨n, rfl⟩ := Nat.exists_eq_add_of_le' places
  have below {y} (mem : y ∈ range' 0 (n + 2)) : y < n + 2 := by
    have range := mem_range'_1.mp mem
    omega
  have offered {x} (mem : x ∈ range' (n + 2) bound) : 1 < x ∧ x < 2 ^ 64 := by
    have range := mem_range'_1.mp mem
    omega
  have own : (range' (n + 2) bound).filter
      (· % (filled (n + 2)).numSplits == 1 % (filled (n + 2)).numSplits)
      = range' (n + 2) bound :=
    filter_eq_self.mpr (by simp [filled, Nat.mod_one])
  have full : n + 2 = (range' 1 (n + 1)).length + 1 := by rw [length_range']
  have entries : (filled (n + 2)).splits (1 % (filled (n + 2)).numSplits) =
      0 :: range' 1 (n + 1) := rfl
  refine bounded (filled (n + 2)) (filled_wellFormed (by omega)) rfl 1
    (by simp [filled, contains]) (range' (n + 2) bound) (fun x mem => (offered mem).2)
    (fun mem => Nat.lt_irrefl _ (offered mem).1) ?_ (contains_foldl_insert.mpr ?_)
  · refine Nat.le_of_eq ?_
    rw [own, entries, newcomers_range' full fun y mem => below mem,
      dedup_eq_self.mpr nodup_range', length_range']
  · obtain ⟨last, kept⟩ := foldl_record_of_full (range' (n + 2) bound) 0 full
    rw [own]
    exact kept ▸ .tail _ (.head _)

/-! ## The window -/

/-- The tracker forgets within a fixed number of newcomers exactly when a split has one
place only, for every number of newcomers that 64-bit hashes can make up. -/
theorem windowBounded_iff (places : 0 < capacity) (pos : 0 < bound)
    (room : capacity + bound ≤ 2 ^ 64) : WindowBounded capacity bound ↔ capacity = 1 := by
  refine ⟨fun bounded => ?_, ?_⟩
  · by_contra more
    exact not_windowBounded (by omega) room bounded
  · rintro rfl
    exact windowBounded_one pos

theorem one_place_bounded : WindowBounded 1 1 :=
  (windowBounded_iff (by decide) (by decide) (by decide)).mpr rfl

/-- Two places, the hashes 0 and 1: the second is never replaced. -/
theorem two_places_unbounded : ¬∃ bound, 2 + bound ≤ 2 ^ 64 ∧ WindowBounded 2 bound := by
  rintro ⟨bound, room, bounded⟩
  exact not_windowBounded (Nat.le_refl 2) room bounded

end Lru.Filter.ApproxSplitSet
