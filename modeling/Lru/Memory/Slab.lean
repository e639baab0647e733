import Lru.Library.Transition
import Mathlib.Algebra.BigOperators.Fin
import Mathlib.Data.List.FinRange
import Mathlib.Data.List.Sort

/-!
# Slabs of the size classes

`add_slab_to_class` takes memory for a slab from the shared mapping while that has
room and from the system otherwise; `add_slab` carves it into blocks. What the
system returns is part of the label and overlaps nothing in use. Addresses and
sizes are all that is followed here, and the header of the mapping; the NUMA
allocation of the Windows build is left out.
-/

namespace Lru.Memory

open List

def kBlockHeaderSize : Nat := 16

def kSharedMemHeaderSize : Nat := 88

/-- Two ranges, each with its first byte and its size, do not overlap. -/
def Apart (x y : Nat × Nat) : Prop := x.1 + x.2 ≤ y.1 ∨ y.1 + y.2 ≤ x.1

instance (x y : Nat × Nat) : Decidable (Apart x y) := inferInstanceAs (Decidable (_ ∨ _))

/-- The size classes, and the mapping with its address and its size: 0 without one. -/
structure SlabConfig (n : Nat) where
  classSize : Fin n → Nat
  slabSize : Fin n → Nat
  mappingBase : Nat := 0
  mappingSize : Nat := 0

structure Slab (n : Nat) where
  cls : Fin n
  base : Nat
deriving DecidableEq

/-- The slabs in the order of their addition, `shared_mem_next_slab_offset_` and the
`class_slab_counts` of the mapping's header. -/
structure Slabs (n : Nat) where
  all : List (Slab n) := []
  nextOffset : Nat := 0
  header : Fin n → Nat := fun _ => 0

/-- The limit of a class may have grown since the last call. -/
structure AddSlab (n : Nat) where
  cls : Fin n
  maxSlabs : Nat
  systemBase : Nat

variable {n : Nat} {slab : Slab n}

def Slabs.numSlabs (s : Slabs n) (i : Fin n) : Nat := (s.all.map Slab.cls).count i

namespace SlabConfig

variable (c : SlabConfig n)

def itemsPerSlab (i : Fin n) : Nat :=
  if 0 < c.slabSize i / c.classSize i then c.slabSize i / c.classSize i else 1

/-- `payload_capacity()`, a 32-bit difference. -/
def payloadCapacity (i : Fin n) : Nat := (c.classSize i + (2 ^ 32 - kBlockHeaderSize)) % 2 ^ 32

def range (slab : Slab n) : Nat × Nat := (slab.base, c.slabSize slab.cls)

def blocks (slab : Slab n) : List (Nat × Nat) :=
  (List.range (c.itemsPerSlab slab.cls)).map fun i =>
    (slab.base + i * c.classSize slab.cls, c.classSize slab.cls)

/-- The next slab of a class fits into the mapping. -/
def Fits (s : Slabs n) (i : Fin n) : Prop :=
  kSharedMemHeaderSize + s.nextOffset + c.slabSize i ≤ c.mappingSize

instance (s : Slabs n) (i : Fin n) : Decidable (c.Fits s i) := inferInstanceAs (Decidable (_ ≤ _))

def addSlabToClass (s : Slabs n) (l : AddSlab n) : Option (Slabs n) :=
  if l.maxSlabs ≤ s.numSlabs l.cls then some s
  else if c.Fits s l.cls then
    let all := s.all ++ [⟨l.cls, c.mappingBase + kSharedMemHeaderSize + s.nextOffset⟩]
    some { all, nextOffset := s.nextOffset + c.slabSize l.cls, header := Slabs.numSlabs { all } }
  else if Apart (c.mappingBase, c.mappingSize) (l.systemBase, c.slabSize l.cls) ∧
      ∀ slab ∈ s.all, Apart (c.range slab) (l.systemBase, c.slabSize l.cls) then
    some { s with all := s.all ++ [⟨l.cls, l.systemBase⟩] }
  else none

/-! ## Blocks -/

/-- Blocks lie in their slabs, overlap nowhere and hold header and payload. -/
structure Carved (s : Slabs n) : Prop where
  inside : ∀ slab ∈ s.all, ∀ block ∈ c.blocks slab,
    slab.base ≤ block.1 ∧ block.1 + block.2 ≤ slab.base + c.slabSize slab.cls
  apart : (s.all.flatMap c.blocks).Pairwise Apart
  holds : ∀ slab ∈ s.all, kBlockHeaderSize + c.payloadCapacity slab.cls ≤ c.classSize slab.cls

/-- A block of the class has room for its header, and a slab for a block. -/
def Carvable (i : Fin n) : Prop := kBlockHeaderSize ≤ c.classSize i ∧ c.classSize i ≤ c.slabSize i

/-- The slabs overlap neither each other nor the unused rest of the mapping. -/
structure Placed (s : Slabs n) : Prop where
  apart : s.all.Pairwise fun x y => Apart (c.range x) (c.range y)
  rest : ∀ slab ∈ s.all,
    slab.base + c.slabSize slab.cls ≤ c.mappingBase + kSharedMemHeaderSize + s.nextOffset ∨
      c.mappingBase + c.mappingSize ≤ slab.base

variable {c} {s t : Slabs n} {l : AddSlab n}

/-- What a call does: nothing, a slab in the mapping, or one from the system. -/
theorem step_cases (taken : c.addSlabToClass s l = some t) :
    l.maxSlabs ≤ s.numSlabs l.cls ∧ t = s ∨
      (s.numSlabs l.cls < l.maxSlabs ∧ c.Fits s l.cls) ∧
        t.nextOffset = s.nextOffset + c.slabSize l.cls ∧ t.header = t.numSlabs ∧
        t.all = s.all ++ [⟨l.cls, c.mappingBase + kSharedMemHeaderSize + s.nextOffset⟩] ∨
      (s.numSlabs l.cls < l.maxSlabs ∧ ¬ c.Fits s l.cls) ∧ t.nextOffset = s.nextOffset ∧
        Apart (c.mappingBase, c.mappingSize) (l.systemBase, c.slabSize l.cls) ∧
        (∀ slab ∈ s.all, Apart (c.range slab) (l.systemBase, c.slabSize l.cls)) ∧
        t.all = s.all ++ [⟨l.cls, l.systemBase⟩] := by
  rw [addSlabToClass] at taken
  split at taken
  case isTrue limited => exact .inl ⟨limited, (Option.some.inj taken).symm⟩
  case isFalse below =>
  have below := Nat.lt_of_not_le below
  split at taken
  case isTrue fits =>
    cases taken
    exact .inr (.inl ⟨⟨below, fits⟩, rfl, rfl, rfl⟩)
  case isFalse full =>
    split at taken <;> cases taken
    case isTrue free => exact .inr (.inr ⟨⟨below, full⟩, rfl, free.1, free.2, rfl⟩)

theorem Placed.step (placed : c.Placed s) (taken : c.addSlabToClass s l = some t) : c.Placed t := by
  -- The new slab is apart from the others and from what is left of the mapping.
  have grown {base : Nat} (all : t.all = s.all ++ [⟨l.cls, base⟩])
      (later : s.nextOffset ≤ t.nextOffset)
      (apart : ∀ slab ∈ s.all, Apart (c.range slab) (base, c.slabSize l.cls))
      (rest : base + c.slabSize l.cls ≤ c.mappingBase + kSharedMemHeaderSize + t.nextOffset ∨
        c.mappingBase + c.mappingSize ≤ base) : c.Placed t := by
    constructor
    · rw [all]
      refine pairwise_append.mpr ⟨placed.apart, pairwise_singleton _ _, ?_⟩
      simpa [range] using apart
    · intro slab mem
      rw [all, mem_append, mem_singleton] at mem
      obtain old | rfl := mem
      · have := placed.rest slab old
        omega
      · exact rest
  obtain ⟨-, rfl⟩ | ⟨⟨-, fits⟩, offset, -, all⟩ | ⟨-, offset, mapping, apart, all⟩ :=
    step_cases taken
  · exact placed
  · unfold Fits at fits
    refine grown all (by omega) (fun slab mem => ?_) (by omega)
    have := placed.rest slab mem
    simp only [Apart, range]
    omega
  · simp only [Apart] at mapping
    exact grown all (by omega) apart (by omega)

theorem blocks_inside {block : Nat × Nat} (carvable : c.Carvable slab.cls)
    (mem : block ∈ c.blocks slab) :
    slab.base ≤ block.1 ∧ block.1 + block.2 ≤ slab.base + c.slabSize slab.cls := by
  obtain ⟨header, fits⟩ := carvable
  have positive : 0 < c.classSize slab.cls := Nat.lt_of_lt_of_le (by decide) header
  obtain ⟨i, inside, rfl⟩ := mem_map.mp mem
  rw [mem_range, itemsPerSlab, if_pos (Nat.div_pos fits positive)] at inside
  have last := (Nat.le_div_iff_mul_le positive).mp inside
  rw [Nat.succ_mul] at last
  exact ⟨Nat.le_add_right _ _, by dsimp only; omega⟩

theorem blocks_apart : (c.blocks slab).Pairwise Apart := by
  refine pairwise_map.mpr (pairwise_lt_range.imp fun {i j} less => .inl ?_)
  have := Nat.mul_le_mul_right (c.classSize slab.cls) (Nat.succ_le_of_lt less)
  rw [Nat.succ_mul] at this
  omega

/-- In every run that adds slabs to carvable classes only, all blocks are sound. -/
theorem blocks_carved (reached : Transition.Reaches c.addSlabToClass
    (fun _ l => c.Carvable l.cls) {} s) : c.Carved s := by
  obtain ⟨placed, carvable⟩ : c.Placed s ∧ ∀ slab ∈ s.all, c.Carvable slab.cls := by
    refine reached.invariant (P := fun s => c.Placed s ∧ ∀ slab ∈ s.all, c.Carvable slab.cls)
      ⟨⟨.nil, by simp⟩, by simp⟩ ?_
    rintro s l t ⟨placed, before⟩ carvable taken
    refine ⟨placed.step taken, fun slab mem => ?_⟩
    obtain ⟨-, rfl⟩ | ⟨-, -, -, all⟩ | ⟨-, -, -, -, all⟩ := step_cases taken
    · exact before slab mem
    all_goals
      rw [all, mem_append, mem_singleton] at mem
      obtain old | rfl := mem
      · exact before slab old
      · exact carvable
  refine ⟨fun slab mem block => blocks_inside (carvable slab mem), ?_, fun slab mem => ?_⟩
  · refine pairwise_flatMap.mpr ⟨fun slab _ => blocks_apart, ?_⟩
    refine placed.apart.imp_of_mem fun {x y} hx hy separate b hb d hd => ?_
    have first := blocks_inside (carvable x hx) hb
    have second := blocks_inside (carvable y hy) hd
    simp only [Apart, range] at separate ⊢
    omega
  · have header := (carvable slab mem).1
    have wraps : c.classSize slab.cls + (2 ^ 32 - kBlockHeaderSize) =
        c.classSize slab.cls - kBlockHeaderSize + 2 ^ 32 := by
      unfold kBlockHeaderSize at *
      omega
    have := Nat.mod_le (c.classSize slab.cls - kBlockHeaderSize) (2 ^ 32)
    rw [payloadCapacity]
    omega

/-- The classes of `slab_allocator`, with one slab size. -/
def standard (slabSize mappingSize : Nat) : SlabConfig 11 where
  classSize i := 64 * 2 ^ i.val
  slabSize _ := slabSize
  mappingSize := mappingSize

theorem one_slab_carved : ∃ s, (standard 65536 0).addSlabToClass {} ⟨0, 1, 4096⟩ = some s ∧
    (standard 65536 0).Carved s := by
  refine ⟨{ all := [⟨0, 4096⟩] }, rfl, blocks_carved (.single ⟨⟨0, 1, 4096⟩, ?_, rfl⟩)⟩
  constructor <;> decide

/-- A slab of 32 KiB for the blocks of 64 KiB: its only block ends beyond it. -/
theorem block_exceeds_slab : ∃ s, (standard 32768 0).addSlabToClass {} ⟨10, 1, 4096⟩ = some s ∧
    ¬ (standard 32768 0).Carved s := by
  refine ⟨{ all := [⟨10, 4096⟩] }, rfl, fun carved => ?_⟩
  have := (carved.inside ⟨10, 4096⟩ (by decide) (4096, 65536) (by decide)).2
  exact absurd this (by decide)

/-! ## Warm restart -/

/-- Consecutive slabs of these classes from an offset on. -/
def layout (c : SlabConfig n) : Nat → List (Fin n) → List (Slab n)
  | _, [] => []
  | offset, i :: rest =>
    ⟨i, c.mappingBase + kSharedMemHeaderSize + offset⟩ :: c.layout (offset + c.slabSize i) rest

/-- `init_shared_memory` on a mapping with a valid header: the slabs of class 0 first,
then those of class 1 and so on. -/
def reopen (c : SlabConfig n) (header : Fin n → Nat) : Slabs n :=
  let classes := (List.finRange n).flatMap fun i => List.replicate (header i) i
  { all := c.layout 0 classes, nextOffset := (classes.map c.slabSize).sum, header }

theorem layout_append (offset : Nat) (classes : List (Fin n)) (i : Fin n) :
    c.layout offset (classes ++ [i]) = c.layout offset classes ++
      [⟨i, c.mappingBase + kSharedMemHeaderSize + (offset + (classes.map c.slabSize).sum)⟩] := by
  induction classes generalizing offset with
  | nil => rfl
  | cons j rest ih =>
    simp only [cons_append, layout, ih, map_cons, sum_cons, Nat.add_assoc]

/-- The slab lies in the mapping, behind its header. -/
def Mapped (c : SlabConfig n) (slab : Slab n) : Prop :=
  c.mappingBase + kSharedMemHeaderSize ≤ slab.base ∧
    slab.base + c.slabSize slab.cls ≤ c.mappingBase + c.mappingSize

/-- All slabs stand in the mapping in the order of their classes. -/
structure InOrder (c : SlabConfig n) (s : Slabs n) : Prop where
  sorted : (s.all.map Slab.cls).Pairwise (· ≤ ·)
  all_eq : s.all = c.layout 0 (s.all.map Slab.cls)
  offset_eq : s.nextOffset = ((s.all.map Slab.cls).map c.slabSize).sum
  header_eq : s.header = s.numSlabs
  mapped : ∀ slab ∈ s.all, c.Mapped slab

/-- A sorted list is determined by how often each class occurs. -/
theorem flatMap_replicate_count {classes : List (Fin n)} (sorted : classes.Pairwise (· ≤ ·)) :
    (finRange n).flatMap (fun i => replicate (classes.count i) i) = classes := by
  refine List.Perm.eq_of_pairwise (fun _ _ _ _ => le_antisymm) ?_ sorted ?_
  · simp only [pairwise_flatMap, pairwise_replicate, mem_replicate, le_refl,
      or_true, implies_true, true_and]
    exact (pairwise_lt_finRange n).imp fun less _ first _ second =>
      first.2 ▸ second.2 ▸ less.le
  · refine perm_iff_count.mpr fun i => ?_
    simp only [count_flatMap, count_replicate, Function.comp_def]
    rw [← ofFn_eq_map, sum_ofFn]
    simp

/-- The next slab of the class fits into the mapping and comes after all others. -/
def Follows (c : SlabConfig n) (s : Slabs n) (l : AddSlab n) : Prop :=
  s.numSlabs l.cls < l.maxSlabs → c.Fits s l.cls ∧ ∀ slab ∈ s.all, slab.cls ≤ l.cls

theorem InOrder.step (ordered : c.InOrder s) (taken : c.addSlabToClass s l = some t)
    (follows : c.Follows s l) : c.InOrder t := by
  obtain ⟨-, rfl⟩ | ⟨⟨below, fits⟩, offset, header, all⟩ | ⟨⟨below, full⟩, -⟩ := step_cases taken
  · exact ordered
  · have classes : t.all.map Slab.cls = s.all.map Slab.cls ++ [l.cls] := by rw [all]; simp
    refine ⟨?_, ?_, ?_, header, fun slab mem => ?_⟩
    · rw [classes]
      refine pairwise_append.mpr ⟨ordered.sorted, pairwise_singleton _ _, ?_⟩
      simpa using (follows below).2
    · rw [classes, layout_append, ← ordered.all_eq, Nat.zero_add, ← ordered.offset_eq, all]
    · rw [classes, offset, ordered.offset_eq]
      simp
    · rw [all, mem_append, mem_singleton] at mem
      obtain old | rfl := mem
      · exact ordered.mapped slab old
      · simp only [Fits, Mapped] at fits ⊢
        omega
  · exact absurd (follows below).1 full

/-- In every run that adds slabs in the order of their classes and within the mapping,
re-opening it finds all slabs where they were. -/
theorem reopen_restores (reached : Transition.Reaches c.addSlabToClass c.Follows {} s) :
    c.reopen s.header = s ∧ s.all.Pairwise (fun x y => Apart (c.range x) (c.range y)) ∧
      ∀ slab ∈ s.all, c.Mapped slab := by
  have ordered : c.InOrder s := reached.invariant ⟨.nil, rfl, rfl, rfl, by simp⟩
    fun _ _ _ ordered follows taken => ordered.step taken follows
  have placed : c.Placed s := reached.invariant ⟨.nil, by simp⟩
    fun _ _ _ placed _ taken => placed.step taken
  have classes : (finRange n).flatMap (fun i => replicate (s.header i) i) = s.all.map Slab.cls := by
    rw [ordered.header_eq]
    exact flatMap_replicate_count ordered.sorted
  refine ⟨?_, placed.apart, ordered.mapped⟩
  rw [reopen, classes, ← ordered.all_eq, ← ordered.offset_eq]

theorem ordered_slabs_restored : ∃ s, Transition.run (standard 65536 200000).addSlabToClass {}
      [⟨0, 2, 0⟩, ⟨0, 2, 0⟩, ⟨1, 1, 0⟩] = some s ∧ (standard 65536 200000).reopen s.header = s := by
  refine ⟨_, rfl, (reopen_restores ?_).1⟩
  exact ((Relation.ReflTransGen.single ⟨⟨0, 2, 0⟩, by unfold Follows; decide +kernel, rfl⟩).tail
    ⟨⟨0, 2, 0⟩, by unfold Follows; decide +kernel, rfl⟩).tail
    ⟨⟨1, 1, 0⟩, by unfold Follows; decide +kernel, rfl⟩

/-- Class 0 grows after class 1: the restart gives the slab of class 1 to class 0. -/
theorem grown_class_moved : ∃ s, Transition.run (standard 65536 200000).addSlabToClass {}
      [⟨0, 2, 0⟩, ⟨1, 1, 0⟩, ⟨0, 2, 0⟩] = some s ∧
    ⟨1, 65624⟩ ∈ s.all ∧ ⟨0, 65624⟩ ∈ ((standard 65536 200000).reopen s.header).all := by
  refine ⟨_, rfl, ?_, ?_⟩ <;> decide +kernel

end SlabConfig

end Lru.Memory
