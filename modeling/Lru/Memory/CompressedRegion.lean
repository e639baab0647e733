import Lru.Memory.Slab
import Mathlib.Data.Nat.Bitwise

/-!
# Objects behind compressed pointers

`compressed_region` hands out one block from its first byte on, and a compressed pointer or hook
stores the distance from that byte in 32 bits. `allocate` aligns the distance, not the address,
and does not ask how far a compressed pointer reaches. Addresses are 64-bit words, 0 is the null
pointer; destructors and the other fields of the hook are left out.
-/

namespace Lru.Memory

open List Transition BitVec

def kNullOffset : Nat := 2 ^ 32 - 1

def kMaxOffset : Nat := kNullOffset - 1

/-- What `compress`, `set_prev` and `set_next` have in common: the offset, or the text thrown. -/
def encodeOffset (below exceeds : String) (ptr base : Nat) : Except String Nat :=
  if ptr = 0 then .ok kNullOffset
  else if ptr < base then .error below
  else if kNullOffset - 1 < ptr - base then .error exceeds
  else .ok (ptr - base)

/-- What `get`, `prev` and `next` have in common. -/
def resolveOffset (offset base : Nat) : Nat :=
  if offset = kNullOffset then 0 else (base + offset) % 2 ^ 64

structure CompressedPtr where
  offset : Nat := kNullOffset

def CompressedPtr.compress : Nat → Nat → Except String Nat :=
  encodeOffset "compressed_ptr: pointer is below base address"
    "compressed_ptr: offset exceeds 4GB limit"

def CompressedPtr.set (_ : CompressedPtr) (ptr base : Nat) : Except String CompressedPtr :=
  (compress ptr base).map CompressedPtr.mk

def CompressedPtr.get (p : CompressedPtr) (base : Nat) : Nat := resolveOffset p.offset base

structure CompressedHook where
  prevOffset : Nat := 0
  nextOffset : Nat := 0

namespace CompressedHook

variable (h : CompressedHook)

def setPrev (ptr base : Nat) : Except String CompressedHook :=
  (encodeOffset "compressed_intrusive_hook::set_prev: pointer below base address"
    "compressed_intrusive_hook::set_prev: offset exceeds 32-bit range" ptr base).map
      fun offset => { h with prevOffset := offset }

def setNext (ptr base : Nat) : Except String CompressedHook :=
  (encodeOffset "compressed_intrusive_hook::set_next: pointer below base address"
    "compressed_intrusive_hook::set_next: offset exceeds 32-bit range" ptr base).map
      fun offset => { h with nextOffset := offset }

def prev (base : Nat) : Nat := resolveOffset h.prevOffset base

def next (base : Nat) : Nat := resolveOffset h.nextOffset base

end CompressedHook

/-- `sizeof` of a type and its `alignof`, a power of two. -/
structure Layout where
  size : Nat
  log2Align : Nat
  size_pos : 0 < size := by decide

structure Object where
  address : Nat
  layout : Layout

def Object.range (o : Object) : Nat × Nat := (o.address, o.layout.size)

/-- The objects are those of `destructors_`, all that were returned. -/
structure CompressedRegion where
  memory : Nat
  itemSize : Nat
  itemCount : Nat
  used : Nat := 0
  objects : List Object := []

inductive RegionError where
  | invalidArgument (text : String)
  | badAlloc

namespace CompressedRegion

/-- The constructor; `memory` is what `operator new` returned. -/
def create (itemCount itemSize memory : Nat) : Except RegionError CompressedRegion :=
  if itemSize = 0 then .error (.invalidArgument "compressed_region: item_size must be > 0")
  else if (2 ^ 64 - 1) / itemSize < itemCount then .error .badAlloc
  else if memory = 0 then .error .badAlloc
  else .ok { memory, itemSize, itemCount }

variable (r : CompressedRegion) (l : Layout)

def capacity : Nat := r.itemCount * r.itemSize % 2 ^ 64

/-- `aligned_used`, a 64-bit word like all sizes. -/
def alignedUsed : Nat :=
  (BitVec.ofNat 64 (r.used + 2 ^ l.log2Align - 1) &&&
    ~~~BitVec.ofNat 64 (2 ^ l.log2Align - 1)).toNat

def allocate : Option Nat × CompressedRegion :=
  if r.capacity < (r.alignedUsed l + l.size) % 2 ^ 64 then (none, r)
  else (some (r.memory + r.alignedUsed l),
    { r with
      used := (r.alignedUsed l + l.size) % 2 ^ 64
      objects := r.objects ++ [⟨r.memory + r.alignedUsed l, l⟩] })

def step : Option CompressedRegion := some (r.allocate l).2

/-- Every object is aligned and inside, none overlaps another, and its address survives the way
into a compressed pointer or hook and back. -/
structure Sound : Prop where
  aligned : ∀ o ∈ r.objects, 2 ^ o.layout.log2Align ∣ o.address
  inside : ∀ o ∈ r.objects,
    r.memory ≤ o.address ∧ o.address + o.layout.size ≤ r.memory + r.capacity
  apart : r.objects.Pairwise fun x y => Apart x.range y.range
  decoded : ∀ o ∈ r.objects, ∀ (p : CompressedPtr) (h : CompressedHook),
    (p.set o.address r.memory).map (·.get r.memory) = .ok o.address ∧
      (h.setPrev o.address r.memory).map (·.prev r.memory) = .ok o.address ∧
      (h.setNext o.address r.memory).map (·.next r.memory) = .ok o.address

/-- The object exceeds the capacity, or the block is aligned as the type is and the object ends
in the address space and begins where a compressed pointer can reach it. -/
def Placeable : Prop :=
  r.capacity < (r.alignedUsed l + l.size) % 2 ^ 64 ∨
    2 ^ l.log2Align ∣ r.memory ∧ r.alignedUsed l ≤ kMaxOffset ∧ r.alignedUsed l + l.size < 2 ^ 64

end CompressedRegion

variable {r : CompressedRegion} {l : Layout} {ptr base offset : Nat} {below exceeds : String}

/-! ## Encoding -/

/-- Whatever is accepted is decoded to itself. -/
theorem resolve_of_encode (word : ptr < 2 ^ 64)
    (accepted : encodeOffset below exceeds ptr base = .ok offset) :
    resolveOffset offset base = ptr := by
  unfold encodeOffset at accepted
  split_ifs at accepted with null low far
  · cases accepted
    simp [resolveOffset, null]
  · cases accepted
    rw [resolveOffset, if_neg (by simp only [kNullOffset] at far ⊢; omega),
      Nat.add_sub_cancel' (by omega), Nat.mod_eq_of_lt word]

theorem encode_reach (place : 0 < base) (reach : offset ≤ kMaxOffset) :
    encodeOffset below exceeds (base + offset) base = .ok offset := by
  have near : ¬ kNullOffset - 1 < base + offset - base := by
    rw [Nat.add_sub_cancel_left]
    exact not_lt.mpr reach
  rw [encodeOffset, if_neg (by omega), if_neg (by omega), if_neg near, Nat.add_sub_cancel_left]

/-! ## Placing -/

theorem and_not_mask (x : BitVec 64) (k : Nat) :
    (x &&& ~~~BitVec.ofNat 64 (2 ^ k - 1)).toNat = x.toNat / 2 ^ k * 2 ^ k := by
  have shifted : x &&& ~~~BitVec.ofNat 64 (2 ^ k - 1) = (x >>> k) <<< k := by
    refine eq_of_getLsbD_eq fun i hi => ?_
    rw [getLsbD_and, getLsbD_not, getLsbD_ofNat, Nat.testBit_two_pow_sub_one, getLsbD_shiftLeft,
      getLsbD_ushiftRight]
    by_cases low : i < k
    · simp only [low, hi, decide_true, Bool.and_self, Bool.not_true, Bool.and_false, Bool.false_and]
    · rw [Nat.add_sub_cancel' (not_lt.mp low)]
      simp only [low, hi, decide_true, decide_false, Bool.and_false, Bool.not_false, Bool.and_true,
        Bool.true_and]
  have small : x.toNat / 2 ^ k * 2 ^ k < 2 ^ 64 := (Nat.div_mul_le_self _ _).trans_lt x.isLt
  rw [shifted, toNat_shiftLeft, toNat_ushiftRight, Nat.shiftLeft_eq,
    Nat.shiftRight_eq_div_pow, Nat.mod_eq_of_lt small]

namespace CompressedRegion

theorem alignedUsed_eq (small : r.used + 2 ^ l.log2Align ≤ 2 ^ 64) :
    r.alignedUsed l = (r.used + 2 ^ l.log2Align - 1) / 2 ^ l.log2Align * 2 ^ l.log2Align := by
  rw [alignedUsed, and_not_mask, BitVec.toNat_ofNat, Nat.mod_eq_of_lt (by omega)]

theorem used_le_alignedUsed (small : r.used + 2 ^ l.log2Align ≤ 2 ^ 64) :
    r.used ≤ r.alignedUsed l := by
  have positive := Nat.two_pow_pos l.log2Align
  have last := Nat.lt_div_mul_add (a := r.used + 2 ^ l.log2Align - 1) positive
  rw [alignedUsed_eq small]
  omega

/-- The block lies in the address space, and all objects in its used part. -/
structure Placed (r : CompressedRegion) : Prop where
  memory : 0 < r.memory
  space : r.memory + r.capacity ≤ 2 ^ 64
  used : r.used ≤ r.capacity
  aligned : ∀ o ∈ r.objects, 2 ^ o.layout.log2Align ∣ o.address
  below : ∀ o ∈ r.objects, o.address + o.layout.size ≤ r.memory + r.used
  reach : ∀ o ∈ r.objects, ∃ offset ≤ kMaxOffset, o.address = r.memory + offset
  apart : r.objects.Pairwise fun x y => Apart x.range y.range

theorem Placed.sound (placed : r.Placed) : r.Sound where
  aligned := placed.aligned
  inside := by
    intro o mem
    obtain ⟨offset, _, address⟩ := placed.reach o mem
    have := placed.below o mem
    have := placed.used
    omega
  apart := placed.apart
  decoded := by
    intro o mem p h
    obtain ⟨offset, reach, address⟩ := placed.reach o mem
    have encoded : ∀ below exceeds, encodeOffset below exceeds o.address r.memory = .ok offset :=
      fun _ _ => address ▸ encode_reach placed.memory reach
    have word : o.address < 2 ^ 64 := by
      have := placed.below o mem
      have := placed.used
      have := placed.space
      have := o.layout.size_pos
      omega
    have decoded : Except.ok (ε := String) _ = .ok o.address :=
      congrArg _ (resolve_of_encode word (encoded "" ""))
    simp only [CompressedPtr.set, CompressedPtr.compress, CompressedHook.setPrev,
      CompressedHook.setNext, encoded]
    exact ⟨decoded, decoded, decoded⟩

theorem Placed.allocate (placed : r.Placed) (placeable : r.Placeable l) :
    (r.allocate l).2.Placed := by
  unfold CompressedRegion.allocate
  split
  case isTrue => exact placed
  case isFalse fits =>
    obtain ⟨base, reach, ends⟩ := placeable.resolve_left fits
    rw [Nat.mod_eq_of_lt ends] at fits ⊢
    have := placed.space
    have := placed.used
    -- An aligned block leaves room for the rounding before the end of the address space.
    have room := Nat.le_of_dvd placed.memory base
    have small : r.used + 2 ^ l.log2Align ≤ 2 ^ 64 := by omega
    have later := used_le_alignedUsed small
    have unit : 2 ^ l.log2Align ∣ r.alignedUsed l := ⟨_, (alignedUsed_eq small).trans (mul_comm ..)⟩
    constructor
    case memory => exact placed.memory
    case space => exact placed.space
    case used => exact not_lt.mp fits
    case aligned =>
      exact forall_mem_append.mpr ⟨placed.aligned, forall_mem_singleton.mpr (base.add unit)⟩
    case below =>
      refine forall_mem_append.mpr ⟨fun o old => (placed.below o old).trans ?_,
        forall_mem_singleton.mpr (add_assoc ..).le⟩
      exact Nat.add_le_add_left (later.trans (Nat.le_add_right ..)) _
    case reach =>
      exact forall_mem_append.mpr ⟨placed.reach, forall_mem_singleton.mpr ⟨_, reach, rfl⟩⟩
    case apart =>
      refine pairwise_append.mpr ⟨placed.apart, pairwise_singleton .., ?_⟩
      rintro o old _ new
      obtain rfl := mem_singleton.mp new
      exact .inl ((placed.below o old).trans (Nat.add_le_add_left later _))

theorem Placed.of_create {itemCount itemSize memory : Nat}
    (created : create itemCount itemSize memory = .ok r)
    (space : memory + itemCount * itemSize ≤ 2 ^ 64) : r.Placed := by
  unfold create at created
  split_ifs at created with empty large failed
  cases created
  constructor
  case memory => exact Nat.pos_of_ne_zero failed
  case space => exact (Nat.add_le_add_left (Nat.mod_le ..) _).trans space
  case used => exact Nat.zero_le _
  case apart => exact Pairwise.nil
  all_goals simp

/-- In every run whose requests are placeable all objects are sound; and no pointer or hook,
whatever its base, accepts an address that it would not give back. -/
theorem objects_sound {itemCount itemSize memory : Nat} {s : CompressedRegion}
    (created : create itemCount itemSize memory = .ok r)
    (space : memory + itemCount * itemSize ≤ 2 ^ 64) (reached : Reaches step Placeable r s) :
    s.Sound ∧ ∀ below exceeds ptr base offset, ptr < 2 ^ 64 →
      encodeOffset below exceeds ptr base = .ok offset → resolveOffset offset base = ptr := by
  have placed : s.Placed :=
    reached.invariant (.of_create created space) fun _ _ _ placed placeable taken =>
      Option.some.inj taken ▸ placed.allocate placeable
  exact ⟨placed.sound, fun _ _ _ _ _ word accepted => resolve_of_encode word accepted⟩

theorem second_object_sound :
    ((({ memory := 64, itemSize := 24, itemCount := 2 } : CompressedRegion).allocate
      ⟨4, 2, by decide⟩).2.allocate ⟨24, 3, by decide⟩).2.Sound :=
  (objects_sound (show create 2 24 64 = .ok _ from rfl) (by decide)
    (.tail (.tail .refl ⟨⟨4, 2, by decide⟩, .inr (by decide), rfl⟩)
      ⟨⟨24, 3, by decide⟩, .inr (by decide), rfl⟩)).1

/-- A type aligned to 32 bytes in a block at address 16, and an object 4 GB into its block. -/
theorem misplaced_objects :
    (∃ r, create 1 64 16 = .ok r ∧ ¬ (r.allocate ⟨32, 5, by decide⟩).2.Sound) ∧
      ∃ r, create 2 (2 ^ 32) 64 = .ok r ∧
        ¬ ((r.allocate ⟨2 ^ 32, 3, by decide⟩).2.allocate ⟨8, 3, by decide⟩).2.Sound := by
  refine ⟨⟨_, rfl, fun sound => ?_⟩, _, rfl, fun sound => ?_⟩
  · exact absurd (sound.aligned _ mem_cons_self) (by decide)
  · cases (sound.decoded _ (mem_cons_of_mem _ mem_cons_self) {} {}).1

end CompressedRegion

end Lru.Memory
