import Lru.Replica.Manager

/-!
# The default replica keys

`default_replica_key` appends a marker byte and the index to a string, and flips the marker
and the index into the upper half of an integer. Both stay inside the key type, so the
replica keys of some keys in use can be other keys in use.
-/

namespace Lru.Replica

open BitVec

/-! ## The transforms -/

/-- The five bytes behind a string: `0xFF` and the index, big-endian. -/
def replicaSuffix (idx : Nat) : List UInt8 :=
  [0xFF, UInt8.ofNat (idx >>> 24), UInt8.ofNat (idx >>> 16), UInt8.ofNat (idx >>> 8),
    UInt8.ofNat idx]

/-- `default_replica_key` for `std::string`. -/
def stringReplicaKey (key : List UInt8) (idx : Nat) : List UInt8 := key ++ replicaSuffix idx

/-- `default_replica_key` for an integral type of `w` bits. -/
def integralReplicaKey {w : Nat} (key : BitVec w) (idx : Nat) : BitVec w :=
  let half := w / 2
  let marker := BitVec.ofNat w 0xDB <<< half
  let idxMask := BitVec.ofNat w idx <<< half
  key ^^^ marker ^^^ idxMask

def stringConfig (replicaFactor maxReplicatedKeys : Nat) : Config (List UInt8) :=
  ⟨replicaFactor, maxReplicatedKeys, stringReplicaKey⟩

def integralConfig (w replicaFactor maxReplicatedKeys : Nat) : Config (BitVec w) :=
  ⟨replicaFactor, maxReplicatedKeys, integralReplicaKey⟩

/-! ## Strings -/

theorem replicaSuffix_inj {i j : Nat} (hi : i < 2 ^ 32) (hj : j < 2 ^ 32)
    (same : replicaSuffix i = replicaSuffix j) : i = j := by
  simp only [replicaSuffix, List.cons.injEq, true_and, and_true] at same
  obtain ⟨first, second, third, fourth⟩ := same
  have byte {x y : Nat} (h : UInt8.ofNat x = UInt8.ofNat y) : x % 256 = y % 256 := by
    simpa using congrArg UInt8.toNat h
  have b1 := byte first
  have b2 := byte second
  have b3 := byte third
  have b4 := byte fourth
  omega

theorem stringReplicaKey_ne {key : List UInt8} {idx : Nat} : stringReplicaKey key idx ≠ key := by
  intro same
  have length := congrArg List.length same
  simp [stringReplicaKey, replicaSuffix] at length

theorem distinct_string_iff (replicaFactor maxReplicatedKeys : Nat) (keys : Set (List UInt8)) :
    Distinct (stringConfig replicaFactor maxReplicatedKeys) keys ↔
      keys = ∅ ∨ replicaFactor ≤ 2 ^ 32 := by
  constructor
  · intro distinct
    by_contra wide
    obtain ⟨some, many⟩ := not_or.mp wide
    obtain ⟨key, hk⟩ := Set.nonempty_iff_ne_empty.mpr some
    have wraps := distinct key hk key hk (2 ^ 32) (Nat.lt_of_not_le many) 0
      (Nat.zero_lt_of_lt (Nat.lt_of_not_le many)) (congrArg (key ++ ·) (by decide))
    exact absurd wraps.2 (by decide)
  · rintro (rfl | small) key hk other ho i hi j hj same
    · exact hk.elim
    · obtain ⟨keys, suffixes⟩ := List.append_inj' same rfl
      exact ⟨keys, replicaSuffix_inj (lt_of_lt_of_le hi small)
        (lt_of_lt_of_le hj small) suffixes⟩

theorem apart_string_iff (replicaFactor maxReplicatedKeys : Nat) (keys : Set (List UInt8)) :
    Apart (stringConfig replicaFactor maxReplicatedKeys) keys ↔
      ∀ key ∈ keys, ∀ i < max replicaFactor 1, key ++ replicaSuffix i ∉ keys := by
  constructor
  · intro apart key hk i hi inside
    by_cases some : i < replicaFactor
    · exact apart.replicas key hk i some inside
    · obtain rfl : i = 0 := by omega
      exact apart.first (show replicaFactor = 0 by omega) key hk _ inside
        stringReplicaKey_ne.symm rfl
  · intro unused
    refine ⟨fun key hk i hi => unused key hk i (lt_of_lt_of_le hi (le_max_left ..)), ?_⟩
    intro zero key hk other ho _ same
    have inside : key ++ replicaSuffix 0 ∈ keys := by
      rw [← same] at ho
      exact ho
    exact unused key hk 0 (lt_of_lt_of_le Nat.one_pos (le_max_right ..)) inside

/-! ## Integers -/

section Integral

variable {w : Nat}

theorem xor_eq_iff (a b x y : BitVec w) : a ^^^ x = b ^^^ y ↔ a ^^^ b = x ^^^ y := by
  have bits : ∀ a b x y : Bool, (a ^^ x) = (b ^^ y) ↔ (a ^^ b) = (x ^^ y) := by decide
  simp only [BitVec.eq_of_getElem_eq_iff, BitVec.getElem_xor, bits]

theorem integralReplicaKey_eq (key : BitVec w) (idx : Nat) :
    integralReplicaKey key idx
      = key ^^^ ((BitVec.ofNat w 0xDB ^^^ BitVec.ofNat w idx) <<< (w / 2)) := by
  rw [shiftLeft_xor_distrib, ← xor_assoc]
  rfl

/-- Two replica keys are the same if the keys differ by the indices in the upper half. -/
theorem integralReplicaKey_eq_iff {key other : BitVec w} {i j : Nat} :
    integralReplicaKey key i = integralReplicaKey other j ↔
      key ^^^ other = (BitVec.ofNat w i ^^^ BitVec.ofNat w j) <<< (w / 2) := by
  have marker : ∀ m i j : BitVec w, (m ^^^ i) ^^^ (m ^^^ j) = i ^^^ j := by
    have bits : ∀ m i j : Bool, ((m ^^ i) ^^ (m ^^ j)) = (i ^^ j) := by decide
    intro m i j
    simp only [BitVec.eq_of_getElem_eq_iff, BitVec.getElem_xor, bits, implies_true]
  rw [integralReplicaKey_eq, integralReplicaKey_eq, xor_eq_iff, ← shiftLeft_xor_distrib,
    marker]

/-- A replica key is another key if the two differ by marker and index in the upper half. -/
theorem integralReplicaKey_eq_key_iff {key other : BitVec w} {i : Nat} :
    integralReplicaKey key i = other ↔
      key ^^^ other = (BitVec.ofNat w 0xDB ^^^ BitVec.ofNat w i) <<< (w / 2) := by
  have same := xor_eq_iff key other
    ((BitVec.ofNat w 0xDB ^^^ BitVec.ofNat w i) <<< (w / 2)) 0#w
  rwa [xor_zero, xor_zero, ← integralReplicaKey_eq] at same

theorem distinct_integral_iff (replicaFactor maxReplicatedKeys : Nat) (keys : Set (BitVec w)) :
    Distinct (integralConfig w replicaFactor maxReplicatedKeys) keys ↔
      ∀ key ∈ keys, ∀ other ∈ keys, ∀ i < replicaFactor, ∀ j < replicaFactor,
        key ^^^ other = (BitVec.ofNat w i ^^^ BitVec.ofNat w j) <<< (w / 2) →
          key = other ∧ i = j := by
  refine forall₄_congr fun key _ other _ => forall₄_congr fun i _ j _ => imp_congr_left ?_
  exact integralReplicaKey_eq_iff

theorem apart_integral_iff (replicaFactor maxReplicatedKeys : Nat) (keys : Set (BitVec w)) :
    Apart (integralConfig w replicaFactor maxReplicatedKeys) keys ↔
      (∀ key ∈ keys, ∀ other ∈ keys, ∀ i < replicaFactor,
        key ^^^ other ≠ (BitVec.ofNat w 0xDB ^^^ BitVec.ofNat w i) <<< (w / 2))
      ∧ (replicaFactor = 0 → ∀ key ∈ keys, ∀ other ∈ keys, key ≠ other →
        key ^^^ other ≠ BitVec.ofNat w 0xDB <<< (w / 2)) := by
  have first (key other : BitVec w) : integralReplicaKey key 0 = other ↔
      key ^^^ other = BitVec.ofNat w 0xDB <<< (w / 2) := by
    rw [integralReplicaKey_eq_key_iff, xor_zero]
  constructor
  · rintro ⟨replicas, zeroth⟩
    refine ⟨fun key hk other ho i hi differ => ?_, fun zero key hk other ho ne differ => ?_⟩
    · have same := integralReplicaKey_eq_key_iff.mpr differ
      exact replicas key hk i hi (show integralReplicaKey key i ∈ keys by rwa [same])
    · exact zeroth zero key hk other ho ne ((first key other).mpr differ)
  · rintro ⟨replicas, zeroth⟩
    refine ⟨fun key hk i hi inside => ?_, fun zero key hk other ho ne same => ?_⟩
    · exact replicas key hk _ inside i hi (integralReplicaKey_eq_key_iff.mp rfl)
    · exact zeroth zero key hk other ho ne ((first key other).mp same)

end Integral

/-! ## Isolation -/

/-- With the default replica keys the manager isolates the keys in use exactly if, for
strings, the index fits 32 bits and no key in use is another one with a replica suffix, and
for integers, no two keys in use differ by a marker and index, or by two indices, in the
upper half alone. -/
theorem default_isolated_iff {V : Type} [DecidableEq V] [Nontrivial V]
    (replicaFactor maxReplicatedKeys : Nat) :
    (∀ keys : Set (List UInt8),
      Isolated (stringConfig replicaFactor maxReplicatedKeys) V keys ↔
        (keys = ∅ ∨ replicaFactor ≤ 2 ^ 32)
          ∧ (maxReplicatedKeys = 0
            ∨ ∀ key ∈ keys, ∀ i < max replicaFactor 1, key ++ replicaSuffix i ∉ keys)) ∧
    ∀ (w : Nat) (keys : Set (BitVec w)),
      Isolated (integralConfig w replicaFactor maxReplicatedKeys) V keys ↔
        (∀ key ∈ keys, ∀ other ∈ keys, ∀ i < replicaFactor, ∀ j < replicaFactor,
          key ^^^ other = (BitVec.ofNat w i ^^^ BitVec.ofNat w j) <<< (w / 2) → key = other ∧ i = j)
          ∧ (maxReplicatedKeys = 0
            ∨ (∀ key ∈ keys, ∀ other ∈ keys, ∀ i < replicaFactor,
                key ^^^ other ≠ (BitVec.ofNat w 0xDB ^^^ BitVec.ofNat w i) <<< (w / 2))
              ∧ (replicaFactor = 0 → ∀ key ∈ keys, ∀ other ∈ keys, key ≠ other →
                key ^^^ other ≠ BitVec.ofNat w 0xDB <<< (w / 2))) := by
  constructor
  · intro keys
    rw [isolated_iff, distinct_string_iff, apart_string_iff]
    rfl
  · intro w keys
    rw [isolated_iff, distinct_integral_iff, apart_integral_iff]
    rfl

/-- Two keys of one byte, and two small integers. -/
theorem small_keys_isolated :
    Isolated (stringConfig 4 1024) Nat {[97], [98]} ∧
      Isolated (integralConfig 32 4 1024) Nat {1, 2} := by
  obtain ⟨strings, integers⟩ := default_isolated_iff (V := Nat) 4 1024
  constructor
  · refine (strings _).mpr ⟨.inr (by decide), .inr ?_⟩
    rintro key (rfl | rfl) i - (same | same) <;> cases same
  · refine (integers 32 _).mpr ⟨?_, .inr ⟨?_, fun zero => absurd zero (by decide)⟩⟩
    · rintro key (rfl | rfl) other (rfl | rfl) <;> decide
    · rintro key (rfl | rfl) other (rfl | rfl) <;> decide

/-- The second string is the first replica key of the first one. -/
def markedKey : List UInt8 := [97, 0xFF, 0, 0, 0, 0]

def collidingOps : List (Op (List UInt8) Nat) :=
  [.replicatedSet [97] 1, .replicatedSet markedKey 2, .registerHotKey [97]]

/-- Registering the first key overwrites the second one. -/
theorem marked_key_overwritten :
    (run (stringConfig 4 1024) collidingOps).replicatedGet (stringConfig 4 1024) markedKey 0
        = some 1
      ∧ latest collidingOps markedKey = some 2
      ∧ ¬ Isolated (stringConfig 4 1024) Nat {[97], markedKey} := by
  have read : (run (stringConfig 4 1024) collidingOps).replicatedGet (stringConfig 4 1024)
      markedKey 0 = some 1 := by decide
  have last : latest collidingOps markedKey = some 2 := by decide
  refine ⟨read, last, fun isolated => ?_⟩
  have inUse : ∀ op ∈ collidingOps, op.key ∈ ({[97], markedKey} : Set (List UInt8)) := by
    intro op called
    simp only [collidingOps, List.mem_cons, List.not_mem_nil, or_false] at called
    obtain rfl | rfl | rfl := called
    · exact .inl rfl
    · exact .inr rfl
    · exact .inl rfl
  have same := isolated.latest collidingOps inUse markedKey (.inr rfl) 0
  cases same

end Lru.Replica
