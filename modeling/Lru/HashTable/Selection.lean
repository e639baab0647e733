import Mathlib.Data.Int.CardIntervalMod

/-!
# Segments and buckets of the hash table

`segmented_concurrent_hash_table` routes a key by the low bits of its hash, and the segment
chooses the bucket by the low bits of the same hash. So the segment fixes bits of the bucket.
-/

namespace Lru.HashTable

/-- `segment_for_hash`: the mask of `numSegments` segments. -/
def segmentForHash (numSegments h : Nat) : Nat := h &&& (numSegments - 1)

/-- `bucket_for_hash`: the mask of `bucketCount` buckets. -/
def bucketForHash (bucketCount h : Nat) : Nat := h &&& (bucketCount - 1)

/-- The 64-bit hashes that segment `i` stores in its bucket `j`. -/
def hashes (numSegments bucketCount i j : Nat) : Finset Nat :=
  {h ∈ Finset.range (2 ^ 64) | segmentForHash numSegments h = i ∧ bucketForHash bucketCount h = j}

/-- Each segment uses all of its buckets, for equally many of its hashes. -/
def Independent (numSegments bucketCount : Nat) : Prop :=
  ∀ i < numSegments, ∀ j < bucketCount, (hashes numSegments bucketCount i j).Nonempty ∧
    (hashes numSegments bucketCount i j).card = 2 ^ 64 / numSegments / bucketCount

variable {s b i j n : Nat}

theorem hashes_two_pow : hashes (2 ^ s) (2 ^ b) i j =
    {h ∈ Finset.range (2 ^ 64) | h % 2 ^ s = i ∧ h % 2 ^ b = j} := by
  simp only [hashes, segmentForHash, bucketForHash, Nat.and_two_pow_sub_one_eq_mod]

/-- The residues of a power of two are met equally often. -/
theorem card_residue (small : n < 64) (lt : j < 2 ^ n) :
    (Finset.range (2 ^ 64) |>.filter (· % 2 ^ n = j)).card = 2 ^ 64 / 2 ^ n := by
  have count := Nat.count_modEq_card (2 ^ 64) (Nat.two_pow_pos n) j
  have whole : 2 ^ 64 % 2 ^ n = 0 := Nat.mod_eq_zero_of_dvd (Nat.pow_dvd_pow 2 small.le)
  rw [whole, if_neg (Nat.not_lt_zero _), Nat.count_eq_card_filter_range, Nat.add_zero] at count
  simpa only [Nat.ModEq, Nat.mod_eq_of_lt lt] using count

theorem not_independent (hs : s ≠ 0) (hb : b ≠ 0) : ¬Independent (2 ^ s) (2 ^ b) := by
  intro independent
  -- Such a hash would be even for its segment and odd for its bucket.
  obtain ⟨h, mem⟩ := (independent 0 (Nat.two_pow_pos s) 1 (Nat.one_lt_two_pow hb)).1
  rw [hashes_two_pow, Finset.mem_filter] at mem
  have even := Nat.mod_mod_of_dvd h (dvd_pow_self 2 hs)
  have odd := Nat.mod_mod_of_dvd h (dvd_pow_self 2 hb)
  omega

/-- The choices are independent only with one segment or one bucket. -/
theorem independent_iff (hs : s < 64) (hb : b < 64) :
    Independent (2 ^ s) (2 ^ b) ↔ s = 0 ∨ b = 0 := by
  constructor
  · intro independent
    by_contra both
    obtain ⟨hs, hb⟩ := not_or.mp both
    exact not_independent hs hb independent
  · intro single i hi j hj
    have card : (hashes (2 ^ s) (2 ^ b) i j).card = 2 ^ 64 / 2 ^ s / 2 ^ b := by
      rw [hashes_two_pow]
      obtain rfl | rfl := single
      · obtain rfl : i = 0 := by omega
        simpa [Nat.mod_one] using card_residue hb hj
      · obtain rfl : j = 0 := by omega
        simpa [Nat.mod_one] using card_residue hs hi
    refine ⟨Finset.card_pos.mp ?_, card⟩
    rw [card, Nat.div_div_eq_div_mul, ← Nat.pow_add]
    exact Nat.div_pos (Nat.pow_le_pow_right two_pos (by omega)) (Nat.two_pow_pos _)

theorem eight_buckets_independent : Independent (2 ^ 0) (2 ^ 3) :=
  (independent_iff (by decide) (by decide)).mpr (.inl rfl)

/-- Of two segments with two buckets each, the first leaves the second bucket empty. -/
theorem two_segments_dependent : ¬Independent (2 ^ 1) (2 ^ 1) :=
  not_independent one_ne_zero one_ne_zero

end Lru.HashTable
