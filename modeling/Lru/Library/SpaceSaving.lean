import Mathlib.Algebra.BigOperators.Group.Finset.Piecewise
import Mathlib.Algebra.Group.Action.Defs
import Mathlib.Algebra.GroupWithZero.Nat
import Mathlib.Algebra.Order.BigOperators.Group.Finset
import Mathlib.Data.Finset.Max

/-!
# The Space-Saving summary

A summary keeps counts of at most `capacity` keys of a stream. A new key that finds the
summary full takes over the count of a key whose count is least. Every count is then at
least the true one, and too large by no more than the least count, which is at most the
total divided by the capacity.
-/

namespace SpaceSaving

open Finset Function

variable {K : Type} [DecidableEq K]

/-- What a stream of keys with increments adds up to. -/
def total (stream : List (K × Nat)) : Nat := (stream.map Prod.snd).sum

def trueCount (stream : List (K × Nat)) (key : K) : Nat := total (stream.filter fun e => e.1 = key)

omit [DecidableEq K] in
theorem total_append (stream rest : List (K × Nat)) :
    total (stream ++ rest) = total stream + total rest := by
  simp [total]

theorem trueCount_append (stream : List (K × Nat)) (key other : K) (n : Nat) :
    trueCount (stream ++ [(key, n)]) other =
      trueCount stream other + if key = other then n else 0 := by
  split <;> simp_all [trueCount, total]

structure Summary (K : Type) where
  keys : Finset K
  count : K → Nat

def Summary.add (s : Summary K) (key : K) (n : Nat) : Summary K :=
  { s with count := Function.update s.count key (s.count key + n) }

/-- How a key gets its place: it is tracked already, is admitted while there is room or takes
the place and the count of a key with the least count. -/
inductive MakesRoom (capacity : Nat) (key : K) (s : Summary K) : Summary K → Prop
  | tracked (mem : key ∈ s.keys) : MakesRoom capacity key s s
  | admitted (absent : key ∉ s.keys) (room : s.keys.card < capacity) :
      MakesRoom capacity key s
        { keys := insert key s.keys, count := Function.update s.count key 0 }
  | replaced (least : K) (absent : key ∉ s.keys) (full : s.keys.card = capacity)
      (mem : least ∈ s.keys) (le : ∀ k ∈ s.keys, s.count least ≤ s.count k) :
      MakesRoom capacity key s
        { keys := insert key (s.keys.erase least)
          count := Function.update s.count key (s.count least) }

structure Guarantee (capacity : Nat) (stream : List (K × Nat)) (s : Summary K) : Prop where
  card_le : s.keys.card ≤ capacity
  sum_eq : ∑ k ∈ s.keys, s.count k = total stream
  le_count : ∀ k ∈ s.keys, trueCount stream k ≤ s.count k
  count_le : ∀ k ∈ s.keys, s.count k ≤ trueCount stream k + total stream / capacity
  room : ∀ k ∉ s.keys, s.keys.card < capacity → trueCount stream k = 0
  missing : ∀ k ∉ s.keys, ∀ j ∈ s.keys, trueCount stream k ≤ s.count j

theorem Guarantee.empty {capacity : Nat} (count : K → Nat) :
    Guarantee capacity [] { keys := ∅, count := count } where
  card_le := Nat.zero_le _
  sum_eq := rfl
  le_count k hk := absurd hk (notMem_empty k)
  count_le k hk := absurd hk (notMem_empty k)
  room _ _ _ := rfl
  missing _ _ j hj := absurd hj (notMem_empty j)

theorem Guarantee.congr {capacity : Nat} {stream : List (K × Nat)} {s t : Summary K}
    (h : Guarantee capacity stream s) (keys : t.keys = s.keys)
    (count : ∀ k ∈ s.keys, t.count k = s.count k) : Guarantee capacity stream t where
  card_le := keys ▸ h.card_le
  sum_eq := by rw [keys, sum_congr rfl count, h.sum_eq]
  le_count k hk := by
    rw [keys] at hk
    rw [count k hk]
    exact h.le_count k hk
  count_le k hk := by
    rw [keys] at hk
    rw [count k hk]
    exact h.count_le k hk
  room := keys ▸ h.room
  missing k hk j hj := by
    rw [keys] at hk hj
    rw [count j hj]
    exact h.missing k hk j hj

section Bounds

variable {capacity n : Nat} {stream : List (K × Nat)} {s t : Summary K} {key : K}

/-- The least count of a full summary is at most the average. -/
theorem Guarantee.least_le (h : Guarantee capacity stream s) (positive : 0 < capacity)
    (full : s.keys.card = capacity) {least : K}
    (le : ∀ k ∈ s.keys, s.count least ≤ s.count k) :
    s.count least ≤ total stream / capacity := by
  have sum := card_nsmul_le_sum s.keys s.count (s.count least) le
  rw [full, h.sum_eq, smul_eq_mul, Nat.mul_comm] at sum
  exact (Nat.le_div_iff_mul_le positive).mpr sum

/-- A key with more than its share of the total is tracked. -/
theorem Guarantee.mem_of_lt (h : Guarantee capacity stream s) (positive : 0 < capacity)
    (heavy : total stream / capacity < trueCount stream key) : key ∈ s.keys := by
  by_contra absent
  obtain room | full := Nat.lt_or_eq_of_le h.card_le
  · rw [h.room key absent room] at heavy
    exact absurd heavy (Nat.not_lt_zero _)
  · have nonempty : s.keys.Nonempty := card_pos.mp (full ▸ positive)
    obtain ⟨least, mem, le⟩ := s.keys.exists_min_image s.count nonempty
    have bound := h.least_le positive full le
    have below := h.missing key absent least mem
    omega

theorem sum_insert_update {keys : Finset K} (count : K → Nat) (absent : key ∉ keys) :
    ∑ k ∈ insert key keys, update count key n k = n + ∑ k ∈ keys, count k := by
  rw [sum_insert absent, update_self, sum_update_of_notMem absent]

/-- Making room for a key changes no sum and no bound. -/
theorem Guarantee.makesRoom (h : Guarantee capacity stream s) (positive : 0 < capacity)
    (room : MakesRoom capacity key s t) : Guarantee capacity stream t ∧ key ∈ t.keys := by
  cases room with
  | tracked mem => exact ⟨h, mem⟩
  | admitted absent room =>
    have unseen := h.room key absent room
    have count : ∀ k ∈ s.keys, update s.count key 0 k = s.count k := fun k hk =>
      update_of_ne (ne_of_mem_of_not_mem hk absent) _ _
    refine ⟨⟨?_, ?_, ?_, ?_, ?_, ?_⟩, mem_insert_self key _⟩
    · exact (card_insert_le key s.keys).trans room
    · rw [sum_insert_update s.count absent, Nat.zero_add, h.sum_eq]
    · simp only [forall_mem_insert, update_self, unseen]
      refine ⟨le_rfl, fun k hk => ?_⟩
      rw [count k hk]
      exact h.le_count k hk
    · simp only [forall_mem_insert, update_self]
      refine ⟨Nat.zero_le _, fun k hk => ?_⟩
      rw [count k hk]
      exact h.count_le k hk
    · intro k hk _
      exact h.room k (fun mem => hk (mem_insert_of_mem mem)) room
    · intro k hk j _
      rw [h.room k (fun mem => hk (mem_insert_of_mem mem)) room]
      exact Nat.zero_le _
  | replaced least absent full mem le =>
    have average := h.least_le positive full le
    have gone : key ∉ s.keys.erase least := fun mem => absent (mem_of_mem_erase mem)
    have count : ∀ k ∈ s.keys.erase least,
        update s.count key (s.count least) k = s.count k := fun k hk =>
      update_of_ne (ne_of_mem_of_not_mem hk gone) _ _
    have card : (insert key (s.keys.erase least)).card = capacity := by
      rw [card_insert_of_notMem gone, card_erase_of_mem mem]
      omega
    refine ⟨⟨card.le, ?_, ?_, ?_, ?_, ?_⟩, mem_insert_self key _⟩
    · rw [sum_insert_update s.count gone, add_sum_erase _ _ mem, h.sum_eq]
    · simp only [forall_mem_insert, update_self]
      refine ⟨h.missing key absent least mem, fun k hk => ?_⟩
      rw [count k hk]
      exact h.le_count k (mem_of_mem_erase hk)
    · simp only [forall_mem_insert, update_self]
      refine ⟨by omega, fun k hk => ?_⟩
      rw [count k hk]
      exact h.count_le k (mem_of_mem_erase hk)
    · intro k hk short
      exact absurd card short.ne
    · -- A key outside is the replaced one or was outside before; both are below the least.
      intro k hk
      have below : trueCount stream k ≤ s.count least := by
        by_cases same : k = least
        · subst same
          exact h.le_count k mem
        · refine h.missing k (fun old => hk ?_) least mem
          exact mem_insert_of_mem (mem_erase.mpr ⟨same, old⟩)
      simp only [forall_mem_insert, update_self]
      refine ⟨below, fun j hj => ?_⟩
      rw [count j hj]
      exact below.trans (le j (mem_of_mem_erase hj))

theorem Summary.add_count (s : Summary K) {key k : K} :
    (s.add key n).count k = s.count k + if key = k then n else 0 := by
  by_cases same : key = k
  · subst same
    simp [Summary.add]
  · simp [Summary.add, same, update_of_ne (Ne.symm same)]

/-- Counting a tracked key keeps the guarantee. -/
theorem Guarantee.add (h : Guarantee capacity stream s) (tracked : key ∈ s.keys) :
    Guarantee capacity (stream ++ [(key, n)]) (s.add key n) := by
  have sum : total (stream ++ [(key, n)]) = total stream + n := by simp [total]
  have mono : total stream / capacity ≤ total (stream ++ [(key, n)]) / capacity :=
    Nat.div_le_div_right (by omega)
  refine ⟨h.card_le, ?_, fun k hk => ?_, fun k hk => ?_, fun k hk room => ?_, fun k hk j hj => ?_⟩
  · have added : ∑ k ∈ s.keys, (if key = k then n else 0) = n := by
      rw [sum_ite_eq, if_pos tracked]
    have split : ∑ k ∈ s.keys, (s.add key n).count k =
        ∑ k ∈ s.keys, s.count k + ∑ k ∈ s.keys, (if key = k then n else 0) := by
      rw [← sum_add_distrib]
      exact sum_congr rfl fun k _ => s.add_count
    exact split.trans (by rw [added, h.sum_eq, sum])
  · have lower := h.le_count k hk
    rw [trueCount_append, Summary.add_count]
    omega
  · have upper := h.count_le k hk
    rw [trueCount_append, Summary.add_count]
    omega
  · have other : key ≠ k := fun same => hk (same ▸ tracked)
    rw [trueCount_append, if_neg other, h.room k hk room]
  · have other : key ≠ k := fun same => hk (same ▸ tracked)
    have below := h.missing k hk j hj
    rw [trueCount_append, if_neg other, Summary.add_count]
    omega

end Bounds

end SpaceSaving
