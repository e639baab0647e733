import Mathlib.Algebra.BigOperators.Fin
import Mathlib.Algebra.BigOperators.Group.List.Basic
import Mathlib.Data.Nat.ModEq
import Mathlib.Tactic.Common

/-!
# Unsigned 64-bit counters

Counters are natural numbers below `2 ^ 64`; every operation states its own
wrap-around or saturation. The lemmas give the plain arithmetic value whenever
the exact result is representable.
-/

namespace SizeT

open List

/-- Number of values of an unsigned 64-bit counter. -/
def range : Nat := 2 ^ 64

/-- The largest representable value, also used as the "no limit" sentinel. -/
def max : Nat := range - 1

/-- `fetch_add`: addition modulo the counter range. -/
def fetchAdd (x d : Nat) : Nat := (x + d) % range

/-- `fetch_sub`: subtraction modulo the counter range. -/
def fetchSub (x d : Nat) : Nat := (x + (range - d)) % range

/-- Addition clamped to the largest representable value. -/
def saturatingAdd (x d : Nat) : Nat := min (x + d) max

theorem fetchAdd_of_lt {x d : Nat} (h : x + d < range) : fetchAdd x d = x + d := Nat.mod_eq_of_lt h

theorem fetchSub_of_le {x d : Nat} (hx : x < range) (hd : d ≤ x) : fetchSub x d = x - d := by
  have wrap : x + (range - d) = x - d + range := by omega
  rw [fetchSub, wrap, Nat.add_mod_right]
  exact Nat.mod_eq_of_lt (by omega)

/-! ## Sums of many changes -/

theorem range_pos : 0 < range := by
  unfold range
  omega

theorem fetchAdd_lt {x d : Nat} : fetchAdd x d < range := Nat.mod_lt _ range_pos

theorem fetchSub_lt {x d : Nat} : fetchSub x d < range := Nat.mod_lt _ range_pos

theorem fetchSub_mod_add {x : Nat} {d : Nat} (small : d ≤ range) :
    fetchSub ((x + d) % range) d = x % range := by
  have wrap : x + d + (range - d) = x + range := by omega
  rw [fetchSub, Nat.mod_add_mod, wrap, Nat.add_mod_right]

theorem fetchSub_add_modEq (x : Nat) {d : Nat} (small : d ≤ range) :
    fetchSub x d + d ≡ x [MOD range] := by
  have wrap : x + (range - d) + d = x + range := by omega
  have sum : fetchSub x d + d ≡ x + (range - d) + d [MOD range] := (Nat.mod_modEq _ _).add_right d
  rw [wrap] at sum
  exact sum.trans (Nat.add_modEq_right)

theorem foldl_fetchAdd_modEq (x : Nat) (l : List Nat) :
    l.foldl fetchAdd x ≡ x + l.sum [MOD range] := by
  induction l generalizing x with
  | nil => exact Nat.ModEq.refl x
  | cons d rest ih =>
    rw [sum_cons, ← Nat.add_assoc]
    exact (ih _).trans ((Nat.mod_modEq _ _).add_right _)

theorem foldl_fetchSub_modEq (x : Nat) {l : List Nat} (small : ∀ d ∈ l, d ≤ range) :
    l.foldl fetchSub x + l.sum ≡ x [MOD range] := by
  induction l generalizing x with
  | nil => exact Nat.ModEq.refl x
  | cons d rest ih =>
    have first := fetchSub_add_modEq x (small d mem_cons_self)
    have later := ih (fetchSub x d) fun e he => small e (mem_cons_of_mem d he)
    rw [sum_cons, Nat.add_comm d, ← Nat.add_assoc]
    exact (later.add_right d).trans first

theorem foldl_fetchAdd_lt {x : Nat} (small : x < range) (l : List Nat) :
    l.foldl fetchAdd x < range := by
  induction l generalizing x with
  | nil => exact small
  | cons d rest ih => exact ih fetchAdd_lt

theorem foldl_fetchSub_lt {x : Nat} (small : x < range) (l : List Nat) :
    l.foldl fetchSub x < range := by
  induction l generalizing x with
  | nil => exact small
  | cons d rest ih => exact ih fetchSub_lt

/-- A counter that runs over the parts of an object. -/
theorem foldl_finRange_fetchAdd {n : Nat} (f : Fin n → Nat) :
    (finRange n).foldl (fun sum i => fetchAdd sum (f i)) 0 = (∑ i, f i) % range := by
  have total := foldl_fetchAdd_modEq 0 ((finRange n).map f)
  have small := foldl_fetchAdd_lt range_pos ((finRange n).map f)
  rw [foldl_map] at total small
  rw [Nat.zero_add, ← ofFn_eq_map, sum_ofFn] at total
  rw [← total]
  exact (Nat.mod_eq_of_lt small).symm

end SizeT
