import Mathlib.Algebra.BigOperators.Fin
import Mathlib.Algebra.Order.BigOperators.Group.Finset

/-!
# Totals over indexed components

`total w p` adds up a weight of every component of an indexed family. A step of
a concurrent system changes one component, so the only rule needed is how such
an update moves a total; it is stated without subtraction.
-/

open Finset Function

namespace Tally

variable {ι α : Type*} [Fintype ι]

/-- The total weight of a family of components. -/
def total (w : ι → α → Nat) (p : ι → α) : Nat := ∑ j, w j (p j)

/-- Replacing one component trades its old weight for the new one. -/
theorem sum_update {M : Type*} [AddCommMonoid M] [DecidableEq ι] (w : ι → α → M) (p : ι → α) {i : ι}
    {x : α} : ∑ j, w j (update p i x j) + w i (p i) = ∑ j, w j (p j) + w i x := by
  have others : ∑ j ∈ univ.erase i, w j (update p i x j) = ∑ j ∈ univ.erase i, w j (p j) :=
    sum_congr rfl fun j hj => by rw [update_of_ne (ne_of_mem_erase hj)]
  have after := add_sum_erase univ (fun j => w j (update p i x j)) (mem_univ i)
  have before := add_sum_erase univ (fun j => w j (p j)) (mem_univ i)
  rw [← after, ← before, others, update_self]
  exact (add_rotate ..).trans (congrArg (· + w i x) (add_comm ..))

theorem total_update [DecidableEq ι] (w : ι → α → Nat) (p : ι → α) {i : ι} {x : α} :
    total w (update p i x) + w i (p i) = total w p + w i x :=
  sum_update w p

end Tally
