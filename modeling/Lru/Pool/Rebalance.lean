import Lru.Mm.Item

/-!
# Capacity transfers between pools

`pool_rebalancer::rebalance` moves capacity from one pool to another by two
separate calls of `resize_pool`. A pool is named by its position, and only its
capacity is followed: `max_size(n)` stores exactly `n` in every cache a pool can
hold. The strategy is a parameter; `marginal_hits_strategy` is the one supplied.

An unlimited pool stores the largest `size_t`. The transfer computes with that
value as with any other, so an unlimited pool that gives becomes limited, and one
that receives wraps around.
-/

namespace Lru.Pool

open Lru.Mm SizeT

/-- `marginal_hits_strategy::transfer`. The two pools differ and something is
moved, since `decide` returns nothing else. -/
structure Transfer (n : Nat) where
  fromPool : Fin n
  toPool : Fin n
  amount : Nat
  differ : fromPool ≠ toPool
  amount_pos : 0 < amount
deriving DecidableEq

structure MarginalHits where
  minHitRateDiff : ℚ := 1 / 10
  maxTransferFraction : ℚ := 1 / 10

variable {n x d : Nat}

/-- One turn of the search for the best or the worst pool: the first of several
equal ones is kept. -/
def pick (better : Fin n → Fin n → Bool) : Option (Fin n) → Fin n → Option (Fin n)
  | none, pool => some pool
  | some found, pool => if better pool found then some pool else some found

/-- `marginal_hits_strategy::decide` on the statistics of the pools. -/
def MarginalHits.decide (r : Rounding) (strategy : MarginalHits) (hitRate : Fin n → ℚ)
    (maxSize : Fin n → Nat) : Option (Transfer n) :=
  if n < 2 then none
  else
    match (List.finRange n).foldl (pick fun i j => hitRate j < hitRate i) none,
      (List.finRange n).foldl (pick fun i j => hitRate i < hitRate j) none with
    | some best, some worst =>
      if differ : worst ≠ best then
        if r.sub (hitRate best) (hitRate worst) < strategy.minHitRateDiff then none
        else some
          { fromPool := worst
            toPool := best
            amount := max (r.scale (maxSize worst) strategy.maxTransferFraction) 1
            differ
            amount_pos := by omega }
      else none
    | _, _ => none

def resizePool (maxSize : Fin n → Nat) (pool : Fin n) (newMax : Nat) : Fin n → Nat :=
  Function.update maxSize pool newMax

/-- `rebalance` once the strategy has decided. The receiving pool is read after
the giving one has been resized. -/
def transfer (maxSize : Fin n → Nat) (decision : Transfer n) : Fin n → Nat :=
  if decision.amount < maxSize decision.fromPool then
    let shrunk := resizePool maxSize decision.fromPool
      (maxSize decision.fromPool - decision.amount)
    resizePool shrunk decision.toPool
      (SizeT.fetchAdd (shrunk decision.toPool) decision.amount)
  else maxSize

def rebalance (decide : (Fin n → Nat) → Option (Transfer n)) (maxSize : Fin n → Nat) :
    Fin n → Nat :=
  ((decide maxSize).map (transfer maxSize)).getD maxSize

/-- What a transfer between two pools is to keep. Capacities are compared as
integers, so no pool may become the sentinel or cease to be it. -/
structure Conserves (decision : Transfer n) (before after : Fin n → Nat) : Prop where
  sum : ∑ i, after i = ∑ i, before i
  unlimited_iff : ∀ i, after i = unlimited ↔ before i = unlimited
  receiver : before decision.toPool ≤ after decision.toPool
  giver : after decision.fromPool = before decision.fromPool ∨
    after decision.fromPool + decision.amount = before decision.fromPool

variable {maxSize : Fin n → Nat} {decision : Transfer n}

section Moves

variable (moves : decision.amount < maxSize decision.fromPool)
include moves

theorem transfer_from :
    transfer maxSize decision decision.fromPool = maxSize decision.fromPool - decision.amount := by
  simp [transfer, resizePool, moves, Function.update_of_ne decision.differ]

theorem transfer_to : transfer maxSize decision decision.toPool =
    fetchAdd (maxSize decision.toPool) decision.amount := by
  simp [transfer, resizePool, moves, Function.update_of_ne decision.differ.symm]

theorem transfer_other {i : Fin n} (notFrom : i ≠ decision.fromPool) (notTo : i ≠ decision.toPool) :
    transfer maxSize decision i = maxSize i := by
  simp [transfer, resizePool, moves, notFrom, notTo]

end Moves

theorem sum_resizePool (maxSize : Fin n → Nat) (pool : Fin n) (newMax : Nat) :
    ∑ i, resizePool maxSize pool newMax i + maxSize pool = ∑ i, maxSize i + newMax := by
  rw [resizePool, Finset.sum_update_of_mem (Finset.mem_univ pool),
    ← Finset.add_sum_erase _ maxSize (Finset.mem_univ pool), Finset.sdiff_singleton_eq_erase]
  omega

theorem fetchAdd_of_fits (fits : x + d ≤ unlimited) : fetchAdd x d = x + d := by
  have := range_pos
  unfold unlimited SizeT.max at fits
  exact fetchAdd_of_lt (by omega)

/-- The sum of the capacities is kept as long as the addition does not wrap. -/
theorem sum_transfer (fits : maxSize decision.toPool + decision.amount ≤ unlimited) :
    ∑ i, transfer maxSize decision i = ∑ i, maxSize i := by
  unfold transfer
  split
  case isTrue moves =>
    have shrunk := sum_resizePool maxSize decision.fromPool
      (maxSize decision.fromPool - decision.amount)
    have receiver : resizePool maxSize decision.fromPool
        (maxSize decision.fromPool - decision.amount) decision.toPool =
        maxSize decision.toPool := Function.update_of_ne decision.differ.symm _ _
    have grown := sum_resizePool (resizePool maxSize decision.fromPool
        (maxSize decision.fromPool - decision.amount)) decision.toPool
      (maxSize decision.toPool + decision.amount)
    simp only [receiver, fetchAdd_of_fits fits] at grown ⊢
    omega
  case isFalse => rfl

/-- A transfer that wraps shrinks the receiving pool. -/
theorem fetchAdd_lt_of_wraps (bounded : x ≤ unlimited) (small : d < range)
    (wraps : unlimited < x + d) : fetchAdd x d < x := by
  unfold unlimited SizeT.max at *
  have once : x + d - range < range := by omega
  rw [fetchAdd, Nat.mod_eq_sub_mod (by omega), Nat.mod_eq_of_lt once]
  omega

/-- One rebalance conserves capacity exactly when nothing is moved, or the giving
pool is limited and the receiving pool's new capacity is below the sentinel. An
unlimited receiving pool never meets the condition. -/
theorem rebalance_conserves_iff {decide : (Fin n → Nat) → Option (Transfer n)}
    (bounded : ∀ i, maxSize i ≤ unlimited) (decided : decide maxSize = some decision) :
    Conserves decision maxSize (rebalance decide maxSize) ↔
      (decision.amount < maxSize decision.fromPool →
        maxSize decision.fromPool ≠ unlimited ∧
          maxSize decision.toPool + decision.amount < unlimited) := by
  have result : rebalance decide maxSize = transfer maxSize decision := by simp [rebalance, decided]
  have amount_pos := decision.amount_pos
  rw [result]
  constructor
  · intro kept moves
    have gives := transfer_from moves
    have receives := transfer_to moves
    refine ⟨fun full => ?_, ?_⟩
    · have stays := (kept.unlimited_iff _).mpr full
      omega
    · by_contra! reaches
      obtain full | wraps := Nat.eq_or_lt_of_le reaches
      · rw [fetchAdd_of_fits full.ge, ← full] at receives
        have before := (kept.unlimited_iff _).mp receives
        omega
      have wide : decision.amount < range := by
        have := bounded decision.fromPool
        unfold unlimited SizeT.max at this
        omega
      have shrinks := fetchAdd_lt_of_wraps (bounded decision.toPool) wide wraps
      have := kept.receiver
      omega
  · intro condition
    rcases Nat.lt_or_ge decision.amount (maxSize decision.fromPool) with moves | small
    · obtain ⟨limited, fits⟩ := condition moves
      have gives := transfer_from moves
      have receives := transfer_to moves
      rw [fetchAdd_of_fits fits.le] at receives
      refine ⟨sum_transfer fits.le, fun i => ?_, by omega, .inr (by omega)⟩
      -- Neither the giver nor the receiver is unlimited, before or after.
      by_cases giver : i = decision.fromPool
      · have := bounded decision.fromPool
        rw [giver]
        omega
      by_cases receiver : i = decision.toPool
      · rw [receiver]
        omega
      · rw [transfer_other moves giver receiver]
    · rw [transfer, if_neg (by omega)]
      exact ⟨rfl, fun _ => .rfl, le_rfl, .inl rfl⟩

/-- A pool of 100 with no hits and a pool of 50 that hits half of the time. -/
theorem rebalance_conserves_limited :
    ∃ decision : Transfer 2,
      MarginalHits.decide .exact {} ![0, 1 / 2] ![100, 50] = some decision ∧
        Conserves decision ![100, 50]
          (rebalance (MarginalHits.decide .exact {} ![0, 1 / 2]) ![100, 50]) := by
  have decided : MarginalHits.decide .exact {} ![0, 1 / 2] ![100, 50] =
      some ⟨0, 1, 10, by decide, by decide⟩ := by decide +kernel
  exact ⟨_, decided, (rebalance_conserves_iff (by decide +kernel) decided).mpr
    (by decide +kernel)⟩

/-- The receiving pool is unlimited: it is left with 9 slots. -/
theorem rebalance_limits_unlimited :
    ∃ decision : Transfer 2,
      MarginalHits.decide .exact {} ![0, 1 / 2] ![100, unlimited] = some decision ∧
        ¬ Conserves decision ![100, unlimited]
          (rebalance (MarginalHits.decide .exact {} ![0, 1 / 2]) ![100, unlimited]) ∧
        rebalance (MarginalHits.decide .exact {} ![0, 1 / 2]) ![100, unlimited] 1 = 9 := by
  have decided : MarginalHits.decide .exact {} ![0, 1 / 2] ![100, unlimited] =
      some ⟨0, 1, 10, by decide, by decide⟩ := by decide +kernel
  have nine : rebalance (MarginalHits.decide .exact {} ![0, 1 / 2]) ![100, unlimited] 1 = 9 := by
    decide +kernel
  refine ⟨_, decided, fun kept => ?_, nine⟩
  have stays := (kept.unlimited_iff 1).mpr rfl
  rw [nine] at stays
  exact absurd stays (by decide)

end Lru.Pool
