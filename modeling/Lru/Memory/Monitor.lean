import Lru.Library.Rounding
import Lru.Library.SizeT

/-!
# The memory monitor

`memory_monitor` as one thread sees it between two calls: the configuration, the
two byte counters, the latched flags and the pressure statistics, and the
admission test `should_admit`.

What comes from outside is an input: the verdict of the pressure callback, the
level of the latest OS snapshot, the random draw, and the verdict of the growth
limiter on the reported samples.
-/

namespace Lru.Memory

open SizeT

inductive PressureVerdict where
  | admits
  | throttle
  | reject
  deriving DecidableEq, Repr, Inhabited

inductive OsPressureLevel where
  | normal
  | warning
  | critical
  deriving DecidableEq, Repr, Inhabited

inductive PressureLevel where
  | normal
  | throttled
  | critical
  deriving DecidableEq, Repr, Inhabited

structure Monitor where
  /-- The budget; `0` means unlimited. -/
  maxMemoryBytes : Nat := 0
  maxGrowthRateBytes : Nat := 0
  throttleFraction : ℚ := 8 / 10
  criticalFraction : ℚ := 95 / 100
  currentMemory : Nat := 0
  reservedBytes : Nat := 0
  growthRateExceeded : Bool := false
  isThrottled : Bool := false
  bgEvictionRequested : Bool := false
  pressureNormalCount : Nat := 0
  pressureThrottledCount : Nat := 0
  pressureCriticalCount : Nat := 0
  pressureCb : Option (Nat → PressureVerdict) := none
  /-- The level of the sampler's latest snapshot, if there is one. -/
  osLevel : Option OsPressureLevel := none
  osSamplerRunning : Bool := false

/-- The last comparison of `memory_budget_allows`. -/
def budgetAllows (max committed reserved delta : Nat) : Bool :=
  !(max - committed < reserved) && delta ≤ max - committed - reserved

namespace Monitor

variable (r : Rounding) (m : Monitor) (draw : ℚ) (delta : Nat)

def active : Bool :=
  m.maxMemoryBytes != 0 || m.maxGrowthRateBytes != 0 || m.pressureCb.isSome || m.osSamplerRunning

def memoryBudgetAllows : Bool :=
  m.maxMemoryBytes == 0 ||
    (!(m.maxMemoryBytes ≤ m.currentMemory) &&
      budgetAllows m.maxMemoryBytes m.currentMemory m.reservedBytes delta)

def trackPressure : PressureLevel → Monitor
  | .normal => { m with pressureNormalCount := m.pressureNormalCount + 1 }
  | .throttled => { m with pressureThrottledCount := m.pressureThrottledCount + 1 }
  | .critical => { m with pressureCriticalCount := m.pressureCriticalCount + 1 }

/-- The throttle and background-eviction flags, and the statistics. -/
def signal (level : PressureLevel) : Monitor :=
  let raised := level != .normal
  let m := { m with isThrottled := raised, bgEvictionRequested := raised }
  m.trackPressure level

/-- `accept_with_probability`, for a draw from the unit interval. -/
def acceptWithProbability (draw probability : ℚ) : Bool :=
  if 1 ≤ probability then true
  else if probability ≤ 0 then false
  else draw < probability

/-- The occupancy that admitting `delta` bytes would lead to. -/
def fraction : ℚ :=
  r.div (r.ofNat (saturatingAdd m.currentMemory (saturatingAdd m.reservedBytes delta)))
    (r.ofNat m.maxMemoryBytes)

/-- The acceptance probability of the critical tier. -/
def acceptProbability : ℚ :=
  let crit := m.criticalFraction
  let overflow := r.div (r.sub (m.fraction r delta) crit) (r.sub 1 crit)
  r.mul (r.mul (r.mul (r.mul 4 overflow) (r.sub 1 overflow)) (r.sub 1 crit)) (r.sub 1 crit)

/-- Tier 3 of `should_admit`, the internal model. -/
def tieredAdmit : Bool × Monitor :=
  if m.maxMemoryBytes = 0 then
    let idle := { m with bgEvictionRequested := false }
    (true, if m.isThrottled then m else idle.trackPressure .normal)
  else if m.criticalFraction ≤ m.fraction r delta then
    (acceptWithProbability draw (m.acceptProbability r delta) && m.memoryBudgetAllows delta,
      m.signal .critical)
  else if m.throttleFraction ≤ m.fraction r delta then
    (m.memoryBudgetAllows delta, m.signal .throttled)
  else if 0 < m.maxGrowthRateBytes ∧ m.growthRateExceeded then
    (m.memoryBudgetAllows delta, m.signal .throttled)
  else (m.memoryBudgetAllows delta, m.signal .normal)

def shouldAdmit : Bool × Monitor :=
  match (m.pressureCb.map fun cb => cb delta : Option PressureVerdict) with
  | some .reject => (false, m.signal .critical)
  | _ =>
    match m.osLevel with
    | some .critical =>
      (acceptWithProbability draw (r.round (1 / 1000)) && m.memoryBudgetAllows delta,
        m.signal .critical)
    | some .warning =>
      let warned := { m with isThrottled := true, bgEvictionRequested := true }
      warned.tieredAdmit r draw delta
    | _ => m.tieredAdmit r draw delta

/-- `report_memory`. The growth limiter says whether its rate is over the budget. -/
def reportMemory (bytes : Nat) (limiterOver : Bool) : Monitor :=
  { m with
    currentMemory := bytes
    growthRateExceeded := 0 < m.maxGrowthRateBytes && limiterOver }

def setMaxMemory (bytes : Nat) : Monitor := { m with maxMemoryBytes := bytes }

/-! ## What the internal model admits -/

theorem memoryBudgetAllows_iff (budget : m.maxMemoryBytes ≠ 0) :
    m.memoryBudgetAllows delta = true ↔ m.currentMemory < m.maxMemoryBytes ∧
      m.currentMemory + m.reservedBytes + delta ≤ m.maxMemoryBytes := by
  simp only [memoryBudgetAllows, budgetAllows, Bool.or_eq_true, beq_iff_eq, Bool.and_eq_true,
    Bool.not_eq_true', decide_eq_false_iff_not, decide_eq_true_eq]
  omega

/-- Without a callback and an OS snapshot the hard cap decides, and in the critical
tier also the draw. -/
theorem shouldAdmit_iff (budget : m.maxMemoryBytes ≠ 0) (noCallback : m.pressureCb = none)
    (noSnapshot : m.osLevel = none) :
    (m.shouldAdmit r draw delta).1 = true ↔
      (m.currentMemory < m.maxMemoryBytes ∧
          m.currentMemory + m.reservedBytes + delta ≤ m.maxMemoryBytes) ∧
        (m.fraction r delta < m.criticalFraction ∨
          acceptWithProbability draw (m.acceptProbability r delta) = true) := by
  rw [← m.memoryBudgetAllows_iff delta budget]
  simp only [shouldAdmit, noCallback, noSnapshot, Option.map_none, tieredAdmit, if_neg budget]
  by_cases critical : m.criticalFraction ≤ m.fraction r delta
  · rw [if_pos critical, Bool.and_eq_true]
    have tier : ¬ m.fraction r delta < m.criticalFraction := not_lt.mpr critical
    tauto
  · rw [if_neg critical]
    have tier : m.fraction r delta < m.criticalFraction := not_le.mp critical
    split_ifs <;> simp [tier]

/-! ## An admission test changes flags and statistics only -/

theorem signal_active {level : PressureLevel} : (m.signal level).active = m.active := by
  cases level <;> rfl

theorem tieredAdmit_active : (m.tieredAdmit r draw delta).2.active = m.active := by
  rw [tieredAdmit]
  split_ifs <;> rfl

theorem shouldAdmit_active : (m.shouldAdmit r draw delta).2.active = m.active := by
  rw [shouldAdmit]
  split
  · exact m.signal_active
  · split
    · exact m.signal_active
    · exact tieredAdmit_active r _ draw delta
    · exact m.tieredAdmit_active r draw delta

end Monitor

end Lru.Memory
