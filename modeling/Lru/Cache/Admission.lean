import Lru.Cache.Capacity

/-!
# Admission of updates

`check_memory_admission` asks the memory monitor for the current memory plus the
size of the new item when the key is resident. The monitor takes that number for
an increase and adds the current memory to it again. So an update passes only if
twice the current memory, the reserved bytes and the new item fit the budget.
-/

namespace Lru.Cache

variable {K V : Type}

open Mm State

section Update

variable [DecidableEq K] {env : Env K V} {c : Cache K V} {key : K} {value : V} {i : ItemId}
  {a : Ambient K}

/-- The key is resident, the monitor is active and its gauge is exact; there is no
callback, no sampler and no rate limit. -/
structure Monitored (env : Env K V) (c : Cache K V) (key : K) (i : ItemId) : Prop where
  resident : c.mm.find env key = some i
  active : c.memoryMonitor.active = true
  gauge : c.memoryMonitor.currentMemory = c.mm.stats.currentMemory
  no_callback : c.memoryMonitor.pressureCb = none
  no_snapshot : c.memoryMonitor.osLevel = none
  no_sampler : c.memoryMonitor.osSamplerRunning = false
  no_rate : c.memoryMonitor.maxGrowthRateBytes = 0

/-- Below the throttle fraction of the monitor's budget. -/
def BelowThrottle (c : Cache K V) (bytes : ℚ) : Prop :=
  bytes < c.memoryMonitor.throttleFraction * c.memoryMonitor.maxMemoryBytes

/-- The memory after the update is below the throttle fraction, or the update does
not change the size of the item and there is room for one more such item. -/
def UpdateFits (env : Env K V) (c : Cache K V) (key : K) (value : V) (i : ItemId) : Prop :=
  let current : ℚ := c.mm.stats.currentMemory
  let old := c.mm.itemMemory env i
  let new := c.mm.settings.calcItemMemory env key value
  c.BelowThrottle (current - old + new) ∨ (new = old ∧ c.BelowThrottle (current + new))

def UpdateAdmitted (env : Env K V) (c : Cache K V) (key : K) (value : V) (i : ItemId)
    (a : Ambient K) : Prop :=
  c.UpdateFits env key value i → (c.checkMemoryAdmission env key value a).1 = true

/-- The increase that the monitor is asked for. An expired item is treated as a new
one; for any other the current memory is part of the increase. -/
def increase (env : Env K V) (c : Cache K V) (key : K) (value : V) (i : ItemId) (nowNs : Nat) :
    Nat :=
  let new := c.mm.settings.calcItemMemory env key value
  if (c.mm.heap i).isExpired nowNs then new else SizeT.fetchAdd c.mm.stats.currentMemory new

/-- The current memory, the reserved bytes and the increase fit the budget, and the
sum is below the critical fraction or the draw is lucky. -/
structure IncreaseFits (env : Env K V) (c : Cache K V) (draw : ℚ) (bytes : Nat) : Prop where
  below_cap : c.mm.stats.currentMemory < c.memoryMonitor.maxMemoryBytes
  within_cap : c.mm.stats.currentMemory + c.memoryMonitor.reservedBytes + bytes ≤
    c.memoryMonitor.maxMemoryBytes
  tier : c.memoryMonitor.fraction env.rounding bytes < c.memoryMonitor.criticalFraction ∨
    Memory.Monitor.acceptWithProbability draw
      (c.memoryMonitor.acceptProbability env.rounding bytes) = true

omit [DecidableEq K] in
theorem admissionBytes_eq_increase (nowNs : Nat) :
    c.admissionBytes env key value (!(c.mm.heap i).isExpired nowNs) =
      c.increase env key value i nowNs := by
  rw [increase]
  cases (c.mm.heap i).isExpired nowNs <;> rfl

theorem Monitored.budget (monitored : c.Monitored env key i) :
    c.memoryMonitor.maxMemoryBytes ≠ 0 := by
  have active := monitored.active
  simpa [Memory.Monitor.active, monitored.no_callback, monitored.no_sampler, monitored.no_rate]
    using active

theorem Monitored.checkMemoryAdmission_iff (monitored : c.Monitored env key i) :
    (c.checkMemoryAdmission env key value a).1 = true ↔
      c.IncreaseFits env a.draw (c.increase env key value i a.nowNs) := by
  have present : (c.mm.contains env key a.nowNs).1 = !(c.mm.heap i).isExpired a.nowNs := by
    rw [contains_fst, live, monitored.resident]
  rw [checkMemoryAdmission, if_pos monitored.active]
  simp only
  rw [present, admissionBytes_eq_increase, Memory.Monitor.shouldAdmit_iff _ _ _ _ monitored.budget
    monitored.no_callback monitored.no_snapshot, monitored.gauge]
  constructor
  · rintro ⟨⟨below, within⟩, tier⟩
    exact ⟨below, within, tier⟩
  · rintro ⟨below, within, tier⟩
    exact ⟨⟨below, within⟩, tier⟩

/-- Every update that fits is admitted exactly if the sum with the current memory
counted twice passes the monitor as well. -/
theorem updateAdmitted_iff (monitored : c.Monitored env key i) :
    c.UpdateAdmitted env key value i a ↔
      (c.UpdateFits env key value i →
        c.IncreaseFits env a.draw (c.increase env key value i a.nowNs)) := by
  rw [UpdateAdmitted, monitored.checkMemoryAdmission_iff]

end Update

section Samples

open Mm.Strategy (intEnv)

/-- A monitor with the given budget, and no other limit. -/
def monitoredCache (budget : Nat) : Cache Nat Nat :=
  { memoryMonitor := { maxMemoryBytes := budget }
    mm := State.empty (fun _ => default) {} {} 0 }

def occupiedCache (budget : Nat) : Cache Nat Nat :=
  ((monitoredCache budget).set intEnv .mmLru 1 10 {}).2

theorem occupiedCache_reachable {budget : Nat} :
    (occupiedCache budget).Reachable intEnv .mmLru := by
  have start : (monitoredCache budget).Reachable intEnv .mmLru :=
    ⟨monitoredCache budget, ⟨fun _ => default, {}, {}, 0, rfl⟩, .refl⟩
  exact start.step (.set 1 10 {}) trivial rfl

theorem occupiedCache_monitored {budget : Nat} (sample : budget = 190 ∨ budget = 1000) :
    (occupiedCache budget).Monitored intEnv 1 0 := by
  obtain rfl | rfl := sample <;>
    exact
      { resident := by decide +kernel
        active := by decide +kernel
        gauge := by decide +kernel
        no_callback := Option.isNone_iff_eq_none.mp (by decide +kernel)
        no_snapshot := by decide +kernel
        no_sampler := by decide +kernel
        no_rate := by decide +kernel }

theorem update_admitted_in_wide_budget :
    (occupiedCache 1000).UpdateFits intEnv 1 10 0 ∧
      (occupiedCache 1000).UpdateAdmitted intEnv 1 10 0 {} := by
  have fits : (occupiedCache 1000).UpdateFits intEnv 1 10 0 :=
    .inr ⟨by decide +kernel, by rw [BelowThrottle]; decide +kernel⟩
  refine ⟨fits, (updateAdmitted_iff (occupiedCache_monitored (.inr rfl))).mpr fun _ => ?_⟩
  exact ⟨by decide +kernel, by decide +kernel, .inl (by decide +kernel)⟩

/-- With a budget of 190 bytes, storing the same value again is refused, although
one more item would still be below the throttle fraction. -/
theorem same_size_update_refused :
    (occupiedCache 190).Reachable intEnv .mmLru ∧ (occupiedCache 190).Monitored intEnv 1 0 ∧
      (occupiedCache 190).mm.stats.currentMemory = 64 ∧
      (occupiedCache 190).mm.itemMemory intEnv 0 = 64 ∧
      (occupiedCache 190).UpdateFits intEnv 1 10 0 ∧
      ((occupiedCache 190).checkMemoryAdmission intEnv 1 10 {}).1 = false ∧
      ¬ (occupiedCache 190).UpdateAdmitted intEnv 1 10 0 {} := by
  have fits : (occupiedCache 190).UpdateFits intEnv 1 10 0 :=
    .inr ⟨by decide +kernel, by rw [BelowThrottle]; decide +kernel⟩
  have refused : ((occupiedCache 190).checkMemoryAdmission intEnv 1 10 {}).1 = false := by
    decide +kernel
  refine ⟨occupiedCache_reachable, occupiedCache_monitored (.inl rfl), by decide +kernel,
    by decide +kernel, fits, refused, ?_⟩
  intro admitted
  exact absurd ((admitted fits).symm.trans refused) (by decide)

end Samples

end Lru.Cache
