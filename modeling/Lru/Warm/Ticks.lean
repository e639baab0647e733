import Lru.Warm.Manager
import Mathlib.Data.List.Induction

/-!
# Incremental snapshots

Every tick drains the collected changes. A tick that writes the full snapshot drops them
and leaves the delta file as it is; every other tick overwrites the delta file with the
changes of its own window. So a restore sees the last full snapshot and the changes of
one window, which need not be the window behind it.
-/

namespace Lru.Warm

open Binary Mm Persist.Serde Manager

variable {K V : Type} [DecidableEq K] {type : CacheType K V} {interval tick : Nat}

/-! ## Collected changes -/

def assign (delta : List (K × Option V)) (key : K) (value : Option V) : List (K × Option V) :=
  delta.filter (·.1 ≠ key) ++ [(key, value)]

/-- The callbacks of `enable_delta_tracking`. -/
def record (delta : List (K × Option V)) : Event K V → List (K × Option V)
  | .insert key value => assign delta key (some value)
  | .update key value => assign delta key (some value)
  | .evict key _ => assign delta key none
  | _ => delta

/-- The entry that is written for a changed key. -/
def entryOf : K × Option V → DeltaEntry K V
  | (key, some value) => .insert key value
  | (key, none) => .remove key

/-- The changes that a sequence of events leaves behind. -/
def changes (events : List (Event K V)) : List (K × Option V) := events.foldl record []

/-! ## Ticks -/

structure Disk where
  full : File := .missing
  delta : File := .missing

namespace Manager

/-- The live cache changes and its callbacks run. -/
def mutate (m : Manager type) (cache : type.Cache) (events : List (Event K V)) : Manager type :=
  match live : m.live with
  | none => m
  | some (object, old) =>
    { m with
      live := some (object, cache)
      fresh := fun pointer same => by
        cases same
        exact m.fresh (object, old) live
      delta := if m.enabled && m.hooked.contains object then events.foldl record m.delta
        else m.delta }

/-- Whether the tick with this number writes the full snapshot. -/
def writesFull (interval tick : Nat) : Bool := 0 < interval && tick % interval == 0

/-- The tick is counted, tracking is on from the first one, and the changes are drained. -/
def drain (m : Manager type) : Manager type :=
  { if m.snapshotTickCount = 0 then m.enableDeltaTracking else m with
    snapshotTickCount := m.snapshotTickCount + 1
    delta := [] }

def takeIncrementalSnapshot (m : Manager type) (disk : Disk) : Nat × Manager type × Disk :=
  if writesFull m.fullSnapshotInterval m.snapshotTickCount then
    match m.live.map fun pointer => type.save pointer.2 with
    | some (.ok data) => (0, m.drain, { disk with full := .readable data })
    | _ => (0, m.drain, disk)
  else
    let data := writeDelta type.keys type.values (m.delta.map entryOf)
    (m.delta.length, m.drain, { disk with delta := .readable data })

end Manager

/-! ## Runs -/

/-- What happens up to a tick: the live cache at the tick, and the events since the last
tick. -/
structure Window (type : CacheType K V) where
  cache : type.Cache
  events : List (Event K V)

section Runs

/-- The changes of one window, and the tick at its end. -/
def Manager.window (state : Manager type × Disk) (w : Window type) : Manager type × Disk :=
  ((state.1.mutate w.cache w.events).takeIncrementalSnapshot state.2).2

/-- A run of the manager from a disk without the two files. -/
def Manager.run (m : Manager type) (windows : List (Window type)) : Manager type × Disk :=
  windows.foldl Manager.window (m, {})

/-- Before the first tick. The callbacks may be attached already. -/
structure Manager.Started (m : Manager type) : Prop where
  live : m.live.isSome
  first : m.snapshotTickCount = 0
  hooked : m.enabled = true → ∀ pointer ∈ m.live, pointer.1 ∈ m.hooked

/-- The ticks that write the full snapshot can save the cache. -/
def Completed (type : CacheType K V) (interval : Nat) (windows : List (Window type)) : Prop :=
  ∀ (tick : Nat) (w : Window type), windows[tick]? = some w →
    Manager.writesFull interval tick = true → ∃ data, type.save w.cache = .ok data

/-- The last tick up to this one that wrote the full snapshot. -/
def fullTick (interval tick : Nat) : Nat := interval * (tick / interval)

/-- The last tick up to this one that wrote the delta. -/
def deltaTick (interval tick : Nat) : Option Nat :=
  if Manager.writesFull interval tick = false then some tick
  else if interval = 1 ∨ tick = 0 then none
  else some (tick - 1)

/-- The delta file that a tick writes behind a window. -/
def Window.deltaFile (w : Window type) : File :=
  .readable (writeDelta type.keys type.values ((changes w.events).map entryOf))

variable {m : Manager type} {disk : Disk} {w : Window type} {object : Nat} {old : type.Cache}

theorem Manager.mutate_of_live (live : m.live = some (object, old)) {cache : type.Cache}
    {events : List (Event K V)} :
    (m.mutate cache events).live = some (object, cache)
      ∧ (m.mutate cache events).enabled = m.enabled
      ∧ (m.mutate cache events).hooked = m.hooked
      ∧ (m.mutate cache events).snapshotTickCount = m.snapshotTickCount
      ∧ (m.mutate cache events).fullSnapshotInterval = m.fullSnapshotInterval
      ∧ (m.mutate cache events).delta =
        if m.enabled && m.hooked.contains object then events.foldl record m.delta
        else m.delta := by
  rw [mutate]
  split
  case h_1 none => cases live.symm.trans none
  case h_2 object' old' live' =>
    obtain ⟨rfl, rfl⟩ := Prod.mk.inj (Option.some.inj (live.symm.trans live'))
    exact ⟨rfl, rfl, rfl, rfl, rfl, rfl⟩

omit [DecidableEq K] in
theorem Manager.takeIncrementalSnapshot_manager :
    (m.takeIncrementalSnapshot disk).2.1 = m.drain := by
  rw [takeIncrementalSnapshot]
  split
  · split <;> rfl
  · rfl

/-- A manager that can take the tick with this number. -/
structure Manager.Ready (m : Manager type) (interval tick object : Nat) : Prop where
  live : ∃ cache, m.live = some (object, cache)
  hooked : m.enabled = true → object ∈ m.hooked
  enabled : tick ≠ 0 → m.enabled = true
  delta : tick ≠ 0 → m.delta = []
  count : m.snapshotTickCount = tick
  every : m.fullSnapshotInterval = interval

namespace Manager.Ready

variable (ready : m.Ready interval tick object)
include ready

/-- A window keeps the manager ready for the next tick. -/
theorem window (disk : Disk) (w : Window type) :
    (window (m, disk) w).1.Ready interval (tick + 1) object := by
  obtain ⟨old, live⟩ := ready.live
  obtain ⟨live', enabled', hooked', count', every', -⟩ := mutate_of_live live
  rw [Manager.window, takeIncrementalSnapshot_manager]
  generalize m.mutate w.cache w.events = n at live' enabled' hooked' count' every'
  have tracked : n.drain.live = n.live ∧ n.drain.enabled = true ∧ object ∈ n.drain.hooked := by
    by_cases enabled : n.enabled = true
    · have attached : object ∈ n.hooked := by
        rw [hooked']
        exact ready.hooked (enabled' ▸ enabled)
      simp [drain, enableDeltaTracking, enabled, attached]
    · have first : n.snapshotTickCount = 0 := by
        rw [count', ready.count]
        by_contra later
        exact enabled (enabled'.trans (ready.enabled later))
      simp [drain, enableDeltaTracking, enabled, first, attach, live']
  refine ⟨⟨w.cache, tracked.1.trans live'⟩, fun _ => tracked.2.2, fun _ => tracked.2.1,
    fun _ => rfl, ?_, ?_⟩
  · show n.snapshotTickCount + 1 = tick + 1
    rw [count', ready.count]
  · show (if n.snapshotTickCount = 0 then n.enableDeltaTracking else n).fullSnapshotInterval = _
    rw [← ready.every, ← every', enableDeltaTracking]
    split
    · split <;> rfl
    · rfl

/-- A tick that writes the full snapshot touches nothing else. -/
theorem window_full {data : List UInt8} (full : writesFull interval tick = true)
    (saved : type.save w.cache = .ok data) :
    (Manager.window (m, disk) w).2 = { disk with full := .readable data } := by
  obtain ⟨old, live⟩ := ready.live
  obtain ⟨live', -, -, count', every', -⟩ := mutate_of_live live
  rw [Manager.window, takeIncrementalSnapshot, count', every', ready.count, ready.every,
    if_pos full, live', Option.map_some, saved]

theorem window_not_full (other : writesFull interval tick = false) :
    (Manager.window (m, disk) w).2.full = disk.full := by
  obtain ⟨old, live⟩ := ready.live
  obtain ⟨-, -, -, count', every', -⟩ := mutate_of_live live
  rw [Manager.window, takeIncrementalSnapshot, count', every', ready.count, ready.every,
    if_neg (by rw [other]; exact Bool.false_ne_true)]

/-- Past the first tick it writes the changes of its window. -/
theorem window_delta (later : tick ≠ 0) (other : writesFull interval tick = false) :
    (Manager.window (m, disk) w).2 = { disk with delta := w.deltaFile } := by
  obtain ⟨old, live⟩ := ready.live
  obtain ⟨-, -, -, count', every', delta'⟩ := mutate_of_live live
  have attached := ready.hooked (ready.enabled later)
  rw [ready.enabled later, ready.delta later] at delta'
  simp only [Bool.true_and, List.contains_eq_mem, attached, decide_true, if_true] at delta'
  rw [Manager.window, takeIncrementalSnapshot, count', every', ready.count, ready.every,
    if_neg (by rw [other]; exact Bool.false_ne_true)]
  simp only [delta']
  rfl

end Manager.Ready

/-! ## What is on the disk -/

/-- The manager and the disk behind the tick `last`. With the interval 0 the first tick
writes a delta too, which may hold changes from before the run. -/
structure Ticked (interval : Nat) (windows : List (Window type)) (last object : Nat)
    (state : Manager type × Disk) : Prop where
  ready : state.1.Ready interval (last + 1) object
  noFull : interval = 0 → state.2.full = .missing
  full : 0 < interval → ∃ w data, windows[fullTick interval last]? = some w ∧
    type.save w.cache = .ok data ∧ state.2.full = .readable data
  noDelta : deltaTick interval last = none → state.2.delta = .missing
  deltaFile : 0 < interval → ∀ tick, deltaTick interval last = some tick →
    ∃ w, windows[tick]? = some w ∧ state.2.delta = w.deltaFile

theorem writesFull_iff : writesFull interval tick = true ↔ 0 < interval ∧ interval ∣ tick := by
  simp [writesFull, Nat.dvd_iff_mod_eq_zero]

theorem fullTick_of_writesFull (full : writesFull interval tick = true) :
    fullTick interval tick = tick := by
  obtain ⟨-, divides⟩ := writesFull_iff.mp full
  exact Nat.mul_div_cancel' divides

/-- Between two full snapshots the last one stays the same. -/
theorem fullTick_succ (positive : 0 < interval)
    (other : writesFull interval (tick + 1) = false) :
    fullTick interval (tick + 1) = fullTick interval tick := by
  have skips : ¬ interval ∣ tick + 1 := by
    intro divides
    rw [writesFull_iff.mpr ⟨positive, divides⟩] at other
    cases other
  rw [fullTick, fullTick, Nat.succ_div_of_not_dvd skips]

/-- A full snapshot leaves the delta of the tick before. -/
theorem deltaTick_succ (full : writesFull interval (tick + 1) = true) :
    deltaTick interval (tick + 1) = deltaTick interval tick := by
  obtain ⟨positive, divides⟩ := writesFull_iff.mp full
  by_cases one : interval = 1
  · subst one
    have both := writesFull_iff.mpr ⟨positive, Nat.one_dvd tick⟩
    simp [deltaTick, full, both]
  · have other : writesFull interval tick = false := by
      by_contra writes
      obtain ⟨-, before⟩ := writesFull_iff.mp (Bool.eq_true_of_not_eq_false writes)
      exact one (Nat.dvd_one.mp ((Nat.dvd_add_right before).mp divides))
    simp [deltaTick, full, other, one]

namespace Ticked

variable {last : Nat} {windows : List (Window type)} {state : Manager type × Disk}

theorem first (ready : m.Ready interval 0 object)
    (completes : writesFull interval 0 = true → ∃ data, type.save w.cache = .ok data) :
    Ticked interval [w] 0 object (window (m, {}) w) := by
  by_cases full : writesFull interval 0 = true
  · obtain ⟨data, saved⟩ := completes full
    obtain ⟨positive, -⟩ := writesFull_iff.mp full
    have written : (window (m, {}) w).2 = { full := .readable data } := ready.window_full full saved
    have none : deltaTick interval 0 = none := by simp [deltaTick, full]
    refine ⟨ready.window _ w, fun zero => absurd zero positive.ne', fun _ => ?_, fun _ => ?_, ?_⟩
    · exact ⟨w, data, by simp [fullTick], saved, by rw [written]⟩
    · rw [written]
    · intro _ tick some
      rw [none] at some
      cases some
  · have zero : interval = 0 := by
      by_contra positive
      exact full (writesFull_iff.mpr ⟨Nat.pos_of_ne_zero positive, Nat.dvd_zero _⟩)
    have other := Bool.eq_false_of_not_eq_true full
    refine ⟨ready.window _ w, fun _ => ready.window_not_full other, ?_, ?_, ?_⟩
    · intro positive
      omega
    · intro none
      simp [deltaTick, other] at none
    · intro positive
      omega

theorem window (ticked : Ticked interval windows last object state)
    (length : windows.length = last + 1)
    (completes : writesFull interval (last + 1) = true → ∃ data, type.save w.cache = .ok data) :
    Ticked interval (windows ++ [w]) (last + 1) object (window state w) := by
  have kept {tick : Nat} {v : Window type} (found : windows[tick]? = some v) :
      (windows ++ [w])[tick]? = some v := by
    rw [List.getElem?_append_left (List.getElem?_eq_some_iff.mp found).1]
    exact found
  have here : (windows ++ [w])[last + 1]? = some w := by
    rw [← length, List.getElem?_concat_length]
  have ready := ticked.ready
  refine ⟨ready.window _ w, ?_, ?_, ?_, ?_⟩
  · rintro rfl
    have other : writesFull 0 (last + 1) = false := rfl
    exact (ready.window_not_full other).trans (ticked.noFull rfl)
  · intro positive
    by_cases full : writesFull interval (last + 1) = true
    · obtain ⟨data, saved⟩ := completes full
      refine ⟨w, data, ?_, saved, by rw [ready.window_full full saved]⟩
      rw [fullTick_of_writesFull full]
      exact here
    · have other := Bool.eq_false_of_not_eq_true full
      obtain ⟨v, data, found, saved, onDisk⟩ := ticked.full positive
      rw [fullTick_succ positive other]
      exact ⟨v, data, kept found, saved, (ready.window_not_full other).trans onDisk⟩
  · intro none
    by_cases full : writesFull interval (last + 1) = true
    · obtain ⟨data, saved⟩ := completes full
      rw [ready.window_full full saved]
      exact ticked.noDelta ((deltaTick_succ full).symm.trans none)
    · simp [deltaTick, full] at none
  · intro positive tick wrote
    by_cases full : writesFull interval (last + 1) = true
    · obtain ⟨data, saved⟩ := completes full
      rw [deltaTick_succ full] at wrote
      obtain ⟨v, found, onDisk⟩ := ticked.deltaFile positive tick wrote
      rw [ready.window_full full saved]
      exact ⟨v, kept found, onDisk⟩
    · have other := Bool.eq_false_of_not_eq_true full
      rw [ready.window_delta (Nat.succ_ne_zero last) other]
      simp only [deltaTick, other, if_true, Option.some.injEq] at wrote
      exact ⟨w, wrote ▸ here, rfl⟩

end Ticked

theorem run_ticked (started : m.Started) {before : List (Window type)} {last : Window type}
    (completed : Completed type m.fullSnapshotInterval (before ++ [last])) :
    ∃ object, Ticked m.fullSnapshotInterval (before ++ [last]) before.length object
      (m.run (before ++ [last])) := by
  obtain ⟨⟨object, old⟩, live⟩ := Option.isSome_iff_exists.mp started.live
  have ready : m.Ready m.fullSnapshotInterval 0 object :=
    ⟨⟨old, live⟩, fun enabled => started.hooked enabled _ live, absurd rfl,
      absurd rfl, started.first, rfl⟩
  refine ⟨object, ?_⟩
  induction before using List.reverseRecOn generalizing last with
  | nil =>
    refine Ticked.first ready fun full => ?_
    exact completed 0 last rfl full
  | append_singleton before w ih =>
    have prior : Completed type m.fullSnapshotInterval (before ++ [w]) := by
      intro tick v found
      refine completed tick v ?_
      rw [List.getElem?_append_left (List.getElem?_eq_some_iff.mp found).1]
      exact found
    have length : (before ++ [w]).length = before.length + 1 := by simp
    rw [run, List.foldl_append, length]
    refine (ih prior).window length fun full => ?_
    refine completed (before.length + 1) last ?_ full
    rw [← length, List.getElem?_concat_length]

end Runs

end Lru.Warm
