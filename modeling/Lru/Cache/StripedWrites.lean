import Lru.Cache.Effects
import Lru.Cache.Striped
import Lru.Mm.Counter

/-!
# What a striped write does to the shards

Each step of a write works on the shard of one key. It keeps the table and the
lists of every shard in agreement and the settings as they are, and a shard within
its quota stays within it; then the capacity gate has nothing to do.
-/

namespace Lru

open Mm State ShardedMmLru

variable {K V : Type} {n : Nat} {m : ShardedMmLru K V n} {env : Env K V} {key : K}
  {c : Striped K V n} {a : Ambient K} {value : V} {i : Fin n}

namespace Layer

theorem preWriteCheck_of_open {l : Layer} (fnName : String) (isOpen : l.closed = false)
    (resumed : l.quiesced = false) (calm : l.memoryCriticalMode = false) :
    l.preWriteCheck fnName = .ok .kProceed := by
  simp [preWriteCheck, isOpen, resumed, calm]

end Layer

namespace Striped

section Shards

variable {t u : ShardedMmLru K V n} {f : State K V → State K V}

/-- The shards of `t` are well formed and have the settings of `m`, and the rest of
the object is as before. -/
structure Keeps (env : Env K V) (m t : ShardedMmLru K V n) : Prop where
  wf : ∀ i, (t.shards i).WellFormed env
  settings_eq : ∀ i, (t.shards i).settings = (m.shards i).settings
  frame : t = { m with shards := t.shards }

theorem Keeps.refl (wf : ∀ i, (m.shards i).WellFormed env) : Keeps env m m :=
  ⟨wf, fun _ => rfl, rfl⟩

theorem Keeps.trans (first : Keeps env m t) (second : Keeps env t u) : Keeps env m u := by
  refine ⟨second.wf, fun i => (second.settings_eq i).trans (first.settings_eq i), ?_⟩
  rw [second.frame, first.frame]

theorem modifyShard_wf (wf : ∀ i, (m.shards i).WellFormed env)
    (after : (f (m.shards i)).WellFormed env) :
    ∀ j, ((m.modifyShard i f).shards j).WellFormed env := by
  intro j
  by_cases same : j = i
  · subst same
    rw [modifyShard_same]
    exact after
  · rw [modifyShard_of_ne f same]
    exact wf j

theorem Keeps.modifyShard (wf : ∀ i, (m.shards i).WellFormed env)
    (stepWf : (f (m.shards i)).WellFormed env)
    (settings : (f (m.shards i)).settings = (m.shards i).settings) :
    Keeps env m (m.modifyShard i f) := by
  refine ⟨modifyShard_wf wf stepWf, fun j => ?_, rfl⟩
  by_cases same : j = i
  · subst same
    rw [modifyShard_same]
    exact settings
  · rw [modifyShard_of_ne f same]

theorem Keeps.of_shrinks (wf : ∀ i, (m.shards i).WellFormed env)
    (shrunk : Shrinks env (m.shards i) (f (m.shards i))) : Keeps env m (m.modifyShard i f) :=
  .modifyShard wf shrunk.wf shrunk.settings_eq

end Shards

/-! ## The checks -/

section Checks

variable [NeZero n] [DecidableEq K] {d : Striped K V n}

theorem promoteKey_keeps {sec : Nat} (wf : ∀ i, (m.shards i).WellFormed env) :
    Keeps env m (promoteKey env sec m key) ∧
      (Seated env m → Seated env (promoteKey env sec m key)) := by
  obtain ⟨moved, stats⟩ := Cache.promoteKey_rearranges (wf (m.shardFor env key))
  refine ⟨.of_shrinks wf moved.toShrinks, fun seated => seated.modifyShard ?_⟩
  refine (seated.shard _).shrinks moved.toShrinks ?_
  rw [stats]
  exact (seated.shard _).counter_le

theorem drainRing_keeps (wf : ∀ i, (c.mm.shards i).WellFormed env) :
    Keeps env c.mm (c.drainRing env a).mm ∧
      (Seated env c.mm → Seated env (c.drainRing env a).mm) := by
  have promoted : ∀ (keys : List K) (m : ShardedMmLru K V n),
      (∀ i, (m.shards i).WellFormed env) →
      Keeps env m (keys.foldl (promoteKey env a.sec) m) ∧
        (Seated env m → Seated env (keys.foldl (promoteKey env a.sec) m)) := by
    intro keys
    induction keys with
    | nil => exact fun m wf => ⟨.refl wf, id⟩
    | cons key keys ih =>
      intro m wf
      obtain ⟨first, seated⟩ := promoteKey_keeps wf
      obtain ⟨rest, later⟩ := ih _ first.wf
      exact ⟨first.trans rest, fun h => later (seated h)⟩
  rw [drainRing]
  split
  · exact promoted a.drained c.mm wf
  · exact ⟨.refl wf, id⟩

theorem checkMemoryAdmission_mm :
    (c.checkMemoryAdmission env key value a).2.mm =
      if c.memoryMonitor.active then
        c.mm.modifyShard (c.mm.shardFor env key) fun s => (s.contains env key a.nowNs).2
      else c.mm := by
  rw [checkMemoryAdmission]
  split <;> rfl

theorem checkMemoryAdmission_keeps
    (wf : ∀ i, (c.mm.shards i).WellFormed env) :
    Keeps env c.mm (c.checkMemoryAdmission env key value a).2.mm ∧
      (Seated env c.mm → Seated env (c.checkMemoryAdmission env key value a).2.mm) := by
  rw [checkMemoryAdmission_mm]
  split
  · refine ⟨.of_shrinks wf ?_, fun seated => seated.modifyShard ?_⟩
    · exact (contains_quiet env _ key a.nowNs).shrinks (wf _)
    · exact (seated.shard _).contains key a.nowNs
  · exact ⟨.refl wf, id⟩

/-- The overflow policy on one shard: nothing, a lookup, or a forced removal. -/
theorem overflow_seated {cap : Nat} {s : State K V}
    (seated : MmLru.Seated env cap s) :
    MmLru.Seated env cap
      (Cache.applyOverflowPolicyForSet { mm := s } env .mmLru key a).2.mm := by
  have looked := seated.contains key a.nowNs
  simp only [Cache.applyOverflowPolicyForSet, Strategy.hasOverflowPolicy, if_true]
  split_ifs
  · exact seated
  · exact looked
  · exact looked
  · exact looked
  · exact looked
  · split
    · exact looked
    · exact looked.forceDel

omit [NeZero n] in
theorem applyOverflowPolicyForSet_keeps (key : K) (i : Fin n) (a : Ambient K)
    (wf : ∀ i, (c.mm.shards i).WellFormed env) :
    Keeps env c.mm (c.applyOverflowPolicyForSet env key i a).2.mm ∧
      (Seated env c.mm → Seated env (c.applyOverflowPolicyForSet env key i a).2.mm) := by
  have one := Cache.applyOverflowPolicyForSet_prepares (c := { mm := c.mm.shards i }) .mmLru key a
    (wf i)
  let step := fun _ : State K V =>
    (Cache.applyOverflowPolicyForSet { mm := c.mm.shards i } env .mmLru key a).2.mm
  constructor
  · exact Keeps.of_shrinks (f := step) wf one.mm
  · intro seated
    exact seated.modifyShard (f := step) (overflow_seated (seated.shard i))

/-- Both refusals come from the checks alone; a report is added to them or not. -/
theorem admitWrite_cases {reports : Bool}
    (wf : ∀ i, (c.mm.shards i).WellFormed env) :
    ∃ passes d, Keeps env c.mm d.mm ∧ (Seated env c.mm → Seated env d.mm) ∧
      (c.admitWrite env false key value i a) = (passes, d) ∧
      c.admitWrite env reports key value i a =
        (passes, if !passes && reports then d.reportWriteRejected env key value else d) := by
  obtain ⟨drained, drainedSeated⟩ := drainRing_keeps wf
  obtain ⟨asked, askedSeated⟩ := checkMemoryAdmission_keeps drained.wf
  simp only [admitWrite]
  cases admission : (c.drainRing env a).checkMemoryAdmission env key value a with
  | mk admitted d =>
    rw [admission] at asked askedSeated
    cases admitted with
    | false =>
      refine ⟨false, d, drained.trans asked, fun h => askedSeated (drainedSeated h), rfl, ?_⟩
      cases reports <;> rfl
    | true =>
      obtain ⟨limited, limitedSeated⟩ := applyOverflowPolicyForSet_keeps key i a asked.wf
      simp only
      cases overflow : d.applyOverflowPolicyForSet env key i a with
      | mk passes e =>
        rw [overflow] at limited limitedSeated
        have seated : Seated env c.mm → Seated env e.mm :=
          fun h => limitedSeated (askedSeated (drainedSeated h))
        cases passes with
        | false =>
          refine ⟨false, e, (drained.trans asked).trans limited, seated, rfl, ?_⟩
          cases reports <;> rfl
        | true => exact ⟨true, e, (drained.trans asked).trans limited, seated, rfl, rfl⟩

end Checks

/-! ## The gate -/

section Gate

variable [NeZero n] [DecidableEq K]

theorem set_keeps (key : K) (value : V) (sec : Nat) (wf : ∀ i, (m.shards i).WellFormed env) :
    Keeps env m (m.set env key value sec) ∧
      (Seated env m → Seated env (m.set env key value sec)) := by
  have after := (MmLru.laws env).set_wf (wf (m.shardFor env key)) key value sec
  have settings := (MmLru.laws env).set_settings (wf (m.shardFor env key)) key value sec
  refine ⟨.modifyShard wf after settings, fun seated => seated.modifyShard ?_⟩
  exact MmLru.set_seated (seated.finite _) (seated.shard _)

/-- Without a limit, or within it, the gate does nothing. -/
theorem enforceCapacity_of_le (key : K) (sizeBefore : Nat)
    (fits : c.mm.maxSize = unlimited ∨ c.mm.size ≤ c.mm.maxSize) :
    c.enforceCapacityAfterInsert env key sizeBefore = c := by
  rw [enforceCapacityAfterInsert]
  split
  · rfl
  case isFalse finite => rw [if_pos (fits.resolve_left finite)]

theorem evictLru_wf (held : Option (Fin n)) (wf : ∀ i, (m.shards i).WellFormed env) :
    ∀ i, ((m.evictLru env held).2.shards i).WellFormed env := by
  rw [evictLru]
  split
  · exact modifyShard_wf wf (wf 0)
  case h_2 i chosen =>
    split
    · exact modifyShard_wf wf (wf i)
    · have evicted := modifyShard_wf wf ((MmLru.laws env).eviction.shrinks (wf i)).wf
      simp only
      split
      · exact modifyShard_wf evicted (evicted i)
      · exact evicted

theorem reclaim_wf (cap : Nat) (held : Fin n) (tries : Nat)
    (wf : ∀ i, (m.shards i).WellFormed env) :
    ∀ i, ((reclaim env cap held tries m).shards i).WellFormed env := by
  induction tries generalizing m with
  | zero => exact wf
  | succ tries ih =>
    have evicted := evictLru_wf (some held) wf
    rw [reclaim]
    split
    · exact wf
    simp only
    split
    · exact evicted
    · exact ih evicted

theorem enforceCapacity_wf {sizeBefore : Nat}
    (wf : ∀ i, (c.mm.shards i).WellFormed env) :
    ∀ i, ((c.enforceCapacityAfterInsert env key sizeBefore).mm.shards i).WellFormed env := by
  have reclaimed := reclaim_wf c.mm.maxSize (c.mm.shardFor env key) Cache.kMaxReclaimTries wf
  rw [enforceCapacityAfterInsert]
  simp only
  split
  · exact wf
  split
  · exact wf
  split
  · exact reclaimed
  · have forced : ∀ i, ((forceDel env
        (reclaim env c.mm.maxSize (c.mm.shardFor env key) Cache.kMaxReclaimTries c.mm) key).shards
          i).WellFormed env :=
      modifyShard_wf reclaimed ((MmLru.laws env).forceDel_shrinks (reclaimed _)).wf
    intro i
    rw [collect_shards]
    refine modifyShard_wf ?_ ?_ i
    · split
      · exact forced
      · exact reclaimed
    · show State.WellFormed env (noteEvictionFailed _)
      split
      · exact forced _
      · exact reclaimed _

theorem setBody_wf
    (wf : ∀ i, (c.mm.shards i).WellFormed env) :
    ∀ i, ((c.setBody env key value a).mm.shards i).WellFormed env := by
  obtain ⟨passes, d, kept, -, -, admission⟩ := admitWrite_cases wf
  rw [setBody, admission]
  cases passes with
  | false =>
    have collected : ((d.mm.shards (d.mm.shardFor env key)).collect
        (.reject key value)).WellFormed env := by
      rw [State.WellFormed, core_collect]
      exact kept.wf _
    exact modifyShard_wf kept.wf collected
  | true =>
    exact enforceCapacity_wf (set_keeps key value a.sec kept.wf).1.wf

end Gate

/-! ## The layer around the shards -/

section Around

variable [NeZero n] [DecidableEq K]

omit [NeZero n] [DecidableEq K] in
/-- Reports and pressure checks leave the strategy, shutdown and quiescence alone. -/
theorem reportMemory_spec {limiterOver : Bool} :
    (c.reportMemory limiterOver).mm = c.mm ∧ (c.reportMemory limiterOver).closed = c.closed ∧
      (c.reportMemory limiterOver).quiesced = c.quiesced ∧
      (c.reportMemory limiterOver).memoryMonitor.active = c.memoryMonitor.active := by
  refine ⟨rfl, ?_⟩
  simp only [reportMemory, Layer.reportMemory]
  split <;> exact ⟨rfl, rfl, rfl⟩

omit [NeZero n] [DecidableEq K] in
theorem applyMemoryPressure_spec :
    (c.applyMemoryPressure env).mm = c.mm ∧ (c.applyMemoryPressure env).closed = c.closed ∧
      (c.applyMemoryPressure env).quiesced = c.quiesced ∧
      (c.applyMemoryPressure env).memoryMonitor.active = c.memoryMonitor.active := by
  refine ⟨rfl, ?_⟩
  simp only [applyMemoryPressure, Layer.applyMemoryPressure, Layer.checkMemoryPressure]
  split_ifs <;> exact ⟨rfl, rfl, rfl⟩

theorem checkMemoryAdmission_spec (env : Env K V) (c : Striped K V n) (key : K) (value : V)
    (a : Ambient K) :
    (c.checkMemoryAdmission env key value a).2.closed = c.closed ∧
      (c.checkMemoryAdmission env key value a).2.quiesced = c.quiesced ∧
      (c.checkMemoryAdmission env key value a).2.memoryMonitor.active = c.memoryMonitor.active := by
  rw [checkMemoryAdmission]
  split
  · exact ⟨rfl, rfl, Memory.Monitor.shouldAdmit_active ..⟩
  · exact ⟨rfl, rfl, rfl⟩

omit [DecidableEq K] in
theorem reportWriteRejected_of_unheard
    (unheard : (c.mm.shards (c.mm.shardFor env key)).settings.callbacks.reject = false) :
    c.reportWriteRejected env key value = c := by
  have same : (c.mm.shards (c.mm.shardFor env key)).collect (.reject key value) =
      c.mm.shards (c.mm.shardFor env key) := by
    rw [State.collect, if_neg (by simp [Callbacks.has, unheard])]
  rw [reportWriteRejected, modifyShard, same, Function.update_eq_self]

end Around

end Striped

end Lru
