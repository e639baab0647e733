import Lru.Cache.Model

/-!
# What the cache layer does to the strategy

The checks before a write remove at most one item and otherwise only count and
report; the gate after it only removes. So each call keeps the strategy's table
and lists in agreement.
-/

namespace Lru.Cache

open Mm State

variable {K V : Type} {env : Env K V} {c : Cache K V} {s : State K V} {strategy : Strategy}
  {P : Cache K V → Prop} {fnName : String} {cap sizeBefore : Nat} {limiterOver : Bool}

/-! ## Steps that keep the modes of the cache -/

/-- Shutdown, quiescence, the critical mode and its watermarks are as before. -/
structure SameModes (c d : Cache K V) : Prop where
  closed_eq : d.closed = c.closed
  quiesced_eq : d.quiesced = c.quiesced
  critical_eq : d.memoryCriticalMode = c.memoryCriticalMode
  soft_eq : d.memorySoftWatermark = c.memorySoftWatermark
  watermark_eq : d.memoryCriticalWatermark = c.memoryCriticalWatermark

/-- Moreover items of the strategy were removed at most. -/
structure Prepares (env : Env K V) (c d : Cache K V) : Prop extends SameModes c d where
  mm : Shrinks env c.mm d.mm

section Modes

variable {d e : Cache K V}

theorem SameModes.refl : SameModes c c := ⟨rfl, rfl, rfl, rfl, rfl⟩

theorem SameModes.trans (first : SameModes c d) (second : SameModes d e) : SameModes c e :=
  ⟨second.closed_eq.trans first.closed_eq, second.quiesced_eq.trans first.quiesced_eq,
    second.critical_eq.trans first.critical_eq, second.soft_eq.trans first.soft_eq,
    second.watermark_eq.trans first.watermark_eq⟩

theorem Prepares.refl (wf : c.mm.WellFormed env) : Prepares env c c := ⟨.refl, .refl wf⟩

theorem Prepares.trans (first : Prepares env c d) (second : Prepares env d e) : Prepares env c e :=
  ⟨first.toSameModes.trans second.toSameModes, first.mm.trans second.mm⟩

theorem closed_of_proceeds
    (proceeds : c.preWriteCheck fnName = .ok .kProceed) : c.closed = false := by
  rw [Layer.preWriteCheck] at proceeds
  split at proceeds
  · cases proceeds
  case isFalse isOpen => simpa using isOpen

/-- What holds at each end of a guarded call holds after it. -/
theorem guarded_keeps {α : Type}
    {rejected proceed : α × Cache K V} (thrown : P c) (afterReject : P rejected.2)
    (afterProceed : c.preWriteCheck fnName = .ok .kProceed → P proceed.2) :
    P (c.guarded fnName rejected proceed).2 := by
  rw [guarded]
  split
  · exact thrown
  · exact afterReject
  case h_3 proceeds => exact afterProceed proceeds

theorem SameModes.withMm {mm : State K V} : SameModes c { c with mm := mm } :=
  ⟨rfl, rfl, rfl, rfl, rfl⟩

theorem reportMemory_mm : (c.reportMemory limiterOver).mm = c.mm := rfl

theorem SameModes.reportMemory : SameModes c (c.reportMemory limiterOver) := by
  rw [Cache.reportMemory, Layer.reportMemory]
  split
  · exact ⟨rfl, rfl, rfl, rfl, rfl⟩
  · exact .refl

/-- The pressure check touches the critical mode and the OOM events only. -/
theorem applyMemoryPressure_mm :
    (c.applyMemoryPressure env).mm = c.mm ∧ (c.applyMemoryPressure env).closed = c.closed ∧
      (c.applyMemoryPressure env).quiesced = c.quiesced := by
  refine ⟨rfl, ?_⟩
  simp only [applyMemoryPressure, Layer.applyMemoryPressure, Layer.checkMemoryPressure]
  split_ifs <;> exact ⟨rfl, rfl⟩

end Modes

/-! ## Checks before a write -/

section Checks

variable [DecidableEq K]

/-- Promoting a drained key moves items at most. -/
theorem promoteKey_rearranges {sec : Nat} {key : K} (wf : s.WellFormed env) :
    Rearranges env s (promoteKey env strategy sec s key) ∧
      (promoteKey env strategy sec s key).stats = s.stats := by
  have promoted : Moves env s ((strategy.policy env).promote env s key sec).2 :=
    (strategy.laws env).promote_moves wf key sec
  unfold promoteKey State.peek
  simp only
  obtain ⟨missed, -⟩ | ⟨i, -, -, pinned⟩ :=
    findAndPin_cases env ((strategy.policy env).promote env s key sec).2 key
  · rw [missed]
    exact ⟨promoted.toRearranges, promoted.stats_eq⟩
  · rw [pinned]
    exact ⟨promoted.toRearranges.quiet (.pinned (.collect rfl)),
      collect_stats.trans promoted.stats_eq⟩

theorem foldl_promoteKey_rearranges (strategy : Strategy) (sec : Nat) (keys : List K)
    (wf : s.WellFormed env) :
    Rearranges env s (keys.foldl (promoteKey env strategy sec) s) ∧
      (keys.foldl (promoteKey env strategy sec) s).stats = s.stats := by
  induction keys generalizing s with
  | nil => exact ⟨.refl wf, rfl⟩
  | cons key rest ih =>
    obtain ⟨moved, stats⟩ := promoteKey_rearranges wf
    obtain ⟨later, laterStats⟩ := ih moved.wf
    exact ⟨moved.trans later, laterStats.trans stats⟩

theorem drainRing_spec {a : Ambient K} (wf : c.mm.WellFormed env) :
    ∃ mm, c.drainRing env strategy a = { c with mm := mm } ∧ Rearranges env c.mm mm ∧
      mm.stats = c.mm.stats := by
  unfold drainRing
  split
  · obtain ⟨moved, stats⟩ := foldl_promoteKey_rearranges strategy a.sec a.drained wf
    exact ⟨_, rfl, moved, stats⟩
  · exact ⟨c.mm, rfl, .refl wf, rfl⟩

theorem drainRing_prepares (strategy : Strategy) (a : Ambient K) (wf : c.mm.WellFormed env) :
    Prepares env c (c.drainRing env strategy a) := by
  obtain ⟨mm, drained, moved, -⟩ := drainRing_spec wf
  rw [drained]
  exact ⟨.withMm, moved.toShrinks⟩

/-- The memory monitor is asked; the strategy only counts the lookup. -/
theorem checkMemoryAdmission_quiet (env : Env K V) (c : Cache K V) (key : K) (value : V)
    (a : Ambient K) :
    SameModes c (c.checkMemoryAdmission env key value a).2 ∧
      Quiet c.mm (c.checkMemoryAdmission env key value a).2.mm := by
  unfold checkMemoryAdmission
  split
  · exact ⟨⟨rfl, rfl, rfl, rfl, rfl⟩, contains_quiet env c.mm key a.nowNs⟩
  · exact ⟨.refl, .refl⟩

/-- The overflow policy may force out the tail of the list. -/
theorem applyOverflowPolicyForSet_prepares (strategy : Strategy) (key : K) (a : Ambient K)
    (wf : c.mm.WellFormed env) :
    Prepares env c (c.applyOverflowPolicyForSet env strategy key a).2 := by
  have looked : Quiet c.mm (c.mm.contains env key a.nowNs).2 := contains_quiet env c.mm key a.nowNs
  have asked : Prepares env c { c with mm := (c.mm.contains env key a.nowNs).2 } :=
    ⟨.withMm, looked.shrinks wf⟩
  have laws := strategy.laws env
  unfold applyOverflowPolicyForSet
  simp only
  set policy := if strategy.hasOverflowPolicy then c.mm.settings.config.overflowPolicyValue
    else .kAllowGrowth
  by_cases growth : policy = .kAllowGrowth
  · rw [if_pos growth]
    exact .refl wf
  rw [if_neg growth]
  split
  · exact asked
  split
  · exact asked
  split
  · exact asked
  split
  · exact asked
  split
  · exact asked
  · exact ⟨.withMm, asked.mm.trans (laws.forceDel_shrinks asked.mm.wf)⟩

section Verdict

variable (strategy) (reportsAdmission reportsOverflow : Bool) (key : K) (value : V)
  (a : Ambient K) (wf : c.mm.WellFormed env)

include wf

/-- A write is refused by the memory monitor, refused by the overflow policy or
admitted. In each case the checks have removed at most one item. -/
theorem admitWrite_cases :
    (∃ d, ((c.drainRing env strategy a).checkMemoryAdmission env key value a) = (false, d) ∧
        Prepares env c d ∧
        c.admitWrite env strategy reportsAdmission reportsOverflow key value a =
          (false, if reportsAdmission then d.reportWriteRejected key value else d)) ∨
      ∃ d e, ((c.drainRing env strategy a).checkMemoryAdmission env key value a) = (true, d) ∧
        Prepares env c e ∧
        ((d.applyOverflowPolicyForSet env strategy key a = (false, e) ∧
            c.admitWrite env strategy reportsAdmission reportsOverflow key value a =
              (false, if reportsOverflow then e.reportWriteRejected key value else e)) ∨
          (d.applyOverflowPolicyForSet env strategy key a = (true, e) ∧
            c.admitWrite env strategy reportsAdmission reportsOverflow key value a =
              (true, e))) := by
  have drained := drainRing_prepares strategy a wf
  obtain ⟨modes, looked⟩ := checkMemoryAdmission_quiet env (c.drainRing env strategy a) key value a
  have asked := drained.trans ⟨modes, looked.shrinks drained.mm.wf⟩
  unfold admitWrite
  simp only
  cases verdict : (c.drainRing env strategy a).checkMemoryAdmission env key value a with
  | mk admitted d =>
    rw [verdict] at asked
    cases admitted with
    | false => exact .inl ⟨d, rfl, asked, rfl⟩
    | true =>
      have overflow := applyOverflowPolicyForSet_prepares strategy key a asked.mm.wf
      cases allowed : d.applyOverflowPolicyForSet env strategy key a with
      | mk fits e =>
        rw [allowed] at overflow
        refine .inr ⟨d, e, rfl, asked.trans overflow, ?_⟩
        cases fits with
        | false => exact .inl ⟨allowed, by simp [allowed]⟩
        | true => exact .inr ⟨allowed, by simp [allowed]⟩

/-- What holds after the checks holds after the report of a refusal too. -/
theorem admitWrite_keeps (checked : ∀ {d}, Prepares env c d → P d)
    (reported : ∀ {d}, P d → P (d.reportWriteRejected key value)) :
    P (c.admitWrite env strategy reportsAdmission reportsOverflow key value a).2 := by
  obtain ⟨d, -, prepared, refused⟩ | ⟨d, e, -, prepared, ⟨-, refused⟩ | ⟨-, admitted⟩⟩ :=
    admitWrite_cases strategy reportsAdmission reportsOverflow key value a wf
  rotate_left 2
  · rw [admitted]
    exact checked prepared
  all_goals
    rw [refused]
    split
    · exact reported (checked prepared)
    · exact checked prepared

theorem admitWrite_modes :
    SameModes c (c.admitWrite env strategy reportsAdmission reportsOverflow key value a).2 :=
  admitWrite_keeps strategy reportsAdmission reportsOverflow key value a wf (·.toSameModes)
    fun modes => modes.trans .withMm

end Verdict

/-- What every `set` keeps, `set_multi` keeps. -/
theorem setMulti_keeps (pairs : List ((K × V) × Ambient K))
    (set : ∀ {c} key value a, P c → P (c.set env strategy key value a).2) (start : P c) :
    P (setMulti env strategy c pairs).2 := by
  induction pairs generalizing c with
  | nil => exact start
  | cons pair rest ih =>
    obtain ⟨⟨key, value⟩, a⟩ := pair
    have first := set key value a start
    rw [setMulti]
    split
    case h_1 e d thrown =>
      rw [thrown] at first
      exact first
    case h_2 d returned =>
      rw [returned] at first
      exact ih first

end Checks

/-! ## The gate after a write -/

section Gate

variable [DecidableEq K]

theorem reclaim_shrinks {tries : Nat} (wf : s.WellFormed env) :
    Shrinks env s (reclaim env strategy cap tries s) := by
  have eviction := (strategy.laws env).eviction
  induction tries generalizing s with
  | zero => exact .refl wf
  | succ tries ih =>
    rw [reclaim]
    split
    · exact .refl wf
    · have first := eviction.shrinks wf
      simp only
      split
      · exact first
      · exact first.trans (ih first.wf)

/-- One item too many costs one eviction attempt. -/
theorem reclaim_of_succ (tries : Nat) (wf : s.WellFormed env)
    (tooMany : (strategy.policy env).size s = cap + 1) :
    reclaim env strategy cap (tries + 1) s = (strategy.policy env).evict s := by
  have eviction := (strategy.laws env).eviction
  rw [reclaim, if_neg (by omega)]
  cases found : (strategy.policy env).victim s with
  | none =>
    rw [if_pos (eviction.size_of_none wf found).ge]
  | some v =>
    have fewer := eviction.size_of_some wf found
    rw [if_neg (by omega)]
    cases tries with
    | zero => rfl
    | succ tries => rw [reclaim, if_pos (by omega)]

/-- Without a limit, or within it, the gate does nothing. -/
theorem enforceCapacity_of_le {key : K}
    (fits : c.mm.settings.maxSize = unlimited ∨
      (strategy.policy env).size c.mm ≤ c.mm.settings.maxSize) :
    c.enforceCapacityAfterInsert env strategy key sizeBefore = c := by
  unfold enforceCapacityAfterInsert
  simp only
  split
  · rfl
  case isFalse finite => rw [if_pos (fits.resolve_left finite)]

/-- The gate removes items, and may report a rejection of its key after that. -/
theorem enforceCapacity_spec {key : K}
    (wf : c.mm.WellFormed env) :
    ∃ mm, Shrinks env c.mm mm ∧
      (c.enforceCapacityAfterInsert env strategy key sizeBefore = { c with mm := mm } ∨
        c.enforceCapacityAfterInsert env strategy key sizeBefore =
          { c with mm := mm.noteEvictionRejected key env.defaultValue }) := by
  have laws := strategy.laws env
  have reclaimed : Shrinks env c.mm
      (reclaim env strategy c.mm.settings.maxSize kMaxReclaimTries c.mm) :=
    reclaim_shrinks wf
  unfold enforceCapacityAfterInsert
  simp only
  split
  · exact ⟨c.mm, .refl wf, .inl rfl⟩
  split
  · exact ⟨c.mm, .refl wf, .inl rfl⟩
  split
  · exact ⟨_, reclaimed, .inl rfl⟩
  · refine ⟨_, ?_, .inr rfl⟩
    split
    · exact reclaimed.trans (laws.forceDel_shrinks reclaimed.wf)
    · exact reclaimed

/-- What the gate does when a new key is one too many: it evicts an item, or rolls
the new key back and reports it. -/
theorem enforceCapacity_of_succ {key : K} {value : V} {expiryNs : Nat}
    (linked : Inserts env s c.mm key value expiryNs)
    (finite : c.mm.settings.maxSize ≠ unlimited) (le : sizeBefore ≤ c.mm.settings.maxSize)
    (tooMany : (strategy.policy env).size c.mm = c.mm.settings.maxSize + 1) :
    (∃ v mm, (strategy.policy env).victim c.mm = some v ∧ Removes env c.mm mm v ∧
        c.enforceCapacityAfterInsert env strategy key sizeBefore = { c with mm := mm }) ∨
      ∃ mm, (strategy.policy env).victim c.mm = none ∧ Removes env c.mm mm s.next ∧
        c.enforceCapacityAfterInsert env strategy key sizeBefore =
          { c with mm := mm.noteEvictionRejected key env.defaultValue } := by
  have laws := strategy.laws env
  have wf := linked.wf
  have reclaimed : reclaim env strategy c.mm.settings.maxSize kMaxReclaimTries c.mm =
      (strategy.policy env).evict c.mm := reclaim_of_succ _ wf tooMany
  unfold enforceCapacityAfterInsert
  rw [if_neg finite, if_neg (by omega), reclaimed]
  cases found : (strategy.policy env).victim c.mm with
  | some v =>
    have fewer := laws.eviction.size_of_some wf found
    exact .inl ⟨v, _, rfl, laws.eviction.removes wf found, by rw [if_pos (by omega)]⟩
  | none =>
    have same := laws.eviction.size_of_none wf found
    have moved := laws.eviction.rearranges wf found
    have resident := (moved.find_eq wf).trans linked.find_eq
    have unpinned := (moved.accessRef linked.mem_new).trans
      (congrArg (fun x => x.2.2.2) linked.content_new)
    have removed := laws.forceDel_removes moved.wf resident unpinned
    exact .inr ⟨_, rfl, .after moved removed, by rw [if_neg (by omega), if_pos (by omega)]⟩

end Gate

end Lru.Cache
