import Lru.Cache.Capacity
import Lru.Mm.Budget
import Mathlib.Data.Nat.Cast.Order.Ring
import Mathlib.Algebra.Order.Field.Rat

/-!
# The overflow policy that forces evictions

`apply_overflow_policy_for_set` compares the size with the soft cap, which the tolerance
raises above the limit; `insert_new` compares it with the limit itself. At the limit a new
key needs a victim, or a soft cap that has been reached and a tail that `force_del` takes.
-/

namespace Lru.Cache

open Mm State MmLru

variable {K V : Type} {env : Env K V} {s t : State K V} {mem : Nat}

/-! ## A slot in the strategy -/

/-- `mem` more bytes fit next to the linked items, whose memory the counter tells. -/
def FitsNext (env : Env K V) (s : State K V) (mem : Nat) : Prop :=
  s.settings.maxMemory = unlimited ∨
    Billed env s ∧ s.settings.maxMemory < unlimited ∧ s.weight env + mem ≤ s.settings.maxMemory

/-- `insert_new` of `mm_lru` finds a place under the size limit. -/
def HasSlot (s : State K V) : Prop :=
  s.settings.maxSize = unlimited ∨ size s < s.settings.maxSize ∨
    size s = s.settings.maxSize ∧ (findEvictionVictim s).1 ≠ none

theorem FitsNext.shrinks (h : FitsNext env s mem) (wf : s.WellFormed env)
    (shrunk : Shrinks env s t) (billed : Billed env s → Billed env t) : FitsNext env t mem := by
  rw [FitsNext, shrunk.settings_eq]
  obtain endless | ⟨exact_, finite, room⟩ := h
  · exact .inl endless
  · exact .inr ⟨billed exact_, finite, (Nat.add_le_add_right (shrunk.weight_le wf) mem).trans room⟩

theorem FitsNext.room (h : FitsNext env s mem) :
    s.settings.maxMemory = unlimited ∨ s.exceedsMemory mem = false := by
  have bound : unlimited < SizeT.range := by decide
  obtain endless | ⟨billed, finite, room⟩ := h
  · exact .inl endless
  · right
    rw [exceedsMemory, billed.memory_eq (by omega), SizeT.fetchAdd_of_lt (by omega)]
    simpa using room

theorem FitsNext.shouldEvict (h : FitsNext env s mem) {size : Nat}
    (below : s.settings.maxSize = unlimited ∨ size ≤ s.settings.maxSize) :
    s.shouldEvict size = false := by
  have bound : unlimited < SizeT.range := by decide
  have calm : s.settings.maxMemory = unlimited ∨ s.stats.currentMemory ≤ s.settings.maxMemory := by
    obtain endless | ⟨billed, finite, room⟩ := h
    · exact .inl endless
    · right
      rw [billed.memory_eq (by omega)]
      omega
  simp only [State.shouldEvict, Bool.or_eq_false_iff, Bool.and_eq_false_iff, bne_eq_false_iff_eq,
    decide_eq_false_iff_not, Nat.not_lt]
  exact ⟨below, calm⟩

variable [DecidableEq K] {key : K} {value : V}

/-- The first steps of `insert_new` succeed where there is a slot. -/
theorem findCapacity_of_slot (wf : s.WellFormed env) (slot : HasSlot s)
    (fits : FitsNext env s mem) :
    (findCapacity env s).2 = true ∧ FitsNext env (findCapacity env s).1 mem := by
  have clean := (Rearranges.cleanup wf).toShrinks
  set u := s.cleanupPendingDeletion with u_def
  have settings := clean.settings_eq
  have size : size u = size s := by simp [u_def, size, linkedCount]
  have roomy : FitsNext env u mem := fits.shrinks wf clean fun h => h.noted (.cleanup s)
  set v := u.evictAtCapacity (MmLru.evictLru env) MmLru.size with v_def
  have evicted : Shrinks env u v := MmLru.eviction.evictAtCapacity_shrinks clean.wf
  have kept := roomy.shrinks clean.wf evicted (evictAtCapacity_induct
    ((bills env).evict (laws env) clean.wf))
  have below : s.settings.maxSize = unlimited ∨ MmLru.size v < s.settings.maxSize := by
    refine or_iff_not_imp_left.mpr fun finite => ?_
    have lt : MmLru.size v < u.settings.maxSize := by
      refine eviction.evictAtCapacity_lt clean.wf (settings ▸ finite) ?_ ?_
      · rw [size, settings]
        obtain endless | less | ⟨full, -⟩ := slot
        · exact absurd endless finite
        · exact less.le
        · exact full.le
      · rw [size, settings, findEvictionVictim_cleanup]
        obtain endless | less | ⟨-, victim⟩ := slot
        · exact absurd endless finite
        · exact .inl less
        · exact .inr victim
    rw [settings] at lt
    exact lt
  rw [← settings, ← evicted.settings_eq] at below
  have free : v.isAtCapacity (MmLru.size v) = false := by
    simp only [isAtCapacity, Bool.and_eq_false_iff, bne_eq_false_iff_eq, decide_eq_false_iff_not,
      Nat.not_le]
    exact below
  have found : findCapacity env s = (v, true) := by
    simp only [findCapacity, ← u_def, ← v_def]
    rw [if_neg (by simp [free])]
    exact evictWhile_of_false (kept.shouldEvict (below.imp_right Nat.le_of_lt))
  rw [found]
  exact ⟨rfl, kept⟩

/-- With a slot and memory for it a new key is linked. -/
theorem insertNew_of_slot {expiryNs sec : Nat} (wf : s.WellFormed env)
    (absent : s.find env key = none) (capacity : noCapacity s = false) (slot : HasSlot s)
    (fits : FitsNext env s (s.settings.calcItemMemory env key value)) :
    Inserts env s (insertNew env s key value expiryNs sec) key value expiryNs ∧
      (s.settings.maxSize ≠ unlimited →
        size (insertNew env s key value expiryNs sec) ≤ s.settings.maxSize) := by
  obtain ⟨found, kept⟩ := findCapacity_of_slot wf slot fits
  have settings := (findCapacity_shrinks wf).settings_eq
  cases insertNew_ends value expiryNs sec wf absent with
  | blocked blocked => exact absurd (capacity.symm.trans blocked) (by simp)
  | failed _ full => exact absurd (found.symm.trans full) (by simp)
  | dropped _ _ stuck =>
    have room : findMemory env (findCapacity env s).1 key value = ((findCapacity env s).1, true) :=
      findMemory_of_room (by rw [settings]; simpa only [settings] using kept.room)
    rw [room] at stuck
    cases stuck
  | inserted _ _ _ linked within => exact ⟨linked, within⟩

/-! ## The forced eviction -/

/-- `force_del` takes the tail of the list: it has no handle, or the list of pending
deletions is not at its cap. -/
def TailGoes (s : State K V) : Prop :=
  ∃ i, s.tail 0 = some i ∧ ((s.heap i).hasActiveHandle = false ∨
    pendingDeletionAtCap s.cleanupPendingDeletion = false)

/-- The forced eviction removes the tail, or it is refused and counted. -/
theorem forceDel_tail {i : ItemId} (wf : s.WellFormed env) (isTail : s.tail 0 = some i) :
    Removes env s ((policy env).forceDel env s (s.heap i).key).2 i ∨
      ¬ TailGoes s ∧ ((policy env).forceDel env s (s.heap i).key).2 =
        s.cleanupPendingDeletion.modifyStats fun x =>
          { x with pendingDeletionSkipped := x.pendingDeletionSkipped + 1 } := by
  have clean := Rearranges.cleanup wf
  have found : s.cleanupPendingDeletion.find env (s.heap i).key = some i :=
    (clean.find_eq wf).trans ((find_eq_some_iff wf).mpr ⟨mem_of_tail wf isTail, rfl⟩)
  have heap : s.cleanupPendingDeletion.heap = s.heap := Policy.Laws.cleanupIf_heap true s
  have removed := (laws env).takeOut_removes clean.wf found
  simp only [Policy.forceDel, found]
  split
  case isTrue pinned =>
    split
    case isTrue full =>
      refine .inr ⟨?_, rfl⟩
      rintro ⟨j, same, free | below⟩
      · obtain rfl : i = j := Option.some_inj.mp (isTail.symm.trans same)
        rw [heap] at pinned
        exact Bool.noConfusion (free.symm.trans pinned)
      · exact Bool.noConfusion (below.symm.trans full)
    case isFalse => exact .inl (.after clean (removed.postpone clean.wf))
  case isFalse =>
    exact .inl (.after clean ((removed.quiet (.collect rfl)).retire clean.wf))

/-- The state after the forced eviction of the tail. -/
def forced (env : Env K V) (s : State K V) : State K V :=
  match s.tail 0 with
  | none => s
  | some i => ((policy env).forceDel env s (s.heap i).key).2

/-- What a new key needs of the cache before the policy is asked: a slot, or a forced
eviction that makes one. -/
def ForceRoom (env : Env K V) (c : Cache K V) : Prop :=
  HasSlot c.mm ∨ c.effectiveCap env ≤ size c.mm ∧ TailGoes c.mm ∧
    (size c.mm = c.mm.settings.maxSize ∨
      size c.mm = c.mm.settings.maxSize + 1 ∧
        (findEvictionVictim (forced env c.mm)).1 ≠ none)

omit [DecidableEq K] in
theorem HasSlot.modifyStats (h : HasSlot s) (f : Stats → Stats) : HasSlot (s.modifyStats f) := by
  have victim : (findEvictionVictim (s.modifyStats f)).1 = (findEvictionVictim s).1 := by
    rw [findEvictionVictim_eq, findEvictionVictim_eq]
    exact searchVictim_congr (s := s) (t := s.modifyStats f) rfl
      (fun _ _ => rfl) 0
  rw [HasSlot, victim]
  exact h

variable {c : Cache K V} {a : Ambient K}

theorem contains_of_absent (absent : s.find env key = none) (nowNs : Nat) :
    s.contains env key nowNs = (false, s) := by
  rw [State.contains, absent]

omit [DecidableEq K] in
/-- A forced eviction that is refused leaves the slot that there was. -/
theorem HasSlot.cleanup (h : HasSlot s) (wf : s.WellFormed env) :
    HasSlot s.cleanupPendingDeletion := by
  have clean : Rearranges env s s.cleanupPendingDeletion := .cleanup wf
  have size : size s.cleanupPendingDeletion = size s := by
    simp [size, linkedCount]
  rw [HasSlot, clean.settings_eq, size, findEvictionVictim_cleanup]
  exact h

theorem forced_slot (wf : c.mm.WellFormed env) (finite : c.mm.settings.maxSize ≠ unlimited)
    (room : ForceRoom env c) : HasSlot (forced env c.mm) := by
  cases isTail : c.mm.tail 0 with
  | none =>
    obtain slot | ⟨-, ⟨i, other, -⟩, -⟩ := room
    · rw [forced, isTail]
      exact slot
    · rw [isTail] at other
      cases other
  | some i =>
    have same : forced env c.mm = ((policy env).forceDel env c.mm (c.mm.heap i).key).2 := by
      rw [forced, isTail]
    obtain removed | ⟨stays, refused⟩ := forceDel_tail wf isTail
    · rw [← same] at removed
      have fewer := removed.length_eq
      rw [← eviction.size_eq removed.wf, ← eviction.size_eq wf] at fewer
      have limit := congrArg Settings.maxSize removed.settings_eq
      obtain (unbounded | less | ⟨full, -⟩) | ⟨-, -, full | ⟨exceeds, victim⟩⟩ := room
      · exact absurd unbounded finite
      · exact .inr (.inl (by omega))
      · exact .inr (.inl (by omega))
      · exact .inr (.inl (by omega))
      · exact .inr (.inr ⟨by omega, victim⟩)
    · obtain slot | ⟨-, goes, -⟩ := room
      · rw [same, refused]
        exact (slot.cleanup wf).modifyStats _
      · exact absurd goes stays

theorem forced_shrinks (wf : s.WellFormed env) : Shrinks env s (forced env s) := by
  rw [forced]
  split
  · exact .refl wf
  · exact (laws env).forceDel_shrinks wf

theorem forced_billed (wf : s.WellFormed env) (h : Billed env s) : Billed env (forced env s) := by
  rw [forced]
  split
  · exact h
  · have keeps := (bills env).keeps (laws env)
    exact keeps.forceDel wf h keeps.takeOut

theorem applyOverflowPolicy_slot (wf : c.mm.WellFormed env)
    (force : c.mm.settings.config.overflowPolicyValue = .kForceEvict)
    (absent : c.mm.find env key = none) (room : ForceRoom env c)
    (fits : FitsNext env c.mm mem) :
    ∃ mm, c.applyOverflowPolicyForSet env .mmLru key a = (true, { c with mm := mm }) ∧
      Shrinks env c.mm mm ∧ HasSlot mm ∧ FitsNext env mm mem := by
  have growth : ¬ (OverflowPolicy.kForceEvict = .kAllowGrowth) := by decide
  have rejects : ¬ (OverflowPolicy.kForceEvict = .kRejectInsert) := by decide
  simp only [applyOverflowPolicyForSet, Strategy.hasOverflowPolicy, if_true, force, growth,
    rejects, if_false, contains_of_absent absent, Bool.false_eq_true]
  by_cases endless : c.mm.settings.maxSize = unlimited
  · exact ⟨c.mm, if_pos endless, .refl wf, .inl endless, fits⟩
  rw [if_neg endless]
  by_cases below : (Strategy.mmLru.policy env).size c.mm < c.effectiveCap env
  · refine ⟨c.mm, if_pos below, .refl wf, ?_, fits⟩
    obtain slot | ⟨reached, -⟩ := room
    · exact slot
    · exact absurd below (Nat.not_lt.mpr reached)
  have shrunk := forced_shrinks wf
  rw [if_neg below]
  refine ⟨forced env c.mm, ?_, shrunk, forced_slot wf endless room,
    fits.shrinks wf shrunk (forced_billed wf)⟩
  cases isTail : c.mm.tail 0 with
  | none => simp only [forced, isTail]
  | some i => simp only [forced, isTail]; rfl

/-! ## `set` of a new key -/

/-- A `set` of a new key for which the memory budget has room. -/
structure Offered (env : Env K V) (c : Cache K V) (key : K) (value : V) (a : Ambient K) : Prop where
  proceeds : c.preWriteCheck "set" = .ok .kProceed
  absent : c.mm.find env key = none
  budget : c.mm.settings.maxMemory ≠ 0
  admitted : ((c.drainRing env .mmLru a).checkMemoryAdmission env key value a).1 = true
  fits : FitsNext env c.mm (c.mm.settings.calcItemMemory env key value)

omit [DecidableEq K] in
theorem FitsNext.rearranges (h : FitsNext env s mem) (wf : s.WellFormed env)
    (same : Rearranges env s t) (stats : t.stats = s.stats) : FitsNext env t mem := by
  refine h.shrinks wf same.toShrinks fun billed => ?_
  rw [Billed, stats, same.weight_eq wf]
  exact billed

theorem checkMemoryAdmission_of_absent (absent : c.mm.find env key = none)
    (admitted : (c.checkMemoryAdmission env key value a).1 = true) :
    ∃ monitor, c.checkMemoryAdmission env key value a =
      (true, { c with memoryMonitor := monitor }) := by
  rw [checkMemoryAdmission] at admitted ⊢
  split
  case isTrue active =>
    rw [if_pos active] at admitted
    simp only [contains_of_absent absent] at admitted ⊢
    exact ⟨_, Prod.ext admitted rfl⟩
  case isFalse => exact ⟨c.memoryMonitor, rfl⟩

/-- Drained, admitted and past the policy, the strategy has a slot for the new key. -/
theorem admitWrite_of_room (wf : c.mm.WellFormed env)
    (force : c.mm.settings.config.overflowPolicyValue = .kForceEvict)
    (offered : c.Offered env key value a) (room : ForceRoom env (c.drainRing env .mmLru a)) :
    ∃ d, c.admitWrite env .mmLru true true key value a = (true, d) ∧
      Shrinks env c.mm d.mm ∧ HasSlot d.mm ∧
      FitsNext env d.mm (c.mm.settings.calcItemMemory env key value) := by
  obtain ⟨mm, drained, moved, stats⟩ := drainRing_spec wf
  have asked := offered.admitted
  rw [drained] at room asked
  have absent : mm.find env key = none := (moved.find_eq wf).trans offered.absent
  obtain ⟨monitor, admitted⟩ := checkMemoryAdmission_of_absent absent asked
  have kept : mm.settings.config.overflowPolicyValue = .kForceEvict := by
    rw [moved.settings_eq]
    exact force
  obtain ⟨after, passed, shrunk, slot, fits⟩ :=
    applyOverflowPolicy_slot (c := { c with mm := mm, memoryMonitor := monitor }) (a := a)
      moved.wf kept absent room (offered.fits.rearranges wf moved stats)
  refine ⟨{ c with mm := after, memoryMonitor := monitor }, ?_, moved.toShrinks.trans shrunk, slot,
    fits⟩
  simp only [admitWrite, drained, admitted, passed]

/-- With a slot the key is linked and the gate behind the insertion has nothing to do. -/
theorem setBody_of_room (wf : c.mm.WellFormed env)
    (force : c.mm.settings.config.overflowPolicyValue = .kForceEvict)
    (positive : c.mm.settings.maxSize ≠ 0) (offered : c.Offered env key value a)
    (room : ForceRoom env (c.drainRing env .mmLru a)) :
    Inserts env c.mm (c.setBody env .mmLru key value a).mm key value 0 ∧
      (c.mm.settings.maxSize ≠ unlimited →
        size (c.setBody env .mmLru key value a).mm ≤ c.mm.settings.maxSize) := by
  obtain ⟨d, admitted, shrunk, slot, fits⟩ := admitWrite_of_room wf force offered room
  have absent : d.mm.find env key = none := shrunk.find_eq_none wf offered.absent
  have capacity : noCapacity d.mm = false := by
    simp [noCapacity, shrunk.settings_eq, positive, offered.budget]
  rw [← shrunk.settings_eq] at fits
  obtain ⟨linked, within⟩ := insertNew_of_slot shrunk.wf absent capacity slot fits
  rw [shrunk.settings_eq] at within
  have written : (Strategy.mmLru.policy env).set env d.mm key value a.sec =
      insertNew env d.mm key value 0 a.sec := (set_add_of_absent shrunk.wf absent).1
  have limit : (insertNew env d.mm key value 0 a.sec).settings.maxSize = c.mm.settings.maxSize := by
    rw [linked.settings_eq, shrunk.settings_eq]
  rw [setBody_mm admitted, written, enforceCapacity_of_le]
  · exact ⟨.after shrunk linked, within⟩
  · rw [limit]
    exact or_iff_not_imp_left.mpr within

/-- Over every run: a new key that the memory budget has room for is resident after `set`,
whatever is pinned, where there is a slot or the policy makes one. -/
theorem force_evict_admits [DecidableEq V] (reachable : c.Reachable env .mmLru)
    (force : c.mm.settings.config.overflowPolicyValue = .kForceEvict)
    (tolerance : 0 ≤ c.mm.settings.config.overflowTolerance)
    (positive : 1 ≤ c.mm.settings.maxSize) (offered : c.Offered env key value a)
    (room : ForceRoom env (c.drainRing env .mmLru a)) :
    ∃ i, (c.set env .mmLru key value a).2.mm.find env key = some i ∧
      ((c.set env .mmLru key value a).2.mm.heap i).value = value ∧
      (c.mm.settings.maxSize ≠ unlimited →
        (size (c.set env .mmLru key value a).2.mm : ℚ) ≤
          c.mm.settings.maxSize * (1 + c.mm.settings.config.overflowTolerance)) := by
  obtain ⟨linked, within⟩ :=
    setBody_of_room reachable.wf force (Nat.one_le_iff_ne_zero.mp positive) offered room
  have stored : (c.set env .mmLru key value a).2 = c.setBody env .mmLru key value a := by
    simp only [Cache.set, guarded, offered.proceeds]
  rw [stored]
  have body := linked.content_new
  simp only [Body.content, Prod.mk.injEq] at body
  refine ⟨c.mm.next, linked.find_eq, body.2.1, fun finite => ?_⟩
  calc (size (c.setBody env .mmLru key value a).mm : ℚ)
    _ ≤ c.mm.settings.maxSize := mod_cast within finite
    _ ≤ c.mm.settings.maxSize * (1 + c.mm.settings.config.overflowTolerance) :=
        le_mul_of_one_le_right (Nat.cast_nonneg _) (le_add_of_nonneg_right tolerance)

section Samples

open Mm.Strategy (intEnv)

/-- A cache for one item that forces evictions, under this tolerance. -/
def forcingCache (tolerance : ℚ) : Cache Nat Nat :=
  { mm := State.empty (fun _ => default)
      { maxSize := 1, config := { overflowPolicyValue := .kForceEvict,
                                  overflowTolerance := tolerance } } {} 0 }

def heldCache (tolerance : ℚ) : Cache Nat Nat :=
  (((forcingCache tolerance).set intEnv .mmLru 1 10 {}).2.get intEnv .mmLru 1 {}).2

theorem heldCache_reachable {tolerance : ℚ} : (heldCache tolerance).Reachable intEnv .mmLru := by
  have start : (forcingCache tolerance).Reachable intEnv .mmLru :=
    ⟨forcingCache tolerance, ⟨_, _, _, _, rfl⟩, .refl⟩
  exact (start.step (.set 1 10 {}) trivial rfl).step (.get 1 {}) trivial rfl

theorem forced_out_admits : ∃ i,
    ((heldCache 0).set intEnv .mmLru 2 20 {}).2.mm.find intEnv 2 = some i ∧
      (((heldCache 0).set intEnv .mmLru 2 20 {}).2.mm.heap i).value = 20 ∧
      ((heldCache 0).mm.settings.maxSize ≠ unlimited →
        (size ((heldCache 0).set intEnv .mmLru 2 20 {}).2.mm : ℚ) ≤
          (heldCache 0).mm.settings.maxSize *
            (1 + (heldCache 0).mm.settings.config.overflowTolerance)) :=
  force_evict_admits heldCache_reachable (by decide +kernel) (by decide +kernel)
    (by decide +kernel)
    ⟨by decide +kernel, by decide +kernel, by decide +kernel, by decide +kernel,
      .inl (by decide +kernel)⟩
    (.inr ⟨by decide +kernel, ⟨0, by decide +kernel, .inr (by decide +kernel)⟩,
      .inl (by decide +kernel)⟩)

/-- Under a tolerance the size stays below the soft cap and the policy is never
asked, so `insert_new` refuses the key. -/
theorem tolerance_drops_key :
    (heldCache 1).Reachable intEnv .mmLru ∧ (heldCache 1).mm.settings.maxSize = 1 ∧
      (heldCache 1).mm.settings.maxMemory = unlimited ∧
      (heldCache 1).mm.settings.config.overflowPolicyValue = .kForceEvict ∧
      (heldCache 1).mm.settings.config.overflowTolerance = 1 ∧
      (heldCache 1).mm.find intEnv 2 = none ∧
      ((heldCache 1).set intEnv .mmLru 2 20 {}).1 = .ok () ∧
      ((heldCache 1).set intEnv .mmLru 2 20 {}).2.mm.find intEnv 2 = none :=
  ⟨heldCache_reachable, by decide +kernel⟩

end Samples

end Lru.Cache
