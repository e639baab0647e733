import Lru.Cache.ReadYourWrites

/-!
# Do the lookups agree on what is present?

`contains` and the test inside `del_ex` look at the expiry, `peek` and `get_view`
at the handle count, `get_shared` at both, the test inside `add` at neither, and
`get` throws on a saturated count before it looks at the expiry. So they agree on
a resident key exactly when neither plays a role.
-/

namespace Lru.Cache

variable {K V : Type} [DecidableEq K]

open Mm State Strategy Option

/-- The lookups, and the writes with a presence test. -/
inductive Lookup where
  | get
  | peek
  | getView
  | getShared
  | contains
  | add
  | delEx
  deriving DecidableEq, Repr

section Definitions

variable (env : Env K V) (strategy : Strategy) (c : Cache K V) (key : K) (value : V)
  (a : Ambient K)

/-- The state on which `add` makes its presence test, if it gets that far. -/
def stateForAdd : Option (State K V) :=
  match c.preWriteCheck "add" with
  | .ok .kProceed =>
    match c.admitWrite env strategy true false key value a with
    | (true, d) => some d.mm
    | (false, _) => none
  | _ => none

/-- Whether a lookup takes the key for present; nothing when it throws or makes no
test. `add` takes for present what it does not insert. -/
def verdict : Lookup → Option Bool
  | .get => (c.get env strategy key a).1.toOption.map Option.isSome
  | .peek => some (c.peek env key).1.isSome
  | .getView => some (c.getView env key).1.isSome
  | .getShared => some (c.getShared env key a).1.isSome
  | .contains => some (c.contains env key a).1
  | .add => (stateForAdd env strategy c key value a).map fun s =>
    !((strategy.policy env).add env s key value a.sec).1
  | .delEx => (c.delEx env strategy key a).1.toOption.map (· != .kNotFound)

def Expired : Prop := ∃ i, c.mm.find env key = some i ∧ (c.mm.heap i).isExpired a.nowNs = true

/-- All lookups give one answer, and an expired item counts as absent. -/
def Uniform : Prop :=
  ∃ present, (∀ lookup b, verdict env strategy c key value a lookup = some b → b = present) ∧
    (Expired env c key a → present = false)

/-- When they do: the cache is shut down, the key is absent, the item is live with
room for a handle, or it is expired with none and `add` does not find it. -/
def UniformlyVisible : Prop :=
  c.closed = true ∨ c.mm.find env key = none ∨
    (c.mm.live env key a.nowNs = true ∧ c.mm.pinnable env key = true) ∨
    (c.mm.live env key a.nowNs = false ∧ c.mm.pinnable env key = false ∧
      ∀ s, stateForAdd env strategy c key value a = some s → s.find env key = none)

end Definitions

section Answers

variable {env : Env K V} {strategy : Strategy} {c : Cache K V} {key : K} {value : V}
  {a : Ambient K} {s t : State K V} {lookup : Lookup} {b : Bool}

theorem live_of_rearranges {nowNs : Nat} (moved : Rearranges env s t) (wf : s.WellFormed env) :
    t.live env key nowNs = s.live env key nowNs := by
  have same : t.find env key = s.find env key := moved.find_eq wf
  rw [live, live, same]
  cases found : s.find env key with
  | none => rfl
  | some i =>
    have hi := moved.mem_iff.mpr ((find_eq_some_iff wf).mp found).1
    have expiry : (t.heap i).expiryNs = (s.heap i).expiryNs :=
      congrArg (fun x => x.2.2.1) (moved.content i hi)
    simp only [Body.isExpired, expiry]

/-- The overflow policy removes nothing for the sake of a live key. -/
theorem applyOverflowPolicyForSet_of_live (strategy : Strategy)
    (alive : c.mm.live env key a.nowNs = true) :
    Quiet c.mm (c.applyOverflowPolicyForSet env strategy key a).2.mm := by
  have present : (c.mm.contains env key a.nowNs).1 = true := by rw [contains_fst, alive]
  simp only [applyOverflowPolicyForSet, present]
  set policy := if strategy.hasOverflowPolicy then c.mm.settings.config.overflowPolicyValue
    else .kAllowGrowth
  by_cases growth : policy = .kAllowGrowth
  · rw [if_pos growth]
    exact .refl
  · rw [if_neg growth]
    exact contains_quiet env c.mm key a.nowNs

/-- A live key is still there when the checks before a write have passed. -/
theorem admitWrite_find_of_live {d : Cache K V} {reportsAdmission reportsOverflow : Bool}
    (wf : c.mm.WellFormed env) (alive : c.mm.live env key a.nowNs = true)
    (admitted : c.admitWrite env strategy reportsAdmission reportsOverflow key value a =
      (true, d)) : d.mm.find env key = c.mm.find env key := by
  obtain ⟨mm, drained, moved, -⟩ := drainRing_spec wf
  obtain ⟨d', -, -, refused⟩ | ⟨d', e, asked, -, ⟨-, refused⟩ | ⟨allowed, passed⟩⟩ :=
    admitWrite_cases strategy reportsAdmission reportsOverflow key value a wf
  · rw [refused] at admitted
    cases admitted
  · rw [refused] at admitted
    cases admitted
  · rw [passed] at admitted
    obtain rfl : e = d := (Prod.mk.inj admitted).2
    have looked := (checkMemoryAdmission_quiet env (c.drainRing env strategy a) key value a).2
    rw [asked, drained] at looked
    have ready := moved.quiet looked
    have kept := applyOverflowPolicyForSet_of_live strategy
      ((live_of_rearranges ready wf).trans alive)
    rw [allowed] at kept
    exact (ready.quiet kept).find_eq wf

/-- `add` takes every resident key for present. -/
theorem add_answer (strategy : Strategy) (key : K) (value : V) (a : Ambient K)
    (wf : s.WellFormed env) :
    (!((strategy.policy env).add env s key value a.sec).1) = (s.find env key).isSome := by
  obtain ⟨absent, added, -⟩ | ⟨i, found, refused, -⟩ :=
    (strategy.laws env).add_cases wf key value a.sec
  · simp [absent, added]
  · simp [found, refused]

theorem stateForAdd_wf (wf : c.mm.WellFormed env)
    (reached : stateForAdd env strategy c key value a = some s) : s.WellFormed env := by
  have checked := admitWrite_wf strategy true false key value a wf
  rw [stateForAdd] at reached
  split at reached
  · split at reached
    case h_1 d admitted =>
      rw [admitted] at checked
      cases reached
      exact checked
    · cases reached
  · cases reached

theorem delEx_answer
    (answered : verdict env strategy c key value a .delEx = some b) :
    b = c.mm.live env key a.nowNs := by
  simp only [verdict, delEx, guardedRemoval, guarded] at answered
  have body : ((c.delExBody env strategy key a).1 != .kNotFound) = c.mm.live env key a.nowNs := by
    rw [← contains_fst, delExBody]
    split
    case h_1 mm absent => rw [absent]; rfl
    case h_2 mm present =>
      rw [present]
      split <;> rfl
  split at answered
  · cases answered
  · exact (some.inj answered).symm.trans body
  · exact (some.inj answered).symm.trans body

/-- A key that is absent is absent for `add` too; one that is live is found. -/
theorem stateForAdd_find (wf : c.mm.WellFormed env)
    (settled : c.mm.find env key = none ∨ c.mm.live env key a.nowNs = true)
    (reached : stateForAdd env strategy c key value a = some s) :
    s.find env key = c.mm.find env key := by
  rw [stateForAdd] at reached
  split at reached
  · split at reached
    case h_1 d admitted =>
      cases reached
      obtain absent | alive := settled
      · obtain ⟨d', -, -, refused⟩ | ⟨d', e, -, prepared, ⟨-, refused⟩ | ⟨-, passed⟩⟩ :=
          admitWrite_cases strategy true false key value a wf
        · rw [refused] at admitted
          cases admitted
        · rw [refused] at admitted
          cases admitted
        · rw [passed] at admitted
          obtain rfl : e = d := (Prod.mk.inj admitted).2
          rw [absent]
          exact prepared.mm.find_eq_none wf absent
      · exact admitWrite_find_of_live wf alive admitted
    · cases reached
  · cases reached

theorem verdict_add (wf : c.mm.WellFormed env)
    (reached : stateForAdd env strategy c key value a = some s) :
    verdict env strategy c key value a .add = some (s.find env key).isSome := by
  have answer := add_answer strategy key value a (stateForAdd_wf wf reached)
  simp only [verdict, reached, map_some, answer]

/-- Every answer is determined by expiry, handle count and what `add` finds. -/
theorem verdict_cases (wf : c.mm.WellFormed env) (isOpen : c.closed = false)
    (answered : verdict env strategy c key value a lookup = some b) :
    b = c.mm.live env key a.nowNs ∨ b = c.mm.pinnable env key ∨
      b = (c.mm.pinnable env key && c.mm.live env key a.nowNs) ∨
      ∃ s, stateForAdd env strategy c key value a = some s ∧ b = (s.find env key).isSome := by
  cases lookup with
  | get =>
    obtain ⟨thrown, -⟩ | ⟨item, returned, answer⟩ := get_answer strategy key a wf isOpen
    · simp [verdict, thrown, Except.toOption] at answered
    · simp only [verdict, returned, Except.toOption, map_some, some.injEq] at answered
      exact .inl (answered.symm.trans answer)
  | peek => exact .inr (.inl ((some.inj answered).symm.trans (peek_answer isOpen)))
  | getView =>
    refine .inr (.inl ((some.inj answered).symm.trans ?_))
    rw [getView_answer, peek_answer isOpen]
  | getShared =>
    exact .inr (.inr (.inl ((some.inj answered).symm.trans (getShared_answer isOpen))))
  | contains => exact .inl ((some.inj answered).symm.trans (contains_answer isOpen))
  | add =>
    cases reached : stateForAdd env strategy c key value a with
    | none => simp [verdict, reached] at answered
    | some s =>
      rw [verdict_add wf reached] at answered
      exact .inr (.inr (.inr ⟨s, rfl, (some.inj answered).symm⟩))
  | delEx => exact .inl (delEx_answer answered)

/-- A cache that is shut down takes no key for present. -/
theorem verdict_of_closed (closed : c.closed = true)
    (answered : verdict env strategy c key value a lookup = some b) : b = false := by
  cases lookup with
  | get => simp [verdict, Cache.get, closed, Except.toOption] at answered
  | peek => simpa [verdict, Cache.peek, closed] using answered.symm
  | getView => simpa [verdict, getView_answer, Cache.peek, closed] using answered.symm
  | getShared => simpa [verdict, Cache.getShared, closed] using answered.symm
  | contains => simpa [verdict, Cache.contains, closed] using answered.symm
  | add => simp [verdict, stateForAdd, Layer.preWriteCheck, closed] at answered
  | delEx =>
    simp [verdict, delEx, guardedRemoval, guarded, Layer.preWriteCheck, closed,
      Except.toOption] at answered

/-- Over every run: the lookups agree on a key, and treat it as absent once it has
expired, exactly when it is uniformly visible. -/
theorem uniform_iff_uniformlyVisible [DecidableEq V] (reachable : c.Reachable env strategy) :
    Uniform env strategy c key value a ↔ UniformlyVisible env strategy c key value a := by
  have wf := reachable.wf
  constructor
  · rintro ⟨present, agree, -⟩
    cases isOpen : c.closed with
    | true => exact .inl isOpen
    | false =>
      have alive := agree .contains _ (congrArg some (contains_answer isOpen))
      have pins := agree .peek _ (congrArg some (peek_answer isOpen))
      cases present with
      | true => exact .inr (.inr (.inl ⟨alive, pins⟩))
      | false =>
        refine .inr (.inr (.inr ⟨alive, pins, ?_⟩))
        intro s reached
        have missed := agree .add _ (verdict_add wf reached)
        simpa using missed
  · intro visible
    cases isOpen : c.closed with
    | true => exact ⟨false, fun _ _ answered => verdict_of_closed isOpen answered, fun _ => rfl⟩
    | false =>
      obtain closed | absent | ⟨alive, pins⟩ | ⟨dead, saturated, unfound⟩ := visible
      · rw [closed] at isOpen
        cases isOpen
      · have dead : c.mm.live env key a.nowNs = false := by rw [live, absent]
        have unpinned : c.mm.pinnable env key = false := by rw [pinnable, absent]
        refine ⟨false, ?_, fun _ => rfl⟩
        intro lookup b answered
        obtain h | h | h | ⟨s, reached, h⟩ := verdict_cases wf isOpen answered
        · exact h.trans dead
        · exact h.trans unpinned
        · simpa [dead] using h
        · simpa [stateForAdd_find wf (.inl absent) reached, absent] using h
      · refine ⟨true, ?_, ?_⟩
        · intro lookup b answered
          obtain h | h | h | ⟨s, reached, h⟩ := verdict_cases wf isOpen answered
          · exact h.trans alive
          · exact h.trans pins
          · simpa [alive, pins] using h
          · rw [stateForAdd_find wf (.inr alive) reached] at h
            rw [live] at alive
            split at alive
            · cases alive
            case h_2 i found => simpa [found] using h
        · rintro ⟨i, found, late⟩
          simp [live, found, late] at alive
      · refine ⟨false, ?_, fun _ => rfl⟩
        intro lookup b answered
        obtain h | h | h | ⟨s, reached, h⟩ := verdict_cases wf isOpen answered
        · exact h.trans dead
        · exact h.trans saturated
        · simpa [dead] using h
        · simpa [unfound s reached] using h

/-- At time `3` key `1` has not yet expired: every lookup finds it. -/
theorem lookups_agree_before_expiry :
    verdict intEnv .mmLru agedCache 1 20 { nowNs := 3 } .getShared = some true ∧
      verdict intEnv .mmLru agedCache 1 20 { nowNs := 3 } .add = some true ∧
      Uniform intEnv .mmLru agedCache 1 20 { nowNs := 3 } :=
  ⟨rfl, rfl, (uniform_iff_uniformlyVisible agedCache_reachable).mpr
    (.inr (.inr (.inl ⟨rfl, rfl⟩)))⟩

/-- Key `1` has expired at time `7`: `contains`, `get` and `get_shared` miss it,
`peek` returns a handle and `add` refuses to insert. -/
theorem lookups_differ_on_expired_key :
    agedCache.Reachable intEnv .mmLru ∧
      verdict intEnv .mmLru agedCache 1 20 { nowNs := 7 } .contains = some false ∧
      verdict intEnv .mmLru agedCache 1 20 { nowNs := 7 } .get = some false ∧
      verdict intEnv .mmLru agedCache 1 20 { nowNs := 7 } .getShared = some false ∧
      verdict intEnv .mmLru agedCache 1 20 { nowNs := 7 } .peek = some true ∧
      verdict intEnv .mmLru agedCache 1 20 { nowNs := 7 } .add = some true ∧
      ¬ Uniform intEnv .mmLru agedCache 1 20 { nowNs := 7 } := by
  refine ⟨agedCache_reachable, rfl, rfl, rfl, rfl, rfl, ?_⟩
  rintro ⟨present, agree, -⟩
  have missed : false = present := agree .contains false rfl
  have found : true = present := agree .peek true rfl
  exact absurd (found.trans missed.symm) (by decide)

end Answers

end Lru.Cache
