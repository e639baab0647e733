import Lru.Mm.Laws

/-!
# Read paths

Every read reaches an item through the same table, but only some of the paths
look at its expiry. Each lemma says what a path answers and what it does to the
state: a pin, or nothing a reader could see.
-/

namespace Lru.Mm

variable {K V : Type} {s : State K V} {i : ItemId}

open State

namespace State

/-- The key is resident and its expiry has not passed. -/
def live [DecidableEq K] (env : Env K V) (s : State K V) (key : K) (nowNs : Nat) : Bool :=
  match s.find env key with
  | none => false
  | some i => !(s.heap i).isExpired nowNs

/-- The key is resident and its item can take another handle. -/
def pinnable [DecidableEq K] (env : Env K V) (s : State K V) (key : K) : Bool :=
  match s.find env key with
  | none => false
  | some i => (s.heap i).canPin

/-- The value that a reader gets at this time: of an unexpired item that can take
another handle. -/
def shown [DecidableEq K] (env : Env K V) (s : State K V) (key : K) (nowNs : Nat) : Option V :=
  match s.find env key with
  | none => none
  | some i =>
    if (s.heap i).canPin && !(s.heap i).isExpired nowNs then some (s.heap i).value else none

end State

section Pins

/-- A pin that is taken and released within one call. -/
theorem Quiet.pinned {t : State K V} (during : Quiet (s.incRef i) t) : Quiet s (t.decRef i) := by
  refine ⟨?_, during.settings_eq, during.failed_eq, during.rejects_eq⟩
  have body := during.body_eq i
  have fields := Core.mk.inj during.core_eq
  rw [decRef, core_modify]
  refine Core.mk.injEq .. ▸ ⟨?_, fields.2⟩
  funext j
  by_cases hj : j = i
  · subst hj
    rw [Function.update_self]
    have count : (t.heap j).toBody = { (s.heap j).toBody with
        accessRef := (s.heap j).accessRef + 1 } := by
      simpa [State.incRef, State.modify] using body
    simp only [count, Nat.add_sub_cancel]
  · rw [Function.update_of_ne hj]
    have other := congrFun fields.1 j
    simpa [State.core, State.incRef, State.modify, hj] using other

end Pins

section Expiry

variable {key : K} {nowNs : Nat}

theorem checkExpiry_fst (s : State K V) (i : ItemId) (key : K) (nowNs : Nat) (held : Bool) :
    (s.checkExpiry i key nowNs held).1 = (s.heap i).isExpired nowNs := by
  unfold checkExpiry Body.isExpired
  split
  case isTrue none => simp [none]
  case isFalse some =>
    simp only
    split
    case isTrue later =>
      have later : nowNs < (s.heap i).expiryNs := later
      simp [later]
    case isFalse past =>
      have past : (s.heap i).expiryNs ≤ nowNs := Nat.le_of_not_lt past
      simp [some, past]

theorem checkExpiry_stats (s : State K V) (i : ItemId) (key : K) (nowNs : Nat) (held : Bool) :
    (s.checkExpiry i key nowNs held).2.stats.currentSize = s.stats.currentSize ∧
      (s.checkExpiry i key nowNs held).2.stats.currentMemory = s.stats.currentMemory := by
  unfold checkExpiry
  split
  · exact ⟨rfl, rfl⟩
  simp only
  split
  · exact ⟨rfl, rfl⟩
  · rw [collect_stats]
    cases held <;> exact ⟨rfl, rfl⟩

/-- Without a pin the check only counts and reports a miss. -/
theorem checkExpiry_quiet : Quiet s (s.checkExpiry i key nowNs false).2 := by
  unfold checkExpiry
  split
  · exact .refl
  · simp only
    split
    · exact ⟨rfl, rfl, rfl, rfl⟩
    · refine .trans ?_ (.collect rfl)
      exact ⟨rfl, rfl, rfl, rfl⟩

theorem checkExpiry_held (s : State K V) (i : ItemId) (key : K) (nowNs : Nat) :
    Quiet (if (s.heap i).isExpired nowNs then s.decRef i else s)
      (s.checkExpiry i key nowNs true).2 := by
  rw [← checkExpiry_fst s i key nowNs true]
  unfold checkExpiry
  by_cases none : (s.heap i).expiryNs = 0
  · rw [if_pos none]
    exact .refl
  · rw [if_neg none]
    by_cases later : nowNs < (s.heap i).expiryNs
    · rw [if_pos (show nowNs < ((s.modifyStats _).heap i).expiryNs from later)]
      exact ⟨rfl, rfl, rfl, rfl⟩
    · rw [if_neg (show ¬ nowNs < ((s.modifyStats _).heap i).expiryNs from later)]
      refine .trans ?_ (.collect rfl)
      exact ⟨rfl, rfl, rfl, rfl⟩

end Expiry

section Lookups

variable [DecidableEq K] {env : Env K V}

/-- `contains` answers whether the key is live. -/
theorem contains_fst {key : K} {nowNs : Nat} :
    (s.contains env key nowNs).1 = s.live env key nowNs := by
  unfold contains live
  cases s.find env key with
  | none => rfl
  | some i => simp only [checkExpiry_fst]

theorem contains_quiet (env : Env K V) (s : State K V) (key : K) (nowNs : Nat) :
    Quiet s (s.contains env key nowNs).2 := by
  unfold contains
  split
  · exact .refl
  case h_2 i _ => exact checkExpiry_quiet

/-- A pinning lookup returns the item pinned, or nothing. -/
theorem findAndPin_cases (env : Env K V) (s : State K V) (key : K) :
    (s.findAndPin env key = (none, s) ∧ ∀ i, s.find env key = some i → (s.heap i).canPin = false) ∨
      ∃ i, s.find env key = some i ∧ (s.heap i).canPin = true ∧
        s.findAndPin env key = (some i, s.incRef i) := by
  unfold findAndPin
  cases found : s.find env key with
  | none => exact .inl ⟨rfl, fun i h => by cases h⟩
  | some i =>
    cases pins : (s.heap i).canPin with
    | false =>
      refine .inl ⟨by simp [pins], fun j same => ?_⟩
      cases same
      exact pins
    | true => exact .inr ⟨i, rfl, pins, by simp [pins]⟩

theorem findAndPin_wf {key : K} (wf : s.WellFormed env) :
    (s.findAndPin env key).2.WellFormed env := by
  obtain ⟨missed, -⟩ | ⟨i, -, -, pinned⟩ := findAndPin_cases env s key
  · rw [missed]
    exact wf
  · rw [pinned]
    exact WellFormed.write (.count (· + 1)) wf

/-- `peek_for_get` on an absent or saturated key. -/
theorem peekForGet_of_unpinned {key : K} {nowNs : Nat}
    (unpinned : ∀ i, s.find env key = some i → (s.heap i).canPin = false) :
    s.peekForGet env key nowNs = (none, s) := by
  have missed : s.findAndPin env key = (none, s) := by
    unfold findAndPin
    split
    · rfl
    case h_2 i found => rw [if_neg (by simp [unpinned i found])]
  rw [peekForGet, missed]

/-- `peek_for_get` on a key that can be pinned: an expired item is unpinned again,
a live one is returned. -/
theorem peekForGet_of_pinned {key : K} (nowNs : Nat) (found : s.find env key = some i)
    (pins : (s.heap i).canPin = true) :
    (s.peekForGet env key nowNs).1 = (if (s.heap i).isExpired nowNs then none else some i) ∧
      Quiet (if (s.heap i).isExpired nowNs then s else s.incRef i)
        (s.peekForGet env key nowNs).2 := by
  have pinned : s.findAndPin env key = (some i, s.incRef i) := by
    rw [findAndPin, found]
    exact if_pos pins
  have expired : ((s.incRef i).heap i).isExpired nowNs = (s.heap i).isExpired nowNs := by
    simp [State.incRef, State.modify, Body.isExpired]
  have verdict := checkExpiry_fst (s.incRef i) i key nowNs true
  have effect := checkExpiry_held (s.incRef i) i key nowNs
  rw [expired] at verdict effect
  rw [peekForGet, pinned]
  simp only
  split
  case h_1 t checked =>
    rw [checked] at verdict effect
    have late : (s.heap i).isExpired nowNs = true := verdict.symm
    rw [if_pos late] at effect
    rw [if_pos late, if_pos late]
    exact ⟨rfl, (Quiet.pinned .refl).trans effect⟩
  case h_2 t checked =>
    rw [checked] at verdict effect
    have early : ¬ (s.heap i).isExpired nowNs = true := by simp [← verdict]
    rw [if_neg early] at effect
    rw [if_neg early, if_neg early]
    exact ⟨rfl, effect⟩

theorem findAndPin_isSome {key : K} : (s.findAndPin env key).1.isSome = s.pinnable env key := by
  obtain ⟨missed, saturated⟩ | ⟨i, found, pins, pinned⟩ := findAndPin_cases env s key
  · rw [missed, pinnable]
    cases found : s.find env key with
    | none => rfl
    | some i => exact (saturated i found).symm
  · rw [pinned, pinnable, found]
    exact pins.symm

/-- `peek_for_get` returns an item that is live and can be pinned. -/
theorem peekForGet_isSome {key : K} {nowNs : Nat} :
    (s.peekForGet env key nowNs).1.isSome = (s.pinnable env key && s.live env key nowNs) := by
  obtain ⟨-, saturated⟩ | ⟨i, found, pins, -⟩ := findAndPin_cases env s key
  · rw [peekForGet_of_unpinned saturated, pinnable]
    cases found : s.find env key with
    | none => rfl
    | some i => simp [saturated i found]
  · rw [(peekForGet_of_pinned nowNs found pins).1, pinnable, live, found]
    simp only [pins]
    cases (s.heap i).isExpired nowNs <;> rfl

/-- `peek_for_get` as a whole: nothing, or the pinned item with the value shown. -/
theorem peekForGet_cases (env : Env K V) (s : State K V) (key : K) (nowNs : Nat) :
    (s.shown env key nowNs = none ∧ (s.peekForGet env key nowNs).1 = none ∧
        Quiet s (s.peekForGet env key nowNs).2) ∨
      ∃ i, s.find env key = some i ∧ s.shown env key nowNs = some (s.heap i).value ∧
        (s.peekForGet env key nowNs).1 = some i ∧
        Quiet (s.incRef i) (s.peekForGet env key nowNs).2 := by
  obtain ⟨-, saturated⟩ | ⟨i, found, pins, -⟩ := findAndPin_cases env s key
  · rw [peekForGet_of_unpinned saturated, shown]
    refine .inl ⟨?_, rfl, .refl⟩
    cases found : s.find env key with
    | none => rfl
    | some i => simp [saturated i found]
  · obtain ⟨answer, quiet⟩ := peekForGet_of_pinned nowNs found pins
    rw [shown, found]
    simp only [pins]
    cases late : (s.heap i).isExpired nowNs with
    | true =>
      rw [late, if_pos rfl] at answer quiet
      exact .inl ⟨rfl, answer, quiet⟩
    | false =>
      rw [late] at answer quiet
      exact .inr ⟨i, rfl, rfl, answer, quiet⟩

theorem peekForGet_wf (key : K) (nowNs : Nat) (wf : s.WellFormed env) :
    (s.peekForGet env key nowNs).2.WellFormed env := by
  by_cases pins : ∃ i, s.find env key = some i ∧ (s.heap i).canPin = true
  · obtain ⟨i, found, pins⟩ := pins
    refine (peekForGet_of_pinned nowNs found pins).2.wf ?_
    split
    · exact wf
    · exact WellFormed.write (.count (· + 1)) wf
  · rw [peekForGet_of_unpinned fun i found => by simpa using fun pin => pins ⟨i, found, pin⟩]
    exact wf

end Lookups

end Lru.Mm
