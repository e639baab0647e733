import Lru.Cache.CasRuns
import Lru.Filter.RejectFirst

/-!
# The strategies behind the filter

Each strategy, with a clock, is a cache type for the filter. Its own `set` always replaces
the value, so behind a reject-first filter a stale value is left exactly by a rejected
write to a key that still holds another one.
-/

namespace Lru.Mm

open State

variable {K V : Type} [DecidableEq K] {env : Env K V} {p : Policy K V} {s t : State K V}
  {key other : K} {value : V} {expiryNs sec : Nat}

/-- An insertion keeps the records of the other keys or clears them. -/
theorem Inserts.record_cases (h : Inserts env s t other value expiryNs) (wf : s.WellFormed env)
    (different : key ≠ other) :
    t.record env key = s.record env key ∨ t.record env key = none := by
  refine record_cases_of_content wf h.wf fun i hi keyed => ?_
  have old : i ≠ s.next := by
    rintro rfl
    exact different (keyed.symm.trans (congrArg Prod.fst h.content_new))
  exact ⟨h.mem_old i hi old, h.content_old i hi old⟩

/-- `set` keeps the records of the other keys or clears them. -/
theorem Policy.Laws.record_set_beside (laws : p.Laws env) (wf : s.WellFormed env)
    (different : key ≠ other) :
    (p.set env s other value sec).record env key = s.record env key ∨
      (p.set env s other value sec).record env key = none := by
  cases found : s.find env other with
  | some i => exact laws.record_set_other wf found different
  | none =>
    obtain ⟨-, admitted⟩ | ⟨i, resident, -⟩ := laws.set_cases wf other value sec
    · cases admitted with
      | inserted linked => exact linked.record_cases wf different
      | dropped shrunk => exact shrunk.record_cases wf key
      | failed u shrunk noted =>
        rw [noted]
        exact shrunk.record_cases wf key
    · rw [found] at resident
      cases resident

end Lru.Mm

namespace Lru.Filter

open Mm State Option

variable {K V : Type} [DecidableEq K] (env : Env K V) (strategy : Strategy)

/-- A strategy whose table and lists agree, at some time. -/
structure Clocked (env : Env K V) where
  mm : State K V
  nowNs : Nat
  wf : mm.WellFormed env

variable {env}

namespace Clocked

/-- The value under the key, if its expiry has not passed. -/
def held (c : Clocked env) (key : K) : Option V :=
  (c.mm.record env key).bind fun r =>
    if r.2 != 0 && r.2 ≤ c.nowNs then none else some r.1

def set (c : Clocked env) (key : K) (value : V) : Clocked env :=
  ⟨(strategy.policy env).set env c.mm key value (c.nowNs / 10 ^ 9), c.nowNs,
    (strategy.laws env).set_wf c.wf key value _⟩

/-- The lookup of `get`; the item stays pinned. -/
def get (c : Clocked env) (key : K) : Option V × Clocked env :=
  ((c.mm.peekForGet env key c.nowNs).1.map fun i => (c.mm.heap i).value,
    ⟨(c.mm.peekForGet env key c.nowNs).2, c.nowNs, peekForGet_wf key c.nowNs c.wf⟩)

def del (c : Clocked env) (key : K) : Bool × Clocked env :=
  (((strategy.policy env).del env c.mm key).1,
    ⟨((strategy.policy env).del env c.mm key).2, c.nowNs,
      ((strategy.laws env).del_shrinks c.wf key).wf⟩)

def collectReject (c : Clocked env) (key : K) (value : V) : Clocked env :=
  ⟨c.mm.collect (.reject key value), c.nowNs, HandleCache.collect_wf c.wf⟩

/-- What can happen to a strategy between two calls of the filter. -/
inductive Drifts : Clocked env → Clocked env → Prop
  | evict {c d : Clocked env} (h : d.mm = (strategy.policy env).evict c.mm)
      (now : d.nowNs = c.nowNs) : Drifts c d
  | release {c d : Clocked env} (i : ItemId) (pinned : 0 < (c.mm.heap i).accessRef)
      (h : d.mm = c.mm.decRef i) (now : d.nowNs = c.nowNs) : Drifts c d
  | tick {c d : Clocked env} (h : d.mm = c.mm) (later : c.nowNs ≤ d.nowNs) : Drifts c d

variable {strategy} {c d : Clocked env} {key other : K} {value old : V}

/-- Steps that keep records or clear them, while time passes, hold no new value. -/
theorem held_of_record
    (record : d.mm.record env key = c.mm.record env key ∨ d.mm.record env key = none)
    (later : c.nowNs ≤ d.nowNs) (held : d.held key = some old) : c.held key = some old := by
  rw [Clocked.held] at held ⊢
  rcases record with same | gone
  · rw [same] at held
    cases stored : c.mm.record env key with
    | none => simp [stored] at held
    | some r =>
      rw [stored] at held
      simp only [bind_some, ite_none_left_eq_some, Bool.and_eq_true, bne_iff_ne,
        decide_eq_true_eq] at held ⊢
      exact ⟨fun expired => held.1 ⟨expired.1, expired.2.trans later⟩, held.2⟩
  · rw [gone] at held
    cases held

theorem Drifts.held (drifts : Drifts strategy c d) (held : d.held key = some old) :
    c.held key = some old := by
  cases drifts with
  | evict h now =>
    refine held_of_record ?_ now.ge held
    rw [h]
    exact ((strategy.laws env).eviction.shrinks c.wf).record_cases c.wf key
  | release i pinned h now =>
    refine held_of_record (.inl ?_) now.ge held
    rw [h, record_decRef]
  | tick h later =>
    refine held_of_record (.inl ?_) later held
    rw [h]

/-- What `get` returns is held, and what is held is returned if the item can take another
handle. -/
theorem held_of_shown (shown : c.mm.shown env key c.nowNs = some old) : c.held key = some old := by
  rw [State.shown] at shown
  cases found : c.mm.find env key with
  | none => simp [found] at shown
  | some i =>
    rw [found] at shown
    simp only [ite_none_right_eq_some, Bool.and_eq_true, Bool.not_eq_true', Body.isExpired] at shown
    rw [held, record_of_find found, bind_some, shown.1.2]
    exact shown.2

theorem shown_of_held {i : ItemId} (found : c.mm.find env key = some i)
    (free : (c.mm.heap i).accessRef = 0) (held : c.held key = some old) :
    c.mm.shown env key c.nowNs = some old := by
  have linked : (c.mm.heap i).linked = true := c.wf.linked i ((find_eq_some_iff c.wf).mp found).1
  rw [Clocked.held, record_of_find found] at held
  simp only [bind_some, ite_none_left_eq_some] at held
  rw [shown, found]
  simp [Body.canPin, linked, free, kAccessRefMax, Body.isExpired, held.1, held.2]

theorem exists_released (strategy : Strategy) (c : Clocked env) (i : ItemId) :
    ∃ d, Relation.ReflTransGen (Drifts strategy) c d ∧ d.nowNs = c.nowNs
      ∧ (∀ key, d.mm.find env key = c.mm.find env key)
      ∧ (∀ key, d.mm.record env key = c.mm.record env key)
      ∧ (d.mm.heap i).accessRef = 0 := by
  induction count : (c.mm.heap i).accessRef generalizing c with
  | zero => exact ⟨c, .refl, rfl, fun _ => rfl, fun _ => rfl, count⟩
  | succ n ih =>
    let next : Clocked env := ⟨c.mm.decRef i, c.nowNs, WellFormed.write (.count (· - 1)) c.wf⟩
    have fewer : (next.mm.heap i).accessRef = n := by
      simp [next, State.decRef, State.modify, count]
    obtain ⟨d, reached, now, find, record, free⟩ := ih next fewer
    have step : Drifts strategy c next := .release i (by omega) rfl rfl
    refine ⟨d, .head step reached, now, fun key => ?_, fun key => ?_, free⟩
    · rw [find]
      exact find_modify (.count (· - 1)) env c.mm i key
    · rw [record]
      exact record_decRef env c.mm i key

theorem get_eq_some_iff : (c.get key).1 = some old ↔ c.mm.shown env key c.nowNs = some old := by
  rw [get]
  obtain ⟨shown, none, -⟩ | ⟨i, -, shown, some, -⟩ := peekForGet_cases env c.mm key c.nowNs
  · rw [none, shown]
    simp
  · rw [some, shown]
    rfl

/-- A held value is returned once the handles of its item are gone. -/
theorem readable (held : c.held key = some old) :
    ∃ d, Relation.ReflTransGen (Drifts strategy) c d ∧ (d.get key).1 = some old := by
  cases found : c.mm.find env key with
  | none =>
    rw [Clocked.held, record_of_absent found] at held
    cases held
  | some i =>
    obtain ⟨d, reached, now, find, record, free⟩ := exists_released strategy c i
    refine ⟨d, reached, get_eq_some_iff.mpr ?_⟩
    refine shown_of_held ((find key).trans found) free ?_
    rw [Clocked.held, record, now]
    exact held

theorem held_get (held : (c.get other).2.held key = some old) : c.held key = some old := by
  refine held_of_record (d := (c.get other).2) (.inl ?_) (Nat.le_refl _) held
  obtain ⟨-, -, quiet⟩ | ⟨i, -, -, -, quiet⟩ := peekForGet_cases env c.mm other c.nowNs
  · exact quiet.record_eq c.wf key
  · exact (quiet.record_eq (WellFormed.write (.count (· + 1)) c.wf) key).trans
      (record_incRef env c.mm i)

theorem held_collectReject (c : Clocked env) (other key : K) (value : V) :
    (c.collectReject other value).held key = c.held key := by
  rw [held, held, collectReject, HandleCache.record_collect]

/-- The own `set` of a strategy leaves no other value under its key. -/
theorem eq_of_held_set (held : (c.set strategy key value).held key = some old) : old = value := by
  rw [Clocked.held] at held
  cases found : (c.set strategy key value).mm.find env key with
  | none =>
    rw [record_of_absent found] at held
    cases held
  | some i =>
    have content := (strategy.laws env).set_content c.wf found
    rw [record_of_find found] at held
    simp only [bind_some, ite_none_left_eq_some, some.injEq] at held
    rw [← held.2]
    exact congrArg (fun x => x.2.1) content

end Clocked

def strategyCache (env : Env K V) (strategy : Strategy) : CacheType K V where
  Cache := Clocked env
  set := Clocked.set strategy
  get := Clocked.get
  del := Clocked.del strategy
  collectReject := Clocked.collectReject
  Drifts := Clocked.Drifts strategy
  held := Clocked.held
  get_held returned := Clocked.held_of_shown (Clocked.get_eq_some_iff.mp returned)
  readable := Clocked.readable
  held_set {c other _ value _} beside held :=
    Clocked.held_of_record (d := c.set strategy other value)
      ((strategy.laws env).record_set_beside c.wf beside) (Nat.le_refl _) held
  held_get := Clocked.held_get
  held_del {c other key _} held :=
    Clocked.held_of_record (d := (c.del strategy other).2)
      (((strategy.laws env).del_shrinks c.wf other).record_cases c.wf key) (Nat.le_refl _) held
  held_collectReject := Clocked.held_collectReject
  held_drifts drifts held := drifts.held held

/-- A `set` through the filter leaves no stale value exactly if the policy knows the key
and the cache's own `set` replaces the value, or the policy does not know the key and the
cache holds no other value. A strategy's own `set` always replaces the value. -/
theorem leavesNoStale_iff_seen_or_holdsOnly :
    (∀ (type : CacheType K V) (c : FilterCache type) key value first,
      c.LeavesNoStale key value first ↔
        (c.policy.Seen key ∧ type.OwnSetReplaces c.cache key value)
          ∨ (¬ c.policy.Seen key ∧ type.HoldsOnly c.cache key value)) ∧
    ∀ (env : Env K V) (strategy : Strategy) (c : FilterCache (strategyCache env strategy))
      (key : K) (value : V) first,
      c.LeavesNoStale key value first ↔
        c.policy.Seen key ∨ (strategyCache env strategy).HoldsOnly c.cache key value := by
  refine ⟨fun type c => c.leavesNoStale_iff, fun env strategy c key value first => ?_⟩
  have replaces : (strategyCache env strategy).OwnSetReplaces c.cache key value :=
    fun old held => Clocked.eq_of_held_set held
  rw [c.leavesNoStale_iff key value first]
  by_cases seen : c.policy.Seen key
  · simp [seen, replaces]
  · simp [seen]

/-! ## A forgotten key -/

/-- A tracker for one hash in each of its four splits, in front of a new `mm_lru`. -/
def smallFilter : FilterCache (strategyCache Strategy.intEnv .mmLru) where
  policy := { hashKey := id, tracker := .new 1 4 }
  cache := ⟨State.empty (fun _ => default) {} {} 0, 0, Strategy.empty_wf _ _ _ _⟩

/-- Key `1` is let in by its second `set`, and forgotten when key `5` is seen. -/
def forgetful : FilterCache (strategyCache Strategy.intEnv .mmLru) :=
  ((((smallFilter.set 1 10 0).2.set 1 10 0).2.set 5 50 0).2)

/-- The next `set` of key `1` is rejected, and `get` still returns the old value. -/
theorem rejected_set_leaves_stale :
    (forgetful.set 1 20 0).1 = false ∧ ((forgetful.set 1 20 0).2.get 1).1 = some 10
      ∧ ¬ forgetful.LeavesNoStale 1 20 0 := by
  have returned : ((forgetful.set 1 20 0).2.get 1).1 = some 10 := by decide +kernel
  refine ⟨by decide +kernel, returned, fun fresh => ?_⟩
  have same := fresh _ .refl 10 returned
  cases same

end Lru.Filter
