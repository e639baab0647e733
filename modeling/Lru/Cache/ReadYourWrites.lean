import Lru.Cache.Lookups
import Lru.Mm.Room

/-!
# Reading back what was set

`set` on a resident key replaces the value and leaves the expiry of the item as
it is. So the value that was just written is filtered out by the next read when
an earlier write gave the key a TTL.
-/

namespace Lru.Cache

open Mm State

variable {K V : Type} [DecidableEq K] {c : Cache K V} {strategy : Strategy} {i : ItemId} {key : K}
  {env : Env K V} {value : V}

omit [DecidableEq K] in
theorem noteEvictionRejected_heap (s : State K V) (key : K) (value : V) :
    (s.noteEvictionRejected key value).heap = s.heap := collect_heap

section Definitions

variable (env : Env K V) (strategy : Strategy) (c : Cache K V) (key : K) (value : V)

def Stored (s : State K V) (key : K) (value : V) : Prop :=
  ∃ i, s.find env key = some i ∧ (s.heap i).value = value

/-- From this time on, `get` returns the value and `contains` finds the key. -/
def ReadsBack (nowNs : Nat) : Prop :=
  ∀ a : Ambient K, nowNs ≤ a.nowNs →
    (∃ i, (c.get env strategy key a).1 = .ok (some i) ∧
      ((c.get env strategy key a).2.mm.heap i).value = value) ∧
    (c.contains env key a).1 = true

/-- The key is absent, or its item has no TTL and can take another handle. -/
def Unstamped (s : State K V) (key : K) : Prop :=
  (s.stamp env key).1 = 0 ∧ (s.stamp env key).2 < kAccessRefMax

end Definitions

section Reads

/-- A stored value is read back from some time on iff its item carries no TTL and
its count is not saturated. -/
theorem readsBack_iff {nowNs : Nat} (wf : c.mm.WellFormed env) (isOpen : c.closed = false)
    (found : c.mm.find env key = some i) (stored : (c.mm.heap i).value = value) :
    ReadsBack env strategy c key value nowNs ↔
      (c.mm.heap i).expiryNs = 0 ∧ (c.mm.heap i).accessRef < kAccessRefMax := by
  have linked := linked_of_mem wf ((find_eq_some_iff wf).mp found).1
  constructor
  · intro reads
    -- The clock may pass any expiry.
    set later : Ambient K := { nowNs := max nowNs (c.mm.heap i).expiryNs }
    obtain ⟨⟨j, got, -⟩, present⟩ := reads later (Nat.le_max_left ..)
    rw [contains_answer isOpen, live, found] at present
    constructor
    · simpa [Body.isExpired, later] using present
    · by_contra saturated
      rw [get_of_saturated isOpen found (by simp [Body.canPin, linked, saturated])] at got
      cases got
  · rintro ⟨unstamped, unsaturated⟩ a -
    have pins : (c.mm.heap i).canPin = true := by simp [Body.canPin, linked, unsaturated]
    have early : (c.mm.heap i).isExpired a.nowNs = false := by simp [Body.isExpired, unstamped]
    obtain ⟨got, same⟩ := get_of_live wf isOpen found pins early
    refine ⟨⟨i, got, same.trans stored⟩, ?_⟩
    rw [contains_answer isOpen, live, found]
    simp [early]

end Reads

section Writes

variable {d : Cache K V} {a : Ambient K}

theorem noteEvictionRejected_find {s : State K V} {key other : K} :
    (s.noteEvictionRejected key value).find env other = s.find env other := by
  rw [noteEvictionRejected, collect]
  split <;> rfl

/-- The gate keeps the content of what it keeps. -/
theorem enforceCapacity_content (sizeBefore : Nat) (wf : c.mm.WellFormed env)
    (found : (c.enforceCapacityAfterInsert env strategy key sizeBefore).mm.find env key = some i) :
    c.mm.find env key = some i ∧
      ((c.enforceCapacityAfterInsert env strategy key sizeBefore).mm.heap i).content =
        (c.mm.heap i).content := by
  obtain ⟨mm, shrunk, gated | gated⟩ := enforceCapacity_spec wf
  · rw [gated] at found ⊢
    exact ⟨shrunk.find_of_find wf found, shrunk.content i ((find_eq_some_iff shrunk.wf).mp found).1⟩
  · rw [gated] at found ⊢
    simp only [noteEvictionRejected_find, noteEvictionRejected_heap] at found ⊢
    exact ⟨shrunk.find_of_find wf found, shrunk.content i ((find_eq_some_iff shrunk.wf).mp found).1⟩

theorem setBody_mm (admitted : c.admitWrite env strategy true true key value a = (true, d)) :
    (c.setBody env strategy key value a).mm =
      (Cache.enforceCapacityAfterInsert
        { d with mm := (strategy.policy env).set env d.mm key value a.sec } env strategy key
        ((strategy.policy env).size d.mm)).mm := by
  rw [setBody, admitted]
  rw [reportMemory_mm, applyMemoryPressure_mm.1]

theorem enforceCapacity_modes {sizeBefore : Nat} :
    SameModes c (c.enforceCapacityAfterInsert env strategy key sizeBefore) := by
  simp only [enforceCapacityAfterInsert]
  split_ifs <;> exact ⟨rfl, rfl, rfl, rfl, rfl⟩

theorem setBody_closed (wf : c.mm.WellFormed env) :
    (c.setBody env strategy key value a).closed = c.closed := by
  refine checked_keeps (P := (·.closed = c.closed))
    (admitWrite_modes strategy true true key value a wf).closed_eq
    (fun d verdict => by rw [setBody, verdict]) fun d verdict same => ?_
  rw [setBody, verdict, SameModes.reportMemory.closed_eq, applyMemoryPressure_mm.2.1,
    enforceCapacity_modes.closed_eq]
  exact same

/-- What `set` leaves under its key, when it leaves the value there. -/
theorem setBody_content (wf : c.mm.WellFormed env)
    (found : (c.setBody env strategy key value a).mm.find env key = some i)
    (stored : ((c.setBody env strategy key value a).mm.heap i).value = value) :
    ((c.setBody env strategy key value a).mm.heap i).content =
      (key, value, (c.admitWrite env strategy true true key value a).2.mm.stamp env key) := by
  have checked := admitWrite_wf strategy true true key value a wf
  cases verdict : c.admitWrite env strategy true true key value a with
  | mk admitted d =>
    rw [verdict] at checked
    cases admitted with
    | false =>
      have refused : c.setBody env strategy key value a = d := by rw [setBody, verdict]
      rw [refused] at found stored ⊢
      have hk : (d.mm.heap i).key = key := ((find_eq_some_iff checked).mp found).2
      simp [stamp, found, Body.content, stored, hk]
    | true =>
      rw [setBody_mm verdict] at found ⊢
      have written := (strategy.laws env).set_wf checked key value a.sec
      obtain ⟨before, content⟩ := enforceCapacity_content _ written found
      rw [content]
      exact (strategy.laws env).set_content checked before

/-- A write that is admitted and finds room is stored. -/
theorem setBody_stored (wf : c.mm.WellFormed env)
    (admitted : c.admitWrite env strategy true true key value a = (true, d))
    (room : (strategy.policy env).hasRoom env d.mm key value = true) :
    Stored env (c.setBody env strategy key value a).mm key value := by
  have laws := strategy.laws env
  have checked := admitWrite_wf strategy true true key value a wf
  rw [admitted] at checked
  set t := (strategy.policy env).set env d.mm key value a.sec with t_def
  have resident : ∃ i, t.find env key = some i ∧ (t.settings.maxSize = unlimited ∨
      (strategy.policy env).size t ≤ t.settings.maxSize) := by
    cases found : d.mm.find env key with
    | none =>
      have linked := Strategy.set_of_room a.sec checked found room
      have length := linked.length_le
      rw [← laws.eviction.size_eq linked.wf, ← laws.eviction.size_eq checked] at length
      simp only [Policy.hasRoom, found, Bool.and_eq_true] at room
      have free := room.1.1.2
      refine ⟨d.mm.next, linked.find_eq, ?_⟩
      rw [linked.settings_eq]
      by_cases finite : d.mm.settings.maxSize = unlimited
      · exact .inl finite
      · have free : (strategy.policy env).size d.mm < d.mm.settings.maxSize := by
          simpa [isAtCapacity, finite] using free
        exact .inr (length.trans free)
    | some i =>
      have kept := set_of_fits laws a.sec checked found room
      obtain ⟨absent, -⟩ | ⟨j, same, written⟩ := laws.set_cases checked key value a.sec
      · rw [found] at absent
        cases absent
      · obtain rfl : i = j := Option.some.inj (found.symm.trans same)
        have fewer := written.length_le
        rw [← laws.eviction.size_eq written.wf] at fewer
        change _ ≤ d.mm.table.length at fewer
        rw [← laws.eviction.size_eq checked] at fewer
        have hk : (t.heap i).key = key := by
          have content := congrArg Prod.fst (written.content i kept)
          have same : (t.heap i).key = (d.mm.heap i).key := by
            simpa [Body.content, State.modify] using content
          exact same.trans ((find_eq_some_iff checked).mp found).2
        refine ⟨i, (find_eq_some_iff written.wf).mpr ⟨kept, hk⟩, ?_⟩
        rw [written.settings_eq]
        simp only [Policy.hasRoom, found, Bool.not_eq_true', shouldEvict,
          (Policy.Laws.adjustMemory_quiet _ _).settings_eq, Bool.or_eq_false_iff,
          Bool.and_eq_false_iff, bne_eq_false_iff_eq, decide_eq_false_iff_not] at room
        obtain free | fits := room.1
        · exact .inl free
        · exact .inr (fewer.trans (Nat.le_of_not_lt fits))
  obtain ⟨i, found, fits⟩ := resident
  have content := laws.set_content checked found
  refine ⟨i, ?_, ?_⟩
  · rw [setBody_mm admitted, enforceCapacity_of_le fits]
    exact found
  · rw [setBody_mm admitted, enforceCapacity_of_le fits]
    exact congrArg (fun x => x.2.1) content

/-- Over every run: a `set` that finds room stores its value, and a stored value
is read back at all later times exactly when the key had no TTL and no saturated
count when the strategy was asked to write it. -/
theorem set_readsBack_iff [DecidableEq V] (key : K) (value : V) (a : Ambient K)
    (reachable : c.Reachable env strategy)
    (proceeds : c.preWriteCheck "set" = .ok .kProceed) :
    (∀ d, c.admitWrite env strategy true true key value a = (true, d) →
        (strategy.policy env).hasRoom env d.mm key value = true →
        Stored env (c.set env strategy key value a).2.mm key value) ∧
      (Stored env (c.set env strategy key value a).2.mm key value →
        (ReadsBack env strategy (c.set env strategy key value a).2 key value a.nowNs ↔
          Unstamped env (c.admitWrite env strategy true true key value a).2.mm key)) := by
  have body : (c.set env strategy key value a).2 = c.setBody env strategy key value a := by
    rw [set, guarded, proceeds]
  have wf := reachable.wf
  have isOpen : c.closed = false := closed_of_proceeds proceeds
  rw [body]
  refine ⟨fun _ => setBody_stored wf, ?_⟩
  rintro ⟨i, found, stored⟩
  have content := setBody_content wf found stored
  have after := setBody_wf strategy key value a wf
  rw [readsBack_iff after (by rw [setBody_closed wf, isOpen]) found stored, Unstamped]
  simp only [Body.content, Prod.mk.injEq] at content
  rw [← content.2.2]

end Writes

/-! ## Samples -/

section Samples

open Mm.Strategy (intEnv)

theorem set_readsBack_new_key :
    newCache.preWriteCheck "set" = .ok .kProceed ∧
      ReadsBack intEnv .mmLru (newCache.set intEnv .mmLru 1 10 {}).2 1 10 0 := by
  have written := set_readsBack_iff 1 10 {} (newCache_reachable .mmLru) rfl
  have stored := written.1 newCache rfl rfl
  exact ⟨rfl, (written.2 stored).mpr ⟨rfl, by decide⟩⟩

/-- A cache in which key `1` expires at time `5`. -/
def agedCache : Cache Nat Nat := (newCache.setWithAbsoluteExpiry intEnv .mmLru 1 10 5 {}).2

theorem agedCache_reachable : agedCache.Reachable intEnv .mmLru :=
  (newCache_reachable .mmLru).step (.setWithAbsoluteExpiry 1 10 5 {}) trivial rfl

/-- At time `7` the value `20` is stored under key `1`, and neither `get` nor
`contains` finds it. -/
theorem set_keeps_expired_ttl :
    agedCache.Reachable intEnv .mmLru ∧ agedCache.preWriteCheck "set" = .ok .kProceed ∧
      agedCache.admitWrite intEnv .mmLru true true 1 20 { nowNs := 7 } = (true, agedCache) ∧
      (Strategy.mmLru.policy intEnv).hasRoom intEnv agedCache.mm 1 20 = true ∧
      (agedCache.set intEnv .mmLru 1 20 { nowNs := 7 }).1 = .ok () ∧
      Stored intEnv (agedCache.set intEnv .mmLru 1 20 { nowNs := 7 }).2.mm 1 20 ∧
      (((agedCache.set intEnv .mmLru 1 20 { nowNs := 7 }).2).get intEnv .mmLru 1
        { nowNs := 7 }).1 = .ok none ∧
      (((agedCache.set intEnv .mmLru 1 20 { nowNs := 7 }).2).contains intEnv 1
        { nowNs := 7 }).1 = false ∧
      ¬ ReadsBack intEnv .mmLru (agedCache.set intEnv .mmLru 1 20 { nowNs := 7 }).2 1 20 7 := by
  refine ⟨agedCache_reachable, rfl, rfl, rfl, rfl, ⟨0, rfl, rfl⟩, rfl, rfl, ?_⟩
  intro reads
  obtain ⟨-, present⟩ := reads { nowNs := 7 } (Nat.le_refl _)
  exact absurd present (by decide)

end Samples

end Lru.Cache
