import Lru.Cache.Runs

/-!
# What the lookups answer

Each public lookup as a function of the item stored under the key: whether the
count of its handles is saturated and whether its expiry has passed. The paths
differ in which of the two they look at.
-/

namespace Lru.Cache

variable {K V : Type}

open Mm State

section Lookups

variable [DecidableEq K] {env : Env K V} {strategy : Strategy} {c : Cache K V} {key : K}
  {a : Ambient K} {i : ItemId}

theorem pinOverflows_of_some (found : c.mm.find env key = some i) :
    c.pinOverflows env key = !(c.mm.heap i).canPin := by
  rw [pinOverflows, found]

theorem get_of_absent (isOpen : c.closed = false) (absent : c.mm.find env key = none) :
    (c.get env strategy key a).1 = .ok none := by
  have missed : c.mm.peekForGet env key a.nowNs = (none, c.mm) :=
    peekForGet_of_unpinned (by simp [absent])
  simp [get, isOpen, missed, pinOverflows, absent]

/-- `get` throws when the count is saturated, whatever the expiry. -/
theorem get_of_saturated (isOpen : c.closed = false) (found : c.mm.find env key = some i)
    (saturated : (c.mm.heap i).canPin = false) :
    (c.get env strategy key a).1 = .error refcountOverflowOnGet := by
  have missed : c.mm.peekForGet env key a.nowNs = (none, c.mm) := by
    apply peekForGet_of_unpinned
    intro j same
    obtain rfl : i = j := Option.some.inj (found.symm.trans same)
    exact saturated
  simp [get, isOpen, missed, pinOverflows_of_some found, saturated]

theorem get_of_expired (isOpen : c.closed = false) (found : c.mm.find env key = some i)
    (pins : (c.mm.heap i).canPin = true) (late : (c.mm.heap i).isExpired a.nowNs = true) :
    (c.get env strategy key a).1 = .ok none := by
  obtain ⟨missed, -⟩ := peekForGet_of_pinned a.nowNs found pins
  rw [if_pos late] at missed
  rw [get, if_neg (by simp [isOpen])]
  split
  case h_1 mm read =>
    rw [if_neg (by simp [pinOverflows_of_some found, pins])]
  case h_2 j mm read =>
    rw [read] at missed
    cases missed

theorem get_of_live (wf : c.mm.WellFormed env) (isOpen : c.closed = false)
    (found : c.mm.find env key = some i) (pins : (c.mm.heap i).canPin = true)
    (early : (c.mm.heap i).isExpired a.nowNs = false) :
    (c.get env strategy key a).1 = .ok (some i) ∧
      ((c.get env strategy key a).2.mm.heap i).value = (c.mm.heap i).value := by
  have early : ¬ (c.mm.heap i).isExpired a.nowNs = true := by simp [early]
  obtain ⟨hit, quiet⟩ := peekForGet_of_pinned a.nowNs found pins
  rw [if_neg early] at hit quiet
  rw [get, if_neg (by simp [isOpen])]
  split
  case h_1 mm read =>
    rw [read] at hit
    cases hit
  case h_2 j mm read =>
    rw [read] at hit quiet
    obtain rfl : j = i := Option.some.inj hit
    refine ⟨rfl, ?_⟩
    have hj : j ∈ mm.table := by
      rw [quiet.table_eq]
      exact ((find_eq_some_iff wf).mp found).1
    have stored : (mm.heap j).value = (c.mm.heap j).value := by
      have same := congrArg Body.value (quiet.body_eq j)
      simpa [State.incRef, State.modify] using same
    have pinned : mm.WellFormed env := quiet.wf (WellFormed.write (.count (· + 1)) wf)
    have promoted := (strategy.laws env).promote_moves pinned key a.sec
    simp only [noteHit, collect_heap]
    split
    · exact stored
    · have same := congrArg (fun x => x.2.1) (promoted.content j (promoted.mem_iff.mpr hj))
      exact Eq.trans same stored

theorem contains_answer (isOpen : c.closed = false) :
    (c.contains env key a).1 = c.mm.live env key a.nowNs := by
  simp [contains, isOpen, contains_fst]

theorem peek_answer (isOpen : c.closed = false) :
    (c.peek env key).1.isSome = c.mm.pinnable env key := by
  simp [Cache.peek, isOpen, State.peek, findAndPin_isSome]

theorem getView_answer : (c.getView env key).1.isSome = (c.peek env key).1.isSome := by
  simp only [getView]
  split
  case h_1 d missed => rw [missed]; rfl
  case h_2 i d pinned => rw [pinned]; rfl

theorem getShared_answer (isOpen : c.closed = false) :
    (c.getShared env key a).1.isSome = (c.mm.pinnable env key && c.mm.live env key a.nowNs) := by
  rw [← peekForGet_isSome, getShared, if_neg (by simp [isOpen])]
  split
  case h_1 mm missed => rw [missed]; rfl
  case h_2 i mm pinned => rw [pinned]; rfl

/-- `get` as a whole: an exception on a saturated count, and otherwise an item iff
the key is live. -/
theorem get_answer (strategy : Strategy) (key : K) (a : Ambient K) (wf : c.mm.WellFormed env)
    (isOpen : c.closed = false) :
    ((c.get env strategy key a).1 = .error refcountOverflowOnGet ∧ c.mm.pinnable env key = false) ∨
      ∃ item, (c.get env strategy key a).1 = .ok item ∧
        item.isSome = c.mm.live env key a.nowNs := by
  cases found : c.mm.find env key with
  | none => exact .inr ⟨none, get_of_absent isOpen found, by simp [live, found]⟩
  | some i =>
    cases pins : (c.mm.heap i).canPin with
    | false => exact .inl ⟨get_of_saturated isOpen found pins, by simp [pinnable, found, pins]⟩
    | true =>
      cases late : (c.mm.heap i).isExpired a.nowNs with
      | true =>
        exact .inr ⟨none, get_of_expired isOpen found pins late, by simp [live, found, late]⟩
      | false =>
        exact .inr ⟨some i, (get_of_live wf isOpen found pins late).1, by simp [live, found, late]⟩

end Lookups

end Lru.Cache
