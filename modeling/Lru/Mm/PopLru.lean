import Lru.Mm.Strategy

/-!
# What `pop_lru` leaves behind

`pop_lru` moves key and value out of the tail item and then asks the hash table
to erase the moved-out key. The table finds nodes by the key stored in the item,
so the node of a key that a move changes stays in the table.
-/

namespace Lru.Mm

variable {K V : Type} [DecidableEq K] {i : ItemId}

open State

/-- `(key, value)` was taken out of `s` and nothing else: the key is in neither
the table nor a list of `t`, every other key is found as before, and the table
has a node for each list entry and none for a retired item. -/
structure TakesOut (env : Env K V) (s t : State K V) (key : K) (value : V) : Prop where
  resident : ∃ i, s.find env key = some i ∧ (s.heap i).value = value
  absent : t.find env key = none
  unlisted : ∀ q, ∀ i ∈ t.queue q, (t.heap i).key ≠ key
  others : ∀ other, other ≠ key → t.entry env other = s.entry env other
  size_eq : t.table.length = t.linkedCount
  no_dangling : ∀ i ∈ t.retired, i ∉ t.table

/-- The removal of an item takes out its key and value. -/
theorem Removes.takesOut {env : Env K V} {s t : State K V} (h : Removes env s t i)
    (wf : s.WellFormed env) : TakesOut env s t (s.heap i).key (s.heap i).value where
  resident := ⟨i, find_key wf h.mem_before, rfl⟩
  absent := h.find_eq_none wf
  unlisted _ j hj := (find_eq_none_iff h.wf).mp (h.find_eq_none wf) j (mem_of_queue h.wf hj)
  others _ different := h.entry_eq wf different
  size_eq := h.wf.table_length
  no_dangling := h.wf.retired_not_mem

namespace Strategy

variable {env : Env K V} {strategy : Strategy} {s : State K V}

/-- Whatever `pop_lru` returns in this state, it has taken out. -/
def PopCorrect (env : Env K V) (strategy : Strategy) (s : State K V) : Prop :=
  ∀ key value t, (strategy.policy env).popLru env s = (some (key, value), t) →
    TakesOut env s t key value

/-- In a state with a tail `pop_lru` returns its key and value. -/
theorem popLru_eq (wf : s.WellFormed env)
    (isTail : (strategy.policy env).popTail s = some i) :
    (strategy.policy env).popLru env s =
      (some ((s.heap i).key, (s.heap i).value),
        (strategy.policy env).popItem env s.cleanupPendingDeletion i) := by
  have laws := strategy.laws env
  have clean := Rearranges.cleanup wf
  rw [← laws.popTail_cleanup] at isTail
  have found := find_key clean.wf (laws.popTail clean.wf isTail).1
  rw [Policy.popLru, isTail]
  simp only
  rw [found, cleanup_heap]

theorem popCorrect_of_stable (wf : s.WellFormed env) (stable : strategy.TailKeyStable env s) :
    strategy.PopCorrect env s := by
  intro key value t popped
  have laws := strategy.laws env
  have clean := Rearranges.cleanup wf
  cases isTail : (strategy.policy env).popTail s with
  | none =>
    rw [Policy.popLru, laws.popTail_cleanup, isTail] at popped
    cases popped
  | some i =>
    rw [popLru_eq wf isTail] at popped
    cases popped
    have same := stable i isTail
    rw [← laws.popTail_cleanup] at isTail
    rw [← cleanup_heap s] at same
    have removed := (laws.popItem_removes clean.wf (laws.popTail clean.wf isTail).1 same).after
      clean
    exact removed.takesOut wf

theorem stable_of_popCorrect (wf : s.WellFormed env) (correct : strategy.PopCorrect env s) :
    strategy.TailKeyStable env s := by
  intro i isTail
  by_contra unstable
  have laws := strategy.laws env
  have clean := Rearranges.cleanup wf
  have takes := correct _ _ _ (popLru_eq wf isTail)
  rw [← laws.popTail_cleanup] at isTail
  rw [← cleanup_heap s] at unstable
  obtain ⟨retired, dangling⟩ := laws.popItem_dangles clean.wf (laws.popTail clean.wf isTail).1
    unstable
  exact takes.no_dangling i retired dangling

/-- Over every run whose earlier `pop_lru` calls met tails with stable keys,
`pop_lru` takes out what it returns exactly when the key of the tail item is the
same after a move. -/
theorem popCorrect_iff_tailKeyStable (reachable : strategy.Reachable env s) :
    strategy.PopCorrect env s ↔ strategy.TailKeyStable env s :=
  ⟨stable_of_popCorrect reachable.wf, popCorrect_of_stable reachable.wf⟩

/-- `mm_lru` after `set(1, 10)`, `set(2, 20)` and `pop_lru()`. -/
def intState : State Nat Nat :=
  let p := mmLru.policy intEnv
  (p.popLru intEnv (p.set intEnv (p.set intEnv (State.empty (fun _ => default) {} {} 0) 1 10 0)
    2 20 0)).2

theorem popLru_takes_out_integer_key : intState.table = [1] ∧ mmLru.PopCorrect intEnv intState := by
  have reachable : mmLru.Reachable intEnv intState := by
    refine ⟨fun _ => default, {}, {}, 0, ?_⟩
    refine .tail (.tail (.tail .refl ⟨.set 1 10 0, nofun, rfl⟩) ⟨.set 2 20 0, nofun, rfl⟩) ?_
    exact ⟨.popLru, fun _ _ _ => rfl, rfl⟩
  exact ⟨rfl, (popCorrect_iff_tailKeyStable reachable).mpr fun _ _ => rfl⟩

/-- Byte strings as keys: a string that was moved from is empty. -/
def stringEnv : Env (List Nat) Nat := { integers List.sum with movedKey := fun _ => [] }

def stringState : State (List Nat) Nat :=
  (mmLru.policy stringEnv).set stringEnv (State.empty (fun _ => default) {} {} 0) [71] 70 0

/-- The node of the popped key stays in the table: one node, no list entry. -/
theorem popLru_leaves_string_node :
    mmLru.Reachable stringEnv stringState ∧
      ((mmLru.policy stringEnv).popLru stringEnv stringState).1 = some ([71], 70) ∧
      ((mmLru.policy stringEnv).popLru stringEnv stringState).2.table = [0] ∧
      ((mmLru.policy stringEnv).popLru stringEnv stringState).2.retired = [0] ∧
      ((mmLru.policy stringEnv).popLru stringEnv stringState).2.linkedCount = 0 ∧
      ¬ mmLru.PopCorrect stringEnv stringState := by
  have popped : (mmLru.policy stringEnv).popLru stringEnv stringState =
      (some ([71], 70), ((mmLru.policy stringEnv).popLru stringEnv stringState).2) := rfl
  refine ⟨⟨fun _ => default, {}, {}, 0, .single ⟨.set [71] 70 0, nofun, rfl⟩⟩, rfl, rfl, rfl, rfl,
    fun correct => ?_⟩
  exact absurd (correct _ _ _ popped).size_eq (by decide)

end Strategy

end Lru.Mm
