import Lru.Mm.Strategy

/-!
# The rebalancing of `mm_2q`

`rebalance` runs two loops, one for Warm and one for Hot, that move tails to the tail
of Cold until the list has its expected size. `Demoted` says what one loop leaves of
the three lists; the order of what stays, the sizes at the end and the independence of
the fuel follow from it.
-/

namespace Lru.Mm.Mm2q

variable {K V : Type} {env : Env K V} {s t u : State K V} {q : QueueId} {expected fuel n m : Nat}
  {i : ItemId}

open State Strategy

/-- `t` is `s` after the items of `q` beyond the first `expected` went to the tail of
Cold, the last one first. -/
structure Demoted (q : QueueId) (expected : Nat) (s t : State K V) : Prop where
  kept : t.queue q = (s.queue q).take expected
  cold : t.queue kQueueCold = s.queue kQueueCold ++ ((s.queue q).drop expected).reverse
  others : ∀ p, p ≠ q → p ≠ kQueueCold → t.queue p = s.queue p

theorem Demoted.of_short (short : (s.queue q).length ≤ expected) : Demoted q expected s s where
  kept := (List.take_of_length_le short).symm
  cold := by simp [List.drop_eq_nil_of_le short]
  others _ _ _ := rfl

/-- One round of the loop, followed by the rest of it. -/
theorem Demoted.of_round (wf : s.WellFormed env) (source : q ≠ kQueueCold)
    (isTail : s.tail q = some i) (long : expected < (s.queue q).length)
    (rest : Demoted q expected (s.moveToQueue i kQueueCold true) t) : Demoted q expected s t := by
  have split := queue_eq_moveToQueue_append wf isTail source true
  have beyond : expected ≤ ((s.moveToQueue i kQueueCold true).queue q).length := by
    rw [split, List.length_append, List.length_singleton] at long
    omega
  have elsewhere : i ∉ s.queue kQueueCold :=
    not_mem_other_queue wf (List.mem_of_getLast? isTail) source
  have longer : (s.moveToQueue i kQueueCold true).queue kQueueCold = s.queue kQueueCold ++ [i] := by
    rw [moveToQueue_queue_tail wf, List.erase_of_not_mem elsewhere]
  refine ⟨?_, ?_, fun p notSource notCold => ?_⟩
  · rw [rest.kept, split, List.take_append_of_le_length beyond]
  · rw [rest.cold, longer, split, List.drop_append_of_le_length beyond]
    simp
  · have away : i ∉ s.queue p :=
      not_mem_other_queue wf (List.mem_of_getLast? isTail) (Ne.symm notSource)
    rw [rest.others p notSource notCold, moveToQueue_queue_other wf notCold,
      List.erase_of_not_mem away]

/-- With enough fuel the loop runs to its end, and more fuel changes nothing. -/
theorem demoteTails_ends (wf : s.WellFormed env) (source : q ≠ kQueueCold)
    (enough : (s.queue q).length ≤ expected + fuel) :
    Demoted q expected s (demoteTails q expected fuel s) ∧
      ∀ more, demoteTails q expected (fuel + more) s = demoteTails q expected fuel s := by
  induction fuel generalizing s with
  | zero =>
    refine ⟨.of_short enough, fun more => ?_⟩
    cases more with
    | zero => rfl
    | succ more =>
      rw [Nat.add_zero] at enough
      rw [Nat.zero_add, demoteTails, demoteTails, if_neg (Nat.not_lt.mpr enough)]
  | succ fuel ih =>
    simp only [Nat.succ_add, demoteTails]
    split
    case isFalse short => exact ⟨.of_short (Nat.le_of_not_lt short), fun _ => rfl⟩
    case isTrue long =>
      cases isTail : s.tail q with
      | none =>
        rw [tail, List.getLast?_eq_none_iff] at isTail
        rw [isTail] at long
        simp at long
      | some i =>
        have moved := moveToQueue_moves wf (mem_of_tail wf isTail) kQueueCold true
        have shorter : ((s.moveToQueue i kQueueCold true).queue q).length ≤ expected + fuel := by
          rw [moveToQueue_queue_other wf source,
            List.length_erase_of_mem (List.mem_of_getLast? isTail)]
          omega
        obtain ⟨rest, same⟩ := ih moved.wf shorter
        exact ⟨.of_round wf source isTail long rest, same⟩

/-! ## Both loops -/

/-- The size that `rebalance` allows Warm in this state. -/
def expectedWarm (env : Env K V) (s : State K V) : Nat :=
  expectedQueueSize env s s.settings.config.warmRatio.toRat

/-- The size that `rebalance` allows Hot in this state. -/
def expectedHot (env : Env K V) (s : State K V) : Nat :=
  expectedQueueSize env s s.settings.config.hotRatio.toRat

theorem rebalance_of_unlimited (free : s.settings.maxSize = unlimited) :
    rebalance env s = s := if_pos free

/-- Warm is cut first, then Hot; the expected sizes are those of the state at entry. -/
theorem rebalance_eq (wf : s.WellFormed env) (finite : s.settings.maxSize ≠ unlimited)
    (moreWarm moreHot : Nat) :
    rebalance env s = demoteTails kQueueHot (expectedHot env s)
      ((s.queue kQueueHot).length + moreHot)
      (demoteTails kQueueWarm (expectedWarm env s) ((s.queue kQueueWarm).length + moreWarm) s) := by
  have source : kQueueWarm ≠ kQueueCold := by decide
  have warm := demoteTails_moves kQueueWarm (expectedWarm env s) (s.queue kQueueWarm).length wf
  have cut : Demoted kQueueWarm (expectedWarm env s) s _ :=
    (demoteTails_ends wf source (Nat.le_add_left _ _)).1
  rw [(demoteTails_ends wf source (Nat.le_add_left _ _)).2]
  generalize mid_eq : demoteTails kQueueWarm (expectedWarm env s) (s.queue kQueueWarm).length s =
    mid at warm cut
  have hot : mid.queue kQueueHot = s.queue kQueueHot := cut.others _ (by decide) (by decide)
  have same : expectedHot env mid = expectedHot env s := by
    rw [expectedHot, expectedQueueSize, size, warm.table_eq, warm.settings_eq]
    rfl
  have unfolded : rebalance env s =
      demoteTails kQueueHot (expectedHot env mid) (mid.queue kQueueHot).length mid := by
    rw [← mid_eq]
    exact if_neg finite
  rw [unfolded, same, hot, (demoteTails_ends warm.wf (by decide) (hot ▸ Nat.le_add_left _ _)).2]

theorem rebalance_demoted (wf : s.WellFormed env) (finite : s.settings.maxSize ≠ unlimited) :
    ∃ mid, Demoted kQueueWarm (expectedWarm env s) s mid ∧
      Demoted kQueueHot (expectedHot env s) mid (rebalance env s) := by
  have cut : Demoted kQueueWarm (expectedWarm env s) s _ :=
    (demoteTails_ends wf (by decide) (Nat.le_add_left _ _)).1
  have warm := demoteTails_moves kQueueWarm (expectedWarm env s) (s.queue kQueueWarm).length wf
  refine ⟨_, cut, ?_⟩
  rw [rebalance_eq wf finite 0 0]
  refine (demoteTails_ends warm.wf (by decide) ?_).1
  rw [cut.others _ (by decide) (by decide)]
  exact Nat.le_add_left _ _

/-- What a rebalancing keeps, and the sizes it ends with under a finite `max_size`. -/
structure Rebalanced (env : Env K V) (s t : State K V) : Prop extends KeepsResidents s t where
  /-- The items that stay in a list stay in their order. -/
  order : ∀ q, ((t.queue q).filter fun i => i ∈ s.queue q).Sublist (s.queue q)
  hot_le : s.settings.maxSize ≠ unlimited → (t.queue kQueueHot).length ≤ expectedHot env t
  warm_le : s.settings.maxSize ≠ unlimited → (t.queue kQueueWarm).length ≤ expectedWarm env t

theorem queue_cases : ∀ q : QueueId, q = kQueueHot ∨ q = kQueueWarm ∨ q = kQueueCold :=
    queueId_cases

/-- Of the lists after both loops, what was there before is in its old order. -/
theorem Demoted.order (wf : s.WellFormed env)
    (warm : Demoted kQueueWarm n s t) (hot : Demoted kQueueHot m t u) :
    ((u.queue q).filter fun i => i ∈ s.queue q).Sublist (s.queue q) := by
  have hotSame : t.queue kQueueHot = s.queue kQueueHot := warm.others _ (by decide) (by decide)
  obtain rfl | rfl | rfl := queue_cases q
  · refine List.filter_sublist.trans ?_
    rw [hot.kept, hotSame]
    exact List.take_sublist _ _
  · refine List.filter_sublist.trans ?_
    rw [hot.others _ (by decide) (by decide), warm.kept]
    exact List.take_sublist _ _
  · -- what was appended to Cold comes from Warm and Hot
    have new : ∀ p, p ≠ kQueueCold → ∀ k, ((s.queue p).drop k).reverse.filter
        (fun i => i ∈ s.queue kQueueCold) = [] := by
      intro p other k
      refine List.filter_eq_nil_iff.mpr fun i hi => ?_
      have source := List.mem_of_mem_drop (List.mem_reverse.mp hi)
      simpa using not_mem_other_queue wf source other
    rw [hot.cold, warm.cold, hotSame, List.filter_append, List.filter_append,
      new kQueueWarm (by decide), new kQueueHot (by decide), List.append_nil, List.append_nil]
    exact List.filter_sublist

theorem expectedHot_rebalance (wf : s.WellFormed env) :
    expectedHot env (rebalance env s) = expectedHot env s := by
  have moved := rebalance_moves wf
  rw [expectedHot, expectedQueueSize, size, moved.table_eq, moved.settings_eq]
  rfl

theorem expectedWarm_rebalance (wf : s.WellFormed env) :
    expectedWarm env (rebalance env s) = expectedWarm env s := by
  have moved := rebalance_moves wf
  rw [expectedWarm, expectedQueueSize, size, moved.table_eq, moved.settings_eq]
  rfl

/-- The head of Warm is the last item that `rebalance` moves on to Cold. -/
theorem rebalance_warm_head {rest : List ItemId} (wf : s.WellFormed env)
    (head : s.queue kQueueWarm = i :: rest) :
    (i ∈ (rebalance env s).queue kQueueWarm ↔
      s.settings.maxSize = unlimited ∨ 0 < expectedWarm env s) ∧
      (i ∈ (rebalance env s).queue kQueueWarm ∨ i ∈ (rebalance env s).queue kQueueCold) := by
  by_cases free : s.settings.maxSize = unlimited
  · rw [rebalance_of_unlimited free]
    simp [free, head]
  · obtain ⟨mid, warm, hot⟩ := rebalance_demoted wf free
    rw [hot.others _ (by decide) (by decide), warm.kept, hot.cold, warm.cold, head]
    cases expected : expectedWarm env s with
    | zero => simp [free]
    | succ n => simp

theorem rebalance_rebalanced (wf : s.WellFormed env) : Rebalanced env s (rebalance env s) := by
  have moved := rebalance_moves wf
  refine ⟨moved.keepsResidents, fun q => ?_, fun finite => ?_, fun finite => ?_⟩
  · by_cases free : s.settings.maxSize = unlimited
    · rw [rebalance_of_unlimited free]
      exact List.filter_sublist
    · obtain ⟨mid, warm, hot⟩ := rebalance_demoted wf free
      exact warm.order wf hot
  · obtain ⟨mid, -, hot⟩ := rebalance_demoted wf finite
    rw [hot.kept, expectedHot_rebalance wf]
    exact List.length_take_le _ _
  · obtain ⟨mid, warm, hot⟩ := rebalance_demoted wf finite
    rw [hot.others _ (by decide) (by decide), warm.kept, expectedWarm_rebalance wf]
    exact List.length_take_le _ _

/-- In every well-formed state both loops of `rebalance` come to their end, and it keeps
the residents, the order of what stays in a list and the queue ids. Under a finite
`max_size` Hot and Warm end within their expected sizes; without a limit nothing moves. -/
theorem rebalance_spec (wf : s.WellFormed env) :
    Rebalanced env s (rebalance env s) ∧
      (s.settings.maxSize = unlimited → rebalance env s = s) ∧
      (s.settings.maxSize ≠ unlimited → ∀ moreWarm moreHot, rebalance env s =
        demoteTails kQueueHot (expectedHot env s) ((s.queue kQueueHot).length + moreHot)
          (demoteTails kQueueWarm (expectedWarm env s)
            ((s.queue kQueueWarm).length + moreWarm) s)) :=
  ⟨rebalance_rebalanced wf, rebalance_of_unlimited, rebalance_eq wf⟩

/-- `mm_2q` with this `max_size` after `set(1, 10)` and `set(2, 20)`. -/
def hotPair (maxSize : Nat) : State Nat Nat :=
  let p := policy Strategy.intEnv
  p.set Strategy.intEnv (p.set Strategy.intEnv
    (State.empty (fun _ => default) { maxSize := maxSize } {} 0) 1 10 0) 2 20 0

theorem hotPair_reachable {maxSize : Nat} : mm2q.Reachable intEnv (hotPair maxSize) := by
  have executed : Transition.runWhere (mm2q.step intEnv)
      (fun _ op => !op.isPopLru) (State.empty (fun _ => default) { maxSize := maxSize } {} 0)
      [.set 1 10 0, .set 2 20 0] = some (hotPair maxSize) := rfl
  exact .of_run executed

/-- `max_size(10)` leaves both items in Hot, until the next rebalance. -/
def limitedPair : State Nat Nat := (policy intEnv).maxSize (hotPair unlimited) 10

theorem limitedPair_reachable : mm2q.Reachable intEnv limitedPair := by
  have executed : Transition.runWhere (mm2q.step intEnv)
      (fun _ op => !op.isPopLru) (State.empty (fun _ => default) { maxSize := unlimited } {} 0)
      [.set 1 10 0, .set 2 20 0, .maxSize 10] = some limitedPair := rfl
  exact .of_run executed

theorem limitedPair_rebalanced :
    limitedPair.queue kQueueHot = [1, 0] ∧
      Rebalanced intEnv limitedPair (rebalance intEnv limitedPair) ∧
      (rebalance intEnv limitedPair).queue kQueueHot = [] ∧
      (rebalance intEnv limitedPair).queue kQueueCold = [0, 1] :=
  ⟨by decide +kernel, (rebalance_spec limitedPair_reachable.wf).1, by decide +kernel,
    by decide +kernel⟩

/-- Without a limit two items stay in Hot, where none is expected. -/
theorem unlimited_hot_stays :
    (hotPair unlimited).WellFormed intEnv ∧
      (rebalance intEnv (hotPair unlimited)).queue kQueueHot = [1, 0] ∧
      expectedHot intEnv (rebalance intEnv (hotPair unlimited)) = 0 :=
  ⟨hotPair_reachable.wf, by decide +kernel, by decide +kernel⟩

end Lru.Mm.Mm2q
