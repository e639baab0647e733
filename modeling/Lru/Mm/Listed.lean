import Lru.Mm.Mm2q

/-!
# The lists by themselves

A load links items that the table may refuse. What then still holds of the lists does
not depend on the table, and a rebalancing of `mm_2q` neither loses nor gains a node.
-/

namespace Lru.Mm

variable {K V : Type} {env : Env K V} {s : State K V} {i : ItemId} {p q : QueueId}

open State List

/-- The lists by themselves are in order: no item twice, each in the list it names. -/
structure State.Listed (s : State K V) : Prop where
  nodup : ∀ q, (s.queue q).Nodup
  queueId : ∀ q, ∀ i ∈ s.queue q, (s.heap i).queueId = q
  lt : ∀ q, ∀ i ∈ s.queue q, i < s.next

theorem State.WellFormed.listed (wf : s.WellFormed env) : s.Listed where
  nodup := wf.queue_nodup
  queueId := wf.queue_id
  lt _ i hi := wf.table_lt i (wf.mem_table hi)

theorem State.Listed.of_core {t : State K V} (listed : s.Listed) (same : t.core = s.core) :
    t.Listed := by
  have queue : t.queue = s.queue := congrArg Core.queue same
  refine ⟨fun q => queue ▸ listed.nodup q, fun q i hi => ?_, fun q i hi => ?_⟩
  · rw [queue] at hi
    exact (congrArg Body.queueId (congrFun (congrArg Core.body same) i)).trans
      (listed.queueId q i hi)
  · rw [queue] at hi
    exact (listed.lt q i hi).trans_eq (congrArg Core.next same).symm

theorem linkedCount_setQueue (s : State K V) (q : QueueId) (l : List ItemId) :
    (s.setQueue q l).linkedCount + (s.queue q).length = s.linkedCount + l.length := by
  obtain rfl | rfl | rfl := queueId_cases q
  all_goals
    simp [linkedCount, setQueue]
    omega

/-- `t` is `s` with an item that was in no list at the tail of one. -/
structure State.AddsTail (s t : State K V) (i : ItemId) (q : QueueId) : Prop where
  apart : ∀ p, i ∉ s.queue p
  queue : ∀ p, t.queue p = s.queue p ++ if q = p then [i] else []
  home : (t.heap i).queueId = q
  bodies : ∀ j, j ≠ i → t.heap j = s.heap j
  lt : i < t.next
  next_le : s.next ≤ t.next

namespace State.AddsTail

variable {t : State K V} {j : ItemId}

theorem mem_queue (linked : s.AddsTail t i q) (hj : j ∈ t.queue p) :
    j ∈ s.queue p ∨ j = i ∧ q = p := by
  rw [linked.queue] at hj
  by_cases here : q = p <;> simpa [here] using hj

theorem old_body (linked : s.AddsTail t i q) (hj : j ∈ s.queue p) : t.heap j = s.heap j :=
  linked.bodies j fun same => linked.apart p (same ▸ hj)

theorem listed (linked : s.AddsTail t i q) (listed : s.Listed) : t.Listed where
  nodup p := by
    rw [linked.queue]
    split
    · refine nodup_append.mpr ⟨listed.nodup p, nodup_singleton i, ?_⟩
      rintro a ha b hb rfl
      exact linked.apart p (mem_singleton.mp hb ▸ ha)
    · rw [append_nil]
      exact listed.nodup p
  queueId p j hj := by
    obtain old | ⟨rfl, rfl⟩ := linked.mem_queue hj
    · rw [linked.old_body old]
      exact listed.queueId p j old
    · exact linked.home
  lt p j hj := by
    obtain old | ⟨rfl, -⟩ := linked.mem_queue hj
    · exact (listed.lt p j old).trans_le linked.next_le
    · exact linked.lt

theorem linkedCount_eq (linked : s.AddsTail t i q) : t.linkedCount = s.linkedCount + 1 := by
  simp only [linkedCount, linked.queue]
  obtain rfl | rfl | rfl := queueId_cases q
  all_goals
    simp
    omega

end State.AddsTail

section Moving

/-- Unlinking takes the item out of the only list that has it. -/
theorem State.Listed.unlink_queue (listed : s.Listed) :
    (s.unlink i).queue p = (s.queue p).erase i := by
  by_cases home : p = (s.heap i).queueId
  · subst home
    simp [unlink, setQueue]
  · have elsewhere : i ∉ s.queue p := fun h => home (listed.queueId p i h).symm
    simp [unlink, setQueue, home, erase_of_not_mem elsewhere]

theorem State.Listed.unlink (listed : s.Listed) : (s.unlink i).Listed where
  nodup p := by
    rw [listed.unlink_queue]
    exact (listed.nodup p).erase i
  queueId p j hj := by
    rw [listed.unlink_queue] at hj
    exact listed.queueId p j (mem_of_mem_erase hj)
  lt p j hj := by
    rw [listed.unlink_queue] at hj
    exact listed.lt p j (mem_of_mem_erase hj)

theorem State.Listed.unlink_linkedCount (listed : s.Listed) (hi : i ∈ s.queue p) :
    (s.unlink i).linkedCount + 1 = s.linkedCount := by
  have home := listed.queueId p i hi
  have count := linkedCount_setQueue s p ((s.queue p).erase i)
  have length := length_erase_of_mem hi
  have some := length_pos_of_mem hi
  rw [State.unlink, home]
  omega

theorem State.Listed.moveToQueue_adds (listed : s.Listed) (hi : i ∈ s.queue p) (q : QueueId) :
    (s.unlink i).AddsTail (s.moveToQueue i q true) i q where
  apart r h := by
    rw [listed.unlink_queue, (listed.nodup r).mem_erase_iff] at h
    exact h.1 rfl
  queue r := by
    by_cases target : q = r
    · subst target
      simp [moveToQueue, setQueue, modify]
    · simp [moveToQueue, setQueue, modify, target, Ne.symm target]
  home := by simp [moveToQueue, modify]
  bodies j ne := by simp [moveToQueue, setQueue, modify, ne]
  lt := listed.lt p i hi
  next_le := le_rfl

/-- Moving an item to the tail of another list, whatever the table says. -/
theorem moveToQueue_listed (listed : s.Listed) (hi : i ∈ s.queue p) :
    (s.moveToQueue i q true).Listed ∧ (s.moveToQueue i q true).linkedCount = s.linkedCount := by
  have moved := listed.moveToQueue_adds hi q
  exact ⟨moved.listed listed.unlink, moved.linkedCount_eq.trans (listed.unlink_linkedCount hi)⟩

end Moving

namespace Mm2q

/-- `rebalance` moves nodes between the lists. -/
theorem rebalance_listed (listed : s.Listed) :
    (rebalance env s).Listed ∧ (rebalance env s).linkedCount = s.linkedCount ∧
      (rebalance env s).table = s.table ∧ (rebalance env s).settings = s.settings := by
  refine rebalance_induct (I := fun t => t.Listed ∧ t.linkedCount = s.linkedCount ∧
    t.table = s.table ∧ t.settings = s.settings) (fun isTail h => ?_) ⟨listed, rfl, rfl, rfl⟩ env
  obtain ⟨moved, count⟩ := moveToQueue_listed h.1 (mem_of_getLast? isTail)
  exact ⟨moved, count.trans h.2.1, h.2.2⟩

end Mm2q

end Lru.Mm
