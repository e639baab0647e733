import Lru.Mm.Common

/-!
# What the shared parts do to the linked items

One relation for each kind of effect, closed under the bookkeeping around it:
`Removes` for the removal of one item, `Evicts` for an eviction attempt,
`Inserts` for a new item, `Rearranges` for moves between and inside the lists.
-/

namespace Lru.Mm

open State

variable {K V : Type} {env : Env K V} {s t u : State K V} {i v : ItemId} {q p : QueueId} {key : K}
  {value : V} {expiryNs fuel : Nat} {toTail : Bool}

open State Function List Option

/-! ## Removal of one item -/

/-- `t` lacks exactly item `i` of `s`. -/
structure Removes (env : Env K V) (s t : State K V) (i : ItemId) : Prop extends
    Shrinks env s t where
  mem_before : i ∈ s.table
  table_eq : t.table = s.table.erase i

/-- A strategy's own unlinking: item `i` leaves its list, and nothing of another
item changes but its hook. -/
structure Unlinks (s t : State K V) (i : ItemId) : Prop where
  core_eq : ∃ b, t.core = (s.unlink i).core.setBody i b
  settings_eq : t.settings = s.settings
  failed_eq : t.stats.evictionFailed = s.stats.evictionFailed
  rejects_eq : t.rejects = s.rejects

theorem Removes.length_eq (h : Removes env s t i) : t.table.length + 1 = s.table.length := by
  rw [h.table_eq, length_erase_of_mem h.mem_before]
  exact Nat.sub_add_cancel (length_pos_of_mem h.mem_before)

theorem Removes.not_mem (h : Removes env s t i) (wf : s.WellFormed env) : i ∉ t.table := by
  rw [h.table_eq]
  exact wf.table_nodup.not_mem_erase

theorem Removes.of_quiet (before : Quiet s t) (wf : s.WellFormed env)
    (h : Removes env t u i) : Removes env s u i where
  toShrinks := (before.shrinks wf).trans h.toShrinks
  mem_before := before.table_eq ▸ h.mem_before
  table_eq := before.table_eq ▸ h.table_eq

theorem Removes.quiet (h : Removes env s t i) (after : Quiet t u) : Removes env s u i where
  toShrinks := h.toShrinks.quiet after
  mem_before := h.mem_before
  table_eq := after.table_eq.trans h.table_eq

theorem core_eraseKey_unlink [DecidableEq K] (wf : s.WellFormed env) (hi : i ∈ s.table)
    (hk : (s.heap i).key = key) : ((s.eraseKey env key).unlink i).core = s.core.drop i := by
  simp only [core, Core.drop, Core.mk.injEq]
  exact ⟨rfl, rfl, eraseKey_table wf hi hk, rfl, rfl, rfl⟩

/-- Erasing an item's key from the table and unlinking it removes it. -/
theorem removes_of_unlinks [DecidableEq K] (wf : s.WellFormed env) (hi : i ∈ s.table)
    (hk : (s.heap i).key = key) (h : Unlinks (s.eraseKey env key) t i) : Removes env s t i := by
  obtain ⟨b, core⟩ := h.core_eq
  rw [core_eraseKey_unlink wf hi hk] at core
  have gone : i ∉ (s.core.drop i).table := wf.table_nodup.not_mem_erase
  have table : t.table = s.table.erase i := congrArg Core.table core
  have body : ∀ j, j ≠ i → (t.heap j).toBody = (s.heap j).toBody := fun j hj => by
    have := congrFun (congrArg Core.body core) j
    simpa [Core.setBody, Core.drop, hj, State.core] using this
  refine ⟨⟨?_, fun j hj => ?_, fun j hj => ?_, ?_, h.settings_eq, h.failed_eq, h.rejects_eq⟩,
    hi, table⟩
  · unfold State.WellFormed
    rw [core]
    exact (wf.drop hi).setBody_of_not_mem gone
  · exact mem_of_mem_erase (table ▸ hj)
  · refine congrArg Body.content (body j ?_)
    rintro rfl
    rw [table] at hj
    exact wf.table_nodup.not_mem_erase hj
  · exact congrArg Core.next core

/-- What was written to the removed item before does not matter. -/
theorem Removes.of_modify {f : Item K V → Item K V} (wf : s.WellFormed env)
    (h : Removes env (s.modify i f) t i) : Removes env s t i := by
  refine ⟨⟨h.wf, h.mem, fun j hj => ?_, h.next_eq, h.settings_eq, h.failed_eq, h.rejects_eq⟩,
    h.mem_before, h.table_eq⟩
  have other : j ≠ i := by
    rintro rfl
    rw [h.table_eq] at hj
    exact wf.table_nodup |>.not_mem_erase hj
  refine (h.content j hj).trans ?_
  simp [State.modify, other]

theorem Removes.retire (h : Removes env s t i) (wf : s.WellFormed env) :
    Removes env s (t.retire i) i := by
  have lt : i < t.next := h.next_eq ▸ wf.table_lt i h.mem_before
  exact ⟨⟨h.wf.retire lt (h.not_mem wf), h.mem, h.content, h.next_eq,
    h.settings_eq, h.failed_eq, h.rejects_eq⟩, h.mem_before, h.table_eq⟩

/-- The removed item may stay pending while it is pinned. -/
theorem Removes.postpone (h : Removes env s t i) (wf : s.WellFormed env) :
    Removes env s { t with pendingDeletion := t.pendingDeletion ++ [i] } i := by
  have lt : i < t.next := h.next_eq ▸ wf.table_lt i h.mem_before
  exact ⟨⟨h.wf.postpone lt (h.not_mem wf), h.mem, h.content, h.next_eq,
    h.settings_eq, h.failed_eq, h.rejects_eq⟩, h.mem_before, h.table_eq⟩

theorem Unlinks.unlink : Unlinks s (s.unlink i) i := by
  refine ⟨⟨(s.heap i).toBody, ?_⟩, rfl, rfl, rfl⟩
  simp only [Core.setBody, core, Core.mk.injEq, and_true]
  exact (update_eq_self i _).symm

theorem Unlinks.quiet (h : Unlinks s t i) (after : Quiet t u) : Unlinks s u i := by
  obtain ⟨b, core⟩ := h.core_eq
  exact ⟨⟨b, after.core_eq.trans core⟩, after.settings_eq.trans h.settings_eq,
    after.failed_eq.trans h.failed_eq, after.rejects_eq.trans h.rejects_eq⟩

theorem core_unlink :
    (s.unlink i).core = s.core.setQueue (s.core.body i).queueId
      ((s.core.queue (s.core.body i).queueId).erase i) := rfl

theorem Unlinks.table_eq (h : Unlinks s t i) : t.table = s.table := by
  obtain ⟨b, core⟩ := h.core_eq
  exact congrArg Core.table core

theorem Unlinks.of_quiet (before : Quiet s t) (h : Unlinks t u i) : Unlinks s u i := by
  obtain ⟨b, core⟩ := h.core_eq
  refine ⟨⟨b, ?_⟩, h.settings_eq.trans before.settings_eq, h.failed_eq.trans before.failed_eq,
    h.rejects_eq.trans before.rejects_eq⟩
  rw [core, core_unlink, core_unlink, before.core_eq]

theorem Unlinks.modify (h : Unlinks s t i) (f : Item K V → Item K V) :
    Unlinks s (t.modify i f) i := by
  obtain ⟨b, core⟩ := h.core_eq
  refine ⟨⟨(f (t.heap i)).toBody, ?_⟩, h.settings_eq, h.failed_eq, h.rejects_eq⟩
  have fields := Core.mk.inj core
  simp only [State.core, State.modify, Core.setBody, Core.mk.injEq]
  refine ⟨?_, fields.2⟩
  funext j
  by_cases hj : j = i
  · subst hj; simp
  · have other := congrFun fields.1 j
    rw [update_of_ne hj] at other ⊢
    rw [update_of_ne hj]
    exact other

/-! ## Evictions -/

theorem searchVictim_spec {tries : Nat} {l : List ItemId}
    (found : s.searchVictim tries l = some v) :
    v ∈ l ∧ (s.heap v).accessRef = 0 ∧ s.vetoed v = false := by
  induction l generalizing tries with
  | nil => simp [searchVictim] at found
  | cons i rest ih =>
    rw [searchVictim] at found
    split at found
    case isTrue =>
      exact (ih found).imp_left (mem_cons_of_mem i)
    case isFalse unpinned =>
      split at found
      case isTrue =>
        split at found
        · cases found
        · exact (ih found).imp_left (mem_cons_of_mem i)
      case isFalse allowed =>
        cases found
        refine ⟨mem_cons_self .., ?_, by simpa using allowed⟩
        simpa [Body.hasActiveHandle] using unpinned

theorem canMarkForEviction_of_mem (wf : s.WellFormed env) (hv : v ∈ s.table)
    (unpinned : (s.heap v).accessRef = 0) : (s.heap v).canMarkForEviction = true := by
  have linked : (s.heap v).linked = true := wf.linked v hv
  simp [Body.canMarkForEviction, Body.hasActiveHandle, linked, unpinned]

/-- Evicting a linked item without handles removes it. -/
theorem evictVictim_removes [DecidableEq K] {remove : State K V → ItemId → State K V}
    (wf : s.WellFormed env) (hv : v ∈ s.table) (unpinned : (s.heap v).accessRef = 0)
    (unlinks : ∀ u : State K V, (u.heap v).linked = true → Unlinks u (remove u v) v) :
    Removes env s (s.evictVictim env remove v) v := by
  have linked : (s.heap v).linked = true := wf.linked v hv
  rw [evictVictim, if_pos (canMarkForEviction_of_mem wf hv unpinned)]
  -- Up to the erasure only counters and events change.
  set counted := ((s.subMemory (s.itemMemory env v)).modifyStats fun x =>
    { x with evictions := x.evictions + 1, evictionsCapacity := x.evictionsCapacity + 1 })
    with counted_def
  set reported := counted.collect (.evict (s.heap v).key (counted.heap v).value) with reported_def
  have toCounted : Quiet s counted := (Quiet.subMemory _).trans (.modifyStats fun _ => rfl)
  have quiet : Quiet s reported := toCounted.trans (.collect rfl)
  have body := quiet.body_eq v
  have key : (reported.heap v).key = (s.heap v).key := congrArg Body.key body
  have mem : v ∈ reported.table := quiet.table_eq ▸ hv
  have linkedBefore : ((reported.eraseKey env (s.heap v).key).heap v).linked = true :=
    (congrArg Body.linked body).trans linked
  have unlinked := (unlinks _ linkedBefore).modify fun item =>
    { item with
      value := if counted.settings.callbacks.eviction then env.movedValue item.value
        else item.value }
  have removed := removes_of_unlinks (quiet.wf wf) mem key unlinked
  exact .of_quiet quiet wf (removed.retire (quiet.wf wf))

/-! ## Rearrangements -/

/-- `t` links the same items as `s`, perhaps in other places. -/
structure Rearranges (env : Env K V) (s t : State K V) : Prop extends Shrinks env s t where
  table_eq : t.table = s.table

theorem Rearranges.of_quiet (h : Quiet s t) (wf : s.WellFormed env) : Rearranges env s t :=
  ⟨h.shrinks wf, h.table_eq⟩

theorem Rearranges.refl (wf : s.WellFormed env) : Rearranges env s s := .of_quiet .refl wf

theorem Rearranges.trans (first : Rearranges env s t) (second : Rearranges env t u) :
    Rearranges env s u :=
  ⟨first.toShrinks.trans second.toShrinks, second.table_eq.trans first.table_eq⟩

theorem Rearranges.quiet (first : Rearranges env s t) (second : Quiet t u) : Rearranges env s u :=
  first.trans (.of_quiet second first.wf)

theorem Rearranges.mem_iff (h : Rearranges env s t) : i ∈ t.table ↔ i ∈ s.table := by
  rw [h.table_eq]

theorem Removes.after (before : Rearranges env s t) (h : Removes env t u i) :
    Removes env s u i where
  toShrinks := before.toShrinks.trans h.toShrinks
  mem_before := before.mem_iff.mp h.mem_before
  table_eq := before.table_eq ▸ h.table_eq

theorem Shrinks.accessRef (h : Shrinks env s t) (hi : i ∈ t.table) :
    (t.heap i).accessRef = (s.heap i).accessRef :=
  congrArg (fun c => c.2.2.2) (h.content i hi)

theorem Rearranges.accessRef (h : Rearranges env s t) (hi : i ∈ s.table) :
    (t.heap i).accessRef = (s.heap i).accessRef :=
  h.toShrinks.accessRef (h.mem_iff.mpr hi)

section Lookups

variable [DecidableEq K] (wf : s.WellFormed env)
include wf

theorem Shrinks.find_eq_none (h : Shrinks env s t) (absent : s.find env key = none) :
    t.find env key = none := by
  refine (find_eq_none_iff h.wf).mpr fun i hi => ?_
  have same : (t.heap i).key = (s.heap i).key := congrArg Prod.fst (h.content i hi)
  rw [same]
  exact (find_eq_none_iff wf).mp absent i (h.mem i hi)

theorem Shrinks.find_of_mem (h : Shrinks env s t) (found : s.find env key = some i)
    (kept : i ∈ t.table) : t.find env key = some i := by
  have same : (t.heap i).key = (s.heap i).key := congrArg Prod.fst (h.content i kept)
  exact (find_eq_some_iff h.wf).mpr ⟨kept, same.trans ((find_eq_some_iff wf).mp found).2⟩

/-- What is found afterwards was found before. -/
theorem Shrinks.find_of_find (h : Shrinks env s t) (found : t.find env key = some i) :
    s.find env key = some i := by
  obtain ⟨hi, hk⟩ := (find_eq_some_iff h.wf).mp found
  have same : (t.heap i).key = (s.heap i).key := congrArg Prod.fst (h.content i hi)
  exact (find_eq_some_iff wf).mpr ⟨h.mem i hi, same.symm.trans hk⟩

theorem Shrinks.entry_of_mem (h : Shrinks env s t) (found : s.find env key = some i)
    (kept : i ∈ t.table) : t.entry env key = s.entry env key := by
  rw [entry, entry, h.find_of_mem wf found kept, found]
  exact congrArg some (h.content i kept)

theorem Removes.find_eq_none (h : Removes env s t i) : t.find env (s.heap i).key = none := by
  refine (find_eq_none_iff h.wf).mpr fun j hj same => ?_
  have before : (t.heap j).key = (s.heap j).key := congrArg Prod.fst (h.content j hj)
  have j_eq : j = i := wf.key_inj j (h.mem j hj) i h.mem_before (before.symm.trans same)
  exact h.not_mem wf (j_eq ▸ hj)

theorem Removes.entry_eq (h : Removes env s t i) (other : key ≠ (s.heap i).key) :
    t.entry env key = s.entry env key := by
  cases found : s.find env key with
  | none =>
    rw [entry, entry, found, h.toShrinks.find_eq_none wf found]
    rfl
  | some j =>
    obtain ⟨hj, hk⟩ := (find_eq_some_iff wf).mp found
    have different : j ≠ i := by
      rintro rfl
      exact other hk.symm
    refine h.toShrinks.entry_of_mem wf found ?_
    rw [h.table_eq]
    exact (mem_erase_of_ne different).mpr hj

/-- A rearrangement does not change what a lookup finds. -/
theorem Rearranges.find_eq (h : Rearranges env s t) : t.find env key = s.find env key := by
  cases found : s.find env key with
  | none => exact h.toShrinks.find_eq_none wf found
  | some i =>
    exact h.toShrinks.find_of_mem wf found (h.mem_iff.mpr ((find_eq_some_iff wf).mp found).1)

theorem Rearranges.entry_eq (h : Rearranges env s t) : t.entry env key = s.entry env key := by
  cases found : s.find env key with
  | none =>
    rw [entry, entry, h.find_eq wf, found]
    rfl
  | some i =>
    exact h.toShrinks.entry_of_mem wf found (h.mem_iff.mpr ((find_eq_some_iff wf).mp found).1)

end Lookups

theorem Rearranges.cleanup (wf : s.WellFormed env) : Rearranges env s s.cleanupPendingDeletion :=
  ⟨cleanup_shrinks wf, cleanup_table⟩

/-- A rearrangement that touches neither counters nor events. -/
structure Moves (env : Env K V) (s t : State K V) : Prop extends Rearranges env s t where
  stats_eq : t.stats = s.stats
  events_eq : t.events = s.events

theorem Moves.of_unseen (h : Unseen s t) (wf : s.WellFormed env) : Moves env s t :=
  ⟨.of_quiet h.quiet wf, h.stats_eq, h.events_eq⟩

theorem Moves.refl (wf : s.WellFormed env) : Moves env s s := .of_unseen .refl wf

theorem Moves.trans (first : Moves env s t) (second : Moves env t u) : Moves env s u :=
  ⟨first.toRearranges.trans second.toRearranges, second.stats_eq.trans first.stats_eq,
    second.events_eq.trans first.events_eq⟩

theorem Moves.unseen (first : Moves env s t) (second : Unseen t u) : Moves env s u :=
  first.trans (.of_unseen second first.wf)

theorem mem_of_queue (wf : s.WellFormed env) (hi : i ∈ s.queue q) : i ∈ s.table := wf.mem_table hi

theorem mem_of_tail (wf : s.WellFormed env) (hi : s.tail q = some i) : i ∈ s.table :=
  mem_of_queue wf (mem_of_getLast? hi)

theorem not_mem_other_queue {q : QueueId} (wf : s.WellFormed env) (hi : i ∈ s.queue p)
    (other : p ≠ q) : i ∉ s.queue q := fun h =>
  other ((wf.queue_id p i hi).symm.trans (wf.queue_id q i h))

theorem mem_queue_iff (wf : s.WellFormed env) (q : QueueId) (i : ItemId) :
    i ∈ s.queue q ↔ i ∈ s.table ∧ (s.heap i).queueId = q := by
  constructor
  · exact fun hi => ⟨mem_of_queue wf hi, wf.queue_id q i hi⟩
  · rintro ⟨hi, rfl⟩
    exact wf.mem_queue hi

/-- The residents are those of before with their content, each in the one list that its
`queue_id` names; only places in the lists differ. -/
structure KeepsResidents (s t : State K V) : Prop where
  residents : ∀ i, i ∈ t.table ↔ i ∈ s.table
  content : ∀ i ∈ s.table, (t.heap i).content = (s.heap i).content
  linked_iff : ∀ q i, i ∈ t.queue q ↔ i ∈ t.table ∧ (t.heap i).queueId = q
  nodup : ∀ q, (t.queue q).Nodup

theorem Moves.keepsResidents (h : Moves env s t) : KeepsResidents s t where
  residents _ := h.mem_iff
  content i hi := h.content i (h.mem_iff.mpr hi)
  linked_iff := mem_queue_iff h.wf
  nodup := h.wf.queue_nodup

section Placing

variable (wf : s.WellFormed env)

include wf

theorem moveToHead_moves (hi : i ∈ s.table) : Moves env s (s.moveToHead i) := by
  have linked := wf.mem_queue hi
  have perm := (perm_cons_erase linked).symm
  exact ⟨⟨.of_core (wf.reorder perm) (fun _ h => h) (fun _ _ => rfl) rfl
    ⟨rfl, rfl, rfl⟩, rfl⟩, rfl, rfl⟩

/-- Unlinking erases the item from whatever list holds it. -/
theorem unlink_queue : (s.unlink i).queue q = (s.queue q).erase i := by
  by_cases home : q = (s.heap i).queueId
  · subst home
    simp [unlink, setQueue]
  · have elsewhere : i ∉ s.queue q := fun h => home (wf.queue_id q i h).symm
    simp [unlink, setQueue, home, erase_of_not_mem elsewhere]

theorem moveToQueue_queue_other {q : QueueId} (other : p ≠ q) :
    (s.moveToQueue i q toTail).queue p = (s.queue p).erase i := by
  rw [← unlink_queue wf]
  simp [State.moveToQueue, State.modify, State.setQueue, other]

theorem moveToQueue_queue_head : (s.moveToQueue i q false).queue q = i :: (s.queue q).erase i := by
  rw [← unlink_queue wf]
  simp [State.moveToQueue, State.modify, State.setQueue]

theorem moveToQueue_queue_tail : (s.moveToQueue i q true).queue q = (s.queue q).erase i ++ [i] := by
  rw [← unlink_queue wf]
  simp [State.moveToQueue, State.modify, State.setQueue]

/-- Moving the tail away shortens the list by it. -/
theorem queue_eq_moveToQueue_append {q : QueueId} (isTail : s.tail q = some i) (other : q ≠ p)
    (toTail : Bool) : s.queue q = (s.moveToQueue i p toTail).queue q ++ [i] := by
  obtain ⟨front, split⟩ := getLast?_eq_some_iff.mp isTail
  have distinct : (s.queue q).Nodup := wf.queue_nodup q
  have apart : i ∉ front := by
    rw [split] at distinct
    exact fun h => (nodup_append.mp distinct).2.2 i h i (by simp) rfl
  rw [moveToQueue_queue_other wf other, split, erase_append_right _ apart]
  simp

end Placing

theorem moveToQueue_accessRef {i j : ItemId} :
    ((s.moveToQueue i q toTail).heap j).accessRef = (s.heap j).accessRef := by
  by_cases same : j = i
  · subst same
    simp [State.moveToQueue, State.modify, State.setQueue, State.unlink]
  · simp [State.moveToQueue, State.modify, State.setQueue, State.unlink, same]

theorem moveToQueue_moves (wf : s.WellFormed env) (hi : i ∈ s.table) (q : QueueId)
    (toTail : Bool) : Moves env s (s.moveToQueue i q toTail) := by
  set rest := (s.unlink i).queue q with rest_def
  have rest_eq : rest = (s.queue q).erase i := unlink_queue wf
  have perm : (if toTail then rest ++ [i] else i :: rest).Perm (i :: (s.queue q).erase i) := by
    rw [rest_eq]
    split
    · exact perm_append_singleton _ _
    · exact .refl _
  have body : ∀ j, ((s.moveToQueue i q toTail).heap j).toBody =
      if j = i then { (s.heap i).toBody with queueId := q } else (s.heap j).toBody := by
    intro j
    by_cases hj : j = i
    · subst hj
      simp [State.moveToQueue, State.modify, State.setQueue, State.unlink]
    · simp [State.moveToQueue, State.modify, State.setQueue, State.unlink, hj]
  have core : (s.moveToQueue i q toTail).core =
      s.core.transfer i q (if toTail then rest ++ [i] else i :: rest) := by
    refine Core.mk.injEq .. ▸ ⟨?_, rfl, rfl, rfl, rfl, rfl⟩
    funext j
    rw [body]
    simp only [update_apply]
    rfl
  refine ⟨⟨.of_core ?_ (fun _ h => h) (fun j _ => ?_) rfl ⟨rfl, rfl, rfl⟩, rfl⟩, rfl, rfl⟩
  · unfold State.WellFormed
    rw [core]
    exact wf.transfer hi perm
  · unfold Body.content
    rw [body]
    split
    case isTrue same => rw [same]
    case isFalse => rfl

/-! ## Searching a list -/

section Search

variable {l : List ItemId} {tries : Nat}

/-- A veto depends on the settings and the content of the item. -/
theorem vetoed_congr {i : ItemId} (settings : t.settings = s.settings)
    (content : (t.heap i).content = (s.heap i).content) : t.vetoed i = s.vetoed i := by
  simp only [Body.content, Prod.mk.injEq] at content
  unfold vetoed
  rw [settings, content.1, content.2.1]

/-- The search reads the settings and the content of the items. -/
theorem searchVictim_congr (settings : t.settings = s.settings)
    (content : ∀ i ∈ l, (t.heap i).content = (s.heap i).content) (tries : Nat) :
    t.searchVictim tries l = s.searchVictim tries l := by
  induction l generalizing tries with
  | nil => rfl
  | cons i rest ih =>
    have same := content i mem_cons_self
    have veto := vetoed_congr settings same
    simp only [Body.content, Prod.mk.injEq] at same
    have pinned : (t.heap i).hasActiveHandle = (s.heap i).hasActiveHandle := by
      simp only [Body.hasActiveHandle, same.2.2.2]
    have later := ih fun j hj => content j (mem_cons_of_mem i hj)
    simp only [searchVictim, veto, pinned, settings, later]

theorem searchVictim_cleanup :
    s.cleanupPendingDeletion.searchVictim tries l = s.searchVictim tries l :=
  searchVictim_congr (cleanup_settings s)
    (fun _ _ => by rw [cleanup_heap]) tries

theorem searchVictim_cons_eq_none_iff {i : ItemId} : s.searchVictim tries (i :: l) = none ↔
    if (s.heap i).hasActiveHandle then s.searchVictim tries l = none
    else s.vetoed i = true ∧ (s.settings.config.evictionSearchTries ≤ tries + 1 ∨
      s.searchVictim (tries + 1) l = none) := by
  rw [searchVictim]
  split_ifs <;> simp_all

/-- A search that used up more of its tries finds no more. -/
theorem searchVictim_eq_none_of_le {tries more : Nat} (le : tries ≤ more)
    (none : s.searchVictim tries l = none) : s.searchVictim more l = Option.none := by
  induction l generalizing tries more with
  | nil => rfl
  | cons i rest ih =>
    rw [searchVictim_cons_eq_none_iff] at none ⊢
    split_ifs at none ⊢
    · exact ih le none
    · exact none.imp_right (Or.imp (by omega) (ih (by omega)))

theorem searchVictim_append_eq_none {a b : List ItemId} (first : s.searchVictim tries a = none)
    (second : s.searchVictim 0 b = none) : s.searchVictim tries (a ++ b) = none := by
  induction a generalizing tries with
  | nil => exact searchVictim_eq_none_of_le (Nat.zero_le _) second
  | cons i rest ih =>
    rw [cons_append, searchVictim_cons_eq_none_iff]
    rw [searchVictim_cons_eq_none_iff] at first
    split_ifs at first ⊢
    · exact ih first
    · exact first.imp_right (Or.imp_right ih)

theorem searchVictim_eq_none_of_append {a b : List ItemId}
    (none : s.searchVictim tries (a ++ b) = none) : s.searchVictim tries a = Option.none := by
  induction a generalizing tries with
  | nil => rfl
  | cons i rest ih =>
    rw [cons_append, searchVictim_cons_eq_none_iff] at none
    rw [searchVictim_cons_eq_none_iff]
    split_ifs at none ⊢
    · exact ih none
    · exact none.imp_right (Or.imp_right ih)

theorem searchQueue_congr (heap : t.heap = s.heap) (settings : t.settings = s.settings)
    (queue : t.queue q = s.queue q) : t.searchQueue q = s.searchQueue q := by
  unfold searchQueue
  rw [queue, searchVictim_congr settings fun _ _ => by rw [heap]]

theorem searchQueue_cleanup : s.cleanupPendingDeletion.searchQueue q = s.searchQueue q :=
  searchQueue_congr (cleanup_heap s) (cleanup_settings s)
    (by rw [cleanup_queue])

theorem searchQueue_spec (wf : s.WellFormed env) (found : s.searchQueue q = some v) :
    v ∈ s.table ∧ (s.heap v).accessRef = 0 := by
  obtain ⟨inList, unpinned, -⟩ := searchVictim_spec found
  exact ⟨mem_of_queue wf (mem_reverse.mp inList), unpinned⟩

theorem unpinnedFrom_spec (found : s.unpinnedFrom tries l = some v) :
    v ∈ l ∧ (s.heap v).accessRef = 0 := by
  induction l generalizing tries with
  | nil => cases found
  | cons i rest ih =>
    rw [unpinnedFrom] at found
    split at found
    · split at found
      · cases found
      · exact (ih found).imp_left (mem_cons_of_mem i)
    case isFalse free =>
      cases found
      exact ⟨mem_cons_self .., by simpa [Body.hasActiveHandle] using free⟩

theorem unpinnedFrom_congr (heap : t.heap = s.heap) (settings : t.settings = s.settings)
    (tries : Nat) (l : List ItemId) : t.unpinnedFrom tries l = s.unpinnedFrom tries l := by
  induction l generalizing tries with
  | nil => rfl
  | cons i rest ih => simp only [unpinnedFrom, heap, settings, ih]

theorem tail_of_unpinnedTailOf (found : s.unpinnedTailOf q = some v) :
    (s.queue q).getLast? = some v ∧ (s.heap v).accessRef = 0 := by
  unfold unpinnedTailOf at found
  split at found
  · cases found
  case h_2 tail isTail =>
    split at found
    · cases found
    case isFalse free =>
      cases found
      exact ⟨isTail, by simpa [Body.hasActiveHandle] using free⟩

theorem unpinnedTailOf_spec (wf : s.WellFormed env) (found : s.unpinnedTailOf q = some v) :
    v ∈ s.table ∧ (s.heap v).accessRef = 0 :=
  (tail_of_unpinnedTailOf found).imp_left (mem_of_tail wf)

theorem unlinkAndUnmark_unlinks : Unlinks s (s.unlinkAndUnmark i) i :=
  Unlinks.unlink.modify fun item => { item with linked := false }

theorem evictGeneric_removes [DecidableEq K] (wf : s.WellFormed env) (hv : v ∈ s.table)
    (unpinned : (s.heap v).accessRef = 0) :
    (s.evictGeneric env v).1 = true ∧ Removes env s (s.evictGeneric env v).2 v := by
  unfold evictGeneric
  rw [if_pos (canMarkForEviction_of_mem wf hv unpinned)]
  refine ⟨rfl, .quiet ?_ (.storeSize _)⟩
  exact evictVictim_removes wf hv unpinned fun u _ => unlinkAndUnmark_unlinks

/-- An eviction takes its item out of the list and leaves the others in their places. -/
theorem evictVictim_queue [DecidableEq K] {remove : State K V → ItemId → State K V}
    (wf : s.WellFormed env) (hv : v ∈ s.table) (unpinned : (s.heap v).accessRef = 0)
    (unlinks : ∀ u : State K V, (u.heap v).linked = true → Unlinks u (remove u v) v)
    (q : QueueId) : (s.evictVictim env remove v).queue q = (s.queue q).erase v := by
  have left : ∀ u : State K V, u.queue = s.queue → u.heap = s.heap →
      (remove u v).queue q = (s.unlink v).queue q := by
    intro u queue heap
    obtain ⟨b, core⟩ := (unlinks u (by rw [heap]; exact wf.linked v hv)).core_eq
    have same : (remove u v).queue = (u.unlink v).queue := congrArg Core.queue core
    rw [same, State.unlink, State.unlink, queue, heap]
    simp [State.setQueue, queue]
  rw [evictVictim, if_pos (canMarkForEviction_of_mem wf hv unpinned), ← unlink_queue wf]
  exact left _ (by simp [eraseKey, subMemory, modifyStats])
    (by simp [eraseKey, subMemory, modifyStats])

theorem evictGeneric_queue [DecidableEq K] (wf : s.WellFormed env) (hv : v ∈ s.table)
    (unpinned : (s.heap v).accessRef = 0) (q : QueueId) :
    (s.evictGeneric env v).2.queue q = (s.queue q).erase v := by
  rw [evictGeneric, if_pos (canMarkForEviction_of_mem wf hv unpinned)]
  exact evictVictim_queue wf hv unpinned (fun u _ => unlinkAndUnmark_unlinks) q

end Search

/-! ## Eviction loops -/

section Loops

/-- A strategy's eviction: it removes the item that its search finds, if any. -/
structure Eviction (env : Env K V) (size : State K V → Nat) (victim : State K V → Option ItemId)
    (evict : State K V → State K V) : Prop where
  size_eq : ∀ {s}, s.WellFormed env → size s = s.table.length
  unpinned : ∀ {s v}, s.WellFormed env → victim s = some v → (s.heap v).accessRef = 0
  removes : ∀ {s v}, s.WellFormed env → victim s = some v → Removes env s (evict s) v
  rearranges : ∀ {s}, s.WellFormed env → victim s = none → Rearranges env s (evict s)

variable {evict : State K V → State K V} {size : State K V → Nat} {cond : State K V → Bool}
  {victim : State K V → Option ItemId} {I : State K V → Prop}

theorem evictWhile_of_false (fails : cond s = false) :
    evictWhile evict size cond fuel s = (s, true) := by
  cases fuel with
  | zero => rfl
  | succ fuel => rw [evictWhile, if_neg (by simp [fails])]

theorem evictAtCapacity_induct (step : I s → I (evict s)) (h : I s) :
    I (s.evictAtCapacity evict size) := by
  rw [evictAtCapacity]
  split
  · exact step h
  · exact h

section Induction

variable (step : ∀ {s}, I s → I (evict s))

include step

theorem evictWhile_induct (fuel : Nat) (h : I s) : I (evictWhile evict size cond fuel s).1 := by
  induction fuel generalizing s with
  | zero => exact h
  | succ fuel ih =>
    rw [evictWhile]
    split
    · simp only
      split
      · exact step h
      · exact ih (step h)
    · exact h

theorem fitLoop_induct (count : State K V → Nat) (mem : Nat) (h : I s) :
    I (s.fitLoop evict size count mem).1 := by
  rw [fitLoop]
  split
  · exact h
  · exact evictWhile_induct (I := I) step _ h

theorem makeRoom_induct (mem : Nat) (h : I s) : I (s.makeRoom evict size mem) :=
  fitLoop_induct (I := I) step size mem
    (evictAtCapacity_induct step (evictWhile_induct (I := I) step _ h))

end Induction

namespace Eviction

variable (e : Eviction env size victim evict)

include e

theorem shrinks (wf : s.WellFormed env) : Shrinks env s (evict s) := by
  cases found : victim s with
  | none => exact (e.rearranges wf found).toShrinks
  | some v => exact (e.removes wf found).toShrinks

theorem mem_of_held (wf : s.WellFormed env) (hi : i ∈ s.table)
    (held : (s.heap i).accessRef ≠ 0) : i ∈ (evict s).table := by
  cases found : victim s with
  | none => exact (e.rearranges wf found).mem_iff.mpr hi
  | some v =>
    rw [(e.removes wf found).table_eq]
    refine (mem_erase_of_ne ?_).mpr hi
    rintro rfl
    exact held (e.unpinned wf found)

theorem size_of_some (wf : s.WellFormed env) (found : victim s = some v) :
    size (evict s) + 1 = size s := by
  have removed := e.removes wf found
  rw [e.size_eq wf, e.size_eq removed.wf, removed.length_eq]

theorem size_of_none (wf : s.WellFormed env) (found : victim s = none) :
    size (evict s) = size s := by
  have same := e.rearranges wf found
  rw [e.size_eq wf, e.size_eq same.wf, same.table_eq]

theorem evictWhile_shrinks (wf : s.WellFormed env) :
    Shrinks env s (evictWhile evict size cond fuel s).1 :=
  evictWhile_induct (fun h => h.trans (e.shrinks h.wf)) fuel (.refl wf)

theorem evictWhile_mem_of_held (wf : s.WellFormed env)
    (hi : i ∈ s.table) (held : (s.heap i).accessRef ≠ 0) :
    i ∈ (evictWhile evict size cond fuel s).1.table := by
  refine (evictWhile_induct (I := fun t => Shrinks env s t ∧ i ∈ t.table) (fun h => ?_) fuel
    ⟨.refl wf, hi⟩).2
  exact ⟨h.1.trans (e.shrinks h.1.wf), e.mem_of_held h.1.wf h.2 (h.1.accessRef h.2 ▸ held)⟩

theorem shrinkLoop_shrinks (wf : s.WellFormed env) : Shrinks env s (s.shrinkLoop evict size).1 :=
  e.evictWhile_shrinks wf

theorem evictAtCapacity_shrinks (wf : s.WellFormed env) :
    Shrinks env s (s.evictAtCapacity evict size) :=
  evictAtCapacity_induct (fun _ => e.shrinks wf) (.refl wf)

theorem fitLoop_shrinks (count : State K V → Nat) (mem : Nat) (wf : s.WellFormed env) :
    Shrinks env s (s.fitLoop evict size count mem).1 :=
  fitLoop_induct (fun h => h.trans (e.shrinks h.wf)) count mem (.refl wf)

theorem makeRoom_shrinks (mem : Nat) (wf : s.WellFormed env) :
    Shrinks env s (s.makeRoom evict size mem) :=
  makeRoom_induct (fun h => h.trans (e.shrinks h.wf)) mem (.refl wf)

/-- When no item can be evicted an eviction only rearranges. -/
theorem idle {o : State K V}
    (stuck : ∀ {u}, u.WellFormed env → victim u = none → victim (evict u) = none)
    (h : Rearranges env o s ∧ victim s = none) :
    Rearranges env o (evict s) ∧ victim (evict s) = none :=
  ⟨h.1.trans (e.rearranges h.1.wf h.2), stuck h.1.wf h.2⟩

theorem makeRoom_stuck
    (stuck : ∀ {u}, u.WellFormed env → victim u = none → victim (evict u) = none) (mem : Nat)
    (wf : s.WellFormed env) (none : victim s = none) :
    Rearranges env s (s.makeRoom evict size mem) ∧
      victim (s.makeRoom evict size mem) = Option.none :=
  makeRoom_induct (I := fun t => Rearranges env s t ∧ victim t = Option.none) (e.idle stuck) mem
    ⟨.refl wf, none⟩

/-- A property may be kept on well-formed states only. -/
theorem joint (step : ∀ {s}, s.WellFormed env → I s → I (evict s))
    (h : s.WellFormed env ∧ I s) : (evict s).WellFormed env ∧ I (evict s) :=
  ⟨(e.shrinks h.1).wf, step h.1 h.2⟩

section Keeps

variable (step : ∀ {s}, s.WellFormed env → I s → I (evict s))

include step

theorem evictWhile_keeps (fuel : Nat) (wf : s.WellFormed env) (h : I s) :
    I (evictWhile evict size cond fuel s).1 :=
  (evictWhile_induct (I := fun t => t.WellFormed env ∧ I t) (e.joint step) fuel ⟨wf, h⟩).2

theorem fitLoop_keeps (count : State K V → Nat) (mem : Nat) (wf : s.WellFormed env) (h : I s) :
    I (s.fitLoop evict size count mem).1 :=
  (fitLoop_induct (I := fun t => t.WellFormed env ∧ I t) (e.joint step) count mem ⟨wf, h⟩).2

theorem makeRoom_keeps (mem : Nat) (wf : s.WellFormed env) (h : I s) :
    I (s.makeRoom evict size mem) :=
  (makeRoom_induct (I := fun t => t.WellFormed env ∧ I t) (e.joint step) mem ⟨wf, h⟩).2

end Keeps

theorem size_mono (h : Shrinks env s t) (wf : s.WellFormed env) : size t ≤ size s := by
  rw [e.size_eq wf, e.size_eq h.wf]
  exact h.length_le

/-- A loop whose first eviction can succeed either does nothing or removes. -/
theorem evictWhile_progress (cond : State K V → Bool) (wf : s.WellFormed env)
    (found : victim s = some v) : (evictWhile evict size cond fuel s).1 = s ∨
      size (evictWhile evict size cond fuel s).1 < size s := by
  cases fuel with
  | zero => exact .inl rfl
  | succ fuel =>
    rw [evictWhile]
    split
    · have less := e.size_of_some wf found
      have later : Shrinks env (evict s) (evictWhile evict size cond fuel (evict s)).1 :=
        e.evictWhile_shrinks (e.shrinks wf).wf
      have le := e.size_mono later (e.shrinks wf).wf
      rw [if_neg (by omega)]
      exact .inr (by omega)
    · exact .inl rfl

/-- At capacity one eviction is made, if the search finds an item. -/
theorem evictAtCapacity_lt (wf : s.WellFormed env) (finite : s.settings.maxSize ≠ unlimited)
    (le : size s ≤ s.settings.maxSize)
    (room : size s < s.settings.maxSize ∨ victim s ≠ none) :
    size (s.evictAtCapacity evict size) < s.settings.maxSize := by
  unfold evictAtCapacity
  split
  case isTrue full =>
    have full : s.settings.maxSize ≤ size s := by simpa [isAtCapacity, finite] using full
    obtain ⟨v, found⟩ := ne_none_iff_exists'.mp (room.resolve_left (by omega))
    have less := e.size_of_some wf found
    omega
  case isFalse free =>
    have free : size s < s.settings.maxSize := by simpa [isAtCapacity, finite] using free
    exact free

theorem makeRoom_lt (mem : Nat) (wf : s.WellFormed env)
    (finite : s.settings.maxSize ≠ unlimited) (le : size s ≤ s.settings.maxSize)
    (room : size s < s.settings.maxSize ∨ victim s ≠ none) :
    size (s.makeRoom evict size mem) < s.settings.maxSize := by
  have shrunk := e.shrinkLoop_shrinks wf
  have evicted := e.evictAtCapacity_shrinks shrunk.wf
  have fewer := e.size_mono shrunk wf
  have settings : (s.shrinkLoop evict size).1.settings.maxSize = s.settings.maxSize :=
    congrArg Settings.maxSize shrunk.settings_eq
  have still : size (s.shrinkLoop evict size).1 < s.settings.maxSize ∨
      victim (s.shrinkLoop evict size).1 ≠ none := by
    by_cases free : size s < s.settings.maxSize
    · exact .inl (by omega)
    · obtain ⟨v, found⟩ := ne_none_iff_exists'.mp (room.resolve_left free)
      obtain same | less := e.evictWhile_progress (fun s => s.shouldEvict (size s))
        wf found
      · exact .inr (by rw [shrinkLoop, same, found]; exact some_ne_none v)
      · exact .inl (Nat.lt_of_lt_of_le less le)
  have lt := e.evictAtCapacity_lt shrunk.wf (settings ▸ finite) (by omega) (settings ▸ still)
  exact Nat.lt_of_le_of_lt (e.size_mono (e.fitLoop_shrinks size mem evicted.wf) evicted.wf)
    (settings ▸ lt)

end Eviction

end Loops

/-! ## Insertions -/

/-- `t` has one new item under `key`; of the others some may be gone. -/
structure Inserts (env : Env K V) (s t : State K V) (key : K) (value : V) (expiryNs : Nat) :
    Prop where
  wf : t.WellFormed env
  mem_new : s.next ∈ t.table
  content_new : (t.heap s.next).content = (key, value, expiryNs, 0)
  mem_old : ∀ i ∈ t.table, i ≠ s.next → i ∈ s.table
  content_old : ∀ i ∈ t.table, i ≠ s.next → (t.heap i).content = (s.heap i).content
  next_eq : t.next = s.next + 1
  settings_eq : t.settings = s.settings
  failed_eq : t.stats.evictionFailed = s.stats.evictionFailed
  rejects_eq : t.rejects = s.rejects

theorem Inserts.after (before : Shrinks env s t) (h : Inserts env t u key value expiryNs) :
    Inserts env s u key value expiryNs where
  wf := h.wf
  mem_new := before.next_eq ▸ h.mem_new
  content_new := before.next_eq ▸ h.content_new
  mem_old i hi ne := before.mem i (h.mem_old i hi (before.next_eq ▸ ne))
  content_old i hi ne :=
    have ne' : i ≠ t.next := before.next_eq ▸ ne
    (h.content_old i hi ne').trans (before.content i (h.mem_old i hi ne'))
  next_eq := before.next_eq ▸ h.next_eq
  settings_eq := h.settings_eq.trans before.settings_eq
  failed_eq := h.failed_eq.trans before.failed_eq
  rejects_eq := h.rejects_eq.trans before.rejects_eq

theorem Inserts.shrinks (h : Inserts env s t key value expiryNs) (later : Shrinks env t u)
    (kept : s.next ∈ u.table) : Inserts env s u key value expiryNs where
  wf := later.wf
  mem_new := kept
  content_new := (later.content _ kept).trans h.content_new
  mem_old i hi := h.mem_old i (later.mem i hi)
  content_old i hi ne := (later.content i hi).trans (h.content_old i (later.mem i hi) ne)
  next_eq := later.next_eq.trans h.next_eq
  settings_eq := later.settings_eq.trans h.settings_eq
  failed_eq := later.failed_eq.trans h.failed_eq
  rejects_eq := later.rejects_eq.trans h.rejects_eq

theorem Quiet.noteInsertion (size mem : Nat) : Quiet s (s.noteInsertion size mem key value) := by
  refine .trans (.trans (.trans (.storeSize size) (.addMemory mem)) ?_) (.collect rfl)
  exact .modifyStats fun _ => rfl

theorem Inserts.quiet (h : Inserts env s t key value expiryNs) (later : Quiet t u) :
    Inserts env s u key value expiryNs :=
  h.shrinks (later.shrinks h.wf) (later.table_eq ▸ h.mem_new)

theorem Inserts.length_le (h : Inserts env s t key value expiryNs) :
    t.table.length ≤ s.table.length + 1 := by
  have sub : t.table ⊆ s.next :: s.table := by
    intro i hi
    by_cases new : i = s.next
    · exact new ▸ mem_cons_self ..
    · exact mem_cons_of_mem _ (h.mem_old i hi new)
  exact (subperm_of_subset h.wf.table_nodup sub).length_le

theorem Inserts.find_eq [DecidableEq K] (h : Inserts env s t key value expiryNs) :
    t.find env key = some s.next :=
  (find_eq_some_iff h.wf).mpr ⟨h.mem_new, congrArg Prod.fst h.content_new⟩

section LinkNew

variable [DecidableEq K] {hook : Hook} {place : ItemId → List ItemId → List ItemId}

theorem linkAtHead_quiet
    (liveCount size : State K V → Nat) {mem : Nat} :
    Quiet (s.linkNew env key value q expiryNs hook cons)
      (s.linkAtHead env key value q expiryNs hook liveCount size mem) :=
  .trans .ttlIndexPush (.noteInsertion _ _)

variable {liveCount size : State K V → Nat} {mem : Nat} (wf : s.WellFormed env)
  (absent : s.find env key = none)

include wf absent

/-- An absent key is not refused by the table. -/
theorem linkNew_eq : s.linkNew env key value q expiryNs hook place =
      { s with
        heap := update s.heap s.next
          { key := key, value := value, queueId := q, expiryNs := expiryNs, linked := true
            cachedHash := env.hash key, hook := hook }
        next := s.next + 1
        table := s.next :: s.table
        queue := update s.queue q (place s.next (s.queue q)) } := by
  have still_absent : (setQueue { s with
      heap := update s.heap s.next
        { key := key, value := value, queueId := q, expiryNs := expiryNs, linked := true
          hook := hook }
      next := s.next + 1 } q (place s.next (s.queue q))).find env key = none := by
    refine find?_eq_none.mpr fun i hi => ?_
    have old : i ≠ s.next := by
      rintro rfl
      exact wf.next_not_mem hi
    have other := (find_eq_none_iff wf).mp absent i hi
    simpa [stopsAt, setQueue, old] using fun _ => other
  simp only [linkNew, insertNode]
  rw [still_absent]
  simp only [State.modify, State.setQueue, update_self, update_idem]

theorem linkNew_table :
    (s.linkNew env key value q expiryNs hook place).table = s.next :: s.table := by
  rw [linkNew_eq wf absent]

theorem core_linkNew : (s.linkNew env key value q expiryNs hook place).core =
      s.core.insert { key := key, value := value, queueId := q, expiryNs := expiryNs
                      linked := true, cachedHash := env.hash key } (place s.next (s.queue q)) := by
  rw [linkNew_eq wf absent]
  simp only [core, Core.insert, Core.mk.injEq, and_true]
  funext i
  by_cases hi : i = s.next
  · subst hi; simp
  · simp [hi]

theorem linkNew_inserts (perm : ∀ i l, (place i l).Perm (i :: l)) :
    Inserts env s (s.linkNew env key value q expiryNs hook place) key value expiryNs := by
  refine ⟨?_, ?_, ?_, ?_, ?_, ?_, ?_, ?_, ?_⟩
  · unfold State.WellFormed
    rw [core_linkNew wf absent]
    exact wf.insert ((find_eq_none_iff wf).mp absent) rfl rfl (perm _ _)
  · rw [linkNew_table wf absent]
    exact mem_cons_self ..
  · rw [linkNew_eq wf absent]
    simp [Body.content]
  · intro i hi new
    rw [linkNew_table wf absent] at hi
    exact (mem_cons.mp hi).resolve_left new
  · intro i _ new
    rw [linkNew_eq wf absent]
    simp [new]
  all_goals rw [linkNew_eq wf absent]
  rfl

theorem linkAtHead_inserts :
    Inserts env s (s.linkAtHead env key value q expiryNs hook liveCount size mem) key value
      expiryNs :=
  (linkNew_inserts wf absent fun _ _ => .refl _).quiet (linkAtHead_quiet ..)

theorem linkAtHead_table : (s.linkAtHead env key value q expiryNs hook liveCount size mem).table =
      s.next :: s.table :=
  (linkAtHead_quiet ..).table_eq.trans (linkNew_table wf absent)

theorem linkAtHead_queue : (s.linkAtHead env key value q expiryNs hook liveCount size mem).queue =
      update s.queue q (s.next :: s.queue q) := by
  rw [(linkAtHead_quiet ..).queue_eq, linkNew_eq wf absent]

end LinkNew

end Lru.Mm
