import Lru.Mm.Billing

/-!
# What a strategy does to the items it keeps and to those it drops

`Shrinks` speaks of the items that stay linked. The TTL index, the handles and the readers
without a lock see more: `Sheds` says of every address what a part of a strategy may change.
Almost all parts do no more; a new item, a written value or expiry and a handle come on top.
-/

namespace Lru.Mm

open Window

variable {K V : Type} {env : Env K V} {s t u v : State K V} {i : ItemId} {clears : Bool}
  {value : V} {sec : Nat} {strategy : Strategy}

open State Policy

/-- A body apart from the list that it is linked in. -/
def Body.unplaced (b : Body K V) : Body K V := { b with queueId := 0 }

/-- Two bodies that differ in their place only agree on what does not look at it. -/
theorem Body.eq_of_unplaced {α : Type} {a b : Body K V} (same : a.unplaced = b.unplaced)
    (f : Body K V → α) (blind : ∀ b, f b.unplaced = f b) : f a = f b := by
  rw [← blind a, same, blind]

/-- Items change their places or leave table and lists. Nothing else changes of an item that
stays in the table or outside of it, and no access count changes. With `clears` the linked
bit of every item that left is clear. -/
structure Sheds (clears : Bool) (s t : State K V) : Prop where
  next_eq : t.next = s.next
  index_eq : t.ttlIndex = s.ttlIndex
  mem : ∀ i ∈ t.table, i ∈ s.table
  body : ∀ i, (i ∈ s.table → i ∈ t.table) → (t.heap i).unplaced = (s.heap i).unplaced
  count_eq : ∀ i, (t.heap i).accessRef = (s.heap i).accessRef
  cleared : clears = true → ∀ i ∈ s.table, i ∉ t.table → (t.heap i).linked = false

namespace Sheds

theorem of_table (table : t.table = s.table) (next : t.next = s.next)
    (index : t.ttlIndex = s.ttlIndex)
    (body : ∀ i, (t.heap i).unplaced = (s.heap i).unplaced) : Sheds clears s t where
  next_eq := next
  index_eq := index
  mem _ hi := table ▸ hi
  body i _ := body i
  count_eq i := Body.eq_of_unplaced (body i) Body.accessRef fun _ => rfl
  cleared _ _ hi gone := absurd (table ▸ hi) gone

theorem of_heap (heap : t.heap = s.heap) (table : t.table = s.table) (next : t.next = s.next)
    (index : t.ttlIndex = s.ttlIndex) : Sheds clears s t :=
  of_table table next index fun _ => by rw [heap]

theorem of_quiet (quiet : Quiet s t) (index : t.ttlIndex = s.ttlIndex) : Sheds clears s t :=
  of_table quiet.table_eq (congrArg Core.next quiet.core_eq) index
    fun i => congrArg Body.unplaced (quiet.body_eq i)

theorem refl (s : State K V) : Sheds clears s s := .of_heap rfl rfl rfl rfl

theorem trans (first : Sheds clears s t) (second : Sheds clears t u) : Sheds clears s u where
  next_eq := second.next_eq.trans first.next_eq
  index_eq := second.index_eq.trans first.index_eq
  mem i hi := first.mem i (second.mem i hi)
  body i stays :=
    (second.body i fun hi => stays (first.mem i hi)).trans
      (first.body i fun hi => second.mem i (stays hi))
  count_eq i := (second.count_eq i).trans (first.count_eq i)
  cleared clear i hi gone := by
    by_cases later : i ∈ t.table
    · exact second.cleared clear i later gone
    · have same := second.body i fun hi => absurd hi later
      exact (congrArg Body.linked same).trans (first.cleared clear i hi later)

theorem noted (note : Noted s t) : Sheds clears s t := by
  obtain ⟨_, _, _, _, _, rfl, -⟩ := note
  exact .of_heap rfl rfl rfl rfl

theorem cleanupIf (b : Bool) (s : State K V) : Sheds clears s (cleanupIf b s) := by
  rw [Policy.cleanupIf]
  split
  · exact .noted (.cleanup s)
  · exact .refl s

theorem modifyHook (i : ItemId) (f : Hook → Hook) : Sheds clears s (s.modifyHook i f) :=
  .of_quiet (Unseen.modifyHook i f).quiet rfl

theorem moveToHead (s : State K V) (i : ItemId) : Sheds clears s (s.moveToHead i) :=
  .of_heap rfl rfl rfl rfl

theorem moveToQueue (s : State K V) (i : ItemId) (q : QueueId) (toTail : Bool) :
    Sheds clears s (s.moveToQueue i q toTail) := by
  refine .of_table rfl rfl rfl fun j => ?_
  by_cases same : j = i
  · subst same
    simp [State.moveToQueue, State.modify, State.unlink, State.setQueue, Body.unplaced]
  · simp [State.moveToQueue, State.modify, State.unlink, State.setQueue, same]

theorem reconfigureLocked (curr : Nat) (tail : Option ItemId) :
    Sheds clears s (s.reconfigureLocked env curr tail) := by
  refine .of_quiet Unseen.reconfigureLocked.quiet ?_
  rw [State.reconfigureLocked]
  split
  · rfl
  · split <;> rfl

theorem adjustMemory {before after : Nat} : Sheds clears s (adjustMemory s before after) := by
  rw [Policy.adjustMemory]
  split
  · exact .of_heap rfl rfl rfl rfl
  · split
    · exact .of_heap rfl rfl rfl rfl
    · exact .refl s

end Sheds

/-! ## Removals -/

/-- Besides item `i` nothing but places differs, and of it neither count nor linked bit. -/
structure Touches (i : ItemId) (s t : State K V) : Prop where
  index_eq : t.ttlIndex = s.ttlIndex
  body : ∀ j, j ≠ i → (t.heap j).unplaced = (s.heap j).unplaced
  count_eq : (t.heap i).accessRef = (s.heap i).accessRef
  linked_eq : (t.heap i).linked = (s.heap i).linked

theorem Touches.of_heap (heap : t.heap = s.heap) (index : t.ttlIndex = s.ttlIndex) :
    Touches i s t :=
  ⟨index, fun j _ => by rw [heap], by rw [heap], by rw [heap]⟩

theorem Touches.modify {f : Item K V → Item K V}
    (count : ∀ item, (f item).accessRef = item.accessRef)
    (linked : ∀ item, (f item).linked = item.linked) : Touches i s (s.modify i f) := by
  refine ⟨rfl, fun j other => ?_, ?_, ?_⟩
  · simp [State.modify, other]
  · simpa [State.modify] using count _
  · simpa [State.modify] using linked _

theorem Touches.retire (h : Touches i s t) : Touches i s (t.retire i) :=
  ⟨h.index_eq, h.body, h.count_eq, h.linked_eq⟩

/-- A strategy's own unlinking of item `i`; with `clears` it clears the linked bit. -/
structure Frees (clears : Bool) (s t : State K V) (i : ItemId) : Prop extends
    Unlinks s t i where
  index_eq : t.ttlIndex = s.ttlIndex
  stats_eq : t.stats = s.stats
  events_eq : t.events = s.events
  count_eq : (t.heap i).accessRef = (s.heap i).accessRef
  cleared : clears = true → (t.heap i).linked = false

theorem Unlinks.body_eq (h : Unlinks s t i) {j : ItemId} (other : j ≠ i) :
    (t.heap j).toBody = (s.heap j).toBody := by
  obtain ⟨b, core⟩ := h.core_eq
  have body := congrFun (congrArg Core.body core) j
  simpa [Core.setBody, State.unlink, State.setQueue, State.core, other] using body

theorem Unlinks.next_eq (h : Unlinks s t i) : t.next = s.next := by
  obtain ⟨b, core⟩ := h.core_eq
  exact congrArg Core.next core

/-- An unlinking sheds an item that was erased from the table, whatever is written to it
before and after. -/
theorem Frees.sheds (freed : Frees clears u v i) (wf : s.WellFormed env) (hi : i ∈ s.table)
    (erased : u.table = s.table.erase i) (allocated : u.next = s.next) (before : Touches i s u)
    (after : Touches i v t) (table : t.table = v.table) (next : t.next = v.next) :
    Sheds clears s t := by
  have left : t.table = s.table.erase i := table.trans (freed.table_eq.trans erased)
  have gone : i ∉ t.table := left ▸ (wf.table_nodup).not_mem_erase
  have body : ∀ j, j ≠ i → (t.heap j).unplaced = (s.heap j).unplaced := fun j other =>
    (after.body j other).trans
      ((congrArg Body.unplaced (freed.toUnlinks.body_eq other)).trans (before.body j other))
  refine ⟨next.trans (freed.next_eq.trans allocated),
    after.index_eq.trans (freed.index_eq.trans before.index_eq), fun j hj => ?_, fun j stays => ?_,
    fun j => ?_, fun clear j hj dropped => ?_⟩
  · exact List.mem_of_mem_erase (left ▸ hj)
  · refine body j ?_
    rintro rfl
    exact gone (stays hi)
  · by_cases same : j = i
    · subst same
      exact after.count_eq.trans (freed.count_eq.trans before.count_eq)
    · exact Body.eq_of_unplaced (body j same) Body.accessRef fun _ => rfl
  · obtain rfl : j = i := by
      by_contra other
      rw [left] at dropped
      exact dropped ((List.mem_erase_of_ne other).mpr hj)
    exact after.linked_eq.trans (freed.cleared clear)

theorem Frees.unlink : Frees false s (s.unlink i) i := ⟨.unlink, rfl, rfl, rfl, rfl, by simp⟩

theorem Frees.unlinkAndUnmark : Frees clears s (s.unlinkAndUnmark i) i := by
  refine ⟨unlinkAndUnmark_unlinks, rfl, rfl, rfl, ?_, fun _ => ?_⟩
  all_goals simp [State.unlinkAndUnmark, State.unmark, State.modify, State.unlink, State.setQueue]

theorem Frees.among (freed : Frees clears t u i) (before : Unseen s t) (after : Unseen u v)
    (index : t.ttlIndex = s.ttlIndex) (index' : v.ttlIndex = u.ttlIndex) :
    Frees clears s v i where
  toUnlinks := .of_quiet before.quiet (freed.toUnlinks.quiet after.quiet)
  index_eq := index'.trans (freed.index_eq.trans index)
  stats_eq := after.stats_eq.trans (freed.stats_eq.trans before.stats_eq)
  events_eq := after.events_eq.trans (freed.events_eq.trans before.events_eq)
  count_eq := (congrArg Body.accessRef (after.quiet.body_eq i)).trans
    (freed.count_eq.trans (congrArg Body.accessRef (before.quiet.body_eq i)))
  cleared clear := (congrArg Body.linked (after.quiet.body_eq i)).trans (freed.cleared clear)

section Evictions

theorem reported_collect {stats : Stats} {e : Event K V} :
    ∃ stats' events, ({ s with stats := stats } : State K V).collect e =
      { s with stats := stats', events := events } := by
  obtain ⟨events, collected⟩ := collect_eq { s with stats := stats } e
  exact ⟨stats, events, collected⟩

variable [DecidableEq K]

/-- The node is erased and the item unlinked after some counting and reporting. -/
theorem Frees.sheds_reported {key : K} (freed : Frees clears (u.eraseKey env key) v i)
    (wf : s.WellFormed env) (hi : i ∈ s.table) (hk : (s.heap i).key = key)
    (reported : ∃ stats events, u = { s with stats := stats, events := events })
    (after : Touches i v t) (table : t.table = v.table) (next : t.next = v.next) :
    Sheds clears s t := by
  obtain ⟨stats, events, rfl⟩ := reported
  exact freed.sheds wf hi (eraseKey_table wf hi hk) rfl (.of_heap rfl rfl) after table next

theorem evictVictim_sheds {remove : State K V → ItemId → State K V} (wf : s.WellFormed env)
    (hi : i ∈ s.table) (unpinned : (s.heap i).accessRef = 0)
    (frees : ∀ u : State K V, (u.heap i).linked = true → Frees clears u (remove u i) i) :
    Sheds clears s (s.evictVictim env remove i) := by
  rw [evictVictim, if_pos (canMarkForEviction_of_mem wf hi unpinned)]
  refine (frees _ ?_).sheds_reported wf hi rfl reported_collect (.retire ?_) rfl rfl
  · simpa [eraseKey] using linked_of_mem wf hi
  · exact .modify (fun _ => rfl) fun _ => rfl

theorem evictGeneric_sheds (wf : s.WellFormed env) (hi : i ∈ s.table)
    (unpinned : (s.heap i).accessRef = 0) : Sheds clears s (s.evictGeneric env i).2 := by
  have evicted : Sheds clears s (s.evictVictim env unlinkAndUnmark i) :=
    evictVictim_sheds wf hi unpinned fun u _ => .unlinkAndUnmark
  rw [evictGeneric, if_pos (canMarkForEviction_of_mem wf hi unpinned)]
  exact evicted.trans (.noted .storeSize)

end Evictions

/-! ## The parts of a strategy -/

/-- What the parts of a strategy do beyond their `Laws`. The flags tell which of its three
unlinkings clear the linked bit; evictions always do. -/
structure Policy.Frames [DecidableEq K] (env : Env K V) (p : Policy K V)
    (erased forced flushed : Bool) : Prop where
  accessed : ∀ (s : State K V) i mode sec, Sheds true s (p.recordAccess s i mode sec).2
  afterGet : ∀ {s : State K V} i, s.WellFormed env → Sheds true s (p.afterGet s i)
  evict : ∀ {s : State K V}, s.WellFormed env → Sheds true s (p.evict s)
  removeErased : ∀ {s : State K V} {i}, (s.heap i).linked = true →
    Frees erased s (p.removeErased s i) i
  removeForced : ∀ {s : State K V} {i}, (s.heap i).linked = true →
    Frees forced s (p.removeForced s i) i
  removeFlushed : ∀ {s : State K V} {i}, (s.heap i).linked = true →
    Frees flushed s (p.removeFlushed s i) i
  keepFlushed : ∀ (s : State K V) i, (p.keepFlushed s i).ttlIndex = s.ttlIndex := by intros; rfl
  afterFlush : ∀ s : State K V, (p.afterFlush s).ttlIndex = s.ttlIndex := by intros; rfl
  beforeResize : ∀ (s : State K V) n, (p.beforeResize s n).ttlIndex = s.ttlIndex := by intros; rfl
  afterResize : ∀ s : State K V, (p.afterResize s).ttlIndex = s.ttlIndex := by intros; rfl
  reconfigure : ∀ {s : State K V} sec, s.WellFormed env → Sheds true s (p.reconfigure s sec)

namespace Policy.Frames

variable [DecidableEq K] {p : Policy K V} {erased forced flushed : Bool} {key : K}
  (frames : p.Frames env erased forced flushed) (laws : p.Laws env)

include frames laws

theorem shrinkToFit (wf : s.WellFormed env) : Sheds true s (p.shrinkToFit s) :=
  laws.eviction.evictWhile_keeps
    (fun wf h => h.trans (frames.evict wf)) _ wf (.refl s)

omit laws in
theorem erase {count : Stats → Stats} (event : K → V → Event K V) (wf : s.WellFormed env) :
    Sheds erased s (p.erase env s count event key) := by
  rw [Policy.erase]
  split
  · exact .refl s
  case h_2 i found =>
    obtain ⟨hi, hk⟩ := (find_eq_some_iff wf).mp found
    split
    · exact .refl s
    · refine (frames.removeErased ?_).sheds_reported wf hi hk reported_collect
        (.of_heap rfl rfl) rfl rfl
      simpa [eraseKey] using linked_of_mem wf hi

omit laws in
theorem takeOut (wf : s.WellFormed env) (found : s.find env key = some i) :
    Sheds forced s (p.takeOut env s key i) := by
  obtain ⟨hi, hk⟩ := (find_eq_some_iff wf).mp found
  have linked : ((s.eraseKey env key).heap i).linked = true := wf.linked i hi
  exact (frames.removeForced linked).sheds_reported wf hi hk ⟨_, _, rfl⟩ (.of_heap rfl rfl) rfl rfl

theorem popItem (wf : s.WellFormed env) (hi : i ∈ s.table)
    (stable : env.movedKey (s.heap i).key = (s.heap i).key) :
    Sheds forced s (p.popItem env s i) := by
  let taken := s.modify i fun item =>
    { item with key := env.movedKey item.key, value := env.movedValue item.value }
  have written : Touches i s taken := .modify (fun _ => rfl) fun _ => rfl
  have removed := laws.popItem_removes wf hi stable
  let moved := (taken.subMemory (s.itemMemory env i)).eraseKey env (s.heap i).key
  have freed := frames.removeForced (s := moved)
    (written.linked_eq.trans (linked_of_mem wf hi))
  refine freed.sheds wf hi ?_ rfl
    ⟨written.index_eq, written.body, written.count_eq, written.linked_eq⟩ (.of_heap rfl rfl) rfl rfl
  exact freed.table_eq.symm.trans removed.table_eq

omit laws in
theorem flushOne (laws : p.Laws env) {toRetire : List ItemId} (wf : s.WellFormed env)
    (hi : i ∈ s.table) : Sheds flushed s (p.flushOne env (s, toRetire) i).1 := by
  rw [Policy.flushOne]
  split
  · exact .of_quiet (laws.keepFlushed s i) (frames.keepFlushed s i)
  · split
    · refine (frames.removeFlushed ?_).sheds_reported wf hi ?_ reported_collect
        (.of_heap rfl rfl) rfl rfl
      · simpa [eraseKey] using linked_of_mem wf hi
      · simp [subMemory, modifyStats]
    · exact .refl s

theorem flush (wf : s.WellFormed env) : Sheds flushed s (p.flush env s) :=
  laws.flush_keeps (fun note h => h.trans (.noted note))
    (fun _ wf hi h => h.trans (frames.flushOne laws wf hi))
    (fun h => h.trans (.of_quiet (laws.afterFlush _) (frames.afterFlush _))) wf (.refl s)

end Policy.Frames

/-! ## The strategies -/

namespace MmLru

theorem Marks.sheds (h : Marks s t) : Sheds clears s t := .of_quiet h.quiet h.index_eq

theorem promote_sheds {curr : Nat} : Sheds clears s (promote env s i curr) := by
  have moved : Sheds clears s ((ensureNotInsertionPoint (reconfigureLocked env s curr) i).moveToHead
      i) := (prepared_marks env s i curr).sheds.trans (.moveToHead _ i)
  have stamped := moved.trans (.modifyHook i fun h => { h with updateTime := curr })
  rw [promote]
  split
  · exact (stamped.trans (clearTail_marks _ i).sheds).trans (updateLruInsertionPoint_marks _).sheds
  · exact stamped

theorem recordAccessAt_sheds (env : Env K V) (s : State K V) (i : ItemId) (mode : AccessMode)
    (curr : Nat) : Sheds clears s (recordAccessAt env s i mode curr).2 := by
  rw [recordAccessAt]
  split
  · exact .refl s
  split
  · exact .refl s
  split
  · exact .trans (.modifyHook i _) promote_sheds
  split
  · exact .refl s
  · exact promote_sheds

theorem removeFromList_frees (linked : (s.heap i).linked = true) :
    Frees clears s (removeFromList s i) i := by
  have left := (ensureNotInsertionPoint_marks s i).trans (leaveTail_marks _ i)
  have before := left.trans (.modifyHook i fun h => { h with isAccessed := false })
  have after := updateLruInsertionPoint_marks
    ((((leaveTail (ensureNotInsertionPoint s i) i).modifyHook
    i fun h => { h with isAccessed := false }).unlink i).unmark i)
  rw [removeFromList, if_neg (by simp [linked])]
  exact Frees.unlinkAndUnmark.among before.toUnseen after.toUnseen before.index_eq
    after.index_eq

variable [DecidableEq K]

theorem evictLru_sheds (wf : s.WellFormed env) : Sheds true s (evictLru env s) := by
  have index : (findEvictionVictim s.cleanupPendingDeletion).2.ttlIndex =
      s.cleanupPendingDeletion.ttlIndex := by
    rw [findEvictionVictim]
    split <;> rfl
  have searched : Sheds true s (findEvictionVictim s.cleanupPendingDeletion).2 :=
    .trans (.noted (.cleanup s)) (.of_quiet (findEvictionVictim_unseen _).quiet index)
  cases search : findEvictionVictim s.cleanupPendingDeletion with
  | mk victim u =>
    rw [search] at searched
    cases victim with
    | none =>
      rw [evictLru_of_missed search]
      exact searched.trans (.noted .storeSize)
    | some v =>
      obtain ⟨wfu, mem, free⟩ := found_spec wf search
      have evicted : Sheds true u (u.evictVictim env removeFromList v) :=
        evictVictim_sheds wfu mem free fun _ => removeFromList_frees
      rw [evictLru_of_found wf search]
      exact (searched.trans evicted).trans (.of_heap rfl rfl rfl rfl)

theorem frames (env : Env K V) : (policy env).Frames env true true true where
  accessed := recordAccessAt_sheds env
  afterGet _ _ := .refl _
  evict := evictLru_sheds
  removeErased linked := (removeFromList_frees linked).among .refl ⟨rfl, rfl, rfl, rfl⟩ rfl rfl
  removeForced linked := (removeFromList_frees linked).among .refl ⟨rfl, rfl, rfl, rfl⟩ rfl rfl
  removeFlushed linked := removeFromList_frees linked
  keepFlushed s i := by
    show (if (s.heap i).hook.isTail then _ else s).ttlIndex = s.ttlIndex
    split <;> rfl
  reconfigure sec _ := (respecify_marks _).sheds.trans (.of_heap rfl rfl rfl rfl)

end MmLru

namespace MmFifo

variable [DecidableEq K]

theorem evict_sheds (wf : s.WellFormed env) : Sheds true s (evict env s) := by
  have clean := Rearranges.cleanup wf
  have noted : Sheds true s s.cleanupPendingDeletion := .noted (.cleanup s)
  rw [evict]
  simp only
  split
  · exact noted.trans (.noted .storeSize)
  case h_2 v found =>
    obtain ⟨mem, free⟩ := searchQueue_spec clean.wf found
    have evicted : Sheds true s.cleanupPendingDeletion
        (s.cleanupPendingDeletion.evictVictim env unlinkAndUnmark v) :=
      evictVictim_sheds clean.wf mem free fun u _ => .unlinkAndUnmark
    exact (noted.trans evicted).trans (.noted .storeSize)

theorem frames (env : Env K V) : (policy env).Frames env true false false where
  accessed _ _ _ _ := .refl _
  afterGet _ _ := .refl _
  evict := evict_sheds
  removeErased _ := .unlinkAndUnmark
  removeForced _ := .unlink
  removeFlushed _ := .unlink
  reconfigure _ _ := .refl _

end MmFifo

namespace Mm2q

theorem rebalance_sheds : Sheds clears s (rebalance env s) :=
  rebalance_induct
    (fun _ h => h.trans (.moveToQueue _ _ kQueueCold true)) (.refl s) env

theorem recordAccessAt_sheds (env : Env K V) (s : State K V) (i : ItemId) (mode : AccessMode)
    (curr : Nat) : Sheds clears s (recordAccessAt env s i mode curr).2 :=
  recordAccessAt_induct
    (fun _ h => h.trans (.moveToQueue _ _ kQueueCold true)) (.refl s) mode
    (.reconfigureLocked curr _)
    (fun h => (h.trans (.moveToQueue _ i kQueueWarm false)).trans (.modifyHook i _))
    (fun h => h.trans (.moveToHead _ i)) fun h => h.trans (.modifyHook i _)

theorem removeFromQueue_frees (s : State K V) (i : ItemId) :
    Frees clears s (removeFromQueue s i) i :=
  Frees.unlinkAndUnmark.among (.modifyHook i _) .refl rfl rfl

variable [DecidableEq K]

theorem evict_sheds (wf : s.WellFormed env) : Sheds true s (evict env s) := by
  have clean := Rearranges.cleanup wf
  have noted : Sheds true s s.cleanupPendingDeletion := .noted (.cleanup s)
  rw [evict]
  split
  · exact noted.trans (.noted .storeSize)
  case h_2 q v found =>
    obtain ⟨mem, free⟩ := findVictim_spec clean.wf found
    have evicted : Sheds true s.cleanupPendingDeletion
        (s.cleanupPendingDeletion.evictVictim env removeFromQueue v) :=
      evictVictim_sheds clean.wf mem free fun u _ => removeFromQueue_frees u v
    refine ((noted.trans evicted).trans ?_).trans (.noted .storeSize)
    split
    · rw [ghostRecord]
      split <;> exact .of_heap rfl rfl rfl rfl
    · exact .refl _

theorem frames (env : Env K V) : (policy env).Frames env true true false where
  accessed := recordAccessAt_sheds env
  afterGet _ _ := .refl _
  evict := evict_sheds
  removeErased _ := removeFromQueue_frees _ _
  removeForced _ := removeFromQueue_frees _ _
  removeFlushed _ := .unlink
  reconfigure {s} sec _ := by
    have restarted : Sheds true s (s.restartRefresh sec) := .of_heap rfl rfl rfl rfl
    exact (restarted.trans rebalance_sheds).trans (.of_heap rfl rfl rfl rfl)

end Mm2q

namespace Window

theorem drainTiny_sheds (expected : State K V → Nat) (fuel : Nat) (s : State K V) :
    Sheds clears s (drainTiny expected fuel s) := by
  induction fuel generalizing s with
  | zero => exact .refl s
  | succ fuel ih =>
    rw [drainTiny]
    split
    · split
      · exact .refl s
      case h_2 i _ => exact .trans (.moveToQueue s i kNextQueue false) (ih _)
    · exact .refl s

theorem removeFromQueue_frees (s : State K V) (i : ItemId) :
    Frees false s (removeFromQueue s i) i :=
  Frees.unlink.among (.modifyHook i _) .refl rfl rfl

theorem recordAccessAt_sheds {promoteItem : State K V → ItemId → Nat → State K V}
    (promotes : ∀ s i curr, Sheds clears s (promoteItem s i curr)) (s : State K V) (i : ItemId)
    (mode : AccessMode) (curr : Nat) :
    Sheds clears s (recordAccessAt s promoteItem i mode curr).2 := by
  rw [recordAccessAt]
  split
  · exact .refl s
  split
  · exact .refl s
  split
  · exact .trans (.modifyHook i _) (promotes _ i curr)
  split
  · exact .refl s
  · exact promotes s i curr

end Window

namespace MmTinyLfu

open Window

theorem promoteItem_sheds (env : Env K V) (s : State K V) (i : ItemId) (curr : Nat) :
    Sheds clears s (promoteItem env s i curr) := by
  have tuned : Sheds clears s (s.reconfigureLocked env curr (s.tail kMainQueue)) :=
    .reconfigureLocked curr _
  have stamped := (tuned.trans (.moveToHead _ i)).trans
    (.modifyHook i fun h => { h with updateTime := curr })
  exact stamped.trans (.of_heap rfl rfl rfl rfl)

variable [DecidableEq K]

theorem maybePromoteFromTiny_sheds (wf : s.WellFormed env) :
    Sheds true s (maybePromoteFromTiny env s) :=
  promoteLoop_keeps
    (fun _ _ h => h.trans (.moveToQueue _ _ kNextQueue false))
    (fun wf hi free h => h.trans (evictGeneric_sheds wf hi free)) wf (.refl s)

theorem evict_sheds (wf : s.WellFormed env) : Sheds true s (evict env s) := by
  have clean := Rearranges.cleanup wf
  have noted : Sheds true s s.cleanupPendingDeletion := .noted (.cleanup s)
  rw [evict]
  split
  · exact noted
  case h_2 v found =>
    obtain ⟨mem, free⟩ := findVictim_spec clean.wf found
    exact noted.trans (evictGeneric_sheds clean.wf mem free)

theorem frames (env : Env K V) : (policy env).Frames env false false false where
  accessed := recordAccessAt_sheds (promoteItem_sheds env)
  afterGet {s} i wf := by
    show Sheds true s (if (s.heap i).queueId = kTinyQueue then maybePromoteFromTiny env s else s)
    split
    · exact maybePromoteFromTiny_sheds wf
    · exact .refl s
  evict := evict_sheds
  removeErased _ := removeFromQueue_frees _ _
  removeForced _ := removeFromQueue_frees _ _
  removeFlushed _ := .unlink
  reconfigure {s} sec wf := by
    have unseen : Unseen s (s.restartRefresh sec) := .restartRefresh sec
    have restarted : Sheds true s (s.restartRefresh sec) := .of_heap rfl rfl rfl rfl
    exact restarted.trans (maybePromoteFromTiny_sheds (unseen.quiet.wf wf))

end MmTinyLfu

namespace MmWTinyLfu

open Window

theorem tryPromoteToProtection_sheds : Sheds clears s (tryPromoteToProtection env s i) := by
  have degraded : ∀ s : State K V, Sheds clears s (degradeProtection env s) := by
    intro s
    rw [degradeProtection]
    split
    · split
      · exact .refl s
      · exact .moveToQueue s _ _ _
    · exact .refl s
  rw [tryPromoteToProtection]
  split
  · exact .trans (.moveToQueue s i kProtectionQueue false) (degraded _)
  · exact .refl s

theorem promoteItem_sheds (env : Env K V) (s : State K V) (i : ItemId) (curr : Nat) :
    Sheds clears s (promoteItem env s i curr) := by
  have tuned : Sheds clears s (s.reconfigureLocked env curr
      ((s.tail kProtectionQueue).or (s.tail kProbationQueue))) := .reconfigureLocked curr _
  have moved := (tuned.trans (.moveToHead _ i)).trans
    (.modifyHook i fun h => { h with updateTime := curr })
  rw [promoteItem]
  split
  · exact (moved.trans tryPromoteToProtection_sheds).trans (.of_heap rfl rfl rfl rfl)
  · exact moved.trans (.of_heap rfl rfl rfl rfl)

theorem admitLoop_sheds (env : Env K V) (capacity tries : Nat) (s : State K V) :
    Sheds clears s (admitLoop env capacity tries s) := by
  induction tries generalizing s with
  | zero => exact .refl s
  | succ tries ih =>
    rw [admitLoop]
    split
    · exact .refl s
    split
    · exact .refl s
    split
    · exact .refl s
    split
    · exact ((Sheds.moveToQueue s _ _ _).trans (.moveToQueue _ _ _ _)).trans (ih _)
    · exact .moveToHead s _

theorem maybePromoteFromTiny_sheds (env : Env K V) (s : State K V) :
    Sheds clears s (maybePromoteFromTiny env s) := by
  rw [maybePromoteFromTiny, admitToProbation]
  split
  · exact drainTiny_sheds _ _ s
  · exact (drainTiny_sheds _ _ s).trans (admitLoop_sheds env _ _ _)

variable [DecidableEq K]

theorem evict_sheds (wf : s.WellFormed env) : Sheds true s (evict env s) := by
  have noted : Sheds true s s.cleanupPendingDeletion := .noted (.cleanup s)
  cases found : findVictim s with
  | none =>
    rw [evict_of_none found]
    exact noted
  | some v =>
    obtain ⟨u, here, moved, mem, free, evicted⟩ := evict_of_some wf found
    have shed : Sheds true s u := by
      obtain rfl | rfl := here
      · exact noted
      · exact noted.trans (.moveToQueue _ v kProbationQueue true)
    rw [evicted]
    exact shed.trans (evictGeneric_sheds moved.wf mem free)

theorem frames (env : Env K V) : (policy env).Frames env false false false where
  accessed := recordAccessAt_sheds (promoteItem_sheds env)
  afterGet {s} i _ := by
    show Sheds true s (if (s.heap i).queueId = kTinyQueue then maybePromoteFromTiny env s else s)
    split
    · exact maybePromoteFromTiny_sheds env s
    · exact .refl s
  evict := evict_sheds
  removeErased _ := removeFromQueue_frees _ _
  removeForced _ := removeFromQueue_frees _ _
  removeFlushed _ := .unlink
  reconfigure {s} sec _ := by
    have restarted : Sheds true s (s.restartRefresh sec) := .of_heap rfl rfl rfl rfl
    exact restarted.trans (maybePromoteFromTiny_sheds env _)

end MmWTinyLfu

namespace Strategy

/-- `erase_impl` and `erase_expired_impl` clear the linked bit. -/
def clearsErased : Strategy → Bool
  | mmLru | mmFifo | mm2q => true
  | mmTinyLfu | mmWTinyLfu => false

/-- `force_del`, `pop` and `pop_lru` clear it. -/
def clearsForced : Strategy → Bool
  | mmLru | mm2q => true
  | mmFifo | mmTinyLfu | mmWTinyLfu => false

def clearsFlushed : Strategy → Bool
  | mmLru => true
  | mmFifo | mm2q | mmTinyLfu | mmWTinyLfu => false

variable [DecidableEq K]

theorem frames (env : Env K V) (strategy : Strategy) : (strategy.policy env).Frames env
    strategy.clearsErased strategy.clearsForced strategy.clearsFlushed := by
  cases strategy with
  | mmLru => exact MmLru.frames env
  | mmFifo => exact MmFifo.frames env
  | mm2q => exact Mm2q.frames env
  | mmTinyLfu => exact MmTinyLfu.frames env
  | mmWTinyLfu => exact MmWTinyLfu.frames env

end Strategy

/-! ## Properties that a strategy keeps -/

/-- A property that does not see places and notes, survives the shedding of items and is
restored by the linking of a new one. -/
structure ShedClosed [DecidableEq K] (env : Env K V) (I : State K V → Prop) : Prop where
  sheds : ∀ {s t : State K V}, Sheds true s t → I s → I t
  configured : ∀ (s : State K V) settings bucketOf, I s →
    I { s with settings := settings, bucketOf := bucketOf }
  counted : ∀ (s : State K V) i (f : Nat → Nat), I s →
    I (s.modify i fun item => { item with accessRef := f item.accessRef })
  valued : ∀ (s : State K V) i value, I s → I (s.modify i fun item => { item with value := value })
  linked : ∀ {s : State K V} {key} value q expiryNs hook place liveCount, s.WellFormed env →
    s.find env key = none → (∀ i l, (place i l).Perm (i :: l)) → I s →
    I ((s.linkNew env key value q expiryNs hook place).ttlIndexPush liveCount key expiryNs)
  linkedPlain : ∀ {s : State K V} {key} value q hook place, s.WellFormed env →
    s.find env key = none → (∀ i l, (place i l).Perm (i :: l)) → I s →
    I (s.linkNew env key value q 0 hook place)

namespace ShedClosed

variable [DecidableEq K] {I : State K V → Prop} {key : K} (h : ShedClosed env I)

include h

theorem noteInsertion {n mem : Nat} (holds : I s) :
    I (s.noteInsertion n mem key value) := by
  obtain ⟨stats, events, noted, -⟩ := noteInsertion_eq s n mem key value
  rw [noted]
  exact h.sheds (s := s) (.of_heap rfl rfl rfl rfl) holds

theorem linkAtHead (value : V) (q : QueueId) (expiryNs : Nat) (hook : Hook)
    (liveCount size : State K V → Nat) (mem : Nat) (wf : s.WellFormed env)
    (absent : s.find env key = none) (holds : I s) :
    I (s.linkAtHead env key value q expiryNs hook liveCount size mem) :=
  h.noteInsertion
    (h.linked value q expiryNs hook List.cons _ wf absent (fun _ _ => .refl _) holds)

theorem enter {expiryNs mem : Nat} (wf : s.WellFormed env)
    (absent : s.find env key = none) (holds : I s) :
    I (enter env s key value expiryNs sec mem) := by
  have linked := h.linkAtHead value kTinyQueue expiryNs { updateTime := sec } size
    size mem wf absent holds
  exact h.sheds (.of_quiet recordKey_unseen.quiet rfl) linked

theorem insertNew (strategy : Strategy) (value : V) (expiryNs sec : Nat) (wf : s.WellFormed env)
    (absent : s.find env key = none) (holds : I s) :
    I ((strategy.policy env).insertNew s key value expiryNs sec) := by
  have evicts : ∀ {s : State K V}, s.WellFormed env → I s → I ((strategy.policy env).evict s) :=
    fun wf => h.sheds ((strategy.frames env).evict wf)
  have noted : ∀ {s t : State K V}, Noted s t → I s → I t := fun note => h.sheds (.noted note)
  cases strategy with
  | mmLru =>
    refine MmLru.insertNew_keeps evicts (fun {s} wf absent holds => ?_) wf absent holds noted
    have perm := MmLru.place_perm s
    refine h.sheds (MmLru.updateLruInsertionPoint_marks _).sheds (h.noteInsertion ?_)
    split
    case isTrue none =>
      subst none
      exact h.linkedPlain value 0 _ _ wf absent perm holds
    case isFalse => exact h.linked value 0 expiryNs _ _ _ wf absent perm holds
  | mmFifo =>
    exact (MmFifo.insertParts env).insertNew_keeps (fun _ => noted (.cleanup _))
      (MmFifo.makeRoom_keeps evicts)
      (fun _ _ wf absent => h.linkAtHead value 0 expiryNs {} _ _ _ wf absent) wf absent holds
  | mm2q =>
    refine Mm2q.insertParts.insertNew_keeps (fun _ => ?_)
      (Mm2q.eviction.makeRoom_keeps evicts)
      (fun o s wf absent holds => h.sheds Mm2q.rebalance_sheds
        (h.linkAtHead value _ expiryNs _ _ _ _ wf absent holds)) wf absent holds
    show I _ → I (Mm2q.prepare env _ key)
    rw [Mm2q.prepare]
    split
    · exact h.sheds (.of_heap rfl rfl rfl rfl)
    · exact id
  | mmTinyLfu =>
    refine MmTinyLfu.insertParts.insertNew_keeps
      (fun _ => h.sheds (drainTiny_sheds _ _ _))
      (MmTinyLfu.eviction.makeRoom_keeps evicts)
      (fun o s wf absent holds => ?_) wf absent holds
    exact h.sheds (MmTinyLfu.maybePromoteFromTiny_sheds
      (enter_inserts value expiryNs sec _ wf absent).wf)
      (h.enter wf absent holds)
  | mmWTinyLfu =>
    refine MmWTinyLfu.insertParts.insertNew_keeps
      (fun _ => h.sheds (drainTiny_sheds _ _ _))
      (MmWTinyLfu.eviction.makeRoom_keeps evicts)
      (fun o s wf absent holds => ?_) wf absent holds
    exact h.sheds (MmWTinyLfu.maybePromoteFromTiny_sheds env _)
      (h.enter wf absent holds)

theorem storeValue (holds : I s) :
    I ((strategy.policy env).storeValue env s i value sec) := by
  have accessed := h.sheds ((strategy.frames env).accessed _ i .write sec)
    (h.valued s i value holds)
  exact h.sheds .adjustMemory accessed

theorem maxSize (strategy : Strategy) (n : Nat) (wf : s.WellFormed env) (holds : I s) :
    I ((strategy.policy env).maxSize s n) := by
  have laws := strategy.laws env
  have frames := strategy.frames env
  have limited := h.configured s { s.settings with maxSize := n } s.bucketOf holds
  refine h.sheds (.of_quiet (laws.afterResize _) (frames.afterResize _)) ?_
  split
  · exact limited
  · have quiet := laws.beforeResize { s with settings := { s.settings with maxSize := n } } n
    exact h.sheds (frames.shrinkToFit laws (quiet.wf wf))
      (h.sheds (.of_quiet quiet (frames.beforeResize _ n)) limited)

/-- Such a property is kept by every operation that removes nothing on request. -/
theorem keepsRoom (strategy : Strategy) : (strategy.policy env).KeepsRoom env I where
  noted note := h.sheds (.noted note)
  configured s callbacks pred bucketOf := h.configured s _ bucketOf
  counted := h.counted
  accessed {s i} mode sec _ _ := h.sheds ((strategy.frames env).accessed s i mode sec)
  afterGet i wf := h.sheds ((strategy.frames env).afterGet i wf)
  setConfig {s} config sec wf holds := by
    have configured := h.configured s { s.settings with config := config } s.bucketOf holds
    exact h.sheds ((strategy.frames env).reconfigure sec wf) configured
  stored value sec _ _ := h.storeValue
  evict wf := h.sheds ((strategy.frames env).evict wf)
  insertNew := h.insertNew strategy
  maxSize := h.maxSize strategy
  maxMemory s n := h.configured s _ s.bucketOf

theorem step {op : Op K V} (wf : s.WellFormed env)
    (fixed : op.setsSizes = false) (plain : op.stamps = false) (stays : op.removes = false)
    (taken : strategy.step env s op = some t) (holds : I s) : I t := by
  have kept := h.keepsRoom strategy
  cases room : op.makesRoom with
  | true => exact Strategy.step_keepsRoom kept wf room plain taken holds
  | false => exact Strategy.step_keepsCalm kept.toKeepsCalm wf fixed room stays taken holds

end ShedClosed

end Lru.Mm
