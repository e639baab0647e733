import Lru.Mm.Invariants
import Lru.Mm.Rebalance

/-!
# The ghost queue of `mm_2q`

Two containers hold the remembered keys: a FIFO and a set. `Traced` is the invariant that
joins them with the lists: no key twice, no resident key, and every key that came since an
earlier state belongs to an item that left without having been in Warm. What an item's
past in Warm leaves behind is its `isAccessed` bit, which only its removal clears.

Almost every part of the strategy does no more than `Settles` says. The exceptions are the
linking of a new item and the few functions that write the two containers.
-/

namespace Lru.Mm.Mm2q

variable {K V : Type} {env : Env K V} {s t u o : State K V} {i : ItemId} {W : List ItemId}
  {expiryNs mem sec curr : Nat} {f : Item K V → Item K V} {toTail : Bool}

open State Policy List

/-! ## What most parts do -/

/-- Items leave, go to Cold or come to Warm with their bit set; no key is remembered or
forgotten. -/
structure Settles (s t : State K V) : Prop where
  mem : ∀ i ∈ t.table, i ∈ s.table
  key_eq : ∀ i, (t.heap i).key = (s.heap i).key
  accessed : ∀ i ∈ t.table, (s.heap i).hook.isAccessed = true → (t.heap i).hook.isAccessed = true
  listed : ∀ i ∈ t.table, (t.heap i).queueId = (s.heap i).queueId ∨
    (t.heap i).queueId = kQueueCold ∨
    (t.heap i).queueId = kQueueWarm ∧ (t.heap i).hook.isAccessed = true
  next_eq : t.next = s.next
  settings_eq : t.settings = s.settings
  fifo_eq : t.ghostFifo = s.ghostFifo
  keys_eq : t.ghostKeys = s.ghostKeys

namespace Settles

theorem of_frame (heap : t.heap = s.heap) (table : t.table = s.table) (next_eq : t.next = s.next)
    (settings_eq : t.settings = s.settings) (fifo_eq : t.ghostFifo = s.ghostFifo)
    (keys_eq : t.ghostKeys = s.ghostKeys) : Settles s t where
  mem i hi := table ▸ hi
  key_eq i := by rw [heap]
  accessed i _ set := by rw [heap]; exact set
  listed i _ := .inl (by rw [heap])
  next_eq := next_eq
  settings_eq := settings_eq
  fifo_eq := fifo_eq
  keys_eq := keys_eq

theorem refl (s : State K V) : Settles s s := .of_frame rfl rfl rfl rfl rfl rfl

theorem trans (first : Settles s t) (second : Settles t u) : Settles s u where
  mem i hi := first.mem i (second.mem i hi)
  key_eq i := (second.key_eq i).trans (first.key_eq i)
  accessed i hi set := second.accessed i hi (first.accessed i (second.mem i hi) set)
  listed i hi := by
    obtain same | cold | warm := second.listed i hi
    · rw [same]
      obtain before | cold | ⟨warm, set⟩ := first.listed i (second.mem i hi)
      · exact .inl before
      · exact .inr (.inl cold)
      · exact .inr (.inr ⟨warm, second.accessed i hi set⟩)
    · exact .inr (.inl cold)
    · exact .inr (.inr warm)
  next_eq := second.next_eq.trans first.next_eq
  settings_eq := second.settings_eq.trans first.settings_eq
  fifo_eq := second.fifo_eq.trans first.fifo_eq
  keys_eq := second.keys_eq.trans first.keys_eq

theorem noted (h : Noted s t) : Settles s t := by
  obtain ⟨_, _, _, _, _, rfl, -⟩ := h
  exact .of_frame rfl rfl rfl rfl rfl rfl

end Settles

/-- Only item `i` may have been written, and no item came. -/
structure Aside (i : ItemId) (s t : State K V) : Prop where
  heap : ∀ j, j ≠ i → t.heap j = s.heap j
  key_eq : (t.heap i).key = (s.heap i).key
  mem : ∀ j ∈ t.table, j ∈ s.table
  next_eq : t.next = s.next
  settings_eq : t.settings = s.settings
  fifo_eq : t.ghostFifo = s.ghostFifo
  keys_eq : t.ghostKeys = s.ghostKeys

namespace Aside

theorem trans (first : Aside i s t) (second : Aside i t u) : Aside i s u where
  heap j other := (second.heap j other).trans (first.heap j other)
  key_eq := second.key_eq.trans first.key_eq
  mem j hj := first.mem j (second.mem j hj)
  next_eq := second.next_eq.trans first.next_eq
  settings_eq := second.settings_eq.trans first.settings_eq
  fifo_eq := second.fifo_eq.trans first.fifo_eq
  keys_eq := second.keys_eq.trans first.keys_eq

theorem of_frame (heap : t.heap = s.heap) (mem : ∀ j ∈ t.table, j ∈ s.table)
    (next_eq : t.next = s.next) (settings_eq : t.settings = s.settings)
    (fifo_eq : t.ghostFifo = s.ghostFifo) (keys_eq : t.ghostKeys = s.ghostKeys) : Aside i s t :=
  ⟨fun _ _ => by rw [heap], by rw [heap], mem, next_eq, settings_eq, fifo_eq, keys_eq⟩

theorem modify (s : State K V)
    (key_eq : (f (s.heap i)).key = (s.heap i).key) : Aside i s (s.modify i f) :=
  ⟨fun j other => by simp [State.modify, other], by simpa [State.modify] using key_eq,
    fun _ hj => hj, rfl, rfl, rfl, rfl⟩

theorem stats (f : Stats → Stats) : Aside i s (s.modifyStats f) :=
  .of_frame rfl (fun _ hj => hj) rfl rfl rfl rfl

theorem collect {e : Event K V} : Aside i s (s.collect e) := by
  obtain ⟨events, collected⟩ := collect_eq s e
  rw [collected]
  exact .of_frame rfl (fun _ hj => hj) rfl rfl rfl rfl

theorem eraseKey [DecidableEq K] {key : K} : Aside i s (s.eraseKey env key) :=
  .of_frame rfl (fun _ hj => mem_of_mem_eraseP hj) rfl rfl rfl rfl

theorem retire {j : ItemId} : Aside i s (s.retire j) :=
  .of_frame rfl (fun _ hj => hj) rfl rfl rfl rfl

theorem unlink : Aside i s (s.unlink i) := .of_frame rfl (fun _ hj => hj) rfl rfl rfl rfl

theorem removeFromQueue : Aside i s (removeFromQueue s i) := by
  have cleared : Aside i s (s.modifyHook i fun h => { h with isAccessed := false }) := modify s rfl
  have unmarked : ∀ u : State K V, Aside i u (u.unmark i) := fun u => modify u rfl
  exact (cleared.trans unlink).trans (unmarked _)

theorem moveToQueue {q : QueueId} : Aside i s (s.moveToQueue i q toTail) := by
  rw [State.moveToQueue]
  refine .trans ?_ (.modify _ rfl)
  exact .of_frame rfl (fun _ hj => hj) rfl rfl rfl rfl

/-- Once the item is out of the table, what was written to it does not matter. -/
theorem settles (h : Aside i s t) (stays : i ∈ t.table →
      ((s.heap i).hook.isAccessed = true → (t.heap i).hook.isAccessed = true) ∧
      ((t.heap i).queueId = (s.heap i).queueId ∨ (t.heap i).queueId = kQueueCold ∨
        (t.heap i).queueId = kQueueWarm ∧ (t.heap i).hook.isAccessed = true)) : Settles s t := by
  refine ⟨h.mem, fun j => ?_, fun j hj set => ?_, fun j hj => ?_, h.next_eq,
    h.settings_eq, h.fifo_eq, h.keys_eq⟩ <;> by_cases same : j = i
  · rw [same, h.key_eq]
  · rw [h.heap j same]
  · subst same
    exact (stays hj).1 set
  · rwa [h.heap j same]
  · subst same
    exact (stays hj).2
  · exact .inl (by rw [h.heap j same])

end Aside

namespace Settles

/-- A write to one item that keeps its key and its list and does not clear its bit. -/
theorem modify (s : State K V) (i : ItemId)
    (key_eq : (f (s.heap i)).key = (s.heap i).key)
    (queueId_eq : (f (s.heap i)).queueId = (s.heap i).queueId)
    (accessed : (s.heap i).hook.isAccessed = true → (f (s.heap i)).hook.isAccessed = true) :
    Settles s (s.modify i f) :=
  (Aside.modify s key_eq).settles fun _ => by
    simpa [State.modify, queueId_eq] using accessed

theorem stamp : Settles s (s.modifyHook i fun h => { h with updateTime := curr }) :=
  modify s i rfl rfl fun set => set

theorem moveToCold : Settles s (s.moveToQueue i kQueueCold toTail) :=
  Aside.moveToQueue.settles fun _ => by
    simp [moveToQueue, unlink, State.setQueue, State.modify]

theorem rebalance : Settles s (rebalance env s) :=
  rebalance_induct (fun _ h => h.trans moveToCold)
    (.refl s) env

theorem reconfigureLocked {tail : Option ItemId} :
    Settles s (s.reconfigureLocked env curr tail) := by
  rw [State.reconfigureLocked]
  split
  · exact .refl s
  · split
    · exact .refl s
    · exact .of_frame rfl rfl rfl rfl rfl rfl

theorem recordAccessAt (env : Env K V) (s : State K V) (i : ItemId) (mode : AccessMode)
    (curr : Nat) : Settles s (recordAccessAt env s i mode curr).2 :=
  recordAccessAt_induct (fun _ h => h.trans moveToCold)
    (.refl s) mode reconfigureLocked
    -- Promotion sets the bit.
    (fun h => h.trans <| (Aside.moveToQueue.trans (.modify _ rfl)).settles
      fun _ => by simp [moveToQueue, State.modify])
    (fun h => h.trans (.of_frame rfl rfl rfl rfl rfl rfl)) fun h => h.trans stamp

theorem marked (h : Settles s t) (hi : i ∈ t.table) (set : (s.heap i).hook.isAccessed = true)
    (notHot : (s.heap i).queueId ≠ kQueueHot) :
    (t.heap i).hook.isAccessed = true ∧ (t.heap i).queueId ≠ kQueueHot := by
  refine ⟨h.accessed i hi set, ?_⟩
  obtain same | cold | ⟨warm, -⟩ := h.listed i hi
  · rw [same]; exact notHot
  · rw [cold]; decide
  · rw [warm]; decide

end Settles

/-! ## Removals -/

section Removals

variable [DecidableEq K]

theorem eraseKey_not_mem {key : K} (wf : s.WellFormed env) (hi : i ∈ s.table)
    (hk : (s.heap i).key = key) : i ∉ (s.eraseKey env key).table := by
  rw [eraseKey_table wf hi hk]
  exact wf.table_nodup |>.not_mem_erase

theorem evictVictim_settles (wf : s.WellFormed env) (hi : i ∈ s.table)
    (unpinned : (s.heap i).accessRef = 0) :
    Settles s (s.evictVictim env removeFromQueue i) := by
  have removed := evictVictim_removes wf hi unpinned fun u _ => removeFromQueue_unlinks
  refine Aside.settles ?_ fun hi => absurd hi (removed.not_mem wf)
  rw [evictVictim, if_pos (canMarkForEviction_of_mem wf hi unpinned)]
  refine .trans ?_ .retire
  refine .trans ?_ (.modify _ rfl)
  refine .trans ?_ .removeFromQueue
  refine .trans ?_ .eraseKey
  exact .trans (.trans (.stats _) (.stats _)) .collect

theorem erase_settles {count : Stats → Stats} (event : K → V → Event K V) {key : K}
    (wf : s.WellFormed env) : Settles s ((policy env).erase env s count event key) := by
  rw [erase]
  split
  · exact .refl s
  case h_2 i found =>
    split
    · exact .refl s
    · obtain ⟨hi, hk⟩ := (find_eq_some_iff wf).mp found
      refine Aside.settles (i := i) ?_ ?_
      · refine .trans ?_ (.stats _)
        refine .trans ?_ .retire
        refine .trans ?_ .removeFromQueue
        refine .trans ?_ .eraseKey
        exact .trans (.trans (.stats _) (.stats _)) .collect
      · obtain ⟨events, collected⟩ := collect_eq ((s.subMemory (s.itemMemory env i)).modifyStats
          count) (event (s.heap i).key (s.heap i).value)
        simp only
        rw [collected]
        exact fun still => absurd still (eraseKey_not_mem wf hi hk)

theorem takeOut_settles {key : K} (wf : s.WellFormed env) (found : s.find env key = some i) :
    Settles s ((policy env).takeOut env s key i) := by
  have removed := (laws env).takeOut_removes wf found
  refine Aside.settles ?_ fun hi => absurd hi (removed.not_mem wf)
  rw [takeOut]
  refine .trans ?_ (.stats _)
  refine .trans ?_ (.stats _)
  exact .trans .eraseKey .removeFromQueue

theorem popItem_settles (wf : s.WellFormed env) (hi : i ∈ s.table)
    (stable : env.movedKey (s.heap i).key = (s.heap i).key) :
    Settles s ((policy env).popItem env s i) := by
  have removed := (laws env).popItem_removes wf hi stable
  refine Aside.settles ?_ fun hi => absurd hi (removed.not_mem wf)
  rw [popItem]
  refine .trans ?_ (.stats _)
  refine .trans ?_ .retire
  refine .trans ?_ .removeFromQueue
  refine .trans ?_ .eraseKey
  exact .trans (.modify s stable) (.stats _)

theorem flushOne_settles {toRetire : List ItemId} (wf : s.WellFormed env) (hi : i ∈ s.table) :
    Settles s ((policy env).flushOne env (s, toRetire) i).1 := by
  rw [flushOne]
  simp only
  split
  · exact .refl s
  · split
    · refine Aside.settles (i := i) ?_ ?_
      · refine .trans ?_ .unlink
        refine .trans ?_ .eraseKey
        exact .trans (.stats _) .collect
      · obtain ⟨events, collected⟩ := collect_eq (s.subMemory (s.itemMemory env i))
          (.evict (s.heap i).key (s.heap i).value)
        rw [collected]
        exact fun still => absurd still (eraseKey_not_mem wf hi rfl)
    · exact .refl s

end Removals

/-! ## The invariant -/

/-- The remembered keys of `s`, seen from an earlier state `o` of the run. The items of `W`
have been in Warm. -/
structure Traced (W : List ItemId) (o s : State K V) : Prop where
  nodup : s.ghostFifo.Nodup
  perm : s.ghostKeys.Perm s.ghostFifo
  absent : ∀ i ∈ s.table, (s.heap i).key ∉ s.ghostFifo
  warm : ∀ i ∈ s.table, (s.heap i).queueId = kQueueWarm → (s.heap i).hook.isAccessed = true
  visited : ∀ i ∈ s.table, i ∈ W →
    (s.heap i).hook.isAccessed = true ∧ (s.heap i).queueId ≠ kQueueHot
  known : ∀ i ∈ W, i < s.next
  next_le : o.next ≤ s.next
  key_eq : ∀ i < o.next, (s.heap i).key = (o.heap i).key
  origin : ∀ i ∈ s.table, i ∈ o.table ∨ o.next ≤ i
  entered : ∀ key ∈ s.ghostFifo, key ∈ o.ghostFifo ∨ ∃ i, (s.heap i).key = key ∧
    (i ∈ o.table ∨ o.next ≤ i) ∧ i < s.next ∧ i ∉ s.table ∧ i ∉ W

namespace Traced

variable (h : Traced W o s)
include h

theorem refl : Traced W s s :=
  { h with
    next_le := le_refl _
    key_eq := fun _ _ => rfl
    origin := fun _ hi => .inl hi
    entered := fun _ hk => .inl hk }

theorem settles (settled : Settles s t) : Traced W o t where
  nodup := settled.fifo_eq ▸ h.nodup
  perm := by rw [settled.fifo_eq, settled.keys_eq]; exact h.perm
  absent i hi := by
    rw [settled.fifo_eq, settled.key_eq i]
    exact h.absent i (settled.mem i hi)
  warm i hi inWarm := by
    obtain same | cold | ⟨-, set⟩ := settled.listed i hi
    · exact settled.accessed i hi (h.warm i (settled.mem i hi) (same ▸ inWarm))
    · rw [inWarm] at cold
      cases cold
    · exact set
  visited i hi visit := by
    obtain ⟨set, notHot⟩ := h.visited i (settled.mem i hi) visit
    exact settled.marked hi set notHot
  known i hi := settled.next_eq ▸ h.known i hi
  next_le := settled.next_eq ▸ h.next_le
  key_eq i lt := (settled.key_eq i).trans (h.key_eq i lt)
  origin i hi := h.origin i (settled.mem i hi)
  entered key hk := by
    obtain before | ⟨i, itsKey, came, lt, gone, unvisited⟩ := h.entered key (settled.fifo_eq ▸ hk)
    · exact .inl before
    · exact .inr ⟨i, (settled.key_eq i).trans itsKey, came, settled.next_eq ▸ lt,
        fun hi => gone (settled.mem i hi), unvisited⟩

theorem forget {fifo keys : List K} (sub : fifo.Sublist s.ghostFifo) (perm : keys.Perm fifo) :
    Traced W o { s with ghostFifo := fifo, ghostKeys := keys } :=
  { h with
    nodup := h.nodup.sublist sub
    perm := perm
    absent := fun i hi remembered => h.absent i hi (sub.subset remembered)
    entered := fun key hk => h.entered key (sub.subset hk) }

/-- The key of an item that left without having been in Warm may enter. -/
theorem remember (gone : i ∉ s.table) (came : i ∈ o.table ∨ o.next ≤ i) (lt : i < s.next)
    (unvisited : i ∉ W) (new : (s.heap i).key ∉ s.ghostFifo)
    (unique : ∀ j ∈ s.table, (s.heap j).key ≠ (s.heap i).key) : Traced W o { s with
      ghostFifo := s.ghostFifo ++ [(s.heap i).key]
      ghostKeys := (s.heap i).key :: s.ghostKeys } :=
  { h with
    nodup := by
      refine nodup_append.mpr ⟨h.nodup, nodup_singleton _, ?_⟩
      rintro key hk _ last rfl
      rw [mem_singleton.mp last] at hk
      exact new hk
    perm := (h.perm.cons _).trans (perm_append_singleton _ _).symm
    absent := by
      intro j hj remembered
      obtain old | last := mem_append.mp remembered
      · exact h.absent j hj old
      · exact unique j hj (mem_singleton.mp last)
    entered := by
      intro key hk
      obtain old | last := mem_append.mp hk
      · exact h.entered key old
      · exact .inr ⟨i, (mem_singleton.mp last).symm, came, lt, gone, unvisited⟩ }

theorem mono {U : List ItemId} (sub : U ⊆ W) : Traced U o s :=
  { h with
    visited := fun i hi visit => h.visited i hi (sub visit)
    known := fun i visit => h.known i (sub visit)
    entered := by
      intro key hk
      obtain before | ⟨i, itsKey, came, lt, gone, unvisited⟩ := h.entered key hk
      · exact .inl before
      · exact .inr ⟨i, itsKey, came, lt, gone, fun visit => unvisited (sub visit)⟩ }

/-- More items may be known to have been in Warm if they carry their bit. -/
theorem visit {more : List ItemId} (wf : s.WellFormed env) (resident : ∀ i ∈ more, i ∈ s.table)
    (marked : ∀ i ∈ more,
      (s.heap i).hook.isAccessed = true ∧ (s.heap i).queueId ≠ kQueueHot) :
    Traced (W ++ more) o s :=
  { h with
    visited := fun i hi visit => (mem_append.mp visit).elim (h.visited i hi) (marked i)
    known := fun i visit => (mem_append.mp visit).elim (h.known i) fun new =>
      wf.table_lt i (resident i new)
    entered := by
      intro key hk
      obtain before | ⟨i, itsKey, came, lt, gone, unvisited⟩ := h.entered key hk
      · exact .inl before
      · refine .inr ⟨i, itsKey, came, lt, gone, fun visit => ?_⟩
        exact (mem_append.mp visit).elim unvisited fun new => gone (resident i new) }

end Traced

def Bounded (env : Env K V) (s : State K V) : Prop := s.ghostFifo.length ≤ ghostCapacity env s

section Containers

theorem ghostCapacity_congr (settings : t.settings = s.settings) :
    ghostCapacity env t = ghostCapacity env s := by
  rw [ghostCapacity, ghostCapacity, settings]

theorem Bounded.settles (h : Bounded env s) (settled : Settles s t) : Bounded env t := by
  rw [Bounded, settled.fifo_eq, ghostCapacity_congr settled.settings_eq]
  exact h

variable [DecidableEq K]

theorem trimTo_spec {capacity : Nat} {fifo keys : List K} (perm : keys.Perm fifo) :
    (trimTo capacity fifo keys).1.Sublist fifo ∧
      (trimTo capacity fifo keys).2.Perm (trimTo capacity fifo keys).1 ∧
      (trimTo capacity fifo keys).1.length ≤ capacity := by
  induction fifo generalizing keys with
  | nil => exact ⟨.slnil, perm, Nat.zero_le _⟩
  | cons oldest rest ih =>
    rw [trimTo]
    split
    · have shorter : (keys.erase oldest).Perm rest := by
        simpa using perm.erase oldest
      obtain ⟨sub, perm, le⟩ := ih shorter
      exact ⟨sub.cons _, perm, le⟩
    case isFalse fits => exact ⟨.refl _, perm, Nat.le_of_not_lt fits⟩

theorem ghostTrim_traced (h : Traced W o s) : Traced W o (ghostTrim env s) :=
  have trimmed := trimTo_spec h.perm
  h.forget trimmed.1 trimmed.2.1

theorem ghostTrim_bounded (h : Traced W o s) : Bounded env (ghostTrim env s) :=
  (trimTo_spec h.perm).2.2

theorem ghostTake_traced (h : Traced W o s) {key : K} : Traced W o (ghostTake s key) :=
  h.forget erase_sublist (h.perm.erase key)

theorem not_mem_ghostTake (h : Traced W o s) (key : K) : key ∉ (ghostTake s key).ghostFifo :=
  h.nodup.not_mem_erase

/-- Within the bound, `insert_new` sees exactly the keys of the FIFO. -/
theorem ghostHit_iff (h : Traced W o s) (le : Bounded env s) (key : K) :
    ghostHit env s key = true ↔ key ∈ s.ghostFifo := by
  rw [ghostHit, Bool.and_eq_true, decide_eq_true_eq, decide_eq_true_eq, h.perm.mem_iff]
  refine ⟨fun hit => hit.2, fun remembered => ⟨?_, remembered⟩⟩
  exact lt_of_lt_of_le (length_pos_of_mem remembered) le

theorem find_eq_none_of_remembered {key : K} (h : Traced W o s) (wf : s.WellFormed env)
    (remembered : key ∈ s.ghostFifo) : s.find env key = none :=
  (find_eq_none_iff wf).mpr fun i hi same => h.absent i hi (same ▸ remembered)

/-- A key that is refreshed moves to the end of the FIFO. -/
theorem ghostRecord_traced (env : Env K V) (h : Traced W o s) (gone : i ∉ s.table)
    (came : i ∈ o.table ∨ o.next ≤ i) (lt : i < s.next) (unvisited : i ∉ W)
    (unique : ∀ j ∈ s.table, (s.heap j).key ≠ (s.heap i).key) :
    Traced W o (ghostRecord env s (s.heap i).key) ∧
      Bounded env (ghostRecord env s (s.heap i).key) := by
  rw [ghostRecord]
  split
  case isTrue =>
    have recorded := (ghostTake_traced h).remember gone came lt unvisited
      (not_mem_ghostTake h (s.heap i).key) unique
    exact ⟨ghostTrim_traced recorded, ghostTrim_bounded recorded⟩
  case isFalse new =>
    have recorded := h.remember gone came lt unvisited
      (fun old => new (h.perm.mem_iff.mpr old)) unique
    exact ⟨ghostTrim_traced recorded, ghostTrim_bounded recorded⟩

end Containers

/-! ## Eviction and insertion -/

section Parts

variable {q : QueueId} {key : K} {v : ItemId}

theorem findVictim_mem (found : findVictim s = some (q, v)) : v ∈ s.queue q := by
  obtain ⟨p, -, found⟩ := exists_of_findSome?_eq_some found
  split at found
  · cases found
  case h_2 w searched =>
    split at found
    · cases found
      exact mem_reverse.mp (searchVictim_spec searched).1
    · cases found

/-- What feeds the ghost queue has not been in Warm. -/
theorem not_visited_of_feedsGhost (h : Traced W o s) (wf : s.WellFormed env) (hv : v ∈ s.queue q)
    (feeds : feedsGhost env s q v = true) : v ∉ W := by
  intro visit
  have home := wf.queue_id q v hv
  obtain ⟨set, notHot⟩ := h.visited v (mem_of_queue wf hv) visit
  rw [feedsGhost, set] at feeds
  simp only [Bool.not_true, Bool.and_false, Bool.or_false, Bool.and_eq_true, beq_iff_eq] at feeds
  exact notHot (home.trans feeds.2)

variable [DecidableEq K] {value : V} {hook : Hook}

theorem evict_traced (wf : s.WellFormed env) (h : Traced W o s) :
    Traced W o (evict env s) ∧ (Bounded env s → Bounded env (evict env s)) := by
  have clean := Rearranges.cleanup wf
  have settled : Settles s s.cleanupPendingDeletion := .noted (.cleanup s)
  have traced := h.settles settled
  rw [evict]
  split
  · have stored : Settles s (s.cleanupPendingDeletion.storeSize (size s.cleanupPendingDeletion)) :=
      settled.trans (.noted .storeSize)
    exact ⟨h.settles stored, fun le => le.settles stored⟩
  case h_2 q v found =>
    have hv := findVictim_mem found
    obtain ⟨mem, unpinned⟩ := findVictim_spec clean.wf found
    have dropped := evictVictim_settles clean.wf mem unpinned
    have removed := evictVictim_removes clean.wf mem unpinned
      fun u _ => removeFromQueue_unlinks
    simp only
    split
    case isTrue feeds =>
      have recorded := ghostRecord_traced env (traced.settles dropped) (removed.not_mem clean.wf)
        (traced.origin v mem) (dropped.next_eq ▸ clean.wf.table_lt v mem)
        (not_visited_of_feedsGhost traced clean.wf hv feeds) ?_
      · rw [dropped.key_eq] at recorded
        exact ⟨recorded.1.settles (.noted .storeSize),
          fun _ => recorded.2.settles (.noted .storeSize)⟩
      · intro j hj same
        rw [dropped.key_eq, dropped.key_eq] at same
        have : j = v := clean.wf.key_inj j (dropped.mem j hj) v mem same
        exact removed.not_mem clean.wf (this ▸ hj)
    case isFalse =>
      have gone := settled.trans dropped
      exact ⟨(h.settles gone).settles (.noted .storeSize),
        fun le => (le.settles gone).settles (.noted .storeSize)⟩

theorem linkNew_traced {place : ItemId → List ItemId → List ItemId}
    (wf : s.WellFormed env) (absent : s.find env key = none) (h : Traced W o s)
    (new : key ∉ s.ghostFifo) (marked : q = kQueueWarm → hook.isAccessed = true) :
    Traced W o (s.linkNew env key value q expiryNs hook place) := by
  have lt : ∀ i ∈ s.table, i < s.next := wf.table_lt
  rw [linkNew_eq wf absent]
  -- Each field holds of the new item by its data and of the others by the hypothesis.
  refine ⟨h.nodup, h.perm, ?_, ?_, ?_, fun i visit => Nat.lt_succ_of_lt (h.known i visit),
    Nat.le_succ_of_le h.next_le, ?_, ?_, ?_⟩
  · intro i hi
    obtain rfl | hi := mem_cons.mp hi
    · simpa using new
    · simpa [ne_of_lt (lt i hi)] using h.absent i hi
  · intro i hi
    obtain rfl | hi := mem_cons.mp hi
    · simpa using marked
    · simpa [ne_of_lt (lt i hi)] using h.warm i hi
  · intro i hi visit
    have before := ne_of_lt (h.known i visit)
    simpa [before] using h.visited i ((mem_cons.mp hi).resolve_left before) visit
  · intro i early
    simpa [ne_of_lt (lt_of_lt_of_le early h.next_le)] using h.key_eq i early
  · intro i hi
    obtain rfl | hi := mem_cons.mp hi
    · exact .inr h.next_le
    · exact h.origin i hi
  · intro key hk
    obtain before | ⟨i, itsKey, came, early, gone, unvisited⟩ := h.entered key hk
    · exact .inl before
    · refine .inr ⟨i, ?_, came, Nat.lt_succ_of_lt early, ?_, unvisited⟩
      · simpa [ne_of_lt early] using itsKey
      · exact fun hi => (mem_cons.mp hi).elim (ne_of_lt early) gone

theorem linkAtHead_settles {liveCount size : State K V → Nat} :
    Settles (s.linkNew env key value q expiryNs hook cons)
      (s.linkAtHead env key value q expiryNs hook liveCount size mem) := by
  simp only [linkAtHead]
  generalize s.linkNew env key value q expiryNs hook cons = linked
  obtain ⟨stats, events, noted, -⟩ := noteInsertion_eq
    (linked.ttlIndexPush (liveCount linked) key expiryNs)
    (size (linked.ttlIndexPush (liveCount linked) key expiryNs)) mem key value
  obtain ⟨index, pushed⟩ := ttlIndexPush_eq
  rw [noted, pushed]
  exact .of_frame rfl rfl rfl rfl rfl rfl

/-- A remembered key links its item into Warm with the bit set. -/
theorem link_traced {hit : Bool} (wf : s.WellFormed env)
    (absent : s.find env key = none) (h : Traced W o s) (new : key ∉ s.ghostFifo) :
    Traced (W ++ if hit then [s.next] else []) o (link env s hit key value expiryNs sec mem) ∧
      (link env s hit key value expiryNs sec mem).ghostFifo = s.ghostFifo := by
  have settled : Settles _ (link env s hit key value expiryNs sec mem) :=
    linkAtHead_settles.trans .rebalance
  refine ⟨Traced.settles ?_ settled, settled.fifo_eq.trans (by rw [linkNew_eq wf absent])⟩
  have inserted : Inserts env s (s.linkNew env key value (if hit then kQueueWarm else kQueueHot)
      expiryNs { updateTime := sec, isAccessed := hit } cons) key value expiryNs :=
    linkNew_inserts wf absent fun _ _ => .refl _
  cases hit with
  | false =>
    rw [if_neg Bool.false_ne_true, append_nil]
    exact linkNew_traced wf absent h new fun warm => absurd warm (by decide)
  | true =>
    refine (linkNew_traced wf absent h new fun _ => rfl).visit inserted.wf ?_ ?_
    · intro i hi
      rw [mem_singleton.mp hi]
      exact inserted.mem_new
    · intro i hi
      rw [mem_singleton.mp hi, linkNew_eq wf absent]
      simp
      decide

/-- The items that `insert_new` links into Warm. -/
def warmInsertions (env : Env K V) (s : State K V) (key : K) : List ItemId :=
  if s.settings.maxSize ≠ 0 ∧ ghostHit env s key = true then [s.next] else []

theorem prepare_traced (h : Traced W o s) (le : Bounded env s) :
    Traced W o (prepare env s key) ∧ Bounded env (prepare env s key) ∧
      key ∉ (prepare env s key).ghostFifo := by
  rw [prepare]
  split
  · refine ⟨ghostTake_traced h, ?_, not_mem_ghostTake h key⟩
    exact le_trans erase_sublist.length_le le
  case isFalse miss =>
    exact ⟨h, le, fun remembered => miss ((ghostHit_iff h le key).mpr remembered)⟩

/-- The state in which a new item is linked. Its key is not remembered: the entry was taken,
and no eviction can have brought it back, because the key is not resident. -/
theorem room_traced (wf : s.WellFormed env) (absent : s.find env key = none)
    (h : Traced W o s) (le : Bounded env s) :
    Shrinks env s ((prepare env s key).makeRoom (evict env) size mem) ∧
      Traced W o ((prepare env s key).makeRoom (evict env) size mem) ∧
      Bounded env ((prepare env s key).makeRoom (evict env) size mem) ∧
      key ∉ ((prepare env s key).makeRoom (evict env) size mem).ghostFifo := by
  have prepared : Rearranges env s (prepare env s key) := insertParts.prepare key wf
  obtain ⟨traced, bounded, taken⟩ := prepare_traced h le
  have roomy := eviction.makeRoom_shrinks mem prepared.wf
  obtain ⟨traced, since, bounded⟩ := eviction.makeRoom_keeps
    (I := fun u => Traced W o u ∧ Traced W (prepare env s key) u ∧ Bounded env u)
    (fun wf kept => ⟨(evict_traced wf kept.1).1, (evict_traced wf kept.2.1).1,
      (evict_traced wf kept.1).2 kept.2.2⟩) mem prepared.wf ⟨traced, traced.refl, bounded⟩
  refine ⟨prepared.toShrinks.trans roomy, traced, bounded, fun remembered => ?_⟩
  obtain before | ⟨i, itsKey, came, lt, -, -⟩ := since.entered key remembered
  · exact taken before
  · rw [roomy.next_eq] at lt
    rw [since.key_eq i lt] at itsKey
    have resident := came.resolve_right (Nat.not_le_of_lt lt)
    have missing : (prepare env s key).find env key = none := (prepared.find_eq wf).trans absent
    exact (find_eq_none_iff prepared.wf).mp missing i resident itsKey

theorem insertNew_traced (wf : s.WellFormed env)
    (absent : s.find env key = none) (h : Traced W o s) (le : Bounded env s) :
    Traced (W ++ warmInsertions env s key) o (insertNew env s key value expiryNs sec) ∧
      Bounded env (insertNew env s key value expiryNs sec) := by
  rw [insertNew]
  split
  case isTrue zero => simpa [warmInsertions, zero] using And.intro h le
  case isFalse positive =>
    set mem := s.settings.calcItemMemory env key value
    obtain ⟨roomy, traced, bounded, new⟩ := room_traced wf absent h le
    have still := roomy.find_eq_none wf absent
    have inserted := (link_spec (ghostHit env s key) value expiryNs sec mem roomy.wf still).1
    obtain ⟨linked, fifo⟩ := link_traced roomy.wf
      still traced new
    constructor
    · rw [roomy.next_eq] at linked
      simpa [warmInsertions, positive] using linked
    · rw [Bounded, fifo, ghostCapacity_congr inserted.settings_eq]
      exact bounded

/-! ## Every part -/

/-- A property that is kept by what most parts do, by `flush` and by `set_config`. -/
theorem keepsAside {I : State K V → Prop} (settled : ∀ {s t : State K V}, Settles s t → I s → I t)
    (configured : ∀ (s : State K V) callbacks pred bucketOf, I s → I { s with
      bucketOf := bucketOf
      settings := { s.settings with callbacks := callbacks, evictionPredicate := pred } })
    (cleared : ∀ {s : State K V}, I s → I { s with ghostFifo := [], ghostKeys := [] })
    (reconfigured : ∀ {s : State K V} config sec, I s → I ((policy env).setConfig s config sec)) :
    (policy env).KeepsAside env I where
  noted note := settled (.noted note)
  configured := configured
  indexed _ _ := settled (.of_frame rfl rfl rfl rfl rfl rfl)
  counted s i _ := settled (.modify s i rfl rfl fun set => set)
  accessed mode sec _ _ := settled (.recordAccessAt env _ _ mode sec)
  afterGet _ _ holds := holds
  erase event _ wf _ := settled (erase_settles event wf)
  takeOut wf found := settled (takeOut_settles wf found)
  popItem wf hi stable := settled (popItem_settles wf hi stable)
  flush wf holds := (laws env).flush_keeps (fun note => settled (.noted note))
    (fun _ wf hi => settled (flushOne_settles wf hi)) cleared wf holds
  setConfig config sec _ := reconfigured config sec

section

omit [DecidableEq K]

theorem Traced.configure (h : Traced W o s) (settings : Settings K V)
    (bucketOf : ItemId → Nat) :
    Traced W o { s with settings := settings, bucketOf := bucketOf } :=
  { h with }

theorem rebalanced_traced (env : Env K V) (h : Traced W o s) (config : Config) (sec : Nat) :
    Traced W o (rebalance env (restartRefresh
      { s with settings := { s.settings with config := config } } sec)) := by
  have configured := h.configure { s.settings with config := config } s.bucketOf
  refine configured.settles (.trans ?_ .rebalance)
  exact .of_frame rfl rfl rfl rfl rfl rfl

theorem adjustMemory_settles {before after : Nat} : Settles s (adjustMemory s before after) := by
  rw [adjustMemory]
  split
  · exact .of_frame rfl rfl rfl rfl rfl rfl
  · split
    · exact .of_frame rfl rfl rfl rfl rfl rfl
    · exact .refl s

end

theorem storeValue_settles : Settles s ((policy env).storeValue env s i value sec) := by
  have written : Settles s (s.modify i fun item => { item with value := value }) :=
    .modify s i rfl rfl fun set => set
  exact (written.trans (.recordAccessAt env _ i .write sec)).trans adjustMemory_settles

/-- The invariant between two calls: the trace and the bound. -/
structure GhostInvariant (env : Env K V) (W : List ItemId) (o s : State K V) : Prop extends
    Traced W o s where
  bounded : Bounded env s

omit [DecidableEq K] in
theorem GhostInvariant.settle (h : GhostInvariant env W o s) (settled : Settles s t) :
    GhostInvariant env W o t :=
  ⟨h.settles settled, h.bounded.settles settled⟩

theorem keeps (env : Env K V) (W : List ItemId) (o : State K V) :
    (policy env).Keeps env (GhostInvariant env W o) where
  toKeepsAside := keepsAside (fun settled holds => holds.settle settled)
    (fun _ _ _ _ holds => ⟨holds.configure _ _, holds.bounded⟩)
    (fun holds => ⟨holds.forget (nil_sublist _) (.refl _), Nat.zero_le _⟩)
    (fun config sec holds =>
      have traced := rebalanced_traced env holds.toTraced config sec
      ⟨ghostTrim_traced traced, ghostTrim_bounded traced⟩)
  stamped s i _ holds := holds.settle (.modify s i rfl rfl fun set => set)
  stored value sec _ _ holds := holds.settle storeValue_settles
  evict wf holds :=
    have evicted := evict_traced wf holds.toTraced
    ⟨evicted.1, evicted.2 holds.bounded⟩
  insertNew value expiryNs sec wf absent holds :=
    have inserted := insertNew_traced wf absent holds.toTraced holds.bounded
    ⟨inserted.1.mono (subset_append_left _ _), inserted.2⟩
  maxSize {s} n wf holds := by
    have limited := holds.configure { s.settings with maxSize := n } s.bucketOf
    have shrunk : Traced W o (if n = unlimited then
        { s with settings := { s.settings with maxSize := n } }
        else (policy env).shrinkToFit { s with settings := { s.settings with maxSize := n } }) := by
      split
      · exact limited
      · exact eviction.evictWhile_keeps (fun wf h => (evict_traced wf h).1) _ wf limited
    exact ⟨ghostTrim_traced shrunk, ghostTrim_bounded shrunk⟩
  maxMemory _ _ holds := ⟨holds.configure _ _, holds.bounded⟩

theorem keeps_remembered :
    (policy env).KeepsAside env fun s => Traced W o s ∧ s.ghostFifo ⊆ o.ghostFifo :=
  keepsAside (fun settled holds => ⟨holds.1.settles settled, settled.fifo_eq ▸ holds.2⟩)
    (fun _ _ _ _ holds => ⟨holds.1.configure _ _, holds.2⟩)
    (fun holds => ⟨holds.1.forget (nil_sublist _) (.refl _), nil_subset _⟩)
    (fun config sec holds => by
      have traced := rebalanced_traced env holds.1 config sec
      refine ⟨ghostTrim_traced traced, fun key hk => ?_⟩
      have kept := (trimTo_spec traced.perm).1.subset hk
      rw [Settles.rebalance.fifo_eq] at kept
      exact holds.2 kept)

end Parts

end Lru.Mm.Mm2q
