import Lru.Mm.LruVictim

/-!
# The memory counter of every strategy

`current_memory` follows the lists: an eviction or a removal subtracts the estimate of the
item that leaves, an insertion adds one and an update accounts for the difference. As long
as the size calculators stay the same, the counter of every strategy is the estimate of all
linked items, as a machine word.
-/

namespace Lru.Mm

open Policy

variable {K V : Type} {env : Env K V} {s t : State K V} {i : ItemId} {value : V}
  {sec expiryNs : Nat}

open State SizeT Strategy

/-- The memory counter is the estimate of the linked items, as a machine word. -/
def Billed (env : Env K V) (s : State K V) : Prop :=
  s.stats.currentMemory = s.weight env % SizeT.range

theorem Quiet.weight_eq (same : Quiet s t) : t.weight env = s.weight env := by
  have items : ∀ j, t.itemMemory env j = s.itemMemory env j := fun j =>
    itemMemory_of_content same.settings_eq (congrArg Body.content (same.body_eq j))
  rw [weight, weight, liveItems, liveItems, same.queue_eq, funext items]

namespace Billed

variable (h : Billed env s)
include h

theorem rearranges (wf : s.WellFormed env) (same : Rearranges env s t)
    (memory : t.stats.currentMemory = s.stats.currentMemory) : Billed env t := by
  rw [Billed, memory, h, same.weight_eq wf]

theorem moves (wf : s.WellFormed env) (moved : Moves env s t) : Billed env t :=
  h.rearranges wf moved.toRearranges (by rw [moved.stats_eq])

theorem quiet (same : Quiet s t) (memory : t.stats.currentMemory = s.stats.currentMemory) :
    Billed env t := by
  rw [Billed, memory, h, same.weight_eq]

/-- Writes to an item other than to its key and value. -/
theorem modify {f : Item K V → Item K V} (key_eq : ∀ item, (f item).key = item.key)
    (value_eq : ∀ item, (f item).value = item.value) : Billed env (s.modify i f) := by
  have items : ∀ j, (s.modify i f).itemMemory env j = s.itemMemory env j := by
    intro j
    by_cases same : j = i
    · subst same
      simp [itemMemory, State.modify, key_eq, value_eq]
    · simp [itemMemory, State.modify, same]
  have weight : (s.modify i f).weight env = s.weight env := by
    rw [weight, funext items]
    rfl
  exact h.trans (by rw [weight])

theorem noted (note : Noted s t) : Billed env t := by
  obtain ⟨_, _, _, _, _, rfl, memory⟩ := note
  exact memory.trans h

theorem removes (wf : s.WellFormed env) (removed : Removes env s t i)
    (memory : t.stats.currentMemory =
      fetchSub s.stats.currentMemory (s.itemMemory env i)) : Billed env t := by
  rw [Billed, memory, h, ← removed.weight_eq wf, fetchSub_mod_add itemMemory_lt.le]

theorem inserts {key : K} (wf : s.WellFormed env)
    (inserted : Inserts env s t key value expiryNs) (table : t.table = s.next :: s.table)
    (memory : t.stats.currentMemory = fetchAdd s.stats.currentMemory
      (s.settings.calcItemMemory env key value)) : Billed env t := by
  rw [Billed, memory, h, inserted.weight_eq wf table, fetchAdd, Nat.mod_add_mod]

end Billed

theorem EvictionCounts.billed {evict : State K V → State K V} {size : State K V → Nat}
    {victim : State K V → Option ItemId} (counts : EvictionCounts env victim evict)
    (e : Eviction env size victim evict) (wf : s.WellFormed env) (h : Billed env s) :
    Billed env (evict s) := by
  cases found : victim s with
  | none =>
    refine h.rearranges wf (e.rearranges wf found) ?_
    obtain stats | stats := counts.missed wf found <;> rw [stats]
  | some v => exact h.removes wf (e.removes wf found) (by rw [counts.taken wf found])

/-- Steps that change neither items nor counters. -/
theorem Accounted.moves (h : Accounted env s) (wf : s.WellFormed env) (moved : Moves env s t) :
    Accounted env t where
  size := by
    rw [moved.stats_eq, h.size, linkedCount_eq wf, linkedCount_eq moved.wf, moved.table_eq]
  memory := Billed.moves h.memory wf moved

/-! ## The operations -/

/-- The parts of a strategy keep the counter right or leave it alone. -/
structure Policy.Bills [DecidableEq K] (env : Env K V) (p : Policy K V) : Prop where
  counts : EvictionCounts env p.victim p.evict
  afterGet : ∀ {s : State K V} i, s.WellFormed env → Billed env s → Billed env (p.afterGet s i)
  insertNew : ∀ {s : State K V} {key} value expiryNs sec, s.WellFormed env →
    s.find env key = none → Billed env s → Billed env (p.insertNew s key value expiryNs sec)
  removeErased : ∀ s i, (p.removeErased s i).stats = s.stats
  removeForced : ∀ s i, (p.removeForced s i).stats = s.stats
  flushParts : p.FlushParts
  beforeResize : ∀ s n, (p.beforeResize s n).stats = s.stats := by intros; rfl
  afterResize : ∀ s, (p.afterResize s).stats = s.stats := by intros; rfl
  reconfigure : ∀ {s : State K V} sec, s.WellFormed env → Billed env s →
    Billed env (p.reconfigure s sec)

namespace Policy.Bills

variable [DecidableEq K] {p : Policy K V} {key : K}

/-- `update_existing` adds or subtracts the difference. -/
theorem storeValue (laws : p.Laws env) (value : V) (sec : Nat) (wf : s.WellFormed env)
    (hi : i ∈ s.table) (h : Billed env s) : Billed env (p.storeValue env s i value sec) := by
  have stored := laws.storeValue_rearranges wf value sec hi
  have written := WellFormed.write (i := i) (.value value) wf
  have change := weight_modify_value wf hi value
  have part := List.sum_map_erase (s.itemMemory env) hi
  rw [← weight_eq_table wf] at part
  have before : s.stats.currentMemory = (((s.table.erase i).map (s.itemMemory env)).sum +
      s.itemMemory env i) % range := by
    rw [h, ← part, Nat.add_comm]
  rw [Billed, storeValue_stats laws value sec wf (find_key wf hi),
    adjustMemory_add itemMemory_lt before, stored.weight_eq written]
  congr 1
  omega

section Removals

variable (bills : p.Bills env) (laws : p.Laws env) (wf : s.WellFormed env) (h : Billed env s)

include bills laws wf h

theorem evict : Billed env (p.evict s) := bills.counts.billed laws.eviction wf h

theorem erase {count : Stats → Stats} (event : K → V → Event K V)
    (counts : ∀ x, (count x).currentMemory = x.currentMemory) :
    Billed env (p.erase env s count event key) := by
  rw [Policy.erase]
  split
  · exact h
  case h_2 i found =>
    split
    · exact h
    · obtain ⟨hi, hk⟩ := (find_eq_some_iff wf).mp found
      obtain ⟨events, collected⟩ := collect_eq ((s.subMemory (s.itemMemory env i)).modifyStats
        count) (event (s.heap i).key (s.heap i).value)
      simp only
      rw [collected]
      refine Billed.noted ?_ (.trans .retire .storeSize)
      -- The statistics are written before the item leaves.
      set u : State K V := { (s.subMemory (s.itemMemory env i)).modifyStats count with
        events := events } with u_def
      have wfu : u.WellFormed env := wf
      have linked : ((u.eraseKey env key).heap i).linked = true := wf.linked i hi
      have removed : Removes env u (p.removeErased (u.eraseKey env key) i) i :=
        removes_of_unlinks wfu hi hk (laws.removeErased linked)
      have memory : (p.removeErased (u.eraseKey env key) i).stats.currentMemory =
          fetchSub s.stats.currentMemory (s.itemMemory env i) := by
        rw [bills.removeErased]
        exact counts _
      have weight : _ + s.itemMemory env i = s.weight env := removed.weight_eq wfu
      rw [Billed, memory, h, ← weight, fetchSub_mod_add itemMemory_lt.le]

theorem takeOut (found : s.find env key = some i) : Billed env (p.takeOut env s key i) := by
  refine h.removes wf (laws.takeOut_removes wf found) ?_
  show fetchSub (p.removeForced (s.eraseKey env key) i).stats.currentMemory _ = _
  rw [bills.removeForced]
  rfl

theorem popItem (hi : i ∈ s.table) (stable : env.movedKey (s.heap i).key = (s.heap i).key) :
    Billed env (p.popItem env s i) := by
  refine h.removes wf (laws.popItem_removes wf hi stable) ?_
  show (p.removeForced _ i).stats.currentMemory = _
  rw [bills.removeForced]
  rfl

theorem flushOne {toRetire : List ItemId} (hi : i ∈ s.table) :
    Billed env (p.flushOne env (s, toRetire) i).1 := by
  cases pinned : (s.heap i).hasActiveHandle with
  | true =>
    obtain ⟨quiet, stats⟩ := flushOne_of_pinned laws bills.flushParts pinned
    exact h.quiet quiet (by rw [stats])
  | false =>
    have dropped := flushOne_of_unpinned laws bills.flushParts wf hi pinned toRetire
    exact h.removes wf dropped.toRemoves (by rw [dropped.stats_eq])

end Removals

theorem keeps (bills : p.Bills env) (laws : p.Laws env) : p.Keeps env (Billed env) where
  noted note h := h.noted note
  configured _ _ _ _ h := h
  indexed _ _ h := h
  counted _ i _ h := h.modify (fun _ => rfl) fun _ => rfl
  stamped _ i _ h := h.modify (fun _ => rfl) fun _ => rfl
  stored := storeValue laws
  accessed mode sec wf hi h := h.moves wf (laws.recordAccess mode sec wf hi)
  afterGet := bills.afterGet
  evict := bills.evict laws
  insertNew := bills.insertNew
  erase event key wf counts h := bills.erase laws wf h event counts
  takeOut wf found h := bills.takeOut laws wf h found
  popItem wf hi stable h := bills.popItem laws wf h hi stable
  flush wf h := laws.flush_keeps (fun note h => h.noted note)
    (fun toRetire wf hi h => bills.flushOne laws wf h hi)
    (fun h => h.quiet (laws.afterFlush _) (by rw [bills.flushParts.afterFlush])) wf h
  maxSize {s} n wf h := by
    have limited : Billed env { s with settings := { s.settings with maxSize := n } } := h
    refine Billed.quiet ?_ (laws.afterResize _)
      (congrArg Stats.currentMemory (bills.afterResize _))
    split
    · exact limited
    · have quiet := laws.beforeResize { s with settings := { s.settings with maxSize := n } } n
      exact laws.eviction.evictWhile_keeps (bills.evict laws) _ (quiet.wf wf)
        (limited.quiet quiet (by rw [bills.beforeResize]))
  maxMemory _ _ h := h
  setConfig _ sec wf h := bills.reconfigure sec wf h

end Policy.Bills

/-! ## The strategies -/

variable [DecidableEq K] {key : K}

theorem linkAtHead_billed (value : V) (q : QueueId) (expiryNs : Nat) (hook : Hook)
    (liveCount : State K V → Nat) (wf : s.WellFormed env) (absent : s.find env key = none)
    (h : Billed env s) :
    Billed env (s.linkAtHead env key value q expiryNs hook liveCount (fun u => u.table.length)
      (s.settings.calcItemMemory env key value)) :=
  h.inserts wf (linkAtHead_inserts wf absent) (linkAtHead_table wf absent)
    (congrArg Stats.currentMemory (linkAtHead_stats wf absent))

namespace MmFifo

theorem bills (env : Env K V) : (policy env).Bills env where
  counts := evictionCounts
  afterGet _ _ h := h
  insertNew value expiryNs _ wf absent h :=
    (insertParts env).insertNew_keeps (fun _ h => h.noted (.cleanup _))
      (makeRoom_keeps (evictionCounts.billed eviction))
      (fun _ _ => linkAtHead_billed value 0 expiryNs {} liveCount)
      wf absent h
  removeErased _ _ := rfl
  removeForced _ _ := rfl
  flushParts := mmFifo.flushParts
  reconfigure _ _ h := h

theorem evict_size (wf : s.WellFormed env) (same : s.stats.currentSize = s.table.length) :
    (evict env s).stats.currentSize = (evict env s).table.length := by
  cases found : s.searchQueue 0 with
  | none =>
    rw [(eviction.rearranges wf found).table_eq]
    obtain stats | stats := evictionCounts.missed wf found
    · rw [stats, same]
    · rw [stats]
  | some v => rw [evictionCounts.taken wf found]

theorem set_size (wf : s.WellFormed env)
    (same : s.stats.currentSize = s.table.length) :
    ((policy env).set env s key value sec).stats.currentSize =
      ((policy env).set env s key value sec).table.length := by
  rw [Policy.set]
  simp only [cleanupIf, policy, Bool.false_eq_true, if_false]
  cases found : s.find env key with
  | none =>
    refine (insertParts env).insertNew_keeps
      (fun _ same => ?_)
      (makeRoom_keeps evict_size)
      (fun _ {u} wf absent _ => ?_) wf found same
    · exact (congrArg Stats.currentSize (cleanup_stats _)).trans
        (same.trans (congrArg List.length cleanup_table).symm)
    · refine (congrArg Stats.currentSize (linkAtHead_stats wf absent)).trans ?_
      exact (congrArg List.length (linkAtHead_table wf absent)).symm
  | some i =>
    have stored := (laws env).storeValue_rearranges wf value sec
      ((find_eq_some_iff wf).mp found).1
    have stats := storeValue_stats (laws env) value sec wf found
    set u := (policy env).storeValue env s i value sec
    have collected := Policy.Laws.collectUpdate_quiet u i
    have updated : (collectUpdate u i).stats.currentSize =
        (collectUpdate u i).table.length := by
      rw [collected.table_eq, stored.table_eq, collectUpdate, collect_stats, stats,
        adjustMemory]
      split_ifs <;> exact same
    exact eviction.evictWhile_keeps evict_size _ (collected.wf stored.wf) updated

theorem set_accounted (wf : s.WellFormed env)
    (h : Accounted env s) : Accounted env ((policy env).set env s key value sec) where
  size := by
    rw [linkedCount_eq ((laws env).set_wf wf key value sec)]
    exact set_size wf (h.size.trans (linkedCount_eq wf))
  memory := ((bills env).keeps (laws env)).toKeepsRoom.set (laws env) wf h.memory

end MmFifo

namespace Mm2q

theorem bills (env : Env K V) : (policy env).Bills env where
  counts := evictionCounts
  afterGet _ _ h := h
  insertNew {s key} value expiryNs sec wf absent h := by
    refine insertParts.insertNew_keeps (fun wf h => ?_)
      (eviction.makeRoom_keeps (evictionCounts.billed eviction))
      (fun o {s} wf absent h => ?_) wf absent h
    · exact h.moves wf (.of_unseen (prepare_unseen env key) wf)
    · exact (linkAtHead_billed value _ expiryNs _ size wf absent h).moves
        (linkAtHead_inserts wf absent).wf (rebalance_moves (linkAtHead_inserts wf absent).wf)
  removeErased _ _ := rfl
  removeForced _ _ := rfl
  flushParts := mm2q.flushParts
  reconfigure sec wf h := h.moves wf (reconfigure_moves sec wf)

end Mm2q

namespace MmTinyLfu

open Window

theorem maybePromoteFromTiny_billed (wf : s.WellFormed env) (h : Billed env s) :
    Billed env (maybePromoteFromTiny env s) :=
  promoteLoop_keeps (fun wf hi h => h.moves wf (moveToQueue_moves wf hi kNextQueue false))
    (fun wf hi unpinned h => h.removes wf (evictGeneric_removes wf hi unpinned).2
      (by rw [evictGeneric_stats wf hi unpinned])) wf h

theorem enter_billed (wf : s.WellFormed env)
    (absent : s.find env key = none) (h : Billed env s) :
    Billed env (enter env s key value expiryNs sec (s.settings.calcItemMemory env key value)) :=
  (linkAtHead_billed value kTinyQueue expiryNs { updateTime := sec } size wf absent h).quiet
    recordKey_unseen.quiet rfl

theorem bills (env : Env K V) : (policy env).Bills env where
  counts := evictionCounts
  afterGet {s} i wf h := by
    simp only [policy]
    split
    · exact maybePromoteFromTiny_billed wf h
    · exact h
  insertNew {s key} value expiryNs sec wf absent h := by
    refine insertParts.insertNew_keeps
      (fun wf h => h.moves wf (drainTiny_moves _ _ wf))
      (eviction.makeRoom_keeps (evictionCounts.billed eviction))
      (fun _ {s} wf absent h => ?_) wf absent h
    exact maybePromoteFromTiny_billed (enter_inserts value expiryNs sec _ wf absent).wf
      (enter_billed wf absent h)
  removeErased _ _ := rfl
  removeForced _ _ := rfl
  flushParts := mmTinyLfu.flushParts
  reconfigure {s} sec wf h := by
    have restarted : Unseen s (s.restartRefresh sec) := .restartRefresh sec
    exact maybePromoteFromTiny_billed (restarted.quiet.wf wf)
      (h.quiet restarted.quiet (by rw [restarted.stats_eq]))

end MmTinyLfu

namespace MmWTinyLfu

open Window

theorem bills (env : Env K V) : (policy env).Bills env where
  counts := evictionCounts
  afterGet {s} i wf h := by
    simp only [policy]
    split
    · exact h.moves wf (maybePromoteFromTiny_moves wf)
    · exact h
  insertNew {s key} value expiryNs sec wf absent h := by
    refine insertParts.insertNew_keeps
      (fun wf h => h.moves wf (drainTiny_moves _ _ wf))
      (eviction.makeRoom_keeps (evictionCounts.billed eviction))
      (fun _ {s} wf absent h => ?_) wf absent h
    have entered := enter_inserts value expiryNs sec
      (s.settings.calcItemMemory env key value) wf absent
    exact (MmTinyLfu.enter_billed wf absent h).moves entered.wf
      (maybePromoteFromTiny_moves entered.wf)
  removeErased _ _ := rfl
  removeForced _ _ := rfl
  flushParts := mmWTinyLfu.flushParts
  reconfigure sec wf h := h.moves wf (reconfigure_moves wf)

end MmWTinyLfu

namespace MmLru

theorem evictionCounts : EvictionCounts env (fun s => (findEvictionVictim s).1) (evictLru env) where
  taken {s v} wf found := by
    obtain ⟨u, search, searched⟩ := search_cleanup found
    obtain ⟨wfu, mem, free⟩ := found_spec wf search
    have removed := evictVictim_removes wfu mem free fun _ => removeFromList_unlinks
    have counted : (u.evictVictim env removeFromList v).stats = _ :=
      evictVictim_stats (canMarkForEviction_of_mem wfu mem free)
        (fun w => removeFromList_stats w v)
    have memory : u.itemMemory env v = s.itemMemory env v := by
      rw [← itemMemory_cleanup s v]
      exact itemMemory_of_content searched.settings_eq
        (congrArg Body.content (searched.quiet.body_eq v))
    have stats : u.stats = s.stats := searched.stats_eq.trans (cleanup_stats s)
    rw [evictLru_of_found wf search]
    simp only [storeSize, modifyStats, counted, stats, memory, size, linkedCount_eq removed.wf]
  missed {s} wf found := by
    have clean := Rearranges.cleanup wf
    obtain ⟨u, search, searched⟩ := search_cleanup found
    have same : Rearranges env s u := clean.quiet searched.quiet
    have stats : u.stats = s.stats := searched.stats_eq.trans (cleanup_stats s)
    rw [evictLru_of_missed search]
    refine .inr ?_
    simp only [storeSize, modifyStats, stats, size, linkedCount_eq same.wf, same.table_eq]

theorem link_billed (wf : s.WellFormed env)
    (absent : s.find env key = none) (h : Billed env s) :
    Billed env (link env s key value expiryNs sec (s.settings.calcItemMemory env key value)) := by
  obtain ⟨index, stats, events, linked, memory⟩ :=
    link_writes env s key value expiryNs sec (s.settings.calcItemMemory env key value)
  have marked := updateLruInsertionPoint_marks
    { s.linkNew env key value 0 expiryNs { updateTime := sec } (place s) with
      ttlIndex := index, stats := stats, events := events }
  refine h.inserts wf (link_inserts wf absent) ?_ ?_
  · rw [linked, marked.quiet.table_eq]
    exact linkNew_table wf absent
  · rw [linked, marked.stats_eq]
    simp only [memory, linkNew_eq wf absent]

theorem bills (env : Env K V) : (policy env).Bills env where
  counts := evictionCounts
  afterGet _ _ h := h
  insertNew _ _ _ wf absent h :=
    insertNew_keeps (evictionCounts.billed eviction) link_billed wf absent h
      fun note h => h.noted note
  removeErased := removeFromList_stats
  removeForced := removeFromList_stats
  flushParts := mmLru.flushParts
  reconfigure {s} sec wf h := h.moves wf (.of_unseen (reconfigure_unseen s sec) wf)

end MmLru

end Lru.Mm
