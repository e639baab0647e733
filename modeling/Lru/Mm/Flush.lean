import Lru.Mm.Strategy

/-!
# What a flush leaves

`flush` removes every item without a handle and leaves the others where they are, in
their order. Of the counters it changes the size and the memory, which it decreases
item by item; and it copies the diagnostics of the hash table.
-/

namespace Lru.Mm

variable {K V : Type} {u : State K V}

open State List MmLru

/-- The memory counter after a list of items has been subtracted from it. -/
def subtractAll (env : Env K V) (s : State K V) (memory : Nat) (l : List ItemId) : Nat :=
  l.foldl (fun m i => SizeT.fetchSub m (s.itemMemory env i)) memory

/-- `t` is what a flush of the items of `l` leaves of `s`. -/
structure Flushed (env : Env K V) (l : List ItemId) (s t : State K V) : Prop where
  wf : t.WellFormed env
  table : t.table = s.table.filter fun i => i ∉ l || (s.heap i).hasActiveHandle
  queue : ∀ q, t.queue q = (s.queue q).filter fun i => i ∉ l || (s.heap i).hasActiveHandle
  body : ∀ i ∈ t.table, (t.heap i).toBody = (s.heap i).toBody
  next_eq : t.next = s.next
  settings_eq : t.settings = s.settings
  hashTable_eq : t.hashTable = s.hashTable
  stats_eq : t.stats = { s.stats with
    currentMemory := subtractAll env s s.stats.currentMemory
      (l.filter fun i => !(s.heap i).hasActiveHandle) }

/-- The parts of `flush` that belong to the strategy count nothing, and do not concern the
hash table. -/
structure Policy.FlushParts (p : Policy K V) : Prop where
  removeFlushed : ∀ s i, (p.removeFlushed s i).stats = s.stats
  keepFlushed : ∀ s i, (p.keepFlushed s i).stats = s.stats
  afterFlush : ∀ s, (p.afterFlush s).stats = s.stats
  hashTable : ∀ s i, (p.removeFlushed s i).hashTable = s.hashTable ∧
    (p.keepFlushed s i).hashTable = s.hashTable ∧ (p.afterFlush s).hashTable = s.hashTable

theorem MmLru.removeFromList_stats (s : State K V) (i : ItemId) :
    (removeFromList s i).stats = s.stats := by
  rw [removeFromList]
  split
  · rfl
  · refine (updateLruInsertionPoint_marks _).stats_eq.trans ?_
    exact (leaveTail_marks _ i).stats_eq.trans
      (ensureNotInsertionPoint_marks s i).stats_eq

theorem MmLru.removeFromList_hashTable (s : State K V) (i : ItemId) :
    (removeFromList s i).hashTable = s.hashTable := by
  rw [removeFromList]
  split
  · rfl
  · refine (updateLruInsertionPoint_marks _).hashTable_eq.trans ?_
    exact (leaveTail_marks _ i).hashTable_eq.trans
      (ensureNotInsertionPoint_marks s i).hashTable_eq

theorem Strategy.flushParts [DecidableEq K] {env : Env K V} (strategy : Strategy) :
    (strategy.policy env).FlushParts := by
  cases strategy with
  | mmLru =>
    refine ⟨removeFromList_stats, fun s i => ?_, fun s => rfl,
      fun s i => ⟨removeFromList_hashTable s i, ?_, rfl⟩⟩
    · show (if (s.heap i).hook.isTail then _ else s).stats = s.stats
      split <;> rfl
    · show (if (s.heap i).hook.isTail then _ else s).hashTable = s.hashTable
      split <;> rfl
  | mmFifo | mm2q | mmTinyLfu | mmWTinyLfu =>
    exact ⟨fun _ _ => rfl, fun _ _ => rfl, fun _ => rfl, fun _ _ => ⟨rfl, rfl, rfl⟩⟩

section Flush

variable {env : Env K V} {p : Policy K V} {s t : State K V} {i : ItemId} {l : List ItemId}

theorem itemMemory_congr (settings : t.settings = s.settings)
    (body : (t.heap i).toBody = (s.heap i).toBody) : t.itemMemory env i = s.itemMemory env i := by
  rw [itemMemory, settings]
  exact congrArg (fun b : Body K V => s.settings.calcItemMemory env b.key b.value) body

theorem subtractAll_congr {memory : Nat}
    (same : ∀ i ∈ l, t.itemMemory env i = s.itemMemory env i) :
    subtractAll env t memory l = subtractAll env s memory l := by
  exact foldl_ext _ _ _ fun m i hi => by rw [same i hi]

theorem Flushed.keep (first : Quiet s t) (stats : t.stats = s.stats)
    (hashTable : t.hashTable = s.hashTable) (pinned : (s.heap i).hasActiveHandle)
    (rest : Flushed env l t u) : Flushed env (i :: l) s u := by
  have pins : ∀ j, (t.heap j).hasActiveHandle = (s.heap j).hasActiveHandle := fun j =>
    congrArg Body.hasActiveHandle (first.body_eq j)
  have left : ∀ j, (j ∉ l || (t.heap j).hasActiveHandle) =
      (j ∉ i :: l || (s.heap j).hasActiveHandle) := by
    intro j
    rw [pins]
    by_cases same : j = i
    · subst same
      simp [pinned]
    · simp [same]
  refine ⟨rest.wf, ?_, fun q => ?_, fun j hj => (rest.body j hj).trans (first.body_eq j),
    rest.next_eq.trans (congrArg Core.next first.core_eq),
    rest.settings_eq.trans first.settings_eq, rest.hashTable_eq.trans hashTable, ?_⟩
  · rw [rest.table, first.table_eq]
    exact filter_congr fun j _ => left j
  · rw [rest.queue, first.queue_eq]
    exact filter_congr fun j _ => left j
  · rw [rest.stats_eq, stats]
    have same : subtractAll env t s.stats.currentMemory
        (l.filter fun j => !(s.heap j).hasActiveHandle) =
          subtractAll env s s.stats.currentMemory (l.filter fun j => !(s.heap j).hasActiveHandle) :=
      subtractAll_congr fun j _ => itemMemory_congr first.settings_eq (first.body_eq j)
    simp [pins, pinned, same]

theorem foldl_retire_eq : l.foldl retire s = { s with retired := s.retired ++ l } := by
  induction l generalizing s with
  | nil => simp
  | cons i rest ih =>
    rw [foldl_cons, ih]
    simp [retire]

variable [DecidableEq K]

theorem flushOne_of_pinned (laws : p.Laws env) (parts : p.FlushParts)
    (pinned : (s.heap i).hasActiveHandle) {r : List ItemId} :
    Quiet s (p.flushOne env (s, r) i).1 ∧ (p.flushOne env (s, r) i).1.stats = s.stats := by
  have kept : (p.flushOne env (s, r) i).1 = p.keepFlushed s i := by
    rw [Policy.flushOne]
    rw [if_pos pinned]
  rw [kept]
  exact ⟨laws.keepFlushed s i, parts.keepFlushed s i⟩

theorem Policy.FlushParts.flushOne_hashTable (parts : p.FlushParts)
    {acc : State K V × List ItemId} : (p.flushOne env acc i).1.hashTable = acc.1.hashTable := by
  rw [Policy.flushOne]
  split
  · exact (parts.hashTable _ i).2.1
  · split
    · exact (parts.hashTable _ i).1.trans collect_hashTable
    · rfl

/-- The states around the removal of one item. -/
structure Dropped (env : Env K V) (s t : State K V) (i : ItemId) : Prop extends
    Removes env s t i where
  queue : ∀ q, t.queue q = (s.queue q).erase i
  body : ∀ j, j ≠ i → (t.heap j).toBody = (s.heap j).toBody
  hashTable_eq : t.hashTable = s.hashTable
  stats_eq : t.stats = { s.stats with
    currentMemory := SizeT.fetchSub s.stats.currentMemory (s.itemMemory env i) }

theorem flushOne_of_unpinned (laws : p.Laws env) (parts : p.FlushParts) (wf : s.WellFormed env)
    (hi : i ∈ s.table) (free : (s.heap i).hasActiveHandle = false) (r : List ItemId) :
    Dropped env s (p.flushOne env (s, r) i).1 i := by
  have linked : (s.heap i).linked = true := wf.linked i hi
  set collected := (s.subMemory (s.itemMemory env i)).collect
    (.evict (s.heap i).key (s.heap i).value) with collected_def
  have gone : (p.flushOne env (s, r) i).1 =
      p.removeFlushed (collected.eraseKey env (collected.heap i).key) i := by
    rw [Policy.flushOne]
    simp [free, Body.canMarkForEviction, linked, collected_def]
  have quiet : Quiet s collected := .trans (.subMemory _) (.collect rfl)
  have unlinked := laws.removeFlushed (s := collected.eraseKey env (collected.heap i).key)
    ((congrArg Body.linked (quiet.body_eq i)).trans linked)
  obtain ⟨b, core⟩ := unlinked.core_eq
  rw [core_eraseKey_unlink (quiet.wf wf) (quiet.table_eq ▸ hi) rfl, quiet.core_eq] at core
  rw [gone]
  refine ⟨.of_quiet quiet wf
    (removes_of_unlinks (quiet.wf wf) (quiet.table_eq ▸ hi) rfl unlinked), fun q => ?_,
    fun j other => ?_, ?_, ?_⟩
  · have queues := congrFun (congrArg Core.queue core) q
    refine queues.trans ?_
    by_cases home : q = (s.heap i).queueId
    · subst home
      simp [Core.setBody, Core.drop, State.core]
    · have elsewhere : i ∉ s.queue q := fun h => home (wf.queue_id q i h).symm
      simp [Core.setBody, Core.drop, State.core, home, erase_of_not_mem elsewhere]
  · have bodies := congrFun (congrArg Core.body core) j
    refine bodies.trans ?_
    simp [Core.setBody, Core.drop, State.core, other]
  · exact (parts.hashTable _ i).1.trans collect_hashTable
  · rw [parts.removeFlushed]
    simp [State.eraseKey, collected_def, State.subMemory, State.modifyStats]

omit [DecidableEq K] in
theorem Flushed.drop (first : Dropped env s t i) (wf : s.WellFormed env)
    (free : (s.heap i).hasActiveHandle = false) (fresh : i ∉ l)
    (rest : Flushed env l t u) : Flushed env (i :: l) s u := by
  have pins : ∀ j, j ≠ i → (t.heap j).hasActiveHandle = (s.heap j).hasActiveHandle := fun j other =>
    congrArg Body.hasActiveHandle (first.body j other)
  have other : ∀ {j}, j ∈ l → j ≠ i := fun hj same => fresh (same ▸ hj)
  have nodup : ∀ q, (s.queue q).Nodup := wf.queue_nodup
  have left : ∀ j, ((j ∉ l || (t.heap j).hasActiveHandle) && j != i) =
      (j ∉ i :: l || (s.heap j).hasActiveHandle) := by
    intro j
    by_cases same : j = i
    · subst same
      simp [free]
    · simp [same, pins j same]
  have unique : s.table.Nodup := wf.table_nodup
  have table : u.table = s.table.filter fun j => j ∉ i :: l || (s.heap j).hasActiveHandle := by
    rw [rest.table, first.table_eq, unique.erase_eq_filter, filter_filter]
    exact filter_congr fun j _ => left j
  refine ⟨rest.wf, table, fun q => ?_, fun j hj => ?_,
    rest.next_eq.trans first.next_eq, rest.settings_eq.trans first.settings_eq,
    rest.hashTable_eq.trans first.hashTable_eq, ?_⟩
  · rw [rest.queue, first.queue, (nodup q).erase_eq_filter, filter_filter]
    exact filter_congr fun j _ => left j
  · refine (rest.body j hj).trans (first.body j ?_)
    rintro rfl
    rw [table] at hj
    simp [free] at hj
  · rw [rest.stats_eq, first.stats_eq]
    have filtered : (l.filter fun j => !(t.heap j).hasActiveHandle) =
        l.filter fun j => !(s.heap j).hasActiveHandle :=
      filter_congr fun j hj => by rw [pins j (other hj)]
    have same : subtractAll env t (SizeT.fetchSub s.stats.currentMemory (s.itemMemory env i))
        (l.filter fun j => !(s.heap j).hasActiveHandle) =
          subtractAll env s (SizeT.fetchSub s.stats.currentMemory (s.itemMemory env i))
            (l.filter fun j => !(s.heap j).hasActiveHandle) :=
      subtractAll_congr fun j hj =>
        itemMemory_congr first.settings_eq (first.body j (other (mem_of_mem_filter hj)))
    simp only [filtered, same, filter_cons, free]
    rfl

theorem foldl_flushOne_flushed (laws : p.Laws env) (parts : p.FlushParts) (wf : s.WellFormed env)
    (nodup : l.Nodup) (mem : ∀ i ∈ l, i ∈ s.table) (r : List ItemId) :
    Flushed env l s (l.foldl (p.flushOne env) (s, r)).1 := by
  induction l generalizing s r with
  | nil =>
    refine ⟨wf, ?_, fun q => ?_, fun _ _ => rfl, rfl, rfl, rfl, rfl⟩
    · simp
    · simp
  | cons i rest ih =>
    obtain ⟨fresh, nodup⟩ := nodup_cons.mp nodup
    have hi := mem i mem_cons_self
    cases pinned : (s.heap i).hasActiveHandle with
    | true =>
      obtain ⟨quiet, stats⟩ := flushOne_of_pinned laws parts pinned
      have later : ∀ j ∈ rest, j ∈ (p.flushOne env (s, r) i).1.table := fun j hj =>
        quiet.table_eq ▸ mem j (mem_cons_of_mem i hj)
      exact (ih (quiet.wf wf) nodup later (p.flushOne env (s, r) i).2).keep quiet stats
        parts.flushOne_hashTable pinned
    | false =>
      have dropped := flushOne_of_unpinned laws parts wf hi pinned r
      have later : ∀ j ∈ rest, j ∈ (p.flushOne env (s, r) i).1.table := by
        intro j hj
        rw [dropped.table_eq]
        have other : j ≠ i := fun same => fresh (same ▸ hj)
        exact (mem_erase_of_ne other).mpr (mem j (mem_cons_of_mem i hj))
      exact (ih dropped.wf nodup later (p.flushOne env (s, r) i).2).drop dropped wf pinned fresh

/-- `t` is what a flush leaves of `s`. -/
structure Survives (env : Env K V) (s t : State K V) : Prop where
  wf : t.WellFormed env
  table : t.table = s.table.filter fun i => (s.heap i).hasActiveHandle
  queue : ∀ q, t.queue q = (s.queue q).filter fun i => (s.heap i).hasActiveHandle
  body : ∀ i ∈ t.table, (t.heap i).toBody = (s.heap i).toBody
  next_eq : t.next = s.next
  settings_eq : t.settings = s.settings
  hashTable_eq : t.hashTable = s.hashTable
  stats_eq : t.stats = { s.stats with
    hash := s.hashTable.report (s.table.filter fun i => (s.heap i).hasActiveHandle)
    currentSize := t.table.length
    currentMemory := subtractAll env s s.stats.currentMemory
      (s.liveItems.filter fun i => !(s.heap i).hasActiveHandle) }

theorem Policy.Laws.flush_survives (laws : p.Laws env) (parts : p.FlushParts)
    (wf : s.WellFormed env) : Survives env s (p.flush env s) := by
  have perm := wf.table_perm
  have nodup : s.liveItems.Nodup := perm.nodup_iff.mp (wf.table_nodup)
  have live : ∀ i ∈ s.liveItems, i ∈ s.table := fun i hi => perm.mem_iff.mpr hi
  have flushed := foldl_flushOne_flushed laws parts wf nodup live []
  have whole := (laws.flush_shrinks wf).wf
  have passed := (laws.flushPasses_shrinks wf).wf
  rw [Policy.flush] at whole ⊢
  generalize s.liveItems.foldl (p.flushOne env) (s, []) = acc at flushed passed whole ⊢
  obtain ⟨u, toRetire⟩ := acc
  simp only [foldl_retire_eq] at passed whole ⊢
  set retired : State K V :=
    { u.refreshHashStats with retired := u.refreshHashStats.retired ++ toRetire }
  have reset := laws.afterFlush retired
  have counted := parts.afterFlush retired
  have hashTable := (parts.hashTable retired 0).2.2
  generalize p.afterFlush retired = v at reset counted hashTable whole ⊢
  have left : ∀ i ∈ s.table, (i ∉ s.liveItems || (s.heap i).hasActiveHandle) =
      (s.heap i).hasActiveHandle := by
    intro i hi
    have linked : i ∈ s.liveItems := perm.mem_iff.mp hi
    simp [linked]
  have table : v.table = u.table := reset.table_eq
  have remaining : u.table = s.table.filter fun i => (s.heap i).hasActiveHandle :=
    flushed.table.trans (filter_congr left)
  refine ⟨whole, ?_, fun q => ?_, fun i hi => ?_, ?_, ?_, ?_, ?_⟩
  · rw [cleanup_table, ← remaining]
    exact table
  · have queue := filter_congr fun i (hi : i ∈ s.queue q) => left i (mem_of_queue wf hi)
    rw [cleanup_queue, ← queue, ← flushed.queue q]
    exact congrFun reset.queue_eq q
  · rw [cleanup_heap]
    rw [cleanup_table] at hi
    exact (reset.body_eq i).trans (flushed.body i (table ▸ hi))
  · refine Eq.trans (congrArg Core.next (core_cleanupPendingDeletion _)) ?_
    exact (congrArg Core.next reset.core_eq).trans flushed.next_eq
  · rw [cleanup_settings]
    exact reset.settings_eq.trans flushed.settings_eq
  · rw [cleanup_frame _ State.hashTable fun _ _ _ => rfl]
    exact hashTable.trans flushed.hashTable_eq
  · rw [cleanup_stats, cleanup_table, ← remaining, ← flushed.hashTable_eq]
    have size := laws.eviction.size_eq (reset.wf passed)
    have before : u.stats = _ := flushed.stats_eq
    have stats : v.stats = { u.stats with hash := u.hashTable.report u.table } := counted
    simp only [storeSize, modifyStats, size, stats, before]

/-- Whatever the table looks like, a flush copies its counters. -/
theorem Policy.FlushParts.flush_hash (parts : p.FlushParts) :
    ∃ nodes, (p.flush env s).stats.hash = s.hashTable.report nodes := by
  have passed : ∀ (l : List ItemId) (acc : State K V × List ItemId),
      (l.foldl (p.flushOne env) acc).1.hashTable = acc.1.hashTable := by
    intro l
    induction l with
    | nil => exact fun _ => rfl
    | cons i rest ih =>
      intro acc
      rw [foldl_cons, ih, parts.flushOne_hashTable]
  have copied : ∀ u : State K V, ((p.afterFlush u).storeSize (p.size (p.afterFlush u))).stats.hash =
      u.stats.hash := by
    intro u
    rw [← parts.afterFlush u]
    rfl
  rw [Policy.flush]
  simp only [foldl_retire_eq, cleanup_stats, copied]
  exact ⟨_, congrArg (fun t : HashTable => t.report _) (passed s.liveItems (s, []))⟩

theorem Strategy.flush_survives (strategy : Strategy) (wf : s.WellFormed env) :
    Survives env s ((strategy.policy env).flush env s) :=
  (strategy.laws env).flush_survives strategy.flushParts wf

end Flush

end Lru.Mm
