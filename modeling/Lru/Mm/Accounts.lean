import Lru.Mm.Room

/-!
# Counters that agree with the lists

`current_size` and `current_memory` are kept next to the lists. An eviction subtracts
what it removes, an insertion adds what it links and an update accounts for the
difference, so in `mm_fifo` the counters stay those of the list.
-/

namespace Lru.Mm

variable {K V : Type} {t s : State K V} {env : Env K V} {key : K} {expiryNs : Nat} {value : V}

open State SizeT

/-- The memory estimate of all linked items. -/
def State.weight (env : Env K V) (s : State K V) : Nat := (s.liveItems.map (s.itemMemory env)).sum

/-- Size and memory counter are those of the lists. -/
structure Accounted (env : Env K V) (s : State K V) : Prop where
  size : s.stats.currentSize = s.linkedCount
  memory : s.stats.currentMemory = s.weight env % SizeT.range

section Weight

variable {i : ItemId}

theorem itemMemory_lt : s.itemMemory env i < range := Nat.mod_lt _ range_pos

theorem weight_eq_table (wf : s.WellFormed env) :
    s.weight env = (s.table.map (s.itemMemory env)).sum :=
  ((wf.table_perm).map _).sum_eq.symm

theorem itemMemory_of_content (settings : t.settings = s.settings)
    (content : (t.heap i).content = (s.heap i).content) :
    t.itemMemory env i = s.itemMemory env i := by
  rw [itemMemory, settings]
  exact congrArg (fun c => s.settings.calcItemMemory env c.1 c.2.1) content

theorem itemMemory_cleanup (s : State K V) (i : ItemId) :
    s.cleanupPendingDeletion.itemMemory env i = s.itemMemory env i := by
  rw [itemMemory, itemMemory, cleanup_heap, cleanup_settings]

theorem Rearranges.weight_eq (h : Rearranges env s t) (wf : s.WellFormed env) :
    t.weight env = s.weight env := by
  rw [weight_eq_table wf, weight_eq_table h.wf, h.table_eq]
  exact congrArg List.sum (List.map_congr_left fun i hi =>
    itemMemory_of_content h.settings_eq (h.content i (h.mem_iff.mpr hi)))

theorem Removes.weight_eq (h : Removes env s t i) (wf : s.WellFormed env) :
    t.weight env + s.itemMemory env i = s.weight env := by
  have same : t.table.map (t.itemMemory env) = t.table.map (s.itemMemory env) :=
    List.map_congr_left fun j hj => itemMemory_of_content h.settings_eq (h.content j hj)
  rw [weight_eq_table wf, weight_eq_table h.wf, same, h.table_eq, Nat.add_comm]
  exact List.sum_map_erase (s.itemMemory env) h.mem_before

/-- An insertion that evicts nothing adds the new item. -/
theorem Inserts.weight_eq
    (h : Inserts env s t key value expiryNs) (wf : s.WellFormed env)
    (table : t.table = s.next :: s.table) :
    t.weight env = s.weight env + s.settings.calcItemMemory env key value := by
  have new : t.itemMemory env s.next = s.settings.calcItemMemory env key value := by
    rw [itemMemory, h.settings_eq]
    exact congrArg (fun c => s.settings.calcItemMemory env c.1 c.2.1) h.content_new
  have old : s.table.map (t.itemMemory env) = s.table.map (s.itemMemory env) := by
    refine List.map_congr_left fun i hi => itemMemory_of_content h.settings_eq ?_
    refine h.content_old i (table ▸ List.mem_cons_of_mem _ hi) ?_
    rintro rfl
    exact wf.next_not_mem hi
  rw [weight_eq_table wf, weight_eq_table h.wf, table, List.map_cons, List.sum_cons, new, old,
    Nat.add_comm]

/-- Writing the value of an item changes the weight by the difference. -/
theorem weight_modify_value (wf : s.WellFormed env) (hi : i ∈ s.table) (value : V) :
    (s.modify i fun item => { item with value := value }).weight env + s.itemMemory env i =
      s.weight env + s.settings.calcItemMemory env (s.heap i).key value := by
  have written := WellFormed.write (i := i) (.value value) wf
  set t := s.modify i fun item => { item with value := value } with t_def
  have others : (s.table.erase i).map (t.itemMemory env) =
      (s.table.erase i).map (s.itemMemory env) := by
    refine List.map_congr_left fun j hj => ?_
    have other : j ≠ i := by
      rintro rfl
      exact (wf.table_nodup).not_mem_erase hj
    simp [t_def, itemMemory, State.modify, other]
  have before := List.sum_map_erase (s.itemMemory env) hi
  have after := List.sum_map_erase (t.itemMemory env) hi
  have new : t.itemMemory env i = s.settings.calcItemMemory env (s.heap i).key value := by
    simp [t_def, itemMemory, State.modify]
  rw [others, new] at after
  rw [weight_eq_table wf, weight_eq_table written]
  change (s.table.map _).sum + _ = _
  omega

end Weight

section Steps

theorem linkedCount_eq (wf : s.WellFormed env) : s.linkedCount = s.table.length :=
  (wf.table_length).symm

theorem evictVictim_stats [DecidableEq K] {remove : State K V → ItemId → State K V} {v : ItemId}
    (free : (s.heap v).canMarkForEviction = true)
    (stats : ∀ u : State K V, (remove u v).stats = u.stats) :
    (s.evictVictim env remove v).stats =
      { s.stats with
        currentMemory := fetchSub s.stats.currentMemory (s.itemMemory env v)
        evictions := s.stats.evictions + 1
        evictionsCapacity := s.stats.evictionsCapacity + 1 } := by
  rw [evictVictim, if_pos free]
  simp only [State.modify, stats, State.eraseKey, collect_stats]
  rfl

/-- An eviction counts the item that it takes and subtracts its bytes; without a
victim it stores the size at most. -/
structure EvictionCounts (env : Env K V) (victim : State K V → Option ItemId)
    (evict : State K V → State K V) : Prop where
  taken : ∀ {s v}, s.WellFormed env → victim s = some v →
    (evict s).stats =
      { s.stats with
        currentSize := (evict s).table.length
        currentMemory := SizeT.fetchSub s.stats.currentMemory (s.itemMemory env v)
        evictions := s.stats.evictions + 1
        evictionsCapacity := s.stats.evictionsCapacity + 1 }
  missed : ∀ {s}, s.WellFormed env → victim s = none →
    (evict s).stats = s.stats ∨ (evict s).stats = { s.stats with currentSize := s.table.length }

theorem ttlIndexPush_stats {liveCount : Nat} :
    (s.ttlIndexPush liveCount key expiryNs).stats = s.stats := by
  rw [ttlIndexPush]
  split <;> split <;> rfl

theorem linkAtHead_stats [DecidableEq K] {q : QueueId}
    {hook : Hook} {liveCount : State K V → Nat} {mem : Nat} (wf : s.WellFormed env)
    (absent : s.find env key = none) :
    (s.linkAtHead env key value q expiryNs hook liveCount (fun u => u.table.length) mem).stats =
      { s.stats with
        currentSize := s.table.length + 1
        currentMemory := fetchAdd s.stats.currentMemory mem
        insertions := s.stats.insertions + 1 } := by
  have stats : (s.linkNew env key value q expiryNs hook List.cons).stats = s.stats := by
    rw [linkNew_eq wf absent]
  have table : (s.linkNew env key value q expiryNs hook List.cons).table = s.next :: s.table :=
    linkNew_table wf absent
  rw [linkAtHead, noteInsertion, collect_stats]
  generalize s.linkNew env key value q expiryNs hook List.cons = u at stats table ⊢
  have pushed : Quiet u (u.ttlIndexPush (liveCount u) key expiryNs) := .ttlIndexPush
  simp only [storeSize, addMemory, modifyStats, ttlIndexPush_stats, stats,
    pushed.table_eq, table, List.length_cons]

theorem adjustMemory_add {before after weight : Nat} (small : before < range)
    (exact_before : s.stats.currentMemory = (weight + before) % range) :
    (Policy.adjustMemory s before after).stats.currentMemory = (weight + after) % range := by
  rw [Policy.adjustMemory]
  split
  case isTrue grows =>
    show fetchAdd s.stats.currentMemory (after - before) = _
    rw [fetchAdd, exact_before, Nat.mod_add_mod]
    congr 1
    omega
  case isFalse =>
    split
    case isTrue shrinks =>
      show fetchSub s.stats.currentMemory (before - after) = _
      rw [fetchSub, exact_before, Nat.mod_add_mod]
      have wrap : weight + before + (range - (before - after)) = weight + after + range := by omega
      rw [wrap, Nat.add_mod_right]
    case isFalse =>
      have same : before = after := by omega
      rw [exact_before, same]

end Steps

namespace MmFifo

variable [DecidableEq K]

theorem evictionCounts : EvictionCounts env (fun s => s.searchQueue 0) (evict env) where
  taken {s v} wf found := by
    have clean := Rearranges.cleanup wf
    rw [← searchQueue_cleanup] at found
    obtain ⟨hv, unpinned⟩ := searchQueue_spec clean.wf found
    have counted : (s.cleanupPendingDeletion.evictVictim env unlinkAndUnmark v).stats = _ :=
      evictVictim_stats (canMarkForEviction_of_mem clean.wf hv unpinned) fun _ => rfl
    rw [evict, found]
    simp only [storeSize, modifyStats, counted, cleanup_stats, itemMemory_cleanup]
    rfl
  missed {s} wf found := by
    rw [evict_of_none found]
    refine .inr ?_
    simp [storeSize, modifyStats, size]

end MmFifo

end Lru.Mm
