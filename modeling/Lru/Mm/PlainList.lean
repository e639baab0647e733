import Lru.Mm.LruVictim

/-!
# An `mm_lru` object without pins

With the default configuration, no handles and no eviction predicate, `mm_lru` is a
list of pairs: a new pair enters at the head, and a full list gives up one other pair
for it.
-/

namespace Lru.Mm.MmLru

variable {K V : Type} {env : Env K V} {s : State K V} {quota sec : Nat} {value : V}

open State

/-- The object links unpinned items into one list and knows nothing but its quota. -/
structure Plain (env : Env K V) (quota : Nat) (s : State K V) : Prop where
  wf : s.WellFormed env
  settings_eq : s.settings = { maxSize := quota }
  oneList : s.OneList
  unpinned : s.Unpinned
  endless : ∀ i ∈ s.table, (s.heap i).expiryNs = 0
  cursor : ∀ i ∈ s.unpinnedTail, i ∈ s.queue 0
  noPoint : s.insertionPoint = none

theorem Plain.length_sequence (plain : Plain env quota s) : (s.sequence 0).length = size s := by
  simp [State.sequence, size, linkedCount, plain.oneList 1 (by decide), plain.oneList 2 (by decide)]

/-! ## Eviction -/

section Eviction

theorem updateLruInsertionPoint_of_head (spec : s.settings.config.lruInsertionPointSpec = 0) :
    updateLruInsertionPoint s = { s with insertionPointPos := unlimited } :=
  if_pos spec

/-- Without an insertion point there is none after an item has left its list. -/
theorem removeFromList_point (i : ItemId) (noPoint : s.insertionPoint = none)
    (spec : s.settings.config.lruInsertionPointSpec = 0) :
    (removeFromList s i).insertionPoint = none := by
  rw [removeFromList]
  split
  · exact noPoint
  · have elsewhere : ensureNotInsertionPoint s i = s := by simp [ensureNotInsertionPoint, noPoint]
    have point : (leaveTail s i).insertionPoint = none := by
      rw [leaveTail]
      split <;> exact noPoint
    simp only [elsewhere]
    rw [updateLruInsertionPoint_of_head]
    · exact point
    · exact (congrArg (·.config.lruInsertionPointSpec) (leaveTail_marks s i).settings_eq).trans spec

theorem evictVictim_point [DecidableEq K] (v : ItemId) (noPoint : s.insertionPoint = none)
    (spec : s.settings.config.lruInsertionPointSpec = 0) :
    (s.evictVictim env removeFromList v).insertionPoint = none := by
  have collected : ∀ (u : State K V) e, (u.collect e).insertionPoint = u.insertionPoint ∧
      (u.collect e).settings.config = u.settings.config := by
    intro u e
    obtain ⟨events, collected⟩ := collect_eq u e
    rw [collected]
    exact ⟨rfl, rfl⟩
  rw [evictVictim]
  split
  · refine removeFromList_point v ((collected _ _).1.trans noPoint) ?_
    rw [eraseKey, (collected _ _).2]
    exact spec
  · exact noPoint

theorem findEvictionVictim_frame (s : State K V) :
    (findEvictionVictim s).2.insertionPoint = s.insertionPoint ∧
      (findEvictionVictim s).2.settings = s.settings := by
  rw [findEvictionVictim]
  split <;> exact ⟨rfl, rfl⟩

theorem Plain.steady (plain : Plain env quota s) : Steady s := ⟨plain.oneList, plain.cursor⟩

/-- The search finds an item in a list without pins. -/
theorem Plain.victim (plain : Plain env quota s) (linked : s.queue 0 ≠ []) :
    ∃ v, (findEvictionVictim s).1 = some v := by
  have free : s.Unvetoed := .of_none (by rw [plain.settings_eq])
  have unheld : ∀ i ∈ s.queue 0, (!(s.heap i).hasActiveHandle) = true := fun i hi => by
    rw [plain.unpinned i (mem_of_queue plain.wf hi)]
    rfl
  cases cursor : s.unpinnedTail with
  | none =>
    obtain ⟨i, hi⟩ := List.exists_mem_of_ne_nil _ linked
    rw [victim_of_tail_start plain.wf free (by rw [searchStart, cursor])]
    exact Option.isSome_iff_exists.mp (List.find?_isSome.mpr
      ⟨i, List.mem_reverse.mpr hi, unheld i hi⟩)
  | some c =>
    exact ⟨c, victim_of_cursor plain.wf free plain.steady cursor
      (unheld_iff.mp (unheld c (plain.cursor c cursor)))⟩

theorem Plain.cleanup (plain : Plain env quota s) : Plain env quota s.cleanupPendingDeletion := by
  have clean := Rearranges.cleanup plain.wf
  obtain ⟨events, eq⟩ := cleanup_eq
  refine ⟨clean.wf, clean.settings_eq.trans plain.settings_eq, Confined.cleanup plain.oneList,
    clean.toShrinks.unpinned plain.unpinned, ?_, ?_, ?_⟩
  · rw [eq]
    exact plain.endless
  · rw [eq]
    exact plain.cursor
  · rw [eq]
    exact plain.noPoint

variable [DecidableEq K]

/-- An eviction takes one item out of the list. -/
theorem Plain.evictLru (plain : Plain env quota s) (linked : s.queue 0 ≠ []) :
    Plain env quota (evictLru env s) ∧ size (MmLru.evictLru env s) + 1 = size s := by
  have clean := plain.cleanup
  have steady := evictLru_steady plain.wf plain.steady
  obtain ⟨v, victim⟩ := plain.victim linked
  have removed := eviction.removes plain.wf victim
  refine ⟨⟨removed.wf, removed.settings_eq.trans plain.settings_eq, steady.oneList,
    removed.toShrinks.unpinned plain.unpinned, fun i hi => ?_, steady.cursor, ?_⟩,
    eviction.size_of_some plain.wf victim⟩
  · have kept := congrArg (fun c : K × V × Nat × Nat => c.2.2.1) (removed.content i hi)
    exact kept.trans (plain.endless i (removed.mem i hi))
  · have frame := findEvictionVictim_frame s.cleanupPendingDeletion
    rw [← findEvictionVictim_cleanup] at victim
    cases search : findEvictionVictim s.cleanupPendingDeletion with
    | mk found u =>
      rw [search] at victim frame
      cases victim
      rw [evictLru_of_found plain.wf search]
      exact evictVictim_point v (frame.1.trans clean.noPoint) (by rw [frame.2, clean.settings_eq])

end Eviction

/-! ## Insertion -/

section Insertion

variable [DecidableEq K] {key : K}

/-- Without an insertion point a new item enters at the head. -/
theorem Plain.link {mem : Nat} (plain : Plain env quota s)
    (absent : s.find env key = none) :
    Plain env quota (link env s key value 0 sec mem) ∧
      (MmLru.link env s key value 0 sec mem).queue 0 = s.next :: s.queue 0 := by
  have inserted : Inserts env s (MmLru.link env s key value 0 sec mem) key value 0 :=
    link_inserts plain.wf absent
  obtain ⟨queue, cursor⟩ := link_listed plain.wf absent
  have here : (MmLru.link env s key value 0 sec mem).queue 0 = s.next :: s.queue 0 :=
    queue.trans (by simp [place, plain.noPoint])
  refine ⟨⟨inserted.wf, inserted.settings_eq.trans plain.settings_eq, link_confined plain.oneList,
    inserted.unpinned plain.unpinned, fun i hi => ?_, fun i pointed => ?_, ?_⟩, here⟩
  · by_cases new : i = s.next
    · exact congrArg (fun c : K × V × Nat × Nat => c.2.2.1) (new ▸ inserted.content_new)
    · have kept := congrArg (fun c : K × V × Nat × Nat => c.2.2.1) (inserted.content_old i hi new)
      exact kept.trans (plain.endless i (inserted.mem_old i hi new))
  · rw [here]
    exact .tail _ (plain.cursor i (cursor ▸ pointed))
  · obtain ⟨index, stats, events, linked, -⟩ := link_writes env s key value 0 sec mem
    rw [linked, updateLruInsertionPoint_of_head]
    · simp [linkNew_eq plain.wf absent, plain.noPoint]
    · simp [linkNew_eq plain.wf absent, plain.settings_eq]

/-- The first steps of `insert_new` give up one item of a full list. -/
theorem Plain.findCapacity (plain : Plain env quota s) (room : 0 < quota)
    (fits : quota ≠ unlimited → size s ≤ quota) :
    ∃ u, findCapacity env s = (u, true) ∧ Plain env quota u ∧ Shrinks env s u ∧
      (quota ≠ unlimited → size u < quota) ∧ min (size s) (quota - 1) ≤ size u := by
  have clean := plain.cleanup
  have shrunk := (Rearranges.cleanup plain.wf).toShrinks
  have same : size s.cleanupPendingDeletion = size s := by simp [size, linkedCount]
  have calm : ∀ u : State K V, Plain env quota u → (quota ≠ unlimited → size u < quota) →
      u.isAtCapacity (size u) = false ∧ u.shouldEvict (size u) = false := by
    intro u plain below
    rw [isAtCapacity, shouldEvict, plain.settings_eq]
    by_cases endless : quota = unlimited
    · simp [endless]
    · have lt := below endless
      simp
      omega
  by_cases full : s.isAtCapacity (size s) = true
  · obtain ⟨finite, reached⟩ : quota ≠ unlimited ∧ quota ≤ size s := by
      simpa [isAtCapacity, plain.settings_eq] using full
    have linked : s.cleanupPendingDeletion.queue 0 ≠ [] := by
      intro empty
      have none : size s.cleanupPendingDeletion = 0 := by
        simp [size, linkedCount, empty, clean.oneList 1 (by decide), clean.oneList 2 (by decide)]
      omega
    obtain ⟨evicted, less⟩ := clean.evictLru linked
    have below : quota ≠ unlimited → size (MmLru.evictLru env s.cleanupPendingDeletion) < quota :=
      fun _ => by omega
    obtain ⟨free, quiet⟩ := calm _ evicted below
    have again : s.cleanupPendingDeletion.isAtCapacity (size s.cleanupPendingDeletion) = true := by
      rw [same]
      simpa [isAtCapacity] using full
    refine ⟨_, ?_, evicted, shrunk.trans (eviction.shrinks clean.wf), below, ?_⟩
    · have full : s.cleanupPendingDeletion.evictAtCapacity (MmLru.evictLru env) size =
          MmLru.evictLru env s.cleanupPendingDeletion := if_pos again
      simp only [MmLru.findCapacity]
      rw [full, if_neg (by simp [free])]
      exact evictWhile_of_false quiet
    · omega
  · have below : quota ≠ unlimited → size s < quota := by
      intro finite
      simpa [isAtCapacity, plain.settings_eq, finite] using full
    obtain ⟨free, quiet⟩ := calm s plain below
    refine ⟨_, findCapacity_of_room free quiet, clean, shrunk, ?_, ?_⟩
    · rw [same]
      exact below
    · rw [same]
      exact Nat.min_le_left _ _

/-- `set` puts a new key in front; it gives up nothing below the quota, and one other
item of a full list. -/
theorem Plain.set (plain : Plain env quota s) (room : 0 < quota)
    (fits : quota ≠ unlimited → size s ≤ quota) (absent : s.find env key = none) :
    Plain env quota ((policy env).set env s key value sec) ∧
      (quota ≠ unlimited → size ((policy env).set env s key value sec) ≤ quota) ∧
      ∃ rest, ((policy env).set env s key value sec).sequence 0 = (key, value) :: rest ∧
        rest ⊆ s.sequence 0 ∧ min (s.sequence 0).length (quota - 1) ≤ rest.length := by
  obtain ⟨u, found, ready, shrunk, below, enough⟩ := plain.findCapacity room fits
  have still : u.find env key = none := shrunk.find_eq_none plain.wf absent
  have capacity : noCapacity s = false := by
    have positive : quota ≠ 0 := Nat.ne_of_gt room
    have bounded : unlimited ≠ 0 := by decide
    simp [noCapacity, plain.settings_eq, positive, bounded]
  have fitted : findMemory env u key value = (u, true) :=
    findMemory_of_room (.inl (by rw [ready.settings_eq]))
  have set_eq : (policy env).set env s key value sec =
      MmLru.link env u key value 0 sec (u.settings.calcItemMemory env key value) := by
    have clean : Policy.cleanupIf (policy env).cleanupOnSet s = s := rfl
    rw [Policy.set, clean, absent]
    change insertNew env s key value 0 sec = _
    rw [insertNew, if_neg (by simp [capacity]), found]
    simp only [fitted]
  rw [set_eq]
  generalize u.settings.calcItemMemory env key value = n
  obtain ⟨linked, queue⟩ := ready.link still
  have inserted : Inserts env u (MmLru.link env u key value 0 sec n) key value 0 :=
    link_inserts ready.wf still
  have sequence : (MmLru.link env u key value 0 sec n).sequence 0 = (key, value) :: u.sequence 0 :=
    inserted.sequence_eq queue
  refine ⟨linked, ?_, u.sequence 0, sequence, ?_, ?_⟩
  · intro finite
    have length := congrArg List.length sequence
    rw [linked.length_sequence, List.length_cons, ready.length_sequence] at length
    omega
  · intro p hp
    rw [shrunk.sequence_eq] at hp
    obtain ⟨i, hi, rfl⟩ := List.mem_map.mp hp
    have before := shrunk.mem i (mem_of_queue ready.wf hi)
    exact List.mem_map_of_mem ((plain.oneList.mem_table_iff plain.wf).mp before)
  · rw [plain.length_sequence, ready.length_sequence]
    exact enough

end Insertion

end Lru.Mm.MmLru
