import Lru.TopK.SpaceSavingTopK

/-!
# The Space-Saving guarantee of `space_saving_top_k`

Every tracked key has an entry in the heap whose count is at most its own. So the first
entry with a current count carries the least count of the map, and the lazily refreshed heap
replaces the keys that Space-Saving replaces.
-/

namespace Lru.SpaceSavingTopK

open SpaceSaving SizeT Option Prod

variable {K : Type} [DecidableEq K] {queue : MinQueue (Nat × K) fst} {map : List (K × Nat)}
  {key k : K} {count n : Nat} {heap : queue.Queue} {top least : Nat × K}

/-! ## The map -/

theorem find_eq_none_iff : find map key = none ↔ key ∉ map.map fst := by
  rw [find, map_eq_none_iff, List.find?_eq_none, List.mem_map]
  refine ⟨fun h => ?_, fun h e mem same => ?_⟩
  · rintro ⟨e, mem, same⟩
    exact h e mem (by simpa using same)
  · exact h ⟨e, mem, by simpa using same⟩

theorem find_eq_some_iff (nodup : (map.map fst).Nodup) :
    find map key = some count ↔ (key, count) ∈ map := by
  induction map with
  | nil => simp [find]
  | cons e rest ih =>
    obtain ⟨absent, distinct⟩ := List.nodup_cons.mp nodup
    obtain ⟨k, c⟩ := e
    by_cases same : k = key
    · subst same
      have other : (k, count) ∉ rest := fun mem =>
        absent (List.mem_map.mpr ⟨(k, count), mem, rfl⟩)
      simp [find, other, eq_comm]
    · have skipped : find ((k, c) :: rest) key = find rest key := by
        simp [find, same]
      rw [skipped, ih distinct]
      simp [Ne.symm same]

theorem find_increment : find (increment map key n) k =
    (find map k).map fun c => if k = key then fetchAdd c n else c := by
  induction map with
  | nil => rfl
  | cons e rest ih =>
    obtain ⟨j, c⟩ := e
    simp only [find, increment, List.map_cons] at ih ⊢
    by_cases here : j = k
    · subst here
      by_cases same : j = key <;> simp [same]
    · by_cases same : j = key
      · subst same
        simpa [here] using ih
      · simpa [here, same] using ih

theorem find_append (absent : find map key = none) :
    find (map ++ [(key, count)]) k = if k = key then some count else find map k := by
  by_cases same : k = key
  · subst same
    have none : map.find? (fun e => e.1 = k) = none := by simpa [find] using absent
    simp [find, List.find?_append, none]
  · simp [find, List.find?_append, same, Ne.symm same]

theorem find_erase : find (erase map key) k = if k = key then none else find map k := by
  by_cases same : k = key
  · subst same
    simp [find, erase, List.find?_filter]
  · rw [if_neg same, find, erase, List.find?_filter]
    congr 2
    funext e
    by_cases here : e.1 = k
    · simp [here, same]
    · simp [here]

theorem map_fst_increment : (increment map key n).map fst = map.map fst := by
  rw [increment, List.map_map]
  refine List.map_congr_left fun e _ => ?_
  simp
  split <;> rfl

/-! ## The heap -/

/-- Every tracked key has an entry in the heap, with a count that is at most its own. -/
def Queued (map : List (K × Nat)) (heap : queue.Queue) : Prop :=
  ∀ e ∈ map, ∃ h ∈ queue.contents heap, h.2 = e.1 ∧ h.1 ≤ e.2

def stale (map : List (K × Nat)) (heap : queue.Queue) : Nat :=
  ((queue.contents heap).filter fun h => find map h.2 ≠ some h.1).card

/-- A round of the search removes a stale entry. -/
theorem stale_pop (map : List (K × Nat)) (isTop : queue.top heap = some top)
    (old : find map top.2 ≠ some top.1) : stale map (queue.pop heap) + 1 = stale map heap := by
  rw [stale, stale, queue.contents_of_some isTop, Multiset.filter_cons_of_pos, Multiset.card_cons]
  exact old

theorem stale_push (heap : queue.Queue) (current : find map key = some count) :
    stale map (queue.push heap (count, key)) = stale map heap := by
  rw [stale, stale, queue.contents_push, Multiset.filter_cons_of_neg]
  simpa using current

/-- An entry of a key that is gone can be dropped. -/
theorem Queued.pop (queued : Queued map heap) (isTop : queue.top heap = some top)
    (gone : find map top.2 = none) : Queued map (queue.pop heap) := by
  intro e mem
  obtain ⟨h, inHeap, same, le⟩ := queued e mem
  rw [queue.contents_of_some isTop, Multiset.mem_cons] at inHeap
  obtain rfl | later := inHeap
  · exact absurd (List.mem_map.mpr ⟨e, mem, same.symm⟩) (find_eq_none_iff.mp gone)
  · exact ⟨h, later, same, le⟩

/-- An entry can be replaced by one with the current count. -/
theorem Queued.refresh (nodup : (map.map fst).Nodup) (queued : Queued map heap)
    (isTop : queue.top heap = some top) (current : find map top.2 = some count) :
    Queued map (queue.push (queue.pop heap) (count, top.2)) := by
  intro e mem
  obtain ⟨h, inHeap, same, le⟩ := queued e mem
  rw [queue.contents_of_some isTop, Multiset.mem_cons] at inHeap
  rw [queue.contents_push]
  obtain rfl | later := inHeap
  · refine ⟨(count, h.2), Multiset.mem_cons_self _ _, same, ?_⟩
    have here : find map h.2 = some e.2 := (find_eq_some_iff nodup).mpr (same ▸ mem)
    rw [current] at here
    exact (some.inj here).le
  · exact ⟨h, Multiset.mem_cons_of_mem later, same, le⟩

/-- What the search finds: a tracked key with its count, which is the least. -/
structure FindsLeast (map : List (K × Nat)) (least : Nat × K) (heap : queue.Queue) : Prop where
  current : find map least.2 = some least.1
  le : ∀ e ∈ map, least.1 ≤ e.2
  isTop : queue.top heap = some least
  queued : Queued map heap

/-- The search ends with the least count of a map that is not empty. -/
theorem findMin_spec (nodup : (map.map fst).Nodup) (nonempty : map ≠ []) {fuel : Nat}
    (enough : stale map heap < fuel) (queued : Queued map heap) :
    ∃ least rest, findMin map fuel heap = (some least, rest) ∧ FindsLeast map least rest := by
  induction fuel generalizing heap with
  | zero => omega
  | succ fuel ih =>
    rw [findMin]
    cases isTop : queue.top heap with
    | none =>
      obtain ⟨e, mem⟩ := List.exists_mem_of_ne_nil map nonempty
      obtain ⟨h, inHeap, -⟩ := queued e mem
      rw [queue.contents_of_none isTop] at inHeap
      exact absurd inHeap (Multiset.notMem_zero h)
    | some top =>
      simp only
      cases found : find map top.2 with
      | none =>
        have fewer := stale_pop map isTop (by simp [found])
        exact ih (by omega) (queued.pop isTop found)
      | some count =>
        simp only
        split
        case isTrue old =>
          have fewer := stale_pop map isTop (by simpa [found] using old)
          have same := stale_push (queue.pop heap) found
          exact ih (by omega) (queued.refresh nodup isTop found)
        case isFalse current =>
          have current : count = top.1 := by simpa using current
          refine ⟨top, heap, rfl, by rw [found, current], fun e mem => ?_, isTop, queued⟩
          obtain ⟨h, inHeap, -, le⟩ := queued e mem
          exact (queue.top_le isTop h inHeap).trans le

/-! ## Observations -/

def summary (map : List (K × Nat)) : Summary K where
  keys := (map.map fst).toFinset
  count k := (find map k).getD 0

theorem mem_summary : k ∈ (summary map).keys ↔ k ∈ map.map fst := List.mem_toFinset

theorem card_summary (nodup : (map.map fst).Nodup) : (summary map).keys.card = map.length := by
  rw [summary, List.toFinset_card_of_nodup nodup, List.length_map]

theorem count_of_mem (nodup : (map.map fst).Nodup) (mem : (k, count) ∈ map) :
    (summary map).count k = count := by
  simp only [summary, (find_eq_some_iff nodup).mpr mem, getD_some]

theorem sum_summary (nodup : (map.map fst).Nodup) :
    ∑ k ∈ (summary map).keys, (summary map).count k = (map.map snd).sum := by
  rw [summary, List.sum_toFinset _ nodup, List.map_map]
  refine congrArg List.sum (List.map_congr_left fun e mem => ?_)
  exact count_of_mem nodup mem

/-- The state after a stream: its summary is that of the stream, and the heap knows all
tracked keys. -/
structure Holds (capacity : Nat) (stream : List (K × Nat)) (s : SpaceSavingTopK K queue) :
    Prop where
  capacity_eq : s.capacity = capacity
  total_eq : s.total = SpaceSaving.total stream
  nodup : (s.map.map fst).Nodup
  guarantee : Guarantee capacity stream (summary s.map)
  queued : Queued s.map s.heap

variable {capacity : Nat} {stream : List (K × Nat)} {s : SpaceSavingTopK K queue}

/-- What the replacement of a key does: the search of the heap ends with the least count,
and the key with that count leaves. -/
structure Replaces (s : SpaceSavingTopK K queue) (least : Nat × K) (key : K) (n : Nat)
    (t : SpaceSavingTopK K queue) : Prop where
  found : (findMin s.map (queue.size s.heap + 1) s.heap).1 = some least
  mem : (least.2, least.1) ∈ s.map
  le : ∀ e ∈ s.map, least.1 ≤ e.2
  map_eq : t.map = erase s.map least.2 ++ [(key, SizeT.fetchAdd least.1 n)]
  queued : Queued t.map t.heap

theorem Queued.replace (queued : Queued map heap)
    (isTop : queue.top heap = some least) (newCount : Nat) :
    Queued (erase map least.2 ++ [(key, newCount)])
      (queue.push (queue.pop heap) (newCount, key)) := by
  intro e mem
  rw [queue.contents_push]
  obtain old | new := List.mem_append.mp mem
  · obtain ⟨inMap, other⟩ := List.mem_filter.mp old
    obtain ⟨h, inHeap, same, le⟩ := queued e inMap
    rw [queue.contents_of_some isTop, Multiset.mem_cons] at inHeap
    obtain rfl | later := inHeap
    · exact absurd same.symm (by simpa using other)
    · exact ⟨h, Multiset.mem_cons_of_mem later, same, le⟩
  · rw [List.mem_singleton.mp new]
    exact ⟨(newCount, key), Multiset.mem_cons_self _ _, rfl, Nat.le_refl _⟩

omit [DecidableEq K] in
theorem Queued.rebuild : Queued map (rebuildHeap queue map) := by
  intro e mem
  refine ⟨(e.2, e.1), queue.mem_contents_pushAll.mpr (.inl ?_), rfl, Nat.le_refl _⟩
  exact List.mem_map.mpr ⟨e, mem, rfl⟩

theorem replaceMin_spec (nodup : (s.map.map fst).Nodup) (nonempty : s.map ≠ [])
    (queued : Queued s.map s.heap) (key : K) (n : Nat) :
    ∃ least, Replaces s least key n (s.replaceMin key n) ∧
      (s.replaceMin key n).capacity = s.capacity ∧ (s.replaceMin key n).total = s.total := by
  have few : stale s.map s.heap ≤ queue.size s.heap :=
    Multiset.card_le_card (Multiset.filter_le _ _)
  obtain ⟨least, rest, found, finds⟩ := findMin_spec nodup nonempty (Nat.lt_succ_of_le few) queued
  have taken : takeMin s.map s.heap = some (least, queue.pop rest) := by rw [takeMin, found]
  refine ⟨least, ⟨congrArg fst found, (find_eq_some_iff nodup).mp finds.current, finds.le,
    ?_, ?_⟩, ?_, ?_⟩
  all_goals rw [replaceMin, taken]
  simp only
  split
  · exact .rebuild
  · exact finds.queued.replace finds.isTop _

theorem nodup_appended (nodup : (map.map fst).Nodup) (absent : find map key = none) :
    ((map ++ [(key, count)]).map fst).Nodup := by
  rw [List.map_append, List.map_singleton, List.nodup_append]
  refine ⟨nodup, List.nodup_singleton key, fun k old j new => ?_⟩
  rw [List.mem_singleton.mp new]
  exact ne_of_mem_of_not_mem old (find_eq_none_iff.mp absent)

theorem nodup_replaced (nodup : (map.map fst).Nodup) (absent : find map key = none)
    {least : K} : ((erase map least ++ [(key, count)]).map fst).Nodup := by
  have fewer : ((erase map least).map fst).Sublist (map.map fst) :=
    (List.filter_sublist ..).map fst
  exact nodup_appended (nodup.sublist fewer) (by rw [find_erase, absent, ite_self])

/-- The map with a new key stands for the summary that admits it. -/
theorem guarantee_admitted (positive : 0 < capacity) (nodup : (map.map fst).Nodup)
    (h : Guarantee capacity stream (summary map)) (absent : find map key = none)
    (room : map.length < capacity) :
    Guarantee capacity (stream ++ [(key, n)]) (summary (map ++ [(key, n)])) := by
  have untracked : key ∉ (summary map).keys := fun tracked =>
    find_eq_none_iff.mp absent (mem_summary.mp tracked)
  obtain ⟨placed, tracked⟩ := h.makesRoom positive
    (.admitted untracked ((card_summary nodup).trans_lt room))
  refine (placed.add tracked).congr ?_ fun k hk => ?_
  · ext k
    simp [Summary.add, mem_summary, or_comm]
  · rw [Summary.add_count]
    by_cases same : k = key
    · subst same
      simp [summary, find_append absent]
    · simp [summary, find_append absent, same, Ne.symm same]

/-- The map after the replacement stands for the summary after it. -/
theorem guarantee_replaced (positive : 0 < capacity)
    (nodup : (map.map fst).Nodup) (h : Guarantee capacity stream (summary map))
    (absent : find map key = none) (full : map.length = capacity)
    (mem : (least.2, least.1) ∈ map) (le : ∀ e ∈ map, least.1 ≤ e.2) :
    Guarantee capacity (stream ++ [(key, n)])
      (summary (erase map least.2 ++ [(key, least.1 + n)])) := by
  have count : (summary map).count least.2 = least.1 := count_of_mem nodup mem
  have untracked : key ∉ (summary map).keys := fun tracked =>
    find_eq_none_iff.mp absent (mem_summary.mp tracked)
  have least_le : ∀ k ∈ (summary map).keys,
      (summary map).count least.2 ≤ (summary map).count k := by
    intro k hk
    obtain ⟨e, inMap, rfl⟩ := List.mem_map.mp (mem_summary.mp hk)
    rw [count, count_of_mem nodup inMap]
    exact le e inMap
  obtain ⟨placed, tracked⟩ := h.makesRoom positive (.replaced least.2 untracked
    ((card_summary nodup).trans full) (mem_summary.mpr (List.mem_map.mpr ⟨_, mem, rfl⟩)) least_le)
  have erased : find (erase map least.2) key = none := by
    rw [find_erase, absent, ite_self]
  refine (placed.add tracked).congr ?_ fun k hk => ?_
  · ext k
    simp only [Summary.add, mem_summary, Finset.mem_insert, Finset.mem_erase, List.map_append,
      List.mem_append, List.map_singleton, List.mem_singleton]
    have kept : k ∈ (erase map least.2).map fst ↔ k ≠ least.2 ∧ k ∈ map.map fst := by
      constructor
      · intro hk
        obtain ⟨e, inErased, rfl⟩ := List.mem_map.mp hk
        obtain ⟨inMap, other⟩ := List.mem_filter.mp inErased
        exact ⟨by simpa using other, List.mem_map.mpr ⟨e, inMap, rfl⟩⟩
      · rintro ⟨other, hk⟩
        obtain ⟨e, inMap, rfl⟩ := List.mem_map.mp hk
        exact List.mem_map.mpr ⟨e, List.mem_filter.mpr ⟨inMap, by simpa using other⟩, rfl⟩
    rw [kept, or_comm]
  · rw [Summary.add_count]
    simp only [Summary.add, Finset.mem_insert, Finset.mem_erase] at hk
    by_cases same : k = key
    · subst same
      simp [summary, find_append erased, (find_eq_some_iff nodup).mpr mem]
    · have other : k ≠ least.2 := (hk.resolve_left same).1
      simp [summary, find_append erased, find_erase, same, other, Ne.symm same]

/-- One observation keeps the state that of the stream. -/
theorem Holds.add (h : Holds capacity stream s) (positive : 0 < capacity)
    (small : SpaceSaving.total (stream ++ [(key, n)]) < range) :
    Holds capacity (stream ++ [(key, n)]) (s.add key n) := by
  have sum : SpaceSaving.total (stream ++ [(key, n)]) = SpaceSaving.total stream + n := by
    simp [SpaceSaving.total]
  have total : fetchAdd s.total n = SpaceSaving.total (stream ++ [(key, n)]) := by
    rw [h.total_eq, fetchAdd_of_lt (sum ▸ small), sum]
  -- No count wraps: it is at most the total before.
  have bounded : ∀ {k c}, (k, c) ∈ s.map → fetchAdd c n = c + n := by
    intro k c mem
    have tracked : k ∈ (summary s.map).keys := mem_summary.mpr (List.mem_map.mpr ⟨_, mem, rfl⟩)
    have le := Finset.single_le_sum (f := (summary s.map).count) (fun _ _ => Nat.zero_le _) tracked
    rw [h.guarantee.sum_eq, count_of_mem h.nodup mem] at le
    exact fetchAdd_of_lt (by omega)
  rw [SpaceSavingTopK.add]
  cases found : find s.map key with
  | some c =>
    have mem := (find_eq_some_iff h.nodup).mp found
    have tracked : key ∈ (summary s.map).keys := mem_summary.mpr (List.mem_map.mpr ⟨_, mem, rfl⟩)
    refine ⟨h.capacity_eq, total, ?_, ?_, ?_⟩
    · rw [map_fst_increment]
      exact h.nodup
    · refine (h.guarantee.add tracked).congr ?_ fun k hk => ?_
      · simp [summary, Summary.add, map_fst_increment]
      · obtain ⟨e, inMap, rfl⟩ := List.mem_map.mp (mem_summary.mp hk)
        rw [Summary.add_count]
        simp only [summary, find_increment, (find_eq_some_iff h.nodup).mpr inMap,
          map_some, getD_some, bounded inMap, eq_comm]
        split <;> rfl
    · intro e mem
      obtain ⟨o, inMap, rfl⟩ := List.mem_map.mp mem
      obtain ⟨entry, inHeap, same, le⟩ := h.queued o inMap
      refine ⟨entry, inHeap, ?_⟩
      split
      · rw [bounded inMap]
        exact ⟨same, Nat.le_add_right_of_le le⟩
      · exact ⟨same, le⟩
  | none =>
    simp only
    split
    case isTrue room =>
      refine ⟨h.capacity_eq, total, ?_, ?_, ?_⟩
      · exact nodup_appended h.nodup found
      · exact guarantee_admitted positive h.nodup h.guarantee found (h.capacity_eq ▸ room)
      · intro e mem
        rw [queue.contents_push]
        obtain old | new := List.mem_append.mp mem
        · obtain ⟨entry, inHeap, same⟩ := h.queued e old
          exact ⟨entry, Multiset.mem_cons_of_mem inHeap, same⟩
        · rw [List.mem_singleton.mp new]
          exact ⟨(n, key), Multiset.mem_cons_self _ _, rfl, Nat.le_refl _⟩
    case isFalse full =>
      have length : s.map.length = capacity := by
        have le := h.guarantee.card_le
        rw [card_summary h.nodup] at le
        have capacity_eq := h.capacity_eq
        omega
      have nonempty : s.map ≠ [] := List.ne_nil_of_length_pos (length ▸ positive)
      set u : SpaceSavingTopK K queue := { s with total := fetchAdd s.total n } with u_def
      obtain ⟨least, replaced, sameCapacity, sameTotal⟩ :=
        replaceMin_spec (s := u) h.nodup nonempty h.queued key n
      refine ⟨sameCapacity.trans h.capacity_eq, sameTotal.trans total, ?_, ?_, replaced.queued⟩
      · rw [replaced.map_eq]
        exact nodup_replaced h.nodup found
      · rw [replaced.map_eq, bounded replaced.mem]
        exact guarantee_replaced positive h.nodup h.guarantee found length replaced.mem
          replaced.le

/-! ## Streams -/

theorem observe_append :
    observe queue capacity (stream ++ [(key, n)]) = (observe queue capacity stream).add key n := by
  rw [observe, List.foldl_append]
  rfl

/-- The state after a stream is that of the stream. -/
theorem observe_holds (queue : MinQueue (Nat × K) fst) (positive : 0 < capacity)
    (small : SpaceSaving.total stream < range) :
    Holds capacity stream (observe queue capacity stream) := by
  induction stream using List.reverseRecOn with
  | nil => exact ⟨if_neg positive.ne', rfl, .nil, .empty _, List.forall_mem_nil _⟩
  | append_singleton stream e ih =>
    have shorter : SpaceSaving.total stream < range := by
      rw [total_append] at small
      omega
    rw [observe_append]
    exact (ih shorter).add positive small

/-- A replacement after a stream evicts a key with the least count. -/
theorem observe_replaces (queue : MinQueue (Nat × K) fst) (positive : 0 < capacity)
    (small : SpaceSaving.total stream < range)
    (absent : find (observe queue capacity stream).map key = none)
    (full : capacity ≤ (observe queue capacity stream).map.length) (n : Nat) :
    ∃ least, Replaces (observe queue capacity stream) least key n
      (observe queue capacity (stream ++ [(key, n)])) := by
  have h := observe_holds queue positive small
  have nonempty : (observe queue capacity stream).map ≠ [] :=
    List.ne_nil_of_length_pos (positive.trans_le full)
  set s := observe queue capacity stream with s_def
  set u : SpaceSavingTopK K queue := { s with total := fetchAdd s.total n } with u_def
  obtain ⟨least, replaced, -⟩ := replaceMin_spec (s := u) h.nodup nonempty h.queued key n
  have added : s.add key n = u.replaceMin key n := by
    have room : ¬ s.map.length < s.capacity := by
      rw [h.capacity_eq]
      omega
    simp only [SpaceSavingTopK.add, absent, if_neg room, u_def]
  rw [observe_append, added]
  exact ⟨least, replaced.found, replaced.mem, replaced.le, replaced.map_eq, replaced.queued⟩

/-- After every stream whose total fits a counter the counts add up to the total, no count
is below the true one or above it by more than the total over the capacity, every key with
more than that share is tracked, and in each replacement on the way the search of the heap
ends with the least count, whose key leaves. -/
theorem space_saving_guarantee (queue : MinQueue (Nat × K) fst) (capacity : Nat)
    (positive : 1 ≤ capacity) (stream : List (K × Nat))
    (small : SpaceSaving.total stream < range) :
    ((observe queue capacity stream).map.map snd).sum = SpaceSaving.total stream ∧
      (observe queue capacity stream).errorBound = SpaceSaving.total stream / capacity ∧
      (∀ e ∈ (observe queue capacity stream).map, trueCount stream e.1 ≤ e.2 ∧
        e.2 ≤ trueCount stream e.1 + SpaceSaving.total stream / capacity) ∧
      (∀ key, SpaceSaving.total stream / capacity < trueCount stream key →
        key ∈ (observe queue capacity stream).map.map fst) ∧
      ∀ before key n after, stream = before ++ (key, n) :: after →
        find (observe queue capacity before).map key = none →
        capacity ≤ (observe queue capacity before).map.length →
        ∃ least, Replaces (observe queue capacity before) least key n
          (observe queue capacity (before ++ [(key, n)])) := by
  have h := observe_holds queue positive small
  refine ⟨?_, ?_, fun e mem => ?_, fun key heavy => ?_, ?_⟩
  · rw [← sum_summary h.nodup, h.guarantee.sum_eq]
  · rw [errorBound, h.capacity_eq, h.total_eq, if_pos (Nat.lt_of_lt_of_le Nat.zero_lt_one positive)]
  · have tracked := mem_summary.mpr (List.mem_map.mpr ⟨e, mem, rfl⟩)
    have lower := h.guarantee.le_count e.1 tracked
    have upper := h.guarantee.count_le e.1 tracked
    rw [count_of_mem h.nodup mem] at lower upper
    exact ⟨lower, upper⟩
  · exact mem_summary.mp (h.guarantee.mem_of_lt positive heavy)
  · intro before key n after split absent full
    refine observe_replaces queue positive ?_ absent full n
    rw [split, total_append] at small
    omega

/-- Two counters and four keys: the third takes over the count of the second. -/
theorem third_key_replaces :
    ((observe (.sorted fst) 2 [(1, 5), (2, 3), (3, 1), (1, 2)]).map.map snd).sum = 11 ∧
      (3, 4) ∈ (observe (.sorted fst) 2 [(1, 5), (2, 3), (3, 1), (1, 2)]).map ∧
      ∃ least, Replaces (observe (.sorted fst) 2 [(1, 5), (2, 3)]) least 3 1
        (observe (.sorted fst) 2 [(1, 5), (2, 3), (3, 1)]) := by
  obtain ⟨sum, -, -, -, replaces⟩ := space_saving_guarantee (.sorted fst) 2 (by decide)
    [(1, 5), (2, 3), (3, 1), (1, 2)] (by decide)
  exact ⟨sum, by decide +kernel,
    replaces [(1, 5), (2, 3)] 3 1 [(1, 2)] rfl (by decide +kernel) (by decide +kernel)⟩

end Lru.SpaceSavingTopK
