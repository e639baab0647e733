import Lru.Mm.EvictionProgress
import Lru.Mm.Sequence
import Lru.Mm.TailSegment

/-!
# The victim of `mm_lru`

`evict_lru` starts its search at a cursor. In every reachable state the cursor points
into the list, so without a predicate the search takes the unpinned item nearest to the
tail unless an unpinned item stands behind an unpinned cursor. Promotions put it there:
they move the item under the cursor to the head and leave the cursor on it.
-/

namespace Lru.Mm.MmLru

variable {K V : Type} {env : Env K V} {s t : State K V} {i v : ItemId} {front behind : List ItemId}
  {curr : Nat}

open State Strategy

/-- There is one list, and the cursor points into it. -/
structure Steady (s : State K V) : Prop where
  oneList : s.OneList
  cursor : ∀ i ∈ s.unpinnedTail, i ∈ s.queue 0

/-! ## The cursor along a run -/

section Frames

theorem cleanup_cursor : s.cleanupPendingDeletion.unpinnedTail = s.unpinnedTail :=
  cleanup_frame s (·.unpinnedTail) fun _ _ _ => rfl

theorem promote_cursor : (promote env s i curr).unpinnedTail = s.unpinnedTail := by
  have prepared := (prepared_marks env s i curr).cursor_eq
  rw [promote]
  split
  · exact (updateLruInsertionPoint_marks _).cursor_eq.trans
      ((clearTail_marks _ i).cursor_eq.trans prepared)
  · exact prepared

theorem recordAccessAt_cursor {mode : AccessMode} :
    (recordAccessAt env s i mode curr).2.unpinnedTail = s.unpinnedTail := by
  unfold recordAccessAt
  split
  · rfl
  split
  · rfl
  split
  · exact promote_cursor
  split
  · rfl
  · exact promote_cursor

theorem removeFromList_cursor : (removeFromList s i).unpinnedTail = s.unpinnedTail := by
  rw [removeFromList]
  split
  · rfl
  · have left := (ensureNotInsertionPoint_marks s i).trans (leaveTail_marks _ i)
    exact (updateLruInsertionPoint_marks _).cursor_eq.trans left.cursor_eq

theorem evictVictim_cursor [DecidableEq K] :
    (s.evictVictim env removeFromList v).unpinnedTail = s.unpinnedTail := by
  have collected : ∀ (u : State K V) e, (u.collect e).unpinnedTail = u.unpinnedTail := by
    intro u e
    obtain ⟨events, collected⟩ := collect_eq u e
    rw [collected]
  rw [evictVictim]
  split
  · exact removeFromList_cursor.trans (collected _ _)
  · rfl

/-- The second half of `insert_new` links the item; around it only the index, the counters and
the events change before the tail segment is resized. -/
theorem link_writes [DecidableEq K] (env : Env K V) (s : State K V) (key : K) (value : V)
    (expiryNs sec mem : Nat) :
    ∃ index stats events, link env s key value expiryNs sec mem = updateLruInsertionPoint
        { s.linkNew env key value 0 expiryNs { updateTime := sec } (place s) with
          ttlIndex := index, stats := stats, events := events } ∧
      stats.currentMemory = SizeT.fetchAdd (s.linkNew env key value 0 expiryNs
        { updateTime := sec } (place s)).stats.currentMemory mem := by
  have pushed : ∀ u : State K V, ∃ l, (if expiryNs = 0 then u
      else u.ttlIndexPush (size u) key expiryNs) = { u with ttlIndex := l } := by
    intro u
    split
    · exact ⟨u.ttlIndex, rfl⟩
    · exact ttlIndexPush_eq
  rw [link]
  generalize s.linkNew env key value 0 expiryNs { updateTime := sec } (place s) = u
  obtain ⟨index, indexed⟩ := pushed u
  simp only [indexed]
  obtain ⟨stats, events, noted, memory⟩ := noteInsertion_eq { u with ttlIndex := index }
    (size { u with ttlIndex := index }) mem key value
  exact ⟨index, stats, events, by rw [noted], memory⟩

/-- A new item enters the list at its place, and the cursor stays where it is. -/
theorem link_listed [DecidableEq K] {key : K} {value : V} {expiryNs sec mem : Nat}
    (wf : s.WellFormed env) (absent : s.find env key = none) :
    (link env s key value expiryNs sec mem).queue 0 = place s s.next (s.queue 0) ∧
      (link env s key value expiryNs sec mem).unpinnedTail = s.unpinnedTail := by
  obtain ⟨index, stats, events, linked, -⟩ := link_writes env s key value expiryNs sec mem
  have marked := updateLruInsertionPoint_marks
    { s.linkNew env key value 0 expiryNs { updateTime := sec } (place s) with
      ttlIndex := index, stats := stats, events := events }
  rw [linked]
  refine ⟨(congrFun marked.quiet.queue_eq 0).trans ?_, marked.cursor_eq.trans ?_⟩
  · simp [linkNew_eq wf absent]
  · simp [linkNew_eq wf absent]

end Frames

/-- What the search leaves in the cursor: an item that it has looked at or the tail, and
never the victim. -/
theorem scan_cursor {tries : Nat} {sawPinned : Bool} {first : Option ItemId} {l : List ItemId}
    (nodup : l.Nodup)
    (apart : ∀ t ∈ s.tail 0, t ∉ l ∨ sawPinned = false ∧ ∃ rest, l = t :: rest) :
    ∀ c ∈ (scan s tries sawPinned first l).2,
      (c ∈ l ∨ c ∈ first ∨ c ∈ s.tail 0) ∧ (scan s tries sawPinned first l).1 ≠ some c := by
  induction l generalizing tries sawPinned first with
  | nil =>
    intro c hc
    rw [scan] at hc ⊢
    refine ⟨.inr ?_, by simp⟩
    split at hc
    · exact .inr hc
    · exact .inl hc
  | cons i rest ih =>
    obtain ⟨fresh, nodupRest⟩ := List.nodup_cons.mp nodup
    -- Past the first item the tail is out of the way.
    have later : ∀ t ∈ s.tail 0, t ∉ rest := by
      intro t ht here
      obtain out | ⟨-, more, same⟩ := apart t ht
      · exact out (List.mem_cons_of_mem i here)
      · cases same
        exact fresh here
    intro c hc
    rw [scan] at hc ⊢
    split at hc
    case isTrue pinned =>
      rw [if_pos pinned]
      exact (ih nodupRest (fun t ht => .inl (later t ht)) c hc).imp_left
        (.imp_left (List.mem_cons_of_mem i))
    case isFalse unpinned =>
      rw [if_neg unpinned]
      split at hc
      case isTrue veto =>
        rw [if_pos veto]
        have seen : ∀ {c}, c ∈ first.or (some i) → c ∈ i :: rest ∨ c ∈ first := by
          intro c hc
          obtain old | ⟨-, new⟩ := Option.or_eq_some_iff.mp hc
          · exact .inr old
          · cases new
            exact .inl List.mem_cons_self
        split at hc
        case isTrue enough =>
          rw [if_pos enough]
          refine ⟨?_, by simp⟩
          split at hc
          · exact .inr (.inr hc)
          · exact (seen hc).imp_right .inl
        case isFalse more =>
          rw [if_neg more]
          obtain ⟨place, other⟩ := ih nodupRest (fun t ht => .inl (later t ht)) c hc
          refine ⟨?_, other⟩
          obtain here | old | tail := place
          · exact .inl (List.mem_cons_of_mem i here)
          · exact (seen old).imp_right .inl
          · exact .inr (.inr tail)
      case isFalse allowed =>
        rw [if_neg allowed]
        split at hc
        case isTrue pinned =>
          refine ⟨.inr (.inr hc), ?_⟩
          rintro same
          cases same
          obtain out | ⟨none, -⟩ := apart i hc
          · exact out List.mem_cons_self
          · rw [pinned] at none
            cases none
        case isFalse =>
          have here : c ∈ rest := List.mem_of_mem_head? hc
          refine ⟨.inl (List.mem_cons_of_mem i here), ?_⟩
          rintro same
          cases same
          exact fresh here

/-- The path of the search from an item of the list. -/
theorem searchPath_of_start (nodup : (s.queue 0).Nodup) (queue : s.queue 0 = front ++ i :: behind)
    (start : searchStart s = some i) : searchPath s = i :: front.reverse := by
  have listed : i ∈ s.queue 0 := by simp [queue]
  simp [searchPath, start, listed, (around_point queue nodup).1]

/-- The search leaves the cursor on an item of the list other than the victim. -/
theorem findEvictionVictim_cursor (wf : s.WellFormed env) (steady : Steady s) :
    ∀ c ∈ (findEvictionVictim s).2.unpinnedTail,
      c ∈ s.queue 0 ∧ (findEvictionVictim s).1 ≠ some c := by
  have nodup : (s.queue 0).Nodup := wf.queue_nodup 0
  have listed : ∀ i, searchStart s = some i → i ∈ s.queue 0 := by
    intro i start
    rw [searchStart] at start
    cases cursor : s.unpinnedTail with
    | none =>
      rw [cursor] at start
      exact List.mem_of_getLast? start
    | some c =>
      rw [cursor] at start
      simp only at start
      split at start
      · exact List.mem_of_getLast? start
      · cases start
        exact steady.cursor i cursor
  intro c hc
  rw [findEvictionVictim] at hc ⊢
  cases start : searchStart s with
  | none =>
    rw [start] at hc
    exact ⟨steady.cursor c hc, by simp⟩
  | some i =>
    rw [start] at hc
    obtain ⟨front, behind, queue⟩ := List.append_of_mem (listed i start)
    have path := searchPath_of_start nodup queue start
    rw [queue] at nodup
    have apart : ∀ t ∈ s.tail 0, t ∉ searchPath s ∨
        false = false ∧ ∃ rest, searchPath s = t :: rest := by
      intro t ht
      rw [path]
      by_cases here : t = i
      · exact .inr ⟨rfl, _, by rw [here]⟩
      · -- The tail lies behind the start.
        have last : t ∈ i :: behind := by
          rw [tail, queue, List.getLast?_append_of_ne_nil _ (by simp)] at ht
          exact List.mem_of_getLast? ht
        refine .inl fun onPath => ?_
        have early : t ∈ front := by simpa [here] using onPath
        exact (List.nodup_append.mp nodup).2.2 t early t last rfl
    have pathNodup : (searchPath s).Nodup := by
      have upTo : (front ++ [i]).Nodup := nodup.sublist (by simp)
      rw [path]
      simpa using List.nodup_reverse.mpr upTo
    have found := scan_cursor pathNodup apart c hc
    refine ⟨?_, found.2⟩
    obtain onPath | none | isTail := found.1
    · exact mem_searchPath onPath
    · cases none
    · exact List.mem_of_getLast? isTail

variable [DecidableEq K]

theorem evictLru_steady (wf : s.WellFormed env) (steady : Steady s) : Steady (evictLru env s) := by
  have one : (evictLru env s).OneList := evictLru_confined wf steady.oneList
  refine ⟨one, fun c hc => ?_⟩
  have clean := Rearranges.cleanup wf
  have same := cleanup_queue s
  have kept : Steady s.cleanupPendingDeletion :=
    ⟨steady.oneList.of_queue_eq same, by rw [cleanup_cursor, same]; exact steady.cursor⟩
  have searched := findEvictionVictim_cursor clean.wf kept
  have victim := findEvictionVictim_cleanup s
  cases search : findEvictionVictim s.cleanupPendingDeletion with
  | mk found u =>
    rw [search] at searched victim
    have listed : c ∈ u.unpinnedTail → c ∈ s.table ∧ found ≠ some c := by
      intro hc
      obtain ⟨inList, other⟩ := searched c hc
      exact ⟨mem_of_queue wf (same ▸ inList), other⟩
    cases found with
    | none =>
      have still : Rearranges env s (evictLru env s) := eviction.rearranges wf victim.symm
      rw [evictLru_of_missed search] at hc
      exact (one.mem_table_iff still.wf).mp (still.mem_iff.mpr (listed hc).1)
    | some v =>
      have removed : Removes env s (evictLru env s) v := eviction.removes wf victim.symm
      rw [evictLru_of_found wf search] at hc
      obtain old | ⟨-, isTail⟩ := Option.or_eq_some_iff.mp hc
      · rw [evictVictim_cursor] at old
        obtain ⟨mem, other⟩ := listed old
        refine (one.mem_table_iff removed.wf).mp ?_
        rw [removed.table_eq]
        exact (List.mem_erase_of_ne fun same => other (by rw [same])).mpr mem
      · have last := List.mem_of_getLast? isTail
        rw [evictLru_of_found wf search]
        exact last

/-- The parts of `mm_lru` keep the cursor in the list. -/
theorem keepsSteady (env : Env K V) : (policy env).KeepsLists env Steady where
  framed h queue cursor := ⟨h.oneList.of_queue_eq queue, by rw [queue, cursor]; exact h.cursor⟩
  accessed {s i} mode sec wf hi h := by
    have one := (keepsOneList env).accessed mode sec wf hi h.oneList
    have moved : Moves env s (recordAccessAt env s i mode sec).2 :=
      recordAccessAt_moves mode sec wf hi
    refine ⟨one, fun c hc => (one.mem_table_iff moved.wf).mp (moved.mem_iff.mpr ?_)⟩
    have old : c ∈ s.unpinnedTail := by
      rw [← recordAccessAt_cursor]
      exact hc
    exact mem_of_queue wf (h.cursor c old)
  afterGet _ _ h := h
  evict := evictLru_steady
  insertNew value expiryNs sec wf absent h := by
    refine insertNew_keeps evictLru_steady (fun wf absent h => ?_) wf absent h fun note h => ?_
    · obtain ⟨queue, cursor⟩ := link_listed wf absent
      refine ⟨link_confined h.oneList, fun c hc => ?_⟩
      rw [cursor] at hc
      rw [queue]
      exact (place_perm _ _ _).mem_iff.mpr (List.mem_cons_of_mem _ (h.cursor c hc))
    · obtain ⟨_, _, _, _, _, rfl, -⟩ := note
      exact ⟨h.oneList.of_queue_eq rfl, h.cursor⟩
  removeErased linked h := ⟨(keepsOneList env).removeErased linked h.oneList, by rintro _ ⟨⟩⟩
  removeForced linked h := ⟨(keepsOneList env).removeForced linked h.oneList, by rintro _ ⟨⟩⟩
  flush {s} wf h := by
    have unset : ((policy env).flush env s).unpinnedTail = none := cleanup_cursor
    refine ⟨(keepsOneList env).flush wf h.oneList, ?_⟩
    rw [unset]
    rintro _ ⟨⟩
  beforeResize _ h := h
  afterResize h := h
  reconfigure {s} sec wf h := by
    have marked := respecify_marks s
    refine ⟨(keepsOneList env).reconfigure sec wf h.oneList, fun c hc => ?_⟩
    have old : c ∈ s.queue 0 := h.cursor c (marked.cursor_eq ▸ hc)
    exact congrFun marked.quiet.queue_eq 0 ▸ old

/-! ## The victim -/

/-- `t` is `s` without the unpinned item nearest to the tail, and `s` loses no item
exactly if all items are pinned. -/
structure NearestEvicted (env : Env K V) (s t : State K V) : Prop where
  taken : ∀ {front v behind}, s.queue 0 = front ++ v :: behind → s.Unheld v →
    (∀ j ∈ behind, ¬ s.Unheld j) → Removes env s t v
  spared : t.table = s.table ↔ ∀ i ∈ s.table, ¬ s.Unheld i

/-- Behind an unpinned cursor, toward the tail, every item is pinned. -/
def CursorCurrent (s : State K V) : Prop :=
  ∀ c ∈ s.unpinnedTail, s.Unheld c → ∀ j ∈ after s c, ¬ s.Unheld j

section

omit [DecidableEq K]

theorem unheld_iff : (!(s.heap i).hasActiveHandle) = true ↔ s.Unheld i := by
  simp [Unheld, Body.hasActiveHandle]

theorem find_nearest (unheld : s.Unheld v) (pinned : ∀ j ∈ behind, ¬ s.Unheld j) :
    (front ++ v :: behind).reverse.find? (fun i => !(s.heap i).hasActiveHandle) = some v := by
  have skipped : behind.reverse.find? (fun i => !(s.heap i).hasActiveHandle) = none := by
    refine List.find?_eq_none.mpr fun j hj => ?_
    rw [unheld_iff]
    exact pinned j (List.mem_reverse.mp hj)
  rw [List.reverse_append, List.reverse_cons, List.append_assoc, List.find?_append, skipped,
    Option.none_or, List.singleton_append, List.find?_cons, unheld_iff.mpr unheld]

/-- A search from the tail finds the unpinned item nearest to it. -/
theorem victim_of_tail_start (wf : s.WellFormed env) (free : s.Unvetoed)
    (start : searchStart s = s.tail 0) :
    (findEvictionVictim s).1 = (s.queue 0).reverse.find? fun i => !(s.heap i).hasActiveHandle := by
  rw [findEvictionVictim_eq, searchVictim_eq_find fun i hi =>
    free i (mem_of_queue wf (mem_searchPath hi))]
  obtain empty | ⟨front, i, queue⟩ := (s.queue 0).eq_nil_or_concat'
  · have none : searchStart s = none := by rw [start, tail, empty]; rfl
    rw [empty, searchPath, none]
    rfl
  · have isTail : searchStart s = some i := by rw [start, tail, queue, List.getLast?_concat]
    rw [searchPath_of_start (wf.queue_nodup 0) queue isTail, queue]
    simp

/-- A search from an unpinned cursor finds it. -/
theorem victim_of_cursor {c : ItemId} (wf : s.WellFormed env) (free : s.Unvetoed)
    (steady : Steady s) (cursor : s.unpinnedTail = some c) (unheld : s.Unheld c) :
    (findEvictionVictim s).1 = some c := by
  have unpinned : (s.heap c).hasActiveHandle = false := by simpa using unheld_iff.mpr unheld
  have start : searchStart s = some c := by simp [searchStart, cursor, unpinned]
  have path : searchPath s = c :: before s c := by
    simp [searchPath, start, steady.cursor c cursor]
  rw [findEvictionVictim_eq, searchVictim_eq_find fun i hi =>
    free i (mem_of_queue wf (mem_searchPath hi)), path,
    List.find?_cons_of_pos (by simpa using unpinned)]

end

/-- A search that finds the unpinned item nearest to the tail evicts it. -/
theorem NearestEvicted.of_victim (wf : s.WellFormed env) (one : s.OneList)
    (victim : (findEvictionVictim s).1 =
      (s.queue 0).reverse.find? fun i => !(s.heap i).hasActiveHandle) :
    NearestEvicted env s (evictLru env s) where
  taken {front v behind} queue unheld pinned := by
    refine eviction.removes wf (victim.trans ?_)
    rw [queue]
    exact find_nearest unheld pinned
  spared := by
    cases found : (findEvictionVictim s).1 with
    | none =>
      have still : Rearranges env s (evictLru env s) := eviction.rearranges wf found
      rw [victim, List.find?_eq_none] at found
      refine ⟨fun _ i hi => ?_, fun _ => still.table_eq⟩
      rw [← unheld_iff]
      exact found i (List.mem_reverse.mpr ((one.mem_table_iff wf).mp hi))
    | some v =>
      have removed : Removes env s (evictLru env s) v := eviction.removes wf found
      have fewer := removed.length_eq
      refine ⟨fun same => ?_, fun pinned => ?_⟩
      · rw [same] at fewer
        omega
      · exact absurd (victim_spec wf found).2 (pinned v removed.mem_before)

/-- In every reachable state without a predicate `evict_lru` takes the unpinned item
nearest to the tail exactly if the cursor is current. -/
theorem evictLru_nearest_iff (reachable : mmLru.Reachable env s)
    (free : s.settings.evictionPredicate = none) :
    NearestEvicted env s (evictLru env s) ↔ CursorCurrent s := by
  have wf := reachable.wf
  have unvetoed : s.Unvetoed := .of_none free
  have nodup : (s.queue 0).Nodup := wf.queue_nodup 0
  have steady : Steady s := Strategy.Reachable.keepsLists (keepsSteady env)
    (fun _ _ _ _ => ⟨fun _ _ => rfl, by rintro _ ⟨⟩⟩) reachable
  constructor
  · intro evicted c cursor unheld j hj unheldJ
    -- The search takes the cursor, so the last unpinned item behind it stays.
    have removed : Removes env s (evictLru env s) c :=
      eviction.removes wf (victim_of_cursor wf unvetoed steady cursor unheld)
    obtain ⟨front, behind, queue⟩ := List.append_of_mem (steady.cursor c cursor)
    rw [(around_point queue nodup).2] at hj
    obtain ⟨v, found⟩ : ∃ v, behind.reverse.find? (fun i => !(s.heap i).hasActiveHandle) = some v :=
      Option.isSome_iff_exists.mp (List.find?_isSome.mpr
        ⟨j, List.mem_reverse.mpr hj, unheld_iff.mpr unheldJ⟩)
    obtain ⟨unpinned, near, far, split, skipped⟩ := List.find?_eq_some_iff_append.mp found
    have shape : s.queue 0 = (front ++ c :: far.reverse) ++ v :: near.reverse := by
      rw [queue, ← List.reverse_reverse behind, split]
      simp
    have nearest : Removes env s (evictLru env s) v := by
      refine evicted.taken shape (unheld_iff.mp unpinned) fun k hk => ?_
      have pinned := skipped k (List.mem_reverse.mp hk)
      rw [← unheld_iff]
      simpa using pinned
    have other : v ≠ c := by
      rintro rfl
      rw [shape] at nodup
      exact (List.nodup_append.mp nodup).2.2 v (by simp) v (by simp) rfl
    have gone := nearest.not_mem wf
    rw [removed.table_eq] at gone
    exact gone ((List.mem_erase_of_ne other).mpr nearest.mem_before)
  · intro current
    refine .of_victim wf steady.oneList ?_
    cases cursor : s.unpinnedTail with
    | none => exact victim_of_tail_start wf unvetoed (by rw [searchStart, cursor])
    | some c =>
      by_cases unheld : s.Unheld c
      · obtain ⟨front, behind, queue⟩ := List.append_of_mem (steady.cursor c cursor)
        have pinned := current c cursor unheld
        rw [(around_point queue nodup).2] at pinned
        rw [victim_of_cursor wf unvetoed steady cursor unheld, queue, find_nearest unheld pinned]
      · refine victim_of_tail_start wf unvetoed ?_
        have pinned : (s.heap c).hasActiveHandle = true := by
          simpa using mt unheld_iff.mp unheld
        simp [searchStart, cursor, pinned]

/-- `mm_lru` with the default configuration after these calls. -/
def afterCalls (ops : List (Op Nat Nat)) : State Nat Nat :=
  (Transition.runWhere (Strategy.mmLru.step Strategy.intEnv) (fun _ op => !op.isPopLru)
    (State.empty (fun _ => default) {} {} 0) ops).getD (State.empty (fun _ => default) {} {} 0)

/-- After one eviction the cursor is on the tail. -/
theorem second_eviction_nearest :
    (afterCalls [.set 1 10 0, .set 2 20 0, .set 3 30 0, .evict]).unpinnedTail = some 1 ∧
      NearestEvicted intEnv (afterCalls [.set 1 10 0, .set 2 20 0, .set 3 30 0, .evict])
        (evictLru intEnv
          (afterCalls [.set 1 10 0, .set 2 20 0, .set 3 30 0, .evict])) := by
  have reachable : mmLru.Reachable intEnv
      (afterCalls [.set 1 10 0, .set 2 20 0, .set 3 30 0, .evict]) := .getD (by decide +kernel)
  have unvetoed : (afterCalls [.set 1 10 0, .set 2 20 0, .set 3 30 0,
      .evict]).settings.evictionPredicate = none := Option.isNone_iff_eq_none.mp (by decide +kernel)
  refine ⟨by decide +kernel, (evictLru_nearest_iff reachable unvetoed).mpr ?_⟩
  have unpinned : (afterCalls [.set 1 10 0, .set 2 20 0, .set 3 30 0, .evict]).unpinnedTail =
      some 1 := by decide +kernel
  have last : after (afterCalls [.set 1 10 0, .set 2 20 0, .set 3 30 0, .evict]) 1 = [] := by
    decide +kernel
  intro c cursor _ j hj
  rw [unpinned] at cursor
  cases cursor
  exact absurd hj List.not_mem_nil

/-- `get(2)` moves the item under the cursor to the head, and the next eviction takes it
although 3 is nearer to the tail. -/
def promotedCursor : List (Op Nat Nat) :=
  [.set 1 10 0, .set 2 20 0, .set 3 30 0, .evict, .get 2 0, .release 1]

theorem promotedCursor_evicts_head :
    mmLru.Reachable intEnv (afterCalls promotedCursor) ∧
      (afterCalls promotedCursor).settings.evictionPredicate.isNone ∧
      (afterCalls promotedCursor).queue 0 = [1, 2] ∧
      (afterCalls promotedCursor).Unheld 2 ∧
      (evictLru intEnv (afterCalls promotedCursor)).queue 0 = [2] ∧
      ¬ NearestEvicted intEnv (afterCalls promotedCursor)
        (evictLru intEnv (afterCalls promotedCursor)) := by
  have queue : (afterCalls promotedCursor).queue 0 = [1] ++ 2 :: [] := by decide +kernel
  have unheld : (afterCalls promotedCursor).Unheld 2 := by decide +kernel
  have kept : 2 ∈ (evictLru intEnv (afterCalls promotedCursor)).table := by decide +kernel
  have reachable : mmLru.Reachable intEnv (afterCalls promotedCursor) := .getD (by decide +kernel)
  refine ⟨reachable, by decide +kernel, queue, unheld, by decide +kernel, fun evicted => ?_⟩
  have removed := evicted.taken queue unheld (List.forall_mem_nil _)
  exact removed.not_mem reachable.wf kept

end Lru.Mm.MmLru
