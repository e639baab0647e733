import Lru.Mm.Invariants

/-!
# What `get` does to the item that it finds

Between the lookup and the pin, `get` of `mm_tiny_lfu` and `mm_wtiny_lfu` records the
access and lets the window promote. In `mm_wtiny_lfu` that only moves items. In
`mm_tiny_lfu` the promotions can evict, but not while the cache is within its limit, and
not an item that the access has moved to the head of the window.
-/

namespace Lru.Mm

variable {K V : Type} {env : Env K V} {s t : State K V} {i : ItemId} {sec : Nat}

open State Strategy List

/-- The hit on item `i` returns it, and the item is still found under its key, with its
value and one more handle, and linked in exactly one place. -/
structure HitKept [DecidableEq K] (env : Env K V) (s : State K V) (key : K) (i : ItemId)
    (result : Option ItemId × State K V) : Prop where
  returned : result.1 = some i
  found : result.2.find env key = some i
  value : (result.2.heap i).value = (s.heap i).value
  held : (result.2.heap i).accessRef = (s.heap i).accessRef + 1
  linkedOnce : result.2.liveItems.count i = 1

theorem count_liveItems (wf : s.WellFormed env) (hi : i ∈ s.table) : s.liveItems.count i = 1 := by
  have perm : s.table.Perm s.liveItems := wf.table_perm
  rw [← perm.count_eq]
  exact List.count_eq_one_of_mem (wf.table_nodup) hi

/-- A hit keeps its item if the access and the promotions do and the count is not
saturated. -/
theorem Policy.Laws.get_hitKept [DecidableEq K] {p : Policy K V} (laws : p.Laws env) {key : K}
    (wf : s.WellFormed env) (found : s.find env key = some i)
    (free : (s.heap i).accessRef < kAccessRefMax)
    (kept : i ∈ (p.afterGet (p.recordAccess s i .read sec).2 i).table) :
    HitKept env s key i (p.get env s key sec) := by
  obtain ⟨hi, hk⟩ := (find_eq_some_iff wf).mp found
  have accessed := laws.recordAccess .read sec wf hi
  have shrunk := accessed.toShrinks.trans (laws.afterGet i accessed.wf)
  set u := p.afterGet (p.recordAccess s i .read sec).2 i with u_def
  set t := (u.modifyStats fun x => { x with hits := x.hits + 1 }).collect
    (.hit key (u.heap i).value)
    with t_def
  have later : Quiet u t :=
    (Quiet.modifyStats (f := fun x => { x with hits := x.hits + 1 }) fun _ => rfl).trans
      (.collect rfl)
  have counted := shrunk.quiet later
  have resident : i ∈ t.table := later.table_eq ▸ kept
  have content := counted.content i resident
  have pinned : p.get env s key sec = (some i, t.incRef i) := by
    have linked : (t.heap i).linked = true := counted.wf.linked i resident
    have below : (t.heap i).accessRef < kAccessRefMax := (counted.accessRef resident).trans_lt free
    have free : (t.heap i).canPin = true := by simp [Body.canPin, linked, below]
    rw [Policy.get, found]
    exact if_pos free
  have written : (t.incRef i).WellFormed env := WellFormed.write (.count (· + 1)) counted.wf
  rw [pinned]
  exact
    { returned := rfl
      found := by
        refine (find_eq_some_iff written).mpr ⟨resident, ?_⟩
        have same : (t.heap i).key = key := (congrArg Prod.fst content).trans hk
        simpa [State.incRef, State.modify] using same
      value := by
        have same : (t.heap i).value = (s.heap i).value := congrArg (fun c => c.2.1) content
        simpa [State.incRef, State.modify] using same
      held := by
        simpa [State.incRef, State.modify] using counted.accessRef resident
      linkedOnce := count_liveItems written resident }

/-! ## `mm_tiny_lfu` -/

namespace MmTinyLfu

open Window

variable {expectedTiny mainCapacity : Nat}

/-- A promotion puts the item at the head of its list. -/
theorem promoteItem_placed (env : Env K V) (s : State K V) (i : ItemId) (curr : Nat) :
    ((promoteItem env s i curr).heap i).queueId = (s.heap i).queueId ∧
      ∃ rest, (promoteItem env s i curr).queue (s.heap i).queueId = i :: rest := by
  have retuned : Unseen s (s.reconfigureLocked env curr (s.tail kMainQueue)) := .reconfigureLocked
  have same := congrArg Body.queueId (retuned.quiet.body_eq i)
  rw [promoteItem]
  generalize s.reconfigureLocked env curr (s.tail kMainQueue) = u at same
  rw [← same]
  exact ⟨by simp [recordKey, modifyHook, State.modify, moveToHead, setQueue],
    (u.queue (u.heap i).queueId).erase i,
    by simp [recordKey, modifyHook, State.modify, moveToHead, setQueue]⟩

variable [DecidableEq K]

theorem promoteLoop_keeps_pinned (fuel : Nat) (wf : s.WellFormed env) (hi : i ∈ s.table)
    (pinned : (s.heap i).accessRef ≠ 0) :
    i ∈ (promoteLoop env expectedTiny mainCapacity fuel s).table := by
  let I : State K V → Prop := fun u => i ∈ u.table ∧ (u.heap i).accessRef ≠ 0
  have held : I (promoteLoop env expectedTiny mainCapacity fuel s) := by
    refine promoteLoop_keeps (fun {u j} wf hj h => ?_) (fun {u j} wf hj free h => ?_) wf
      ⟨hi, pinned⟩
    · have moved := moveToQueue_moves wf hj kNextQueue false
      exact ⟨moved.mem_iff.mpr h.1, (moved.accessRef h.1).trans_ne h.2⟩
    · have removed := (evictGeneric_removes wf hj free).2
      have other : i ≠ j := by
        rintro rfl
        exact h.2 free
      have still : i ∈ (u.evictGeneric env j).2.table := by
        rw [removed.table_eq]
        exact (List.mem_erase_of_ne other).mpr h.1
      exact ⟨still, (removed.accessRef still).trans_ne h.2⟩
  exact held.1

/-! ### Hits that the loop moves -/

/-- A search of the list takes the item if it gets there. -/
def takeable (s : State K V) (j : ItemId) : Bool := !(s.heap j).hasActiveHandle && !s.vetoed j

/-- The window and behind it main. A promotion only moves the boundary between them. -/
def line (s : State K V) : List ItemId := s.queue kTinyQueue ++ s.queue kMainQueue

/-- Main does not get full; or the item is in main, or gets there before main is full, and
behind it stand as many items to displace as the window then has to give away. -/
def Sheltered (expectedTiny mainCapacity : Nat) (s : State K V) (i : ItemId) : Prop :=
  ∃ front rest, line s = front ++ i :: rest ∧
    (mainCapacity = unlimited ∨ (line s).length ≤ expectedTiny + mainCapacity ∨
      (front.length < (s.queue kTinyQueue).length →
        (line s).length ≤ mainCapacity + front.length) ∧
      min front.length (s.queue kTinyQueue).length ≤ expectedTiny + rest.countP (takeable s))

omit [DecidableEq K] in
theorem mem_of_searchVictim_append {v : ItemId} {tries : Nat} {a b : List ItemId}
    (found : s.searchVictim tries (a ++ b) = some v) (some : 0 < a.countP (takeable s)) :
    v ∈ a := by
  induction a generalizing tries with
  | nil => cases some
  | cons j rest ih =>
    rw [cons_append, searchVictim] at found
    rw [countP_cons] at some
    split_ifs at found with held vetoed
    · exact .tail j (ih found (by simpa [takeable, held] using some))
    · exact .tail j (ih found (by simpa [takeable, vetoed] using some))
    · cases found
      exact .head rest

omit [DecidableEq K] in
theorem mem_of_line (wf : s.WellFormed env) (hi : i ∈ line s) : i ∈ s.table :=
  (mem_append.mp hi).elim (mem_of_queue wf) (mem_of_queue wf)

theorem Sheltered.step (wf : s.WellFormed env) (sheltered : Sheltered expectedTiny mainCapacity s i)
    (step : promoteStep env s expectedTiny mainCapacity = some t) :
    Sheltered expectedTiny mainCapacity t i := by
  obtain ⟨tooLong, candidate, isTail, round⟩ := promoteStep_cases step
  obtain ⟨first, shorter⟩ := round.spec wf isTail
  obtain ⟨window, tiny⟩ := getLast?_eq_some_iff.mp (tail_of_unpinnedTailOf isTail).1
  rw [tiny, dropLast_concat] at shorter
  have takes : ∀ {a l}, line t = a ++ i :: l → l.countP (takeable t) = l.countP (takeable s) := by
    intro a l eq
    refine countP_congr fun j hj => ?_
    have mem := mem_of_line first.wf (by rw [eq]; exact mem_append_right a (.tail i hj))
    rw [takeable, takeable, vetoed_congr first.settings_eq (first.content j mem),
      Body.hasActiveHandle, Body.hasActiveHandle, first.accessRef mem]
  obtain ⟨front, rest, eq, safe⟩ := sheltered
  have size := congrArg length tiny
  rw [length_append, length_singleton] at size
  obtain ⟨-, main⟩ | ⟨⟨finite, full⟩, v, found, main⟩ := round.main_cases wf isTail
  · have same : line t = line s := by
      rw [line, line, shorter, main, tiny, append_assoc, singleton_append]
    refine ⟨front, rest, same.trans eq, ?_⟩
    rw [same, takes (same.trans eq), shorter]
    refine safe.imp_right (.imp_right fun limits => ⟨fun inWindow => limits.1 ?_, ?_⟩) <;> omega
  · -- The item is in main, and behind it stands one to displace.
    have total : (line s).length = _ := length_append
    obtain endless | small | ⟨early, later⟩ := safe
    · exact absurd endless finite
    · omega
    have placed : (s.queue kTinyQueue).length ≤ front.length := by
      by_contra! inWindow
      have := early inWindow
      omega
    have begins : s.queue kTinyQueue <+: front ++ i :: rest := eq ▸ prefix_append ..
    obtain ⟨ahead, rfl⟩ := prefix_of_prefix_length_le begins (prefix_append ..) placed
    have before : s.queue kMainQueue = ahead ++ i :: rest := by
      rw [line, append_assoc] at eq
      exact append_cancel_left eq
    obtain displaced | kept := main
    · have free := searchVictim_spec found
      rw [searchQueue, before, reverse_append, reverse_cons, append_assoc] at found
      have behind := mem_reverse.mp (mem_of_searchVictim_append found
        (by rw [countP_reverse]; omega))
      have nodup : (s.queue kMainQueue).Nodup := wf.queue_nodup kMainQueue
      rw [before, nodup_append, nodup_cons] at nodup
      have notAhead : v ∉ ahead := fun h => nodup.2.2 v h v (.tail i behind) rfl
      have other : i ≠ v := fun same => nodup.2.1.1 (same ▸ behind)
      have after : line t = (window ++ candidate :: ahead) ++ i :: rest.erase v := by
        rw [line, shorter, displaced, before, erase_append_right _ notAhead,
          erase_cons_tail (by simpa using other), append_assoc, cons_append]
      refine ⟨_, _, after, .inr (.inr ⟨fun inWindow => ?_, ?_⟩)⟩
      · rw [shorter, length_append] at inWindow
        omega
      · have counted : takeable s v = true := by
          simp [takeable, Body.hasActiveHandle, free.2.1, free.2.2]
        rw [takes after, countP_erase, if_pos ⟨behind, counted⟩, shorter]
        omega
    · have after : line t = (window ++ ahead) ++ i :: rest := by
        rw [line, shorter, kept, before, append_assoc]
      refine ⟨_, rest, after, .inr (.inr ⟨fun inWindow => ?_, ?_⟩)⟩
      · rw [shorter, length_append] at inWindow
        omega
      · rw [takes after, shorter]
        omega

theorem promoteLoop_keeps_sheltered (fuel : Nat) (wf : s.WellFormed env)
    (sheltered : Sheltered expectedTiny mainCapacity s i) :
    i ∈ (promoteLoop env expectedTiny mainCapacity fuel s).table := by
  have member : ∀ {u : State K V}, u.WellFormed env → Sheltered expectedTiny mainCapacity u i →
      i ∈ u.table := fun wf ⟨_, _, eq, _⟩ => mem_of_line wf (by rw [eq]; simp)
  induction fuel generalizing s with
  | zero => exact member wf sheltered
  | succ fuel ih =>
    rw [promoteLoop]
    split
    · exact member wf sheltered
    case h_2 t step =>
      obtain ⟨-, candidate, isTail, round⟩ := promoteStep_cases step
      exact ih (round.spec wf isTail).1.wf (sheltered.step wf step)


/-- The access moves the item to the head of its list. -/
def Refreshes (s : State K V) (i : ItemId) (sec : Nat) : Bool :=
  s.updatesOn .read && (!(s.heap i).hook.isAccessed || !s.refreshedAt i sec)

/-- The promotions that follow a hit cannot evict its item: it is outside the window or
pinned, the access moves it to the head, it is within the window's share or has a pinned
item behind it, or they only move it, as they do in a cache within its limit. -/
def Undisturbed (env : Env K V) (s : State K V) (i : ItemId) (sec : Nat) : Prop :=
  (s.heap i).queueId ≠ kTinyQueue ∨ (s.heap i).accessRef ≠ 0 ∨ Refreshes s i sec = true ∨
    (∃ front behind, s.queue kTinyQueue = front ++ i :: behind ∧
      (front.length < expectedTinySize env s ∨ ∃ j ∈ behind, (s.heap j).accessRef ≠ 0)) ∨
    Sheltered (expectedTinySize env s)
      (if s.settings.maxSize ≠ unlimited ∧ expectedTinySize env s < s.settings.maxSize then
        s.settings.maxSize - expectedTinySize env s
      else unlimited) s i

/-- The access leaves everything as it is or puts the item at the head of its list. -/
theorem recordAccess_cases (env : Env K V) (sec : Nat) (linked : (s.heap i).linked = true) :
    (Refreshes s i sec = false ∧ ((policy env).recordAccess s i .read sec).2 = s) ∨
      ((((policy env).recordAccess s i .read sec).2.heap i).queueId = (s.heap i).queueId ∧
        ∃ rest, ((policy env).recordAccess s i .read sec).2.queue (s.heap i).queueId =
          i :: rest) := by
  simp only [policy, recordAccessAt, linked, Bool.not_true, Bool.false_eq_true, if_false]
  split
  case isTrue off => exact .inl ⟨by simp_all [Refreshes], rfl⟩
  split
  case isTrue fresh =>
    have same : ((s.modifyHook i fun h => { h with isAccessed := true }).heap i).queueId =
        (s.heap i).queueId := by simp [modifyHook, State.modify]
    have placed := promoteItem_placed env
      (s.modifyHook i fun h => { h with isAccessed := true }) i sec
    rw [same] at placed
    exact .inr placed
  case isFalse accessed =>
    split
    case isTrue refreshed => exact .inl ⟨by simp_all [Refreshes], rfl⟩
    case isFalse => exact .inr (promoteItem_placed env s i sec)

theorem afterGet_keeps (wf : s.WellFormed env) (hi : i ∈ s.table)
    (safe : Undisturbed env s i sec) :
    i ∈ ((policy env).afterGet ((policy env).recordAccess s i .read sec).2 i).table := by
  have moved := (laws env).recordAccess .read sec wf hi
  have cases := recordAccess_cases env sec (wf.linked i hi)
  generalize ((policy env).recordAccess s i .read sec).2 = u at moved cases
  simp only [policy]
  split
  case isFalse => exact moved.mem_iff.mpr hi
  case isTrue inWindow =>
    rw [maybePromoteFromTiny]
    obtain ⟨stale, rfl⟩ | ⟨place, rest, head⟩ := cases
    · obtain other | pinned | fresh | ⟨front, behind, window, safe⟩ | sheltered := safe
      · exact absurd inWindow other
      · exact promoteLoop_keeps_pinned _ wf hi pinned
      · rw [stale] at fresh
        cases fresh
      · exact promoteLoop_keeps_front wf window safe
      · exact promoteLoop_keeps_sheltered _ wf sheltered
    · -- The access has moved the item to the head.
      rw [place] at inWindow
      rw [inWindow] at head
      have window : u.queue kTinyQueue = [] ++ i :: rest := head
      exact promoteLoop_keeps_front moved.wf window (.inl one_le_expectedTinySize)

end MmTinyLfu

/-- A hit keeps its item in every reachable state in which the handle count is not
saturated and, for `mm_tiny_lfu`, the promotions cannot evict it. -/
theorem Strategy.get_keeps_hit [DecidableEq K] {strategy : Strategy} {key : K} {sec : Nat}
    (windowed : strategy = .mmTinyLfu ∨ strategy = .mmWTinyLfu)
    (reachable : strategy.Reachable env s) (found : s.find env key = some i)
    (free : (s.heap i).accessRef < kAccessRefMax)
    (safe : strategy = .mmTinyLfu → MmTinyLfu.Undisturbed env s i sec) :
    HitKept env s key i ((strategy.policy env).get env s key sec) := by
  have wf := reachable.wf
  have hi := ((find_eq_some_iff wf).mp found).1
  refine (strategy.laws env).get_hitKept wf found free ?_
  obtain rfl | rfl := windowed
  · exact MmTinyLfu.afterGet_keeps wf hi (safe rfl)
  · have moved := (MmWTinyLfu.laws env).recordAccess .read sec wf hi
    have still := moved.mem_iff.mpr hi
    simp only [policy, MmWTinyLfu.policy] at moved still ⊢
    split
    · exact (MmWTinyLfu.maybePromoteFromTiny_moves moved.wf).mem_iff.mpr still
    · exact still

namespace MmTinyLfu

/-- `mm_tiny_lfu` with room for two items after these calls. -/
def pair (ops : List (Op Nat Nat)) : State Nat Nat :=
  (Transition.runWhere (Strategy.mmTinyLfu.step Strategy.intEnv) (fun _ op => !op.isPopLru)
    (State.empty (fun _ => default) { maxSize := 2 } {} 0) ops).getD
      (State.empty (fun _ => default) {} {} 0)

/-- Within the limit a hit on the window keeps its item. -/
theorem pair_keeps_hit :
    HitKept intEnv (pair [.set 1 10 0, .set 2 20 0]) 2 1
      ((mmTinyLfu.policy intEnv).get intEnv
        (pair [.set 1 10 0, .set 2 20 0]) 2 1) := by
  refine get_keeps_hit (.inl rfl) (.getD (by decide +kernel)) (by decide +kernel)
    (by decide +kernel) fun _ => ?_
  exact .inr (.inr (.inr (.inr ⟨[], [0], by decide +kernel, .inr (.inl (by decide +kernel))⟩)))

/-- Handles on 1 and 2 let `set(3)` exceed the limit; once they are gone, a hit on 2
compares it with the more frequent 1 and evicts it. -/
def overfull : List (Op Nat Nat) :=
  [.set 1 10 0, .set 2 20 0, .promote 1 0, .get 1 60, .get 2 60, .set 3 30 60, .release 0,
    .release 1]

theorem overfull_loses_hit :
    mmTinyLfu.Reachable intEnv (pair overfull) ∧
      (pair overfull).find intEnv 2 = some 1 ∧
      ((policy intEnv).get intEnv (pair overfull) 2 61).1 = none ∧
      ((policy intEnv).get intEnv (pair overfull) 2 61).2.find
        intEnv 2 = none :=
  ⟨.getD (by decide +kernel), by decide +kernel, by decide +kernel, by decide +kernel⟩

end MmTinyLfu

end Lru.Mm
