import Lru.Mm.Window

/-!
# `mm_tiny_lfu`

A window and a main list. When main is full, the window tail has to win a
frequency comparison against the main victim; the loser is evicted.
-/

namespace Lru.Mm.MmTinyLfu

variable {K V : Type} {t s : State K V} {env : Env K V} {i : ItemId}

open State Window List

def kMainQueue : QueueId := kNextQueue

section Definitions

variable [DecidableEq K] (env : Env K V) (s : State K V)

/-- The item that `evict` takes: of the two victims the one with the lower
frequency. -/
def findVictim : Option ItemId :=
  match s.searchQueue kTinyQueue, s.searchQueue kMainQueue with
  | some tiny, some main => if newcomerWins env s tiny main then some main else some tiny
  | some tiny, none => some tiny
  | none, some main => some main
  | none, none => none

def evict : State K V :=
  let s := s.cleanupPendingDeletion
  match findVictim env s with
  | none => s
  | some victim => (s.evictGeneric env victim).2

def promoteItem (i : ItemId) (curr : Nat) : State K V :=
  let s := s.reconfigureLocked env curr (s.tail kMainQueue)
  let s := s.moveToHead i
  let s := s.modifyHook i fun h => { h with updateTime := curr }
  recordKey env s (s.heap i).key

/-- One round of `maybe_promote_from_tiny`: the next state, or nothing where the
loop ends. -/
def promoteStep (expectedTiny mainCapacity : Nat) : Option (State K V) :=
  if expectedTiny < (s.queue kTinyQueue).length then
    match s.unpinnedTailOf kTinyQueue with
    | none => none
    | some candidate =>
      if mainCapacity ≠ unlimited ∧ mainCapacity ≤ (s.queue kMainQueue).length then
        match s.searchQueue kMainQueue with
        | none => some (s.moveToQueue candidate kMainQueue false)
        | some mainTail =>
          if newcomerWins env s candidate mainTail then
            match s.evictGeneric env mainTail with
            | (false, _) => none
            | (true, s) => some (s.moveToQueue candidate kMainQueue false)
          else
            match s.evictGeneric env candidate with
            | (false, _) => none
            | (true, s) => some s
      else some (s.moveToQueue candidate kMainQueue false)
  else none

/-- The loop of `maybe_promote_from_tiny`. Each round takes one item out of the
window. -/
def promoteLoop (expectedTiny mainCapacity : Nat) : Nat → State K V → State K V
  | 0, s => s
  | fuel + 1, s =>
    match promoteStep env s expectedTiny mainCapacity with
    | none => s
    | some t => promoteLoop expectedTiny mainCapacity fuel t

def maybePromoteFromTiny : State K V :=
  let expectedTiny := expectedTinySize env s
  let mainCapacity :=
    if s.settings.maxSize ≠ unlimited ∧ expectedTiny < s.settings.maxSize then
      s.settings.maxSize - expectedTiny
    else unlimited
  promoteLoop env expectedTiny mainCapacity (s.queue kTinyQueue).length s

/-- The part of `insert_new` that links the new item. -/
def link (key : K) (value : V) (expiryNs sec mem : Nat) : State K V :=
  maybePromoteFromTiny env (enter env s key value expiryNs sec mem)

def insertNew (key : K) (value : V) (expiryNs sec : Nat) : State K V :=
  if s.settings.maxSize = 0 then s
  else
    let mem := s.settings.calcItemMemory env key value
    link env ((prepare env s key).makeRoom (evict env) size mem) key value expiryNs sec mem

end Definitions

def policy [DecidableEq K] (env : Env K V) : Policy K V where
  size := size
  liveCount := size
  victim := findVictim env
  evict := evict env
  noCapacity s := s.settings.maxSize == 0
  prepare := prepare env
  insertNew := insertNew env
  recordAccess s := recordAccessAt s (promoteItem env)
  afterGet s i := if (s.heap i).queueId = kTinyQueue then maybePromoteFromTiny env s else s
  removeErased := removeFromQueue
  removeForced := removeFromQueue
  removeFlushed := unlink
  keepFlushed s _ := s
  afterFlush s := { s with sketch := s.sketch.reset }
  popTail := popTail
  pendingDeletionAtCap _ := false
  beforeResize := resizeSketch
  afterResize s := s
  reconfigure s sec := maybePromoteFromTiny env (s.restartRefresh sec)
  cleanupOnSet := true
  cleanupOnReplace := true
  cleanupOnPop := false
  cleanupOnSweep := true
  pushesZeroExpiry := true
  collectsUpdateFirst := false
  rechecksHandle := true

/-! ## Laws -/

section Search

theorem findVictim_congr (heap : t.heap = s.heap) (settings : t.settings = s.settings)
    (queue : t.queue = s.queue) (sketch : t.sketch = s.sketch) :
    findVictim env t = findVictim env s := by
  have search : ∀ q, t.searchQueue q = s.searchQueue q := fun q =>
    searchQueue_congr heap settings (congrFun queue q)
  unfold findVictim newcomerWins
  rw [search, search, heap, settings, sketch]

theorem findVictim_cleanup : findVictim env s.cleanupPendingDeletion = findVictim env s :=
  cleanup_frame s (findVictim env) fun _ _ _ => findVictim_congr rfl rfl rfl rfl

theorem findVictim_cases {v : ItemId} (found : findVictim env s = some v) :
    s.searchQueue kTinyQueue = some v ∨ s.searchQueue kMainQueue = some v := by
  unfold findVictim at found
  split at found
  case h_1 tiny main inTiny inMain =>
    split at found
    · cases found
      exact .inr inMain
    · cases found
      exact .inl inTiny
  case h_2 inTiny _ =>
    cases found
    exact .inl inTiny
  case h_3 inMain =>
    cases found
    exact .inr inMain
  case h_4 => cases found

theorem findVictim_spec {v : ItemId} (wf : s.WellFormed env) (found : findVictim env s = some v) :
    v ∈ s.table ∧ (s.heap v).accessRef = 0 :=
  (findVictim_cases found).elim (searchQueue_spec wf) (searchQueue_spec wf)

theorem findVictim_eq_none (none : findVictim env s = none) :
    s.searchQueue kTinyQueue = Option.none ∧ s.searchQueue kMainQueue = Option.none := by
  unfold findVictim at none
  split at none
  case h_1 => split at none <;> cases none
  case h_2 => cases none
  case h_3 => cases none
  case h_4 inTiny inMain => exact ⟨inTiny, inMain⟩

theorem promoteItem_moves (curr : Nat) (wf : s.WellFormed env) (hi : i ∈ s.table) :
    Moves env s (promoteItem env s i curr) := by
  have retuned : Unseen s (s.reconfigureLocked env curr (s.tail kMainQueue)) := .reconfigureLocked
  have moved := (Moves.of_unseen retuned wf).trans
    (moveToHead_moves (retuned.quiet.wf wf) (retuned.quiet.table_eq ▸ hi))
  exact (moved.unseen (.modifyHook i fun h => { h with updateTime := curr })).unseen
    recordKey_unseen

end Search

section Lawful

variable [DecidableEq K]

theorem evict_of_none (found : findVictim env s = none) :
    evict env s = s.cleanupPendingDeletion := by
  rw [evict, findVictim_cleanup, found]

theorem eviction : Eviction env size (findVictim env) (evict env) where
  size_eq _ := rfl
  unpinned wf found := (findVictim_spec wf found).2
  removes {s v} wf found := by
    have clean := Rearranges.cleanup wf
    rw [← findVictim_cleanup] at found
    obtain ⟨hv, unpinned⟩ := findVictim_spec clean.wf found
    rw [evict, found]
    exact .after clean (evictGeneric_removes clean.wf hv unpinned).2
  rearranges {s} wf found := by
    rw [evict_of_none found]
    exact .cleanup wf

/-- What one round of the promotion loop can do. It evicts only where main is full. -/
inductive Promotes (env : Env K V) (s : State K V) (full : Prop) (candidate : ItemId) :
    State K V → Prop
  | promoted : Promotes env s full candidate (s.moveToQueue candidate kMainQueue false)
  | displaced (reached : full) (mainTail : ItemId)
      (found : s.searchQueue kMainQueue = some mainTail) : Promotes env s full candidate
        ((s.evictGeneric env mainTail).2.moveToQueue candidate kMainQueue false)
  | evicted (reached : full) (mainTail : ItemId)
      (found : s.searchQueue kMainQueue = some mainTail) :
      Promotes env s full candidate (s.evictGeneric env candidate).2

theorem promoteStep_cases {expectedTiny mainCapacity : Nat}
    (step : promoteStep env s expectedTiny mainCapacity = some t) :
    expectedTiny < (s.queue kTinyQueue).length ∧
      ∃ candidate, s.unpinnedTailOf kTinyQueue = some candidate ∧ Promotes env s
        (mainCapacity ≠ unlimited ∧ mainCapacity ≤ (s.queue kMainQueue).length) candidate t := by
  unfold promoteStep at step
  split at step
  case isFalse => cases step
  case isTrue tooLong =>
    refine ⟨tooLong, ?_⟩
    split at step
    case h_1 => cases step
    case h_2 candidate isTail =>
      refine ⟨candidate, isTail, ?_⟩
      split at step
      case isFalse =>
        cases step
        exact .promoted
      case isTrue full =>
        split at step
        case h_1 =>
          cases step
          exact .promoted
        case h_2 mainTail found =>
          split at step
          case isTrue =>
            split at step
            case h_1 => cases step
            case h_2 u evicted =>
              cases step
              have state : u = (s.evictGeneric env mainTail).2 := by rw [evicted]
              exact state ▸ .displaced full mainTail found
          case isFalse =>
            split at step
            case h_1 => cases step
            case h_2 u evicted =>
              cases step
              have state : t = (s.evictGeneric env candidate).2 := by rw [evicted]
              exact state ▸ .evicted full mainTail found

section Promotion

variable {full : Prop} {candidate : ItemId} (wf : s.WellFormed env)
  (isTail : s.unpinnedTailOf kTinyQueue = some candidate)

include wf isTail

/-- A round keeps the content of what it does not evict, and the window loses its
tail. -/
theorem Promotes.spec (round : Promotes env s full candidate t) :
    Shrinks env s t ∧ t.queue kTinyQueue = (s.queue kTinyQueue).dropLast := by
  obtain ⟨mem, unpinned⟩ := unpinnedTailOf_spec wf isTail
  have inWindow := mem_of_getLast? (tail_of_unpinnedTailOf isTail).1
  have other : kTinyQueue ≠ kMainQueue := by decide
  have nodup : (s.queue kTinyQueue).Nodup := wf.queue_nodup kTinyQueue
  rw [← erase_eq_dropLast nodup (tail_of_unpinnedTailOf isTail).1]
  cases round with
  | promoted =>
    exact ⟨(moveToQueue_moves wf mem kMainQueue false).toShrinks, moveToQueue_queue_other wf other⟩
  | displaced _ mainTail found =>
    obtain ⟨memMain, free⟩ := searchQueue_spec wf found
    have removed := (evictGeneric_removes wf memMain free).2
    have inMain := mem_reverse.mp (searchVictim_spec found).1
    have notTiny := not_mem_other_queue wf inMain other.symm
    have window : (s.evictGeneric env mainTail).2.queue kTinyQueue = s.queue kTinyQueue := by
      rw [evictGeneric_queue wf memMain free, erase_of_not_mem notTiny]
    have still := mem_of_queue removed.wf (window ▸ inWindow)
    refine ⟨removed.toShrinks.trans
      (moveToQueue_moves removed.wf still kMainQueue false).toShrinks, ?_⟩
    rw [moveToQueue_queue_other removed.wf other, window]
  | evicted =>
    exact ⟨(evictGeneric_removes wf mem unpinned).2.toShrinks,
      evictGeneric_queue wf mem unpinned kTinyQueue⟩

/-- The candidate moves to the head of main. If main is full and has a victim, that one or
the candidate goes. -/
theorem Promotes.main_cases (round : Promotes env s full candidate t) :
    Moves env s t ∧ t.queue kMainQueue = candidate :: s.queue kMainQueue ∨
      full ∧ ∃ v, s.searchQueue kMainQueue = some v ∧
        (t.queue kMainQueue = candidate :: (s.queue kMainQueue).erase v ∨
          t.queue kMainQueue = s.queue kMainQueue) := by
  obtain ⟨mem, unpinned⟩ := unpinnedTailOf_spec wf isTail
  have inWindow := mem_of_getLast? (tail_of_unpinnedTailOf isTail).1
  have notMain : candidate ∉ s.queue kMainQueue := not_mem_other_queue wf inWindow (by decide)
  cases round with
  | promoted =>
    refine .inl ⟨moveToQueue_moves wf mem kMainQueue false, ?_⟩
    rw [moveToQueue_queue_head wf, erase_of_not_mem notMain]
  | displaced reached v found =>
    obtain ⟨hv, free⟩ := searchQueue_spec wf found
    refine .inr ⟨reached, v, found, .inl ?_⟩
    rw [moveToQueue_queue_head (evictGeneric_removes wf hv free).2.wf,
      evictGeneric_queue wf hv free, erase_of_not_mem fun h => notMain (mem_of_mem_erase h)]
  | evicted reached v found =>
    refine .inr ⟨reached, v, found, .inr ?_⟩
    rw [evictGeneric_queue wf mem unpinned, erase_of_not_mem notMain]

end Promotion

section Loop

variable {expectedTiny mainCapacity : Nat}

theorem promoteLoop_shrinks (fuel : Nat) (wf : s.WellFormed env) :
    Shrinks env s (promoteLoop env expectedTiny mainCapacity fuel s) := by
  induction fuel generalizing s with
  | zero => exact .refl wf
  | succ fuel ih =>
    rw [promoteLoop]
    split
    · exact .refl wf
    case h_2 t step =>
      obtain ⟨-, candidate, isTail, round⟩ := promoteStep_cases step
      have first := (round.spec wf isTail).1
      exact first.trans (ih first.wf)

/-- An item of the window stays if it is within the share, or behind it, toward the tail,
stands a pinned one. -/
theorem promoteLoop_keeps_front {fuel : Nat} {front behind : List ItemId}
    (wf : s.WellFormed env)
    (window : s.queue kTinyQueue = front ++ i :: behind)
    (safe : front.length < expectedTiny ∨ ∃ j ∈ behind, (s.heap j).accessRef ≠ 0) :
    i ∈ (promoteLoop env expectedTiny mainCapacity fuel s).table := by
  have member : ∀ {u : State K V} {l}, u.WellFormed env →
      u.queue kTinyQueue = front ++ i :: l → i ∈ u.table :=
    fun wf window => mem_of_queue wf (by rw [window]; simp)
  induction fuel generalizing s behind with
  | zero => exact member wf window
  | succ fuel ih =>
    rw [promoteLoop]
    split
    · exact member wf window
    case h_2 t step =>
      obtain ⟨tooLong, candidate, isTail, round⟩ := promoteStep_cases step
      obtain ⟨first, shorter⟩ := round.spec wf isTail
      have free := (unpinnedTailOf_spec wf isTail).2
      have last := (tail_of_unpinnedTailOf isTail).1
      rw [window] at tooLong last shorter
      -- The candidate stands behind the item.
      have more : behind ≠ [] := by
        rintro rfl
        obtain short | ⟨j, hj, -⟩ := safe
        · rw [length_append, length_singleton] at tooLong
          omega
        · exact absurd hj not_mem_nil
      obtain ⟨others, tail, rfl⟩ := behind.eq_nil_or_concat'.resolve_left more
      rw [← cons_append, ← append_assoc, getLast?_concat] at last
      cases last
      rw [← cons_append, ← append_assoc, dropLast_concat] at shorter
      refine ih first.wf shorter (safe.imp_right ?_)
      rintro ⟨j, hj, pinned⟩
      have here : j ∈ others := by
        obtain here | rfl := mem_append.mp hj |>.imp_right mem_singleton.mp
        · exact here
        · exact absurd free pinned
      have still : j ∈ t.table := mem_of_queue first.wf (by rw [shorter]; simp [here])
      exact ⟨j, here, (first.accessRef still).trans_ne pinned⟩

/-- When neither main nor the window behind its head has a victim, the loop moves
items without evicting any: the searched items stay the same in the same order. -/
theorem promoteLoop_of_stuck (fuel : Nat) {rest : List ItemId}
    (wf : s.WellFormed env) (positive : 1 ≤ expectedTiny)
    (window : s.queue kTinyQueue = i :: rest)
    (none : s.searchVictim 0 ((s.queue kMainQueue).reverse ++ rest.reverse) = none) :
    (promoteLoop env expectedTiny mainCapacity fuel s).table = s.table := by
  induction fuel generalizing s rest with
  | zero => rfl
  | succ fuel ih =>
    rw [promoteLoop]
    split
    · rfl
    case h_2 t step =>
      obtain ⟨tooLong, candidate, isTail, round⟩ := promoteStep_cases step
      have shorter := (round.spec wf isTail).2
      obtain ⟨moved, main⟩ := (round.main_cases wf isTail).resolve_right
        fun ⟨_, v, found, _⟩ => by cases (searchVictim_eq_none_of_append none).symm.trans found
      have last := (tail_of_unpinnedTailOf isTail).1
      rw [window, length_cons] at tooLong
      have more : rest ≠ [] := by
        rintro rfl
        rw [length_nil] at tooLong
        omega
      rw [window, dropLast_cons_of_ne_nil more] at shorter
      rw [window, getLast?_cons_of_ne_nil more] at last
      obtain ⟨front, rfl⟩ := getLast?_eq_some_iff.mp last
      rw [dropLast_concat] at shorter
      have same : (t.queue kMainQueue).reverse ++ front.reverse =
          (s.queue kMainQueue).reverse ++ (front ++ [candidate]).reverse := by
        rw [main]
        simp
      refine (ih moved.wf shorter ?_).trans moved.table_eq
      rw [same, searchVictim_congr moved.settings_eq fun j hj => ?_, none]
      refine moved.content j (moved.mem_iff.mpr ?_)
      obtain inMain | inWindow := mem_append.mp hj
      · exact mem_of_queue wf (mem_reverse.mp inMain)
      · exact mem_of_queue wf (window ▸ mem_cons_of_mem i (mem_reverse.mp inWindow))

end Loop

theorem maybePromoteFromTiny_shrinks (wf : s.WellFormed env) :
    Shrinks env s (maybePromoteFromTiny env s) :=
  promoteLoop_shrinks _ wf

section Linking

variable {key : K} (value : V) (expiryNs sec mem : Nat) (wf : s.WellFormed env)
  (absent : s.find env key = none)

include wf absent

theorem enter_window : (enter env s key value expiryNs sec mem).queue kTinyQueue =
    s.next :: s.queue kTinyQueue := by
  rw [enter_queue value expiryNs sec mem wf absent, Function.update_self]

/-- The new item enters at the head of the window, so it survives the promotions
that follow. -/
theorem link_inserts :
    Inserts env s (link env s key value expiryNs sec mem) key value expiryNs := by
  have entered := enter_inserts value expiryNs sec mem wf absent
  refine entered.shrinks (maybePromoteFromTiny_shrinks entered.wf) ?_
  have window : (enter env s key value expiryNs sec mem).queue kTinyQueue =
      [] ++ s.next :: s.queue kTinyQueue := enter_window value expiryNs sec mem wf absent
  exact promoteLoop_keeps_front entered.wf window (.inl one_le_expectedTinySize)

theorem link_stuck (none : findVictim env s = none) :
    (link env s key value expiryNs sec mem).table.length = s.table.length + 1 := by
  obtain ⟨inTiny, inMain⟩ := findVictim_eq_none none
  have entered := enter_inserts value expiryNs sec mem wf absent
  have table := enter_table value expiryNs sec mem wf absent
  have main : (enter env s key value expiryNs sec mem).queue kMainQueue = s.queue kMainQueue := by
    rw [enter_queue value expiryNs sec mem wf absent]
    exact Function.update_of_ne (by decide) _ _
  have searched : (enter env s key value expiryNs sec mem).searchVictim 0
      ((s.queue kMainQueue).reverse ++ (s.queue kTinyQueue).reverse) = Option.none := by
    rw [searchVictim_congr entered.settings_eq fun i hi => ?_]
    · exact searchVictim_append_eq_none inMain inTiny
    · have old : i ∈ s.table := by
        obtain inMain | inTiny := mem_append.mp hi
        · exact mem_of_queue wf (mem_reverse.mp inMain)
        · exact mem_of_queue wf (mem_reverse.mp inTiny)
      refine entered.content_old i (table ▸ mem_cons_of_mem _ old) ?_
      rintro rfl
      exact wf.next_not_mem old
  have same : (link env s key value expiryNs sec mem).table = _ :=
    promoteLoop_of_stuck _ entered.wf one_le_expectedTinySize
      (enter_window value expiryNs sec mem wf absent) (main ▸ searched)
  rw [same, table, length_cons]

end Linking

theorem stuck (found : findVictim env s = none) : findVictim env (evict env s) = none := by
  rw [evict_of_none found, findVictim_cleanup, found]

theorem insertParts :
    (policy env).InsertParts env (fun s => s.makeRoom (evict env) size) fun _ => link env where
  eviction := eviction
  insertNew_eq s key value expiryNs sec := by
    by_cases zero : s.settings.maxSize = 0 <;> simp [policy, insertNew]
  prepare _ wf := (drainTiny_moves _ _ wf).toRearranges
  room_shrinks := eviction.makeRoom_shrinks
  room_lt := eviction.makeRoom_lt
  room_stuck := eviction.makeRoom_stuck fun _ => stuck
  link_inserts _ := link_inserts
  link_stuck _ := link_stuck

theorem laws (env : Env K V) : (policy env).Laws env where
  eviction := eviction
  noCapacity_eq same := by simp [policy, same]
  insertNew := insertParts.insertsAlways.admits
  recordAccess := recordAccessAt_moves promoteItem_moves
  afterGet {s} i wf := by
    unfold policy
    simp only
    split
    · exact maybePromoteFromTiny_shrinks wf
    · exact .refl wf
  removeErased {s i} _ := removeFromQueue_unlinks
  removeForced {s i} _ := removeFromQueue_unlinks
  removeFlushed {s i} _ := .unlink
  popTail := popTail_spec
  popTail_cleanup := Window.popTail_cleanup
  reconfigure sec wf := by
    have restarted := (Unseen.restartRefresh sec).quiet.shrinks wf
    exact restarted.trans (maybePromoteFromTiny_shrinks restarted.wf)

end Lawful

end Lru.Mm.MmTinyLfu
