import Lru.Mm.Laws

/-!
# `mm_lru`

One list ordered by recency. A cursor remembers where the last eviction search
stopped; with an insertion-point specification new items enter in the middle of
the list, in front of a tail segment whose items carry a flag.
-/

namespace Lru.Mm.MmLru

variable {K V : Type} {s : State K V} {env : Env K V} {n curr : Nat} {value : V}

open State

/-! ## The tail segment -/

section TailSegment

variable (s : State K V)

/-- The neighbours of an item toward the head, the nearest first. -/
def before (i : ItemId) : List ItemId := ((s.queue 0).takeWhile (· ≠ i)).reverse

/-- The neighbours of an item toward the tail, the nearest first. -/
def after (i : ItemId) : List ItemId := ((s.queue 0).dropWhile (· ≠ i)).tail

def setTail (i : ItemId) : State K V :=
  { s.modifyHook i fun h => { h with isTail := true } with
    tailSize := SizeT.fetchAdd s.tailSize 1 }

def clearTail (i : ItemId) : State K V :=
  { s.modifyHook i fun h => { h with isTail := false } with
    tailSize := SizeT.fetchSub s.tailSize 1 }

/-- Move the insertion point toward the head while the segment is too short. -/
def growTail (expected : Nat) : State K V → ItemId → List ItemId → State K V × ItemId
  | s, curr, [] => (s, curr)
  | s, curr, prev :: rest =>
    if s.tailSize < expected then growTail expected (setTail s prev) prev rest else (s, curr)

/-- Move the insertion point toward the tail while the segment is too long. -/
def shrinkTail (expected : Nat) : State K V → ItemId → List ItemId → State K V × ItemId
  | s, curr, [] => (s, curr)
  | s, curr, next :: rest =>
    if expected < s.tailSize then shrinkTail expected (clearTail s curr) next rest else (s, curr)

/-- The insertion point, initialised to the list tail when there is none. -/
def initInsertionPoint : State K V :=
  match s.insertionPoint with
  | some _ => s
  | none =>
    match s.tail 0 with
    | none => { s with tailSize := 0 }
    | some t => setTail { s with insertionPoint := some t, tailSize := 0 } t

/-- Grow or shrink the tail segment to its share of the list. -/
def resizeTail (point : ItemId) : State K V :=
  let expected := (s.queue 0).length >>> s.settings.config.lruInsertionPointSpec
  let grown := growTail expected s point (before s point)
  let shrunk := shrinkTail expected grown.1 grown.2 (after grown.1 grown.2)
  { shrunk.1 with insertionPoint := some shrunk.2 }

/-- Remember the position of the insertion point. -/
def notePosition : State K V :=
  { s with insertionPointPos := SizeT.fetchSub (s.queue 0).length s.tailSize }

def updateLruInsertionPoint : State K V :=
  if s.settings.config.lruInsertionPointSpec = 0 then { s with insertionPointPos := unlimited }
  else
    let s := initInsertionPoint s
    match s.insertionPoint with
    | none => { s with insertionPointPos := unlimited }
    | some point =>
      notePosition (if (s.queue 0).length ≤ 1 then s else resizeTail s point)

def ensureNotInsertionPoint (i : ItemId) : State K V :=
  if s.insertionPoint = some i then
    match (before s i).head? with
    | some prev => setTail { s with insertionPoint := some prev } prev
    | none => { s with insertionPoint := none }
  else s

def leaveTail (i : ItemId) : State K V := if (s.heap i).hook.isTail then clearTail s i else s

end TailSegment

/-! ## Accesses -/

section Accesses

variable (env : Env K V) (s : State K V)

/-- `reconfigure_locked`; unlike the other strategies it has no second guard. -/
def reconfigureLocked (curr : Nat) : State K V :=
  if curr < s.nextReconfigureTime then s else s.retune env curr (s.tail 0)

def promote (i : ItemId) (curr : Nat) : State K V :=
  let s := reconfigureLocked env s curr
  let s := ensureNotInsertionPoint s i
  let s := s.moveToHead i
  let s := s.modifyHook i fun h => { h with updateTime := curr }
  if (s.heap i).hook.isTail then updateLruInsertionPoint (clearTail s i) else s

def recordAccessAt (i : ItemId) (mode : AccessMode) (curr : Nat) : Bool × State K V :=
  if !s.updatesOn mode then (false, s)
  else if !(s.heap i).linked then (false, s)
  else if !(s.heap i).hook.isAccessed then
    (true, promote env (s.modifyHook i fun h => { h with isAccessed := true }) i curr)
  else if s.refreshedAt i curr then (false, s)
  else (true, promote env s i curr)

def removeFromList (i : ItemId) : State K V :=
  if !(s.heap i).linked then s
  else
    let s := ensureNotInsertionPoint s i
    let s := leaveTail s i
    let s := s.modifyHook i fun h => { h with isAccessed := false }
    let s := (s.unlink i).unmark i
    updateLruInsertionPoint s

/-- `remove_from_list` and the reset of the cursor. -/
def removeAndReset (i : ItemId) : State K V := { removeFromList s i with unpinnedTail := none }

end Accesses

/-! ## Eviction and insertion -/

section Eviction

variable [DecidableEq K] (env : Env K V) (s : State K V)

/-- `list_size()`. The other lists of the record stay empty. -/
def size : Nat := s.linkedCount

/-- The loop of `find_eviction_victim`: the victim and the new cursor. -/
def scan : Nat → Bool → Option ItemId → List ItemId → Option ItemId × Option ItemId
  | _, sawPinned, firstUnpinned, [] =>
    (none, if sawPinned then s.tail 0 else firstUnpinned)
  | tries, sawPinned, firstUnpinned, i :: rest =>
    if (s.heap i).hasActiveHandle then scan tries true firstUnpinned rest
    else
      let firstUnpinned := firstUnpinned.or (some i)
      if s.vetoed i then
        if s.settings.config.evictionSearchTries ≤ tries + 1 then
          (none, if sawPinned then s.tail 0 else firstUnpinned)
        else scan (tries + 1) sawPinned firstUnpinned rest
      else (some i, if sawPinned then s.tail 0 else rest.head?)

/-- Where the search starts: at the cursor unless that item is pinned. -/
def searchStart : Option ItemId :=
  match s.unpinnedTail with
  | some i => if (s.heap i).hasActiveHandle then s.tail 0 else some i
  | none => s.tail 0

def searchPath : List ItemId :=
  match searchStart s with
  | none => []
  | some i => if i ∈ s.queue 0 then i :: before s i else []

def findEvictionVictim : Option ItemId × State K V :=
  match searchStart s with
  | none => (none, s)
  | some _ =>
    let (victim, cursor) := scan s 0 false none (searchPath s)
    (victim, { s with unpinnedTail := cursor })

def evictLru : State K V :=
  let s := s.cleanupPendingDeletion
  match findEvictionVictim s with
  | (none, s) => s.storeSize (size s)
  | (some victim, s) =>
    if (s.heap victim).canMarkForEviction then
      let s := s.evictVictim env removeFromList victim
      let s := { s with unpinnedTail := s.unpinnedTail.or (s.tail 0) }
      s.storeSize (size s)
    else s.storeSize (size s)

def place (i : ItemId) (l : List ItemId) : List ItemId :=
  match s.insertionPoint with
  | none => i :: l
  | some point =>
    if s.settings.config.lruInsertionPointSpec = 0 then i :: l
    else l.takeWhile (· ≠ point) ++ i :: l.dropWhile (· ≠ point)

/-- The second half of `insert_new`, once there is room. -/
def link (key : K) (value : V) (expiryNs sec mem : Nat) : State K V :=
  let s := s.linkNew env key value 0 expiryNs { updateTime := sec } (place s)
  let s := if expiryNs = 0 then s else s.ttlIndexPush (size s) key expiryNs
  let s := s.noteInsertion (size s) mem key value
  updateLruInsertionPoint s

/-- A limit of zero leaves no room for new keys. -/
def noCapacity : Bool := s.settings.maxSize == 0 || s.settings.maxMemory == 0

/-- The first steps of `insert_new`: one eviction at capacity and the loop that
shrinks to the limits. The flag tells whether both limits are met. -/
def findCapacity : State K V × Bool :=
  let s := s.cleanupPendingDeletion
  let s := s.evictAtCapacity (evictLru env) size
  if s.isAtCapacity (size s) then (s, false) else s.shrinkLoop (evictLru env) size

/-- The loop of `insert_new` that makes room for the bytes of the new item. -/
def findMemory (key : K) (value : V) : State K V × Bool :=
  s.fitLoop (evictLru env) size size (s.settings.calcItemMemory env key value)

/-- `insert_new`. A failure of the first steps is counted, one of the memory loop
is not. -/
def insertNew (key : K) (value : V) (expiryNs sec : Nat) : State K V :=
  if noCapacity s then s
  else
    match findCapacity env s with
    | (s, false) => s.noteEvictionFailed
    | (s, true) =>
      match findMemory env s key value with
      | (s, false) => s
      | (s, true) =>
        link env s key value expiryNs sec (s.settings.calcItemMemory env key value)

/-- The insertion point after a change of its specification. -/
def respecify : State K V :=
  if s.settings.config.lruInsertionPointSpec = 0 then
    match s.insertionPoint with
    | none => s
    | some point =>
      let cleared := ((point :: after s point).take s.tailSize).foldl
        (fun s i => s.modifyHook i fun h => { h with isTail := false }) s
      { cleared with insertionPoint := none, tailSize := 0 }
  else if (s.queue 0).isEmpty then s
  else updateLruInsertionPoint s

/-- `set_config` with the new configuration in place. -/
def reconfigure (sec : Nat) : State K V := (respecify s).restartRefresh sec

/-- `pop_lru` takes the list tail unless it is pinned. -/
def popTail : Option ItemId := s.unpinnedTailOf 0

def pendingDeletionAtCap : Bool :=
  0 < s.settings.config.maxPendingDeletion &&
    s.settings.config.maxPendingDeletion ≤ s.pendingDeletion.length

end Eviction

def policy [DecidableEq K] (env : Env K V) : Policy K V where
  size := size
  liveCount := size
  victim s := (findEvictionVictim s).1
  evict := evictLru env
  noCapacity := noCapacity
  prepare s _ := s.cleanupPendingDeletion
  insertNew := insertNew env
  recordAccess := recordAccessAt env
  afterGet s _ := s
  removeErased := removeAndReset
  removeForced := removeAndReset
  removeFlushed := removeFromList
  keepFlushed s i :=
    if (s.heap i).hook.isTail then s.modifyHook i fun h => { h with isTail := false } else s
  afterFlush s :=
    { s with
      insertionPoint := none, unpinnedTail := none, tailSize := 0, insertionPointPos := unlimited }
  popTail := popTail
  pendingDeletionAtCap := pendingDeletionAtCap
  beforeResize s _ := s
  afterResize s := s
  reconfigure := reconfigure
  cleanupOnSet := false
  cleanupOnReplace := true
  cleanupOnPop := true
  cleanupOnSweep := true
  pushesZeroExpiry := false
  collectsUpdateFirst := false
  rechecksHandle := true

/-! ## Laws -/

section Bookkeeping

variable {i : ItemId}

/-- Only hooks and private fields differ, and neither the cursor nor the expiry index. -/
structure Marks (s t : State K V) : Prop extends Unseen s t where
  cursor_eq : t.unpinnedTail = s.unpinnedTail
  index_eq : t.ttlIndex = s.ttlIndex
  hashTable_eq : t.hashTable = s.hashTable

theorem Marks.refl (s : State K V) : Marks s s := ⟨.refl, rfl, rfl, rfl⟩

theorem Marks.trans {t u : State K V} (first : Marks s t) (second : Marks t u) : Marks s u :=
  ⟨first.toUnseen.trans second.toUnseen, second.cursor_eq.trans first.cursor_eq,
    second.index_eq.trans first.index_eq, second.hashTable_eq.trans first.hashTable_eq⟩

theorem Marks.modifyHook (i : ItemId) (f : Hook → Hook) : Marks s (s.modifyHook i f) :=
  ⟨.modifyHook i f, rfl, rfl, rfl⟩

theorem tailSize_marks : Marks s { s with tailSize := n } := ⟨⟨rfl, rfl, rfl, rfl⟩, rfl, rfl, rfl⟩

theorem setTail_marks (s : State K V) (i : ItemId) : Marks s (setTail s i) :=
  (Marks.modifyHook i fun h => { h with isTail := true }).trans tailSize_marks

theorem clearTail_marks (s : State K V) (i : ItemId) : Marks s (clearTail s i) :=
  (Marks.modifyHook i fun h => { h with isTail := false }).trans tailSize_marks

theorem growTail_marks (expected : Nat) (s : State K V) (curr : ItemId) (l : List ItemId) :
    Marks s (growTail expected s curr l).1 := by
  induction l generalizing s curr with
  | nil => exact .refl s
  | cons prev rest ih =>
    rw [growTail]
    split
    · exact (setTail_marks s prev).trans (ih _ prev)
    · exact .refl s

theorem shrinkTail_marks (expected : Nat) (s : State K V) (curr : ItemId) (l : List ItemId) :
    Marks s (shrinkTail expected s curr l).1 := by
  induction l generalizing s curr with
  | nil => exact .refl s
  | cons next rest ih =>
    rw [shrinkTail]
    split
    · exact (clearTail_marks s curr).trans (ih _ next)
    · exact .refl s

theorem initInsertionPoint_marks (s : State K V) : Marks s (initInsertionPoint s) := by
  unfold initInsertionPoint
  split
  · exact .refl s
  · split
    · exact ⟨⟨rfl, rfl, rfl, rfl⟩, rfl, rfl, rfl⟩
    case h_2 t _ =>
      have pointed : Marks s { s with insertionPoint := some t, tailSize := 0 } :=
        ⟨⟨rfl, rfl, rfl, rfl⟩, rfl, rfl, rfl⟩
      exact pointed.trans (setTail_marks _ t)

theorem resizeTail_marks (s : State K V) (point : ItemId) : Marks s (resizeTail s point) := by
  have grown := growTail_marks ((s.queue 0).length >>> s.settings.config.lruInsertionPointSpec) s
    point (before s point)
  exact (grown.trans (shrinkTail_marks _ _ _ _)).trans ⟨⟨rfl, rfl, rfl, rfl⟩, rfl, rfl, rfl⟩

theorem position_marks (s : State K V) : Marks s { s with insertionPointPos := n } :=
  ⟨⟨rfl, rfl, rfl, rfl⟩, rfl, rfl, rfl⟩

theorem updateLruInsertionPoint_marks (s : State K V) : Marks s (updateLruInsertionPoint s) := by
  rw [updateLruInsertionPoint]
  split
  · exact position_marks s
  · have init := initInsertionPoint_marks s
    simp only
    split
    · exact init.trans (position_marks _)
    · refine init.trans (.trans ?_ (position_marks _))
      split
      · exact .refl _
      · exact resizeTail_marks _ _

theorem ensureNotInsertionPoint_marks (s : State K V) (i : ItemId) :
    Marks s (ensureNotInsertionPoint s i) := by
  unfold ensureNotInsertionPoint
  split
  · split
    case h_1 prev _ =>
      have pointed : Marks s { s with insertionPoint := some prev } :=
        ⟨⟨rfl, rfl, rfl, rfl⟩, rfl, rfl, rfl⟩
      exact pointed.trans (setTail_marks _ prev)
    · exact ⟨⟨rfl, rfl, rfl, rfl⟩, rfl, rfl, rfl⟩
  · exact .refl s

theorem leaveTail_marks (s : State K V) (i : ItemId) : Marks s (leaveTail s i) := by
  unfold leaveTail
  split
  · exact clearTail_marks s i
  · exact .refl s

theorem reconfigureLocked_marks : Marks s (reconfigureLocked env s curr) := by
  unfold reconfigureLocked
  split
  · exact .refl s
  · exact ⟨⟨rfl, rfl, rfl, rfl⟩, rfl, rfl, rfl⟩

/-- What a promotion does before it moves the item. -/
theorem prepared_marks (env : Env K V) (s : State K V) (i : ItemId) (curr : Nat) :
    Marks s (ensureNotInsertionPoint (reconfigureLocked env s curr) i) :=
  reconfigureLocked_marks.trans (ensureNotInsertionPoint_marks _ i)

theorem promote_moves (wf : s.WellFormed env) (hi : i ∈ s.table) :
    Moves env s (promote env s i curr) := by
  have prepared := (prepared_marks env s i curr).toUnseen
  have mem : i ∈ (ensureNotInsertionPoint (reconfigureLocked env s curr) i).table :=
    prepared.quiet.table_eq ▸ hi
  have moved := (Moves.of_unseen prepared wf).trans (moveToHead_moves (prepared.quiet.wf wf) mem)
  have stamped := moved.unseen (Unseen.modifyHook i fun h => { h with updateTime := curr })
  unfold promote
  simp only
  split
  · exact (stamped.unseen (clearTail_marks _ i).toUnseen).unseen
      (updateLruInsertionPoint_marks _).toUnseen
  · exact stamped

theorem recordAccessAt_moves (mode : AccessMode) (curr : Nat) (wf : s.WellFormed env)
    (hi : i ∈ s.table) : Moves env s (recordAccessAt env s i mode curr).2 := by
  unfold recordAccessAt
  split
  · exact .refl wf
  split
  · exact .refl wf
  split
  · have marked : Unseen s (s.modifyHook i fun h => { h with isAccessed := true }) :=
      .modifyHook i _
    exact (Moves.of_unseen marked wf).trans
      (promote_moves (marked.quiet.wf wf) (marked.quiet.table_eq ▸ hi))
  split
  · exact .refl wf
  · exact promote_moves wf hi

theorem removeFromList_unlinks (linked : (s.heap i).linked = true) :
    Unlinks s (removeFromList s i) i := by
  unfold removeFromList
  rw [if_neg (by simp [linked])]
  have left := (ensureNotInsertionPoint_marks s i).trans (leaveTail_marks _ i)
  have before := left.trans (.modifyHook i fun h => { h with isAccessed := false })
  refine .of_quiet before.quiet (.quiet ?_ (updateLruInsertionPoint_marks _).quiet)
  exact Unlinks.unlink.modify fun item => { item with linked := false }

end Bookkeeping

section Search

variable {v : ItemId}

/-- The search is the common one along the path from the cursor. -/
theorem scan_fst (s : State K V) (tries : Nat) (sawPinned : Bool) (first : Option ItemId)
    (l : List ItemId) : (scan s tries sawPinned first l).1 = s.searchVictim tries l := by
  induction l generalizing tries sawPinned first with
  | nil => rfl
  | cons i rest ih =>
    rw [scan, searchVictim]
    split
    · exact ih _ _ _
    · simp only
      split
      · split
        · rfl
        · exact ih _ _ _
      · rfl

theorem mem_searchPath (h : v ∈ searchPath s) : v ∈ s.queue 0 := by
  unfold searchPath at h
  split at h
  · cases h
  · split at h
    case isTrue inList =>
      obtain rfl | earlier := List.mem_cons.mp h
      · exact inList
      · exact (List.takeWhile_sublist _).subset (List.mem_reverse.mp earlier)
    case isFalse => cases h

theorem findEvictionVictim_eq : (findEvictionVictim s).1 = s.searchVictim 0 (searchPath s) := by
  unfold findEvictionVictim searchPath
  cases searchStart s with
  | none => rfl
  | some i => exact scan_fst s 0 false none _

theorem findEvictionVictim_unseen (s : State K V) : Unseen s (findEvictionVictim s).2 := by
  unfold findEvictionVictim
  split
  · exact .refl
  · exact ⟨rfl, rfl, rfl, rfl⟩

theorem findEvictionVictim_cleanup (s : State K V) :
    (findEvictionVictim s.cleanupPendingDeletion).1 = (findEvictionVictim s).1 := by
  have path := cleanup_frame s searchPath fun _ _ _ => rfl
  rw [findEvictionVictim_eq, findEvictionVictim_eq, path, searchVictim_cleanup]

theorem victim_spec (wf : s.WellFormed env) (found : (findEvictionVictim s).1 = some v) :
    v ∈ s.table ∧ (s.heap v).accessRef = 0 := by
  rw [findEvictionVictim_eq] at found
  obtain ⟨onPath, unpinned, -⟩ := searchVictim_spec found
  exact ⟨mem_of_queue wf (mem_searchPath onPath), unpinned⟩

theorem place_perm (s : State K V) (i : ItemId) (l : List ItemId) :
    (place s i l).Perm (i :: l) := by
  unfold place
  split
  · exact .refl _
  · split
    · exact .refl _
    · refine List.perm_middle.trans (.cons i ?_)
      rw [List.takeWhile_append_dropWhile]

/-- The loops that set or clear the flag along the list. -/
theorem foldl_isTail_marks (s : State K V) (b : Bool) (l : List ItemId) :
    Marks s (l.foldl (fun s i => s.modifyHook i fun h => { h with isTail := b }) s) := by
  induction l generalizing s with
  | nil => exact .refl s
  | cons i rest ih => exact (Marks.modifyHook i _).trans (ih _)

theorem respecify_marks (s : State K V) : Marks s (respecify s) := by
  rw [respecify]
  split
  · split
    · exact .refl s
    · exact (foldl_isTail_marks s false _).trans ⟨⟨rfl, rfl, rfl, rfl⟩, rfl, rfl, rfl⟩
  · split
    · exact .refl s
    · exact updateLruInsertionPoint_marks s

theorem reconfigure_unseen (s : State K V) (sec : Nat) : Unseen s (reconfigure s sec) :=
  (respecify_marks s).toUnseen.trans (.restartRefresh sec)

/-- The search that `evict_lru` makes, after its clean-up. -/
theorem search_cleanup {victim : Option ItemId} (found : (findEvictionVictim s).1 = victim) :
    ∃ u, findEvictionVictim s.cleanupPendingDeletion = (victim, u) ∧
      Unseen s.cleanupPendingDeletion u := by
  have searched := findEvictionVictim_unseen s.cleanupPendingDeletion
  rw [← findEvictionVictim_cleanup] at found
  exact ⟨_, Prod.ext found rfl, searched⟩

end Search

section Lawful

theorem found_spec {u : State K V} {v : ItemId} (wf : s.WellFormed env)
    (found : findEvictionVictim s.cleanupPendingDeletion = (some v, u)) :
    u.WellFormed env ∧ v ∈ u.table ∧ (u.heap v).accessRef = 0 := by
  have clean := Rearranges.cleanup wf
  have searched := findEvictionVictim_unseen s.cleanupPendingDeletion
  obtain ⟨hv, unpinned⟩ := victim_spec clean.wf (congrArg Prod.fst found)
  rw [found] at searched
  exact ⟨searched.quiet.wf clean.wf, searched.quiet.table_eq ▸ hv,
    (congrArg Body.accessRef (searched.quiet.body_eq v)).trans unpinned⟩

variable [DecidableEq K] {u : State K V} {key : K}

theorem evictLru_of_missed (missed : findEvictionVictim s.cleanupPendingDeletion = (none, u)) :
    evictLru env s = u.storeSize (size u) := by
  simp only [evictLru, missed]

theorem evictLru_of_found {v : ItemId} (wf : s.WellFormed env)
    (found : findEvictionVictim s.cleanupPendingDeletion = (some v, u)) : evictLru env s = storeSize
      { u.evictVictim env removeFromList v with
        unpinnedTail := (u.evictVictim env removeFromList v).unpinnedTail.or
          ((u.evictVictim env removeFromList v).tail 0) }
      (size (u.evictVictim env removeFromList v)) := by
  obtain ⟨wfu, mem, free⟩ := found_spec wf found
  simp only [evictLru, found]
  rw [if_pos (canMarkForEviction_of_mem wfu mem free)]
  rfl

theorem eviction : Eviction env size (fun s => (findEvictionVictim s).1) (evictLru env) where
  size_eq wf := (wf.table_length).symm
  unpinned wf found := (victim_spec wf found).2
  removes {s v} wf found := by
    have clean := Rearranges.cleanup wf
    obtain ⟨u, search, searched⟩ := search_cleanup found
    obtain ⟨wfu, mem, free⟩ := found_spec wf search
    have removed := evictVictim_removes wfu mem free fun _ => removeFromList_unlinks
    have reset := removed.quiet
      (u := { evictVictim env u removeFromList v with
        unpinnedTail := (evictVictim env u removeFromList v).unpinnedTail.or
          ((evictVictim env u removeFromList v).tail 0) }) ⟨rfl, rfl, rfl, rfl⟩
    rw [evictLru_of_found wf search]
    exact .after clean (.of_quiet searched.quiet clean.wf (reset.quiet (.storeSize _)))
  rearranges {s} wf found := by
    obtain ⟨u, search, searched⟩ := search_cleanup found
    rw [evictLru_of_missed search]
    exact ((Rearranges.cleanup wf).quiet searched.quiet).quiet (.storeSize _)

theorem link_inserts {expiryNs sec mem : Nat} (wf : s.WellFormed env)
    (absent : s.find env key = none) :
    Inserts env s (link env s key value expiryNs sec mem) key value expiryNs := by
  have linked : Inserts env s
      (s.linkNew env key value 0 expiryNs { updateTime := sec } (place s)) key value expiryNs :=
    linkNew_inserts wf absent (place_perm s)
  unfold link
  refine .quiet ?_ (updateLruInsertionPoint_marks _).quiet
  refine .quiet ?_ (.noteInsertion _ _)
  split
  · exact linked
  · exact linked.quiet .ttlIndexPush

theorem findCapacity_shrinks (wf : s.WellFormed env) : Shrinks env s (findCapacity env s).1 := by
  have clean := (Rearranges.cleanup wf).toShrinks
  have evicted := clean.trans (eviction.evictAtCapacity_shrinks clean.wf)
  simp only [findCapacity]
  split
  · exact evicted
  · exact evicted.trans (eviction.shrinkLoop_shrinks evicted.wf)

/-- The first steps succeed only below a finite size limit. -/
theorem findCapacity_lt (wf : s.WellFormed env) (finite : s.settings.maxSize ≠ unlimited)
    (found : (findCapacity env s).2 = true) : size (findCapacity env s).1 < s.settings.maxSize := by
  have clean := (Rearranges.cleanup wf).toShrinks
  have evicted := clean.trans (eviction.evictAtCapacity_shrinks clean.wf)
  have settings : _ = s.settings.maxSize := congrArg Settings.maxSize evicted.settings_eq
  simp only [findCapacity] at found ⊢
  set u := s.cleanupPendingDeletion.evictAtCapacity (evictLru env) size
  split at found
  case isTrue => cases found
  case isFalse free =>
    rw [if_neg free]
    have free : size u < s.settings.maxSize := by
      simpa [isAtCapacity, settings, finite] using free
    exact Nat.lt_of_le_of_lt
      (eviction.size_mono (eviction.shrinkLoop_shrinks evicted.wf) evicted.wf) free

theorem findMemory_shrinks (key : K) (value : V) (wf : s.WellFormed env) :
    Shrinks env s (findMemory env s key value).1 :=
  eviction.fitLoop_shrinks size _ wf

/-- Below both limits the first steps evict nothing. -/
theorem findCapacity_of_room (free : s.isAtCapacity (size s) = false)
    (calm : s.shouldEvict (size s) = false) :
    findCapacity env s = (s.cleanupPendingDeletion, true) := by
  have same : size s.cleanupPendingDeletion = size s := by simp [size, linkedCount]
  have free : s.cleanupPendingDeletion.isAtCapacity (size s.cleanupPendingDeletion) = false := by
    simpa [isAtCapacity, same] using free
  have calm : s.cleanupPendingDeletion.shouldEvict (size s.cleanupPendingDeletion) = false := by
    simpa [shouldEvict, same] using calm
  have evicted : s.cleanupPendingDeletion.evictAtCapacity (evictLru env) size =
      s.cleanupPendingDeletion := if_neg (by simp [free])
  simp only [findCapacity]
  rw [evicted, if_neg (by simp [free])]
  exact evictWhile_of_false calm

theorem findMemory_of_room (room : s.settings.maxMemory = unlimited ∨
      s.exceedsMemory (s.settings.calcItemMemory env key value) = false) :
    findMemory env s key value = (s, true) := by
  simp only [findMemory, fitLoop]
  split
  · rfl
  case isFalse finite => exact evictWhile_of_false (by simp [room.resolve_left finite])

/-- The four ways in which `insert_new` ends. -/
inductive InsertNewEnds (env : Env K V) (s : State K V) (key : K) (value : V) (expiryNs : Nat)
    (t : State K V) : Prop
  | blocked (capacity : noCapacity s = true) (unchanged : t = s)
  | failed (capacity : noCapacity s = false) (full : (findCapacity env s).2 = false)
      (counted : t = (findCapacity env s).1.noteEvictionFailed)
  | dropped (capacity : noCapacity s = false) (found : (findCapacity env s).2 = true)
      (stuck : (findMemory env (findCapacity env s).1 key value).2 = false) (h : Shrinks env s t)
  | inserted (capacity : noCapacity s = false) (found : (findCapacity env s).2 = true)
      (room : (findMemory env (findCapacity env s).1 key value).2 = true)
      (h : Inserts env s t key value expiryNs)
      (fits : s.settings.maxSize ≠ unlimited → size t ≤ s.settings.maxSize)

theorem insertNew_ends (value : V) (expiryNs sec : Nat) (wf : s.WellFormed env)
    (absent : s.find env key = none) :
    InsertNewEnds env s key value expiryNs (insertNew env s key value expiryNs sec) := by
  have shrunk := findCapacity_shrinks wf
  rw [insertNew]
  split
  case isTrue capacity => exact .blocked capacity rfl
  case isFalse capacity =>
    have capacity : noCapacity s = false := by simpa using capacity
    cases found : findCapacity env s with
    | mk u enough =>
      rw [found] at shrunk
      cases enough with
      | false => exact .failed capacity (by rw [found]) (by rw [found])
      | true =>
        have fitted := findMemory_shrinks key value shrunk.wf
        have below : s.settings.maxSize ≠ unlimited → size u < s.settings.maxSize := by
          intro finite
          have lt := findCapacity_lt wf finite (by rw [found])
          rw [found] at lt
          exact lt
        have fewer := eviction.size_mono fitted shrunk.wf
        cases room : findMemory env u key value with
        | mk v enough =>
          rw [room] at fitted fewer
          have ready := shrunk.trans fitted
          cases enough with
          | false =>
            have stuck : (findMemory env (findCapacity env s).1 key value).2 = false := by
              rw [found, room]
            exact .dropped capacity (by rw [found]) stuck (by simpa only [room] using ready)
          | true =>
            have linked : Inserts env v (link env v key value expiryNs sec
                (v.settings.calcItemMemory env key value)) key value expiryNs :=
              link_inserts ready.wf (ready.find_eq_none wf absent)
            have roomy : (findMemory env (findCapacity env s).1 key value).2 = true := by
              rw [found, room]
            refine .inserted capacity (by rw [found]) roomy ?_ ?_
            · simpa only [room] using .after ready linked
            · intro finite
              simp only [room]
              have length := linked.length_le
              rw [← eviction.size_eq linked.wf, ← eviction.size_eq ready.wf] at length
              exact length.trans (Nat.lt_of_le_of_lt fewer (below finite))

theorem insertNew_admits (value : V) (expiryNs sec : Nat) (wf : s.WellFormed env)
    (absent : s.find env key = none) :
    Admits env s (insertNew env s key value expiryNs sec) key value expiryNs := by
  cases insertNew_ends value expiryNs sec wf absent with
  | blocked capacity unchanged =>
    rw [unchanged]
    exact .dropped (.refl wf)
  | failed capacity full counted => exact .failed _ (findCapacity_shrinks wf) counted
  | dropped capacity found stuck h => exact .dropped h
  | inserted capacity found room h fits => exact .inserted h

theorem laws (env : Env K V) : (policy env).Laws env where
  eviction := eviction
  noCapacity_eq same := by simp [policy, noCapacity, same]
  insertNew := insertNew_admits
  recordAccess := recordAccessAt_moves
  afterGet _ wf := .refl wf
  removeErased linked := (removeFromList_unlinks linked).quiet ⟨rfl, rfl, rfl, rfl⟩
  removeForced linked := (removeFromList_unlinks linked).quiet ⟨rfl, rfl, rfl, rfl⟩
  removeFlushed linked := removeFromList_unlinks linked
  keepFlushed s i := by
    unfold policy
    simp only
    split
    · exact (Unseen.modifyHook i _).quiet
    · exact .refl
  popTail := unpinnedTailOf_spec
  popTail_cleanup s := cleanup_frame s (policy env).popTail fun _ _ _ => rfl
  reconfigure sec wf := (reconfigure_unseen _ sec).quiet.shrinks wf

end Lawful

end Lru.Mm.MmLru
