import Lru.Mm.Laws

/-!
# `mm_2q`

Three lists: new items enter Hot, a second reference brings them to Warm, and
what overflows either list goes to Cold. A bounded queue of keys remembers what
was evicted before its second reference; such a key re-enters at Warm.

The per-queue access counters only feed statistics and are left out.
-/

namespace Lru.Mm.Mm2q

variable {K V : Type} {s : State K V} {env : Env K V} {q : QueueId} {key : K}

open State

def kQueueHot : QueueId := 0

def kQueueWarm : QueueId := 1

def kQueueCold : QueueId := 2

/-! ## The ghost queue -/

section Ghost

variable [DecidableEq K] (env : Env K V) (s : State K V)

def ghostCapacity : Nat :=
  let config := s.settings.config
  if !config.enableGhostQueue || config.ghostRatio ≤ 0 then 0
  else if 0 < config.maxGhostEntries then config.maxGhostEntries
  else if s.settings.maxSize = unlimited then 0
  else
    let a1in := env.rounding.mul (env.rounding.ofNat s.settings.maxSize) config.hotRatio.toRat
    Rounding.toNat (env.rounding.mul a1in config.ghostRatio)

/-- A key that the ghost queue remembers at the entry of `insert_new`. -/
def ghostHit (key : K) : Bool := 0 < ghostCapacity env s && key ∈ s.ghostKeys

def ghostTake (key : K) : State K V :=
  { s with ghostKeys := s.ghostKeys.erase key, ghostFifo := s.ghostFifo.erase key }

/-- The loop of `ghost_trim`: the oldest keys go first. -/
def trimTo (capacity : Nat) : List K → List K → List K × List K
  | [], keys => ([], keys)
  | oldest :: rest, keys =>
    if capacity < rest.length + 1 then trimTo capacity rest (keys.erase oldest)
    else (oldest :: rest, keys)

def ghostTrim : State K V :=
  let trimmed := trimTo (ghostCapacity env s) s.ghostFifo s.ghostKeys
  { s with ghostFifo := trimmed.1, ghostKeys := trimmed.2 }

def ghostRecord (key : K) : State K V :=
  let s := if key ∈ s.ghostKeys then ghostTake s key else s
  ghostTrim env { s with ghostFifo := s.ghostFifo ++ [key], ghostKeys := key :: s.ghostKeys }

end Ghost

/-! ## Moving between the lists -/

section Queues

variable (env : Env K V) (s : State K V)

def size : Nat := s.table.length

def expectedQueueSize (ratio : ℚ) : Nat := env.rounding.scale (size s) ratio

/-- One loop of `rebalance`: tails beyond the expected size move to the tail of
Cold. Each round shortens the list. -/
def demoteTails (q : QueueId) (expected : Nat) : Nat → State K V → State K V
  | 0, s => s
  | fuel + 1, s =>
    if expected < (s.queue q).length then
      match s.tail q with
      | none => s
      | some i => demoteTails q expected fuel (s.moveToQueue i kQueueCold true)
    else s

def rebalance : State K V :=
  if s.settings.maxSize = unlimited then s
  else
    let s := demoteTails kQueueWarm (expectedQueueSize env s s.settings.config.warmRatio.toRat)
      (s.queue kQueueWarm).length s
    demoteTails kQueueHot (expectedQueueSize env s s.settings.config.hotRatio.toRat)
      (s.queue kQueueHot).length s

def removeFromQueue (i : ItemId) : State K V :=
  (s.modifyHook i fun h => { h with isAccessed := false }).unlinkAndUnmark i

def relink (i : ItemId) : State K V :=
  if (s.heap i).queueId = kQueueCold then
    let s := s.moveToQueue i kQueueWarm false
    let s := s.modifyHook i fun h => { h with isAccessed := true }
    if s.settings.config.rebalanceOnRecordAccess then rebalance env s else s
  else s.moveToHead i

/-- `record_access_at`. A first access is not treated apart. -/
def recordAccessAt (i : ItemId) (mode : AccessMode) (curr : Nat) : Bool × State K V :=
  if !(s.heap i).linked then (false, s)
  else if !s.updatesOn mode then (false, s)
  else if s.refreshedAt i curr then (false, s)
  else
    let s := s.reconfigureLocked env curr (s.tail kQueueWarm)
    (true, (relink env s i).modifyHook i fun h => { h with updateTime := curr })

end Queues

/-! ## Eviction and insertion -/

section Eviction

variable [DecidableEq K] (env : Env K V) (s : State K V)

/-- Eviction priority: Cold, then Hot, then Warm. -/
def evictionOrder : List QueueId := [kQueueCold, kQueueHot, kQueueWarm]

/-- The first list with a victim that can be claimed. -/
def findVictim : Option (QueueId × ItemId) :=
  evictionOrder.findSome? fun q =>
    match s.searchQueue q with
    | none => none
    | some v => if (s.heap v).canMarkForEviction then some (q, v) else none

/-- The eviction of this item is remembered by the ghost queue. -/
def feedsGhost (q : QueueId) (v : ItemId) : Bool :=
  0 < ghostCapacity env s &&
    (q == kQueueHot || (q == kQueueCold && !(s.heap v).hook.isAccessed))

def evict : State K V :=
  let s := s.cleanupPendingDeletion
  match findVictim s with
  | none => s.storeSize (size s)
  | some (q, v) =>
    let key := (s.heap v).key
    let feeds := feedsGhost env s q v
    let s := s.evictVictim env removeFromQueue v
    let s := if feeds then ghostRecord env s key else s
    s.storeSize (size s)

/-- The first step of `insert_new` consumes the ghost entry of the key. -/
def prepare (key : K) : State K V := if ghostHit env s key then ghostTake s key else s

/-- The part of `insert_new` that links the new item. -/
def link (hit : Bool) (key : K) (value : V) (expiryNs sec mem : Nat) : State K V :=
  rebalance env (s.linkAtHead env key value (if hit then kQueueWarm else kQueueHot) expiryNs
    { updateTime := sec, isAccessed := hit } size size mem)

def insertNew (key : K) (value : V) (expiryNs sec : Nat) : State K V :=
  if s.settings.maxSize = 0 then s
  else
    let mem := s.settings.calcItemMemory env key value
    link env ((prepare env s key).makeRoom (evict env) size mem) (ghostHit env s key)
      key value expiryNs sec mem

end Eviction

def policy [DecidableEq K] (env : Env K V) : Policy K V where
  size := size
  liveCount := size
  victim s := (findVictim s).map Prod.snd
  evict := evict env
  noCapacity s := s.settings.maxSize == 0
  prepare := prepare env
  insertNew := insertNew env
  recordAccess := recordAccessAt env
  afterGet s _ := s
  removeErased := removeFromQueue
  removeForced := removeFromQueue
  removeFlushed := unlink
  keepFlushed s _ := s
  afterFlush s := { s with ghostFifo := [], ghostKeys := [] }
  popTail _ := none
  pendingDeletionAtCap _ := false
  beforeResize s _ := s
  afterResize := ghostTrim env
  reconfigure s sec := ghostTrim env (rebalance env (s.restartRefresh sec))
  cleanupOnSet := true
  cleanupOnReplace := true
  cleanupOnPop := false
  cleanupOnSweep := false
  pushesZeroExpiry := true
  collectsUpdateFirst := false
  rechecksHandle := true

/-! ## Laws -/

section Moving

variable {i : ItemId}

section Induction

variable {I : State K V → Prop} (demoted : ∀ {s : State K V} {q i}, s.tail q = some i → I s →
  I (s.moveToQueue i kQueueCold true)) (h : I s)

include demoted h

/-- The loops keep what the demotion of a tail keeps. -/
theorem demoteTails_induct {expected fuel : Nat} : I (demoteTails q expected fuel s) := by
  induction fuel generalizing s with
  | zero => exact h
  | succ fuel ih =>
    rw [demoteTails]
    split
    · split
      · exact h
      case h_2 i isTail => exact ih (demoted isTail h)
    · exact h

theorem rebalance_induct (env : Env K V) : I (rebalance env s) := by
  rw [rebalance]
  split
  · exact h
  · exact demoteTails_induct demoted (demoteTails_induct demoted h)

/-- An access retunes, promotes the item or moves it to the head, and stamps it. -/
theorem recordAccessAt_induct (mode : AccessMode) {curr : Nat}
    (tuned : I (s.reconfigureLocked env curr (s.tail kQueueWarm)))
    (promoted : ∀ {s : State K V}, I s → I ((s.moveToQueue i kQueueWarm false).modifyHook i
      fun h => { h with isAccessed := true }))
    (headed : ∀ {s : State K V}, I s → I (s.moveToHead i))
    (stamped : ∀ {s : State K V}, I s → I (s.modifyHook i fun h => { h with updateTime := curr })) :
    I (recordAccessAt env s i mode curr).2 := by
  rw [recordAccessAt]
  split
  · exact h
  split
  · exact h
  split
  · exact h
  · refine stamped ?_
    rw [relink]
    split
    · simp only
      split
      · exact rebalance_induct demoted (promoted tuned) env
      · exact promoted tuned
    · exact headed tuned

end Induction

theorem demoteTails_moves (q : QueueId) (expected fuel : Nat) (wf : s.WellFormed env) :
    Moves env s (demoteTails q expected fuel s) :=
  demoteTails_induct (fun isTail h =>
    h.trans (moveToQueue_moves h.wf (mem_of_tail h.wf isTail) kQueueCold true)) (.refl wf)

theorem rebalance_moves (wf : s.WellFormed env) : Moves env s (rebalance env s) :=
  rebalance_induct (fun isTail h =>
    h.trans (moveToQueue_moves h.wf (mem_of_tail h.wf isTail) kQueueCold true)) (.refl wf) env

theorem recordAccessAt_moves (mode : AccessMode) (curr : Nat) (wf : s.WellFormed env)
    (hi : i ∈ s.table) : Moves env s (recordAccessAt env s i mode curr).2 := by
  refine recordAccessAt_induct (fun isTail h => ?_) (.refl wf) mode
    (.of_unseen .reconfigureLocked wf) (fun h => ?_) (fun h => ?_) fun h => ?_
  · exact h.trans (moveToQueue_moves h.wf (mem_of_tail h.wf isTail) kQueueCold true)
  · exact (h.trans (moveToQueue_moves h.wf (h.mem_iff.mpr hi) kQueueWarm false)).unseen
      (.modifyHook i fun h => { h with isAccessed := true })
  · exact h.trans (moveToHead_moves h.wf (h.mem_iff.mpr hi))
  · exact h.unseen (.modifyHook i fun h => { h with updateTime := curr })

theorem removeFromQueue_unlinks : Unlinks s (removeFromQueue s i) i :=
  .of_quiet (Unseen.modifyHook i _).quiet unlinkAndUnmark_unlinks

theorem findVictim_congr {t : State K V} (heap : t.heap = s.heap)
    (settings : t.settings = s.settings) (queue : t.queue = s.queue) :
    findVictim t = findVictim s := by
  unfold findVictim
  congr 1
  funext q
  rw [searchQueue_congr heap settings (congrFun queue q), heap]

theorem findVictim_cleanup : findVictim s.cleanupPendingDeletion = findVictim s :=
  findVictim_congr (cleanup_heap s) (cleanup_settings s)
    (cleanup_queue s)

theorem findVictim_spec {v : ItemId} (wf : s.WellFormed env)
    (found : findVictim s = some (q, v)) : v ∈ s.table ∧ (s.heap v).accessRef = 0 := by
  obtain ⟨p, -, found⟩ := List.exists_of_findSome?_eq_some found
  split at found
  · cases found
  case h_2 w searched =>
    split at found
    · cases found
      exact searchQueue_spec wf searched
    · cases found

end Moving

section Lawful

variable [DecidableEq K]

theorem ghostTrim_unseen : Unseen s (ghostTrim env s) := ⟨rfl, rfl, rfl, rfl⟩

theorem ghostRecord_unseen : Unseen s (ghostRecord env s key) := by
  unfold ghostRecord
  refine Unseen.trans ?_ ghostTrim_unseen
  split <;> exact ⟨rfl, rfl, rfl, rfl⟩

theorem evict_of_none (found : findVictim s = none) :
    evict env s = s.cleanupPendingDeletion.storeSize (size s.cleanupPendingDeletion) := by
  rw [evict, findVictim_cleanup, found]

theorem eviction : Eviction env size (fun s => (findVictim s).map Prod.snd) (evict env) where
  size_eq _ := rfl
  unpinned {s v} wf found := by
    obtain ⟨⟨q, w⟩, searched, rfl⟩ := Option.map_eq_some_iff.mp found
    exact (findVictim_spec wf searched).2
  removes {s v} wf found := by
    obtain ⟨⟨q, w⟩, searched, rfl⟩ := Option.map_eq_some_iff.mp found
    have clean := Rearranges.cleanup wf
    rw [← findVictim_cleanup] at searched
    obtain ⟨hw, unpinned⟩ := findVictim_spec clean.wf searched
    have removed := evictVictim_removes clean.wf hw unpinned fun u _ => removeFromQueue_unlinks
    rw [evict, searched]
    refine .after clean (.quiet ?_ (.storeSize _))
    split
    · exact removed.quiet ghostRecord_unseen.quiet
    · exact removed
  rearranges {s} wf found := by
    rw [evict_of_none (Option.map_eq_none_iff.mp found)]
    exact (Rearranges.cleanup wf).quiet (.storeSize _)

theorem stuck {u : State K V} (found : (findVictim u).map Prod.snd = none) :
    (findVictim (evict env u)).map Prod.snd = none := by
  have none := Option.map_eq_none_iff.mp found
  have same : findVictim (u.cleanupPendingDeletion.storeSize (size u.cleanupPendingDeletion)) =
      findVictim u.cleanupPendingDeletion := findVictim_congr rfl rfl rfl
  rw [evict_of_none none, same, findVictim_cleanup, none]
  rfl

theorem link_spec (hit : Bool) (value : V) (expiryNs sec mem : Nat)
    (wf : s.WellFormed env) (absent : s.find env key = none) :
    Inserts env s (link env s hit key value expiryNs sec mem) key value expiryNs ∧
      (link env s hit key value expiryNs sec mem).table = s.next :: s.table := by
  have linked : Inserts env s (s.linkAtHead env key value (if hit then kQueueWarm else kQueueHot)
      expiryNs { updateTime := sec, isAccessed := hit } size size mem) key value expiryNs :=
    linkAtHead_inserts wf absent
  have balanced := rebalance_moves linked.wf
  exact ⟨linked.shrinks balanced.toShrinks (balanced.mem_iff.mpr linked.mem_new),
    balanced.table_eq.trans (linkAtHead_table wf absent)⟩

theorem prepare_unseen (env : Env K V) (key : K) : Unseen s (prepare env s key) := by
  rw [prepare]
  split <;> exact ⟨rfl, rfl, rfl, rfl⟩

theorem insertParts :
    (policy env).InsertParts env (fun s => s.makeRoom (evict env) size)
      fun o s key => link env s (ghostHit env o key) key where
  eviction := eviction
  insertNew_eq s key value expiryNs sec := by
    by_cases zero : s.settings.maxSize = 0 <;> simp [policy, insertNew]
  prepare key wf := .of_quiet (prepare_unseen env key).quiet wf
  room_shrinks := eviction.makeRoom_shrinks
  room_lt := eviction.makeRoom_lt
  room_stuck := eviction.makeRoom_stuck fun _ => stuck
  link_inserts _ _ _ value expiryNs sec mem wf absent :=
    (link_spec _ value expiryNs sec mem wf absent).1
  link_stuck _ _ _ value expiryNs sec mem wf absent _ :=
    congrArg List.length (link_spec _ value expiryNs sec mem wf absent).2

theorem reconfigure_moves (sec : Nat) (wf : s.WellFormed env) :
    Moves env s ((policy env).reconfigure s sec) := by
  have restarted := Moves.of_unseen (.restartRefresh sec) wf
  exact (restarted.trans (rebalance_moves restarted.wf)).unseen ghostTrim_unseen

theorem laws (env : Env K V) : (policy env).Laws env where
  eviction := eviction
  noCapacity_eq same := by simp [policy, same]
  insertNew := insertParts.insertsAlways.admits
  recordAccess := recordAccessAt_moves
  afterGet _ wf := .refl wf
  removeErased {s i} _ := removeFromQueue_unlinks
  removeForced {s i} _ := removeFromQueue_unlinks
  removeFlushed {s i} _ := .unlink
  popTail _ found := nomatch found
  popTail_cleanup _ := rfl
  afterResize s := ghostTrim_unseen.quiet
  reconfigure sec wf := (reconfigure_moves sec wf).toShrinks

end Lawful

end Lru.Mm.Mm2q
