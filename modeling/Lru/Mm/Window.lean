import Lru.Mm.Laws

/-!
# The admission window

`mm_tiny_lfu` and `mm_wtiny_lfu` put new items into a small window, list `0`,
and move them on to list `1` when the window is full. Frequencies estimated by
the sketch decide between a newcomer and the item it would displace.
-/

namespace Lru.Mm.Window

variable {K V : Type} {i : ItemId}

open State

def kTinyQueue : QueueId := 0

/-- The Main queue of `mm_tiny_lfu`, the Probation queue of `mm_wtiny_lfu`. -/
def kNextQueue : QueueId := 1

section Definitions

variable (env : Env K V) (s : State K V)

def size : Nat := s.table.length

def expectedTinySize : Nat :=
  let total := if s.settings.maxSize = unlimited then size s else s.settings.maxSize
  max 1 (env.rounding.scale total s.settings.config.windowToCacheSizeRatio)

/-- The comparison of two estimated frequencies. -/
def newcomerWins (newcomer incumbent : ItemId) : Bool :=
  let newFreq := s.sketch.estimate (env.hash (s.heap newcomer).key)
  let oldFreq := s.sketch.estimate (env.hash (s.heap incumbent).key)
  if s.settings.config.newcomerWinsOnTie then oldFreq ≤ newFreq else oldFreq < newFreq

/-- Drain the window down to its share, up to a pinned tail. Each round shortens
the window. -/
def drainTiny (expected : State K V → Nat) : Nat → State K V → State K V
  | 0, s => s
  | fuel + 1, s =>
    if expected s < (s.queue kTinyQueue).length then
      match s.unpinnedTailOf kTinyQueue with
      | none => s
      | some i => drainTiny expected fuel (s.moveToQueue i kNextQueue false)
    else s

/-- What `insert_new` does before it looks for a victim. -/
def prepare (_key : K) : State K V := drainTiny (expectedTinySize env) (s.queue kTinyQueue).length s

def recordKey (key : K) : State K V := { s with sketch := s.sketch.record (env.hash key) }

/-- `remove_from_queue`, which leaves the linked bit set. -/
def removeFromQueue (i : ItemId) : State K V :=
  (s.modifyHook i fun h => { h with isAccessed := false }).unlink i

/-- `record_access_at`, for the strategy's own `promote_item`. -/
def recordAccessAt (promoteItem : State K V → ItemId → Nat → State K V) (i : ItemId)
    (mode : AccessMode) (curr : Nat) : Bool × State K V :=
  if !(s.heap i).linked then (false, s)
  else if !s.updatesOn mode then (false, s)
  else if !(s.heap i).hook.isAccessed then
    (true, promoteItem (s.modifyHook i fun h => { h with isAccessed := true }) i curr)
  else if s.refreshedAt i curr then (false, s)
  else (true, promoteItem s i curr)

/-- The part of `insert_new` that links the new item into the window, whichever
list it may be moved to afterwards. -/
def enter [DecidableEq K] (key : K) (value : V) (expiryNs sec mem : Nat) : State K V :=
  recordKey env
    (s.linkAtHead env key value kTinyQueue expiryNs { updateTime := sec } size size mem) key

def resizeSketch (newMax : Nat) : State K V :=
  let period := newMax * s.settings.config.cmsWindowMultiplier % SizeT.range
  { s with sketch := s.sketch.setMaxWindowSize period }

/-- `pop_lru` takes from the window, and from the next list if the window has
nothing. -/
def popTail : Option ItemId :=
  (s.unpinnedFrom 0 (s.queue kTinyQueue).reverse).or
    (s.unpinnedFrom 0 (s.queue kNextQueue).reverse)

end Definitions

section Lemmas

variable {env : Env K V} {s : State K V}

theorem drainTiny_moves (expected : State K V → Nat) (fuel : Nat) (wf : s.WellFormed env) :
    Moves env s (drainTiny expected fuel s) := by
  induction fuel generalizing s with
  | zero => exact .refl wf
  | succ fuel ih =>
    rw [drainTiny]
    split
    · split
      · exact .refl wf
      case h_2 i isTail =>
        have moved := moveToQueue_moves wf (unpinnedTailOf_spec wf isTail).1 kNextQueue false
        exact moved.trans (ih moved.wf)
    · exact .refl wf

theorem removeFromQueue_unlinks : Unlinks s (removeFromQueue s i) i :=
  .of_quiet (Unseen.modifyHook i _).quiet .unlink

theorem prepare_moves (key : K) (wf : s.WellFormed env) : Moves env s (prepare env s key) :=
  drainTiny_moves _ _ wf

theorem recordKey_unseen {key : K} : Unseen s (recordKey env s key) := ⟨rfl, rfl, rfl, rfl⟩

theorem one_le_expectedTinySize : 1 ≤ expectedTinySize env s := Nat.le_max_left _ _

theorem recordAccessAt_moves {promoteItem : State K V → ItemId → Nat → State K V}
    (promotes : ∀ {u : State K V} curr, u.WellFormed env → i ∈ u.table →
      Moves env u (promoteItem u i curr))
    (mode : AccessMode) (curr : Nat) (wf : s.WellFormed env) (hi : i ∈ s.table) :
    Moves env s (recordAccessAt s promoteItem i mode curr).2 := by
  unfold recordAccessAt
  split
  · exact .refl wf
  split
  · exact .refl wf
  split
  · have marked : Unseen s (s.modifyHook i fun h => { h with isAccessed := true }) :=
      .modifyHook i _
    exact (Moves.of_unseen marked wf).trans
      (promotes curr (marked.quiet.wf wf) (marked.quiet.table_eq ▸ hi))
  split
  · exact .refl wf
  · exact promotes curr wf hi

theorem popTail_spec (wf : s.WellFormed env) (found : popTail s = some i) :
    i ∈ s.table ∧ (s.heap i).accessRef = 0 := by
  have spec : ∀ q, s.unpinnedFrom 0 (s.queue q).reverse = some i →
      i ∈ s.table ∧ (s.heap i).accessRef = 0 := by
    intro q walked
    obtain ⟨inList, unpinned⟩ := unpinnedFrom_spec walked
    exact ⟨mem_of_queue wf (List.mem_reverse.mp inList), unpinned⟩
  obtain inTiny | ⟨-, inNext⟩ := Option.or_eq_some_iff.mp found
  · exact spec _ inTiny
  · exact spec _ inNext

theorem popTail_cleanup (s : State K V) : popTail s.cleanupPendingDeletion = popTail s := by
  have walk := unpinnedFrom_congr (cleanup_heap s)
    (cleanup_settings s)
  unfold popTail
  rw [walk, walk, cleanup_queue]

section Enter

variable [DecidableEq K] {key : K} (value : V) (expiryNs sec mem : Nat) (wf : s.WellFormed env)
  (absent : s.find env key = none)

include wf absent

theorem enter_inserts : Inserts env s (enter env s key value expiryNs sec mem) key value expiryNs :=
  (linkAtHead_inserts wf absent).quiet recordKey_unseen.quiet

theorem enter_table : (enter env s key value expiryNs sec mem).table = s.next :: s.table :=
  linkAtHead_table wf absent

theorem enter_queue : (enter env s key value expiryNs sec mem).queue =
    Function.update s.queue kTinyQueue (s.next :: s.queue kTinyQueue) :=
  linkAtHead_queue wf absent

end Enter

end Lemmas

end Lru.Mm.Window
