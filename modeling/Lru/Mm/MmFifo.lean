import Lru.Mm.Laws

/-!
# `mm_fifo`

One list in the order of insertion. An access never moves an item.
-/

namespace Lru.Mm.MmFifo

variable {K V : Type}

open State

section Definitions

variable [DecidableEq K] (env : Env K V) (s : State K V)

def size : Nat := s.table.length

/-- `ttl_live_count()` is the length of the list. -/
def liveCount : Nat := (s.queue 0).length

def evict : State K V :=
  let s := s.cleanupPendingDeletion
  match s.searchQueue 0 with
  | none => s.storeSize (size s)
  | some victim =>
    let s := s.evictVictim env unlinkAndUnmark victim
    s.storeSize (size s)

def noCapacity : Bool := s.settings.maxSize == 0 || s.settings.maxMemory == 0

/-- The part of `insert_new` that makes room. -/
def makeRoom (mem : Nat) : State K V :=
  let s := s.evictAtCapacity (evict env) size
  let s := (s.shrinkLoop (evict env) size).1
  (s.fitLoop (evict env) size liveCount mem).1

/-- The part of `insert_new` that links the new item at the head. -/
def link (key : K) (value : V) (expiryNs _sec mem : Nat) : State K V :=
  s.linkAtHead env key value 0 expiryNs {} liveCount size mem

/-- `insert_new`. It inserts whether or not the evictions made room. -/
def insertNew (key : K) (value : V) (expiryNs sec : Nat) : State K V :=
  if noCapacity s then s
  else
    let mem := s.settings.calcItemMemory env key value
    link env (makeRoom env s.cleanupPendingDeletion mem) key value expiryNs sec mem

def popTail : Option ItemId := s.unpinnedTailOf 0

end Definitions

def policy [DecidableEq K] (env : Env K V) : Policy K V where
  size := size
  liveCount := liveCount
  victim s := s.searchQueue 0
  evict := evict env
  noCapacity := noCapacity
  prepare s _ := s.cleanupPendingDeletion
  insertNew := insertNew env
  recordAccess s _ _ _ := (false, s)
  afterGet s _ := s
  removeErased := unlinkAndUnmark
  removeForced := unlink
  removeFlushed := unlink
  keepFlushed s _ := s
  afterFlush s := s
  popTail := popTail
  pendingDeletionAtCap _ := false
  beforeResize s _ := s
  afterResize s := s
  reconfigure s _ := s
  cleanupOnSet := false
  cleanupOnReplace := false
  cleanupOnPop := false
  cleanupOnSweep := true
  pushesZeroExpiry := true
  collectsUpdateFirst := true
  rechecksHandle := false

/-! ## Laws -/

section Lawful

variable [DecidableEq K] {env : Env K V} {s : State K V}

theorem evict_of_none (found : s.searchQueue 0 = none) :
    evict env s = s.cleanupPendingDeletion.storeSize (size s.cleanupPendingDeletion) := by
  rw [evict, searchQueue_cleanup, found]

theorem eviction : Eviction env size (fun s => s.searchQueue 0) (evict env) where
  size_eq _ := rfl
  unpinned wf found := (searchQueue_spec wf found).2
  removes {s v} wf found := by
    have clean := Rearranges.cleanup wf
    rw [← searchQueue_cleanup] at found
    obtain ⟨hv, unpinned⟩ := searchQueue_spec clean.wf found
    rw [evict, found]
    refine .after clean (.quiet ?_ (.storeSize _))
    exact evictVictim_removes clean.wf hv unpinned fun u _ => unlinkAndUnmark_unlinks
  rearranges {s} wf found := by
    rw [evict_of_none found]
    exact (Rearranges.cleanup wf).quiet (.storeSize _)

theorem stuck {u : State K V} (found : u.searchQueue 0 = none) :
    (evict env u).searchQueue 0 = none := by
  rw [evict_of_none found]
  have same : (u.cleanupPendingDeletion.storeSize (size u.cleanupPendingDeletion)).searchQueue 0 =
      u.cleanupPendingDeletion.searchQueue 0 := searchQueue_congr rfl rfl rfl
  rw [same, searchQueue_cleanup, found]

theorem makeRoom_induct {I : State K V → Prop} (step : ∀ {s}, I s → I (evict env s)) (mem : Nat)
    (h : I s) : I (makeRoom env s mem) :=
  fitLoop_induct (I := I) step liveCount mem
    (evictWhile_induct (I := I) step _ (evictAtCapacity_induct step h))

theorem makeRoom_shrinks (mem : Nat) (wf : s.WellFormed env) : Shrinks env s (makeRoom env s mem) :=
  makeRoom_induct (fun h => h.trans (eviction.shrinks h.wf)) mem (.refl wf)

theorem makeRoom_lt (mem : Nat) (wf : s.WellFormed env)
    (finite : s.settings.maxSize ≠ unlimited) (le : size s ≤ s.settings.maxSize)
    (room : size s < s.settings.maxSize ∨ s.searchQueue 0 ≠ none) :
    size (makeRoom env s mem) < s.settings.maxSize := by
  have evicted := eviction.evictAtCapacity_shrinks wf
  have shrunk := eviction.shrinkLoop_shrinks evicted.wf
  have later := shrunk.trans (eviction.fitLoop_shrinks liveCount mem shrunk.wf)
  exact Nat.lt_of_le_of_lt (eviction.size_mono later evicted.wf)
    (eviction.evictAtCapacity_lt wf finite le room)

theorem makeRoom_stuck (mem : Nat) (wf : s.WellFormed env) (found : s.searchQueue 0 = none) :
    Rearranges env s (makeRoom env s mem) ∧ (makeRoom env s mem).searchQueue 0 = none :=
  makeRoom_induct (I := fun t => Rearranges env s t ∧ t.searchQueue 0 = none)
    (eviction.idle fun _ => stuck) mem ⟨.refl wf, found⟩

theorem insertParts (env : Env K V) :
    (policy env).InsertParts env (makeRoom env) fun _ => link env where
  eviction := eviction
  insertNew_eq _ _ _ _ _ := rfl
  prepare _ wf := .cleanup wf
  room_shrinks := makeRoom_shrinks
  room_lt := makeRoom_lt
  room_stuck := makeRoom_stuck
  link_inserts _ _ _ _ _ _ _ wf absent := linkAtHead_inserts wf absent
  link_stuck _ _ _ _ _ _ _ wf absent _ := congrArg List.length (linkAtHead_table wf absent)

theorem laws (env : Env K V) : (policy env).Laws env where
  eviction := eviction
  noCapacity_eq same := by simp [policy, noCapacity, same]
  insertNew := (insertParts env).insertsAlways.admits
  recordAccess _ _ wf _ := .refl wf
  afterGet _ wf := .refl wf
  removeErased {s i} _ := unlinkAndUnmark_unlinks
  removeForced {s i} _ := .unlink
  removeFlushed {s i} _ := .unlink
  popTail := unpinnedTailOf_spec
  popTail_cleanup s := cleanup_frame s (policy env).popTail fun _ _ _ => rfl
  reconfigure _ wf := .refl wf

end Lawful

end Lru.Mm.MmFifo
