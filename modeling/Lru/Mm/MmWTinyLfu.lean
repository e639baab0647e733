import Lru.Mm.Window

/-!
# `mm_wtiny_lfu`

A window and a main part of two lists. What leaves the window goes to Probation;
an item of Probation that is accessed often enough moves to Protection. When
Probation is over its share its tail and the window tail may change places. The
moves between the lists never evict.
-/

namespace Lru.Mm.MmWTinyLfu

variable {K V : Type} {s : State K V} {env : Env K V} {v : ItemId} {sec : Nat}

open State Window

def kProbationQueue : QueueId := kNextQueue

def kProtectionQueue : QueueId := 2

section Definitions

variable (env : Env K V) (s : State K V)

def expectedProtectionSize : Nat :=
  env.rounding.scale (size s - (s.queue kTinyQueue).length) s.settings.config.protectionRatio

def expectedProbationSize : Nat :=
  let mainSize := size s - (s.queue kTinyQueue).length
  let protSize := expectedProtectionSize env s
  if protSize < mainSize then mainSize - protSize else 0

/-- The tail of Protection when it is overfull goes to the tail of Probation. -/
def degradeProtection : State K V :=
  if expectedProtectionSize env s < (s.queue kProtectionQueue).length then
    match s.tail kProtectionQueue with
    | none => s
    | some t => s.moveToQueue t kProbationQueue true
  else s

def tryPromoteToProtection (i : ItemId) : State K V :=
  if s.settings.config.protectionFreq < s.sketch.estimate (env.hash (s.heap i).key) then
    degradeProtection env (s.moveToQueue i kProtectionQueue false)
  else s

def promoteItem (i : ItemId) (curr : Nat) : State K V :=
  let tail := (s.tail kProtectionQueue).or (s.tail kProbationQueue)
  let s := s.reconfigureLocked env curr tail
  let s := s.moveToHead i
  let s := s.modifyHook i fun h => { h with updateTime := curr }
  let s := if (s.heap i).queueId = kProbationQueue then tryPromoteToProtection env s i else s
  recordKey env s (s.heap i).key

def swapTails (candidate probTail : ItemId) : State K V :=
  (s.moveToQueue probTail kTinyQueue true).moveToQueue candidate kProbationQueue false

/-- The loop of `admit_to_probation`, with the tries that are left. -/
def admitLoop (capacity : Nat) : Nat → State K V → State K V
  | 0, s => s
  | tries + 1, s =>
    if (s.queue kProbationQueue).length ≤ capacity then s
    else
      match s.unpinnedTailOf kProbationQueue with
      | none => s
      | some probTail =>
        match s.unpinnedTailOf kTinyQueue with
        | none => s
        | some candidate =>
          if newcomerWins env s candidate probTail then
            admitLoop capacity tries (swapTails s candidate probTail)
          else s.moveToHead probTail

def admitToProbation : State K V :=
  let capacity := expectedProbationSize env s
  if capacity = unlimited then s
  else admitLoop env capacity s.settings.config.evictionSearchTries s

def maybePromoteFromTiny : State K V :=
  let expectedTiny := expectedTinySize env s
  admitToProbation env (drainTiny (fun _ => expectedTiny) (s.queue kTinyQueue).length s)

/-- The tail of Protection unless it is pinned or vetoed. -/
def protectionVictim : Option ItemId :=
  match s.unpinnedTailOf kProtectionQueue with
  | none => none
  | some v => if s.vetoed v then none else some v

/-- The item that `evict` takes: from Probation, then the tail of Protection, then
the window. -/
def findVictim : Option ItemId :=
  ((s.searchQueue kProbationQueue).or (protectionVictim s)).or (s.searchQueue kTinyQueue)

end Definitions

section Insertion

variable [DecidableEq K] (env : Env K V) (s : State K V)

/-- `evict`. A victim in Protection is first moved to Probation. -/
def evict : State K V :=
  let s := s.cleanupPendingDeletion
  match s.searchQueue kProbationQueue with
  | some v => (s.evictGeneric env v).2
  | none =>
    match protectionVictim s with
    | some v => ((s.moveToQueue v kProbationQueue true).evictGeneric env v).2
    | none =>
      match s.searchQueue kTinyQueue with
      | some v => (s.evictGeneric env v).2
      | none => s

/-- The part of `insert_new` that links the new item. -/
def link (key : K) (value : V) (expiryNs sec mem : Nat) : State K V :=
  maybePromoteFromTiny env (enter env s key value expiryNs sec mem)

def insertNew (key : K) (value : V) (expiryNs sec : Nat) : State K V :=
  if s.settings.maxSize = 0 then s
  else
    let mem := s.settings.calcItemMemory env key value
    link env ((prepare env s key).makeRoom (evict env) size mem) key value expiryNs sec mem

end Insertion

def policy [DecidableEq K] (env : Env K V) : Policy K V where
  size := size
  liveCount := size
  victim := findVictim
  evict := evict env
  noCapacity s := s.settings.maxSize == 0
  prepare := prepare env
  insertNew := insertNew env
  recordAccess s := recordAccessAt s (promoteItem env)
  afterGet s i := if (s.heap i).queueId = kTinyQueue then maybePromoteFromTiny env s else s
  removeErased := removeFromQueue
  removeForced := removeFromQueue
  removeFlushed := unlink
  keepFlushed s _ := s
  afterFlush s := { s with sketch := s.sketch.reset }
  popTail := popTail
  pendingDeletionAtCap _ := false
  beforeResize := resizeSketch
  afterResize s := s
  reconfigure s sec := maybePromoteFromTiny env (s.restartRefresh sec)
  cleanupOnSet := true
  cleanupOnReplace := false
  cleanupOnPop := false
  cleanupOnSweep := true
  pushesZeroExpiry := true
  collectsUpdateFirst := false
  rechecksHandle := true

/-! ## Laws -/

section Moving

variable {i : ItemId}

theorem degradeProtection_moves (wf : s.WellFormed env) :
    Moves env s (degradeProtection env s) := by
  unfold degradeProtection
  split
  · split
    · exact .refl wf
    case h_2 isTail => exact moveToQueue_moves wf (mem_of_tail wf isTail) kProbationQueue true
  · exact .refl wf

theorem tryPromoteToProtection_moves (wf : s.WellFormed env) (hi : i ∈ s.table) :
    Moves env s (tryPromoteToProtection env s i) := by
  unfold tryPromoteToProtection
  split
  · have moved := moveToQueue_moves wf hi kProtectionQueue false
    exact moved.trans (degradeProtection_moves moved.wf)
  · exact .refl wf

theorem promoteItem_moves (curr : Nat) (wf : s.WellFormed env) (hi : i ∈ s.table) :
    Moves env s (promoteItem env s i curr) := by
  have retuned : Unseen s (s.reconfigureLocked env curr
      ((s.tail kProtectionQueue).or (s.tail kProbationQueue))) := .reconfigureLocked
  have moved := (Moves.of_unseen retuned wf).trans
    (moveToHead_moves (retuned.quiet.wf wf) (retuned.quiet.table_eq ▸ hi))
  have stamped := moved.unseen (.modifyHook i fun h => { h with updateTime := curr })
  unfold promoteItem
  refine Moves.unseen ?_ recordKey_unseen
  split
  · exact stamped.trans (tryPromoteToProtection_moves stamped.wf (stamped.mem_iff.mpr hi))
  · exact stamped

theorem swapTails_moves {candidate probTail : ItemId} (wf : s.WellFormed env)
    (hc : candidate ∈ s.table) (hp : probTail ∈ s.table) :
    Moves env s (swapTails s candidate probTail) := by
  have lost := moveToQueue_moves wf hp kTinyQueue true
  exact lost.trans (moveToQueue_moves lost.wf (lost.mem_iff.mpr hc) kProbationQueue false)

theorem admitLoop_moves {capacity tries : Nat} (wf : s.WellFormed env) :
    Moves env s (admitLoop env capacity tries s) := by
  induction tries generalizing s with
  | zero => exact .refl wf
  | succ tries ih =>
    rw [admitLoop]
    split
    · exact .refl wf
    split
    · exact .refl wf
    case h_2 probTail isProb =>
      have hp := (unpinnedTailOf_spec wf isProb).1
      split
      · exact .refl wf
      case h_2 candidate isTiny =>
        split
        · have swapped := swapTails_moves wf (unpinnedTailOf_spec wf isTiny).1 hp
          exact swapped.trans (ih swapped.wf)
        · exact moveToHead_moves wf hp

theorem admitToProbation_moves (wf : s.WellFormed env) : Moves env s (admitToProbation env s) := by
  unfold admitToProbation
  simp only
  split
  · exact .refl wf
  · exact admitLoop_moves wf

/-- Nothing is evicted on the way from the window to the main part. -/
theorem maybePromoteFromTiny_moves (wf : s.WellFormed env) :
    Moves env s (maybePromoteFromTiny env s) := by
  have drained := drainTiny_moves (fun _ => expectedTinySize env s) (s.queue kTinyQueue).length wf
  exact drained.trans (admitToProbation_moves drained.wf)

theorem protectionVictim_spec (wf : s.WellFormed env)
    (found : protectionVictim s = some v) : v ∈ s.table ∧ (s.heap v).accessRef = 0 := by
  unfold protectionVictim at found
  split at found
  · cases found
  case h_2 w isTail =>
    split at found
    · cases found
    · cases found
      exact unpinnedTailOf_spec wf isTail

theorem findVictim_cleanup :
    protectionVictim s.cleanupPendingDeletion = protectionVictim s ∧
      findVictim s.cleanupPendingDeletion = findVictim s := by
  have protection := cleanup_frame s protectionVictim fun _ _ _ => rfl
  refine ⟨protection, ?_⟩
  unfold findVictim
  rw [protection, searchQueue_cleanup, searchQueue_cleanup]

end Moving

section Lawful

variable [DecidableEq K]

theorem evict_of_none (found : findVictim s = none) : evict env s = s.cleanupPendingDeletion := by
  simp only [findVictim, Option.or_eq_none_iff] at found
  rw [evict, searchQueue_cleanup, found.1.1]
  rw [findVictim_cleanup.1, found.1.2]
  simp only
  rw [searchQueue_cleanup, found.2]

/-- The victim is evicted where it is or, from Protection, after a move to Probation. -/
theorem evict_of_some (wf : s.WellFormed env) (found : findVictim s = some v) :
    ∃ u, (u = s.cleanupPendingDeletion ∨
        u = s.cleanupPendingDeletion.moveToQueue v kProbationQueue true) ∧
      Moves env s.cleanupPendingDeletion u ∧ v ∈ u.table ∧ (u.heap v).accessRef = 0 ∧
      evict env s = (u.evictGeneric env v).2 := by
  have clean := Rearranges.cleanup wf
  have stays := Moves.refl clean.wf
  rw [← findVictim_cleanup.2] at found
  simp only [findVictim, Option.or_eq_some_iff, Option.or_eq_none_iff] at found
  obtain (inProbation | ⟨empty, inProtection⟩) | ⟨⟨empty, noTail⟩, inTiny⟩ := found
  · obtain ⟨hv, unpinned⟩ := searchQueue_spec clean.wf inProbation
    exact ⟨_, .inl rfl, stays, hv, unpinned, by simp only [evict, inProbation]⟩
  · obtain ⟨hv, unpinned⟩ := protectionVictim_spec clean.wf inProtection
    have moved := moveToQueue_moves clean.wf hv kProbationQueue true
    exact ⟨_, .inr rfl, moved, moved.mem_iff.mpr hv, (moved.accessRef hv).trans unpinned,
      by simp only [evict, empty, inProtection]⟩
  · obtain ⟨hv, unpinned⟩ := searchQueue_spec clean.wf inTiny
    exact ⟨_, .inl rfl, stays, hv, unpinned, by simp only [evict, empty, noTail, inTiny]⟩

theorem eviction : Eviction env size findVictim (evict env) where
  size_eq _ := rfl
  unpinned {s v} wf found := by
    simp only [findVictim, Option.or_eq_some_iff] at found
    obtain (inProbation | ⟨-, inProtection⟩) | ⟨-, inTiny⟩ := found
    · exact (searchQueue_spec wf inProbation).2
    · exact (protectionVictim_spec wf inProtection).2
    · exact (searchQueue_spec wf inTiny).2
  removes {s v} wf found := by
    obtain ⟨u, -, moved, mem, unpinned, evicted⟩ := evict_of_some wf found
    rw [evicted]
    exact .after ((Rearranges.cleanup wf).trans moved.toRearranges)
      (evictGeneric_removes moved.wf mem unpinned).2
  rearranges {s} wf found := by
    rw [evict_of_none found]
    exact .cleanup wf

theorem stuck (found : findVictim s = none) : findVictim (evict env s) = none := by
  rw [evict_of_none found, findVictim_cleanup.2, found]

theorem link_spec {key : K} {value : V} {expiryNs mem : Nat} (wf : s.WellFormed env)
    (absent : s.find env key = none) :
    Inserts env s (link env s key value expiryNs sec mem) key value expiryNs ∧
      (link env s key value expiryNs sec mem).table = s.next :: s.table := by
  have entered := enter_inserts value expiryNs sec mem wf absent
  have moved := maybePromoteFromTiny_moves entered.wf
  exact ⟨entered.shrinks moved.toShrinks (moved.mem_iff.mpr entered.mem_new),
    moved.table_eq.trans (enter_table value expiryNs sec mem wf absent)⟩

theorem insertParts :
    (policy env).InsertParts env (fun s => s.makeRoom (evict env) size) fun _ => link env where
  eviction := eviction
  insertNew_eq s key value expiryNs sec := by
    by_cases zero : s.settings.maxSize = 0 <;> simp [policy, insertNew]
  prepare _ wf := (drainTiny_moves _ _ wf).toRearranges
  room_shrinks := eviction.makeRoom_shrinks
  room_lt := eviction.makeRoom_lt
  room_stuck := eviction.makeRoom_stuck fun _ => stuck
  link_inserts _ _ _ value expiryNs sec mem wf absent := (link_spec wf absent).1
  link_stuck _ _ _ value expiryNs sec mem wf absent _ :=
    congrArg List.length (link_spec wf absent).2

theorem reconfigure_moves (wf : s.WellFormed env) :
    Moves env s ((policy env).reconfigure s sec) := by
  have restarted := Moves.of_unseen (.restartRefresh sec) wf
  exact restarted.trans (maybePromoteFromTiny_moves restarted.wf)

theorem laws (env : Env K V) : (policy env).Laws env where
  eviction := eviction
  noCapacity_eq same := by simp [policy, same]
  insertNew := insertParts.insertsAlways.admits
  recordAccess := recordAccessAt_moves promoteItem_moves
  afterGet {s} i wf := by
    unfold policy
    simp only
    split
    · exact (maybePromoteFromTiny_moves wf).toShrinks
    · exact .refl wf
  removeErased {s i} _ := removeFromQueue_unlinks
  removeForced {s i} _ := removeFromQueue_unlinks
  removeFlushed {s i} _ := .unlink
  popTail := popTail_spec
  popTail_cleanup := Window.popTail_cleanup
  reconfigure sec wf := (reconfigure_moves wf).toShrinks

end Lawful

end Lru.Mm.MmWTinyLfu
