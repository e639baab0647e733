import Lru.Mm.TailSegment
import Lru.Persist.LoadSteps

/-!
# The insertion point of a restored `mm_lru`

The two flushes of a load leave no flags, so those that the load sets are the only ones.
The saved tail size is taken as it is. Whether it agrees with the saved position shows
in `set_config`, which either clears as many nodes as it says or moves the insertion
point from where it stands.
-/

namespace Lru.Mm.MmLru

variable {K V : Type} [DecidableEq K] {env : Env K V} {s : State K V}

open State

theorem isTail_keepFlushed (env : Env K V) (s : State K V) (i j : ItemId) :
    (((policy env).keepFlushed s i).heap j).hook.isTail =
      if j = i then false else (s.heap j).hook.isTail := by
  simp only [policy]
  split
  case isTrue => exact isTail_modifyHook s false i j
  case isFalse unset =>
    split
    case isTrue same =>
      subst same
      exact Bool.eq_false_iff.mpr unset
    case isFalse => rfl

/-- Over pinned items the first pass of `flush` only clears flags. -/
theorem foldl_flushOne_isTail (env : Env K V) (l : List ItemId) (acc : State K V × List ItemId)
    (pinned : ∀ i ∈ l, (acc.1.heap i).hasActiveHandle = true) (i : ItemId) :
    ((l.foldl ((policy env).flushOne env) acc).1.heap i).hook.isTail =
      if i ∈ l then false else (acc.1.heap i).hook.isTail := by
  induction l generalizing acc with
  | nil => rfl
  | cons j rest ih =>
    have first : (policy env).flushOne env acc j = ((policy env).keepFlushed acc.1 j, acc.2) := by
      exact if_pos (pinned j List.mem_cons_self)
    have quiet := (laws env).keepFlushed acc.1 j
    have later : ∀ k ∈ rest,
        (((policy env).flushOne env acc j).1.heap k).hasActiveHandle = true := by
      intro k hk
      rw [first]
      exact (congrArg Body.hasActiveHandle (quiet.body_eq k)).trans
        (pinned k (List.mem_cons_of_mem j hk))
    rw [List.foldl_cons, ih _ later, first]
    simp only [isTail_keepFlushed]
    by_cases here : i = j <;> by_cases there : i ∈ rest <;> simp [here, there]

theorem flush_isTail (pinned : s.AllPinned) {i : ItemId} (hi : i ∈ s.queue 0) :
    (((policy env).flush env s).heap i).hook.isTail = false := by
  have live : ∀ j ∈ s.liveItems, (s.heap j).hasActiveHandle = true := by
    intro j hj
    simp only [liveItems, List.mem_append] at hj
    rcases hj with (h | h) | h
    exacts [pinned 0 j h, pinned 1 j h, pinned 2 j h]
  have passed := foldl_flushOne_isTail env s.liveItems (s, []) live i
  have linked : i ∈ s.liveItems := by
    simp only [liveItems, List.mem_append]
    exact .inl (.inl hi)
  rw [if_pos linked] at passed
  rw [Policy.flush]
  simp only [cleanup_heap, foldl_retire_eq]
  exact passed

end Lru.Mm.MmLru

namespace Lru.Persist

open Mm State MmLru SizeT Strategy

theorem restorePoint_of_outside {K V : Type} {s : State K V} {l : SerializedListState}
    (outside : l.insertionPointPos.toNat = 2 ^ 32 - 1 ∨
      (s.queue 0).length ≤ l.insertionPointPos.toNat) :
    restorePoint s l = { s with tailSize := 0, insertionPoint := none } := by
  rw [restorePoint]
  split
  case isFalse => rfl
  case isTrue inside =>
    have beyond := outside.resolve_left inside.1
    have missing := List.getElem?_eq_none beyond
    simp only [missing]

variable {K V : Type} [DecidableEq K] {env : Env K V} {s : State K V} {sec : Nat}

/-- The saved insertion point is unset or outside a list of this length, or the saved tail
size fits it. -/
def SerializedListState.Fits (l : SerializedListState) (length spec : Nat) : Prop :=
  l.insertionPointPos.toNat = 2 ^ 32 - 1 ∨ length ≤ l.insertionPointPos.toNat ∨
    if spec = 0 then l.tailSize.toNat ≤ length - l.insertionPointPos.toNat
    else l.tailSize.toNat = length - l.insertionPointPos.toNat

/-- The list has no flags before the insertion point is restored. -/
theorem rebuildItems_flagged (wf : s.WellFormed env) (pinned : s.AllPinned)
    {items : List (SerializedItem K V)} : Flagged (rebuildItems env .mmLru s items) [] := by
  have survived := mmLru.flush_survives wf
  have relinked := foldl_relinked env .mmLru survived.wf.listed items
  intro i hi
  have clear : ((rebuildItems env .mmLru s items).heap i).hook.isTail = false := by
    obtain old | ⟨-, restored⟩ := relinked.origin 0 i hi
    · refine (congrArg (fun x : Item K V => x.hook.isTail)
        (relinked.old i (survived.wf.listed.lt 0 i old))).trans ?_
      exact flush_isTail pinned (survived.mem old).1
    · exact restored.isTail
  exact ⟨fun set => Bool.noConfusion (clear.symm.trans set), nofun⟩

section Point

variable {l : SerializedListState}

omit [DecidableEq K] in
theorem restorePoint_of_inside (set : l.insertionPointPos.toNat ≠ 2 ^ 32 - 1)
    (inside : l.insertionPointPos.toNat < (s.queue 0).length) :
    restorePoint s l =
      { markTail { s with tailSize := 0, insertionPoint := none } l.insertionPointPos.toNat
          l.tailSize.toNat with
        insertionPoint := some (s.queue 0)[l.insertionPointPos.toNat]
        tailSize := l.tailSize.toNat } := by
  have within : l.insertionPointPos.toNat <
      MmLru.size { s with tailSize := 0, insertionPoint := none } := by
    show _ < (s.queue 0).length + (s.queue 1).length + (s.queue 2).length
    omega
  have found := List.getElem?_eq_getElem inside
  rw [restorePoint, if_pos ⟨set, within⟩]
  simp only [found]

/-- Without an insertion point the segment is empty or set up anew. -/
theorem setConfig_of_unset (unset : s.insertionPoint = none) (zero : s.tailSize = 0)
    (flags : Flagged s []) (nodup : (s.queue 0).Nodup) (bound : (s.queue 0).length < range)
    (c : Config) : TailExact ((mmLru.policy env).setConfig s c sec) := by
  let configured : State K V := { s with settings := { s.settings with config := c } }
  have plain : TailExact configured := by
    have segment : tailSegment configured = [] := by simp only [tailSegment, configured, unset]
    refine ⟨?_, ?_, ?_⟩
    · rw [segment]
      exact List.nil_suffix
    · rw [segment]
      exact zero.symm
    · rw [segment]
      exact flags
  have respecified : TailExact (respecify configured) := by
    rw [respecify]
    split
    · have none : configured.insertionPoint = none := unset
      rw [none]
      exact plain
    · split
      · exact plain
      case isFalse spec nonempty =>
        exact updateLruInsertionPoint_of_unset spec unset flags
          (fun empty => nonempty (List.isEmpty_iff.mpr empty)) nodup bound
  exact ⟨respecified.suffix, respecified.length, respecified.flagged⟩

/-- With an insertion point it shows whether the size of the segment is right. -/
theorem setConfig_of_set {point : ItemId} (pointed : s.insertionPoint = some point)
    (suffix : tailSegment s <:+ s.queue 0) (nodup : (s.queue 0).Nodup)
    (bound : (s.queue 0).length < range) (small : s.tailSize < range)
    (flags : Flagged s ((tailSegment s).take s.tailSize)) (c : Config) :
    (mmLru.walksPastEnd s c = false ∧ TailExact ((mmLru.policy env).setConfig s c sec)) ↔
      if c.lruInsertionPointSpec = 0 then s.tailSize ≤ (tailSegment s).length
      else s.tailSize = (tailSegment s).length := by
  have segment : tailSegment s = point :: after s point := by rw [tailSegment, pointed]
  let configured : State K V := { s with settings := { s.settings with config := c } }
  have restarted : TailExact ((mmLru.policy env).setConfig s c sec) ↔
      TailExact (respecify configured) :=
    ⟨fun h => ⟨h.suffix, h.length, h.flagged⟩, fun h => ⟨h.suffix, h.length, h.flagged⟩⟩
  have walk : mmLru.walksPastEnd s c =
      (c.lruInsertionPointSpec == 0 && decide ((tailSegment s).length < s.tailSize)) := by
    simp only [walksPastEnd, pointed, segment]
  rw [restarted, walk]
  split
  case isTrue spec =>
    -- Whatever is flagged is walked over, unless the walk runs into the end of the list.
    have cleared : TailExact (respecify configured) :=
      respecify_tailExact spec pointed fun i hi set => (flags i hi).mp set
    simp [spec, cleared]
  case isFalse spec =>
    have nonempty : (configured.queue 0).isEmpty = false := by
      rw [List.isEmpty_eq_false_iff]
      intro empty
      rw [show s.queue 0 = [] from empty, segment] at suffix
      exact List.cons_ne_nil _ _ (List.suffix_nil.mp suffix)
    have slides := updateLruInsertionPoint_slides (s := configured) spec pointed suffix nodup bound
      small
    have moved : respecify configured = updateLruInsertionPoint configured := by
      rw [respecify, if_neg spec, nonempty]
      rfl
    rw [moved]
    simp only [beq_eq_false_iff_ne.mpr spec, Bool.false_and, true_and]
    constructor
    · intro exact_after
      have size : _ + (tailSegment s).length = s.tailSize + _ := slides.size
      have after := exact_after.length
      omega
    · intro right
      refine slides.tailExact ⟨suffix, right.symm, ?_⟩
      have all : (tailSegment s).take s.tailSize = tailSegment s := by
        rw [right, List.take_length]
      rw [all] at flags
      exact flags

omit [DecidableEq K] in
/-- A point inside the list starts the segment from its position on. -/
theorem restorePoint_segment (set : l.insertionPointPos.toNat ≠ 2 ^ 32 - 1)
    (inside : l.insertionPointPos.toNat < (s.queue 0).length) (nodup : (s.queue 0).Nodup) :
    (restorePoint s l).insertionPoint = some (s.queue 0)[l.insertionPointPos.toNat] ∧
      (restorePoint s l).tailSize = l.tailSize.toNat ∧
      tailSegment (restorePoint s l) = (s.queue 0).drop l.insertionPointPos.toNat := by
  have split := List.drop_eq_getElem_cons inside
  have suffix := List.drop_suffix l.insertionPointPos.toNat (s.queue 0)
  have queue : (restorePoint s l).queue 0 = s.queue 0 :=
    congrFun (restorePoint_unseen s l).quiet.queue_eq 0
  have pointed : (restorePoint s l).insertionPoint =
      some (s.queue 0)[l.insertionPointPos.toNat] := by rw [restorePoint_of_inside set inside]
  refine ⟨pointed, by rw [restorePoint_of_inside set inside], ?_⟩
  rw [split]
  exact tailSegment_of_suffix pointed (by rw [queue, ← split]; exact suffix) (queue ▸ nodup)

omit [DecidableEq K] in
/-- The walk of `set_config` runs past the end iff the saved tail is longer than the list
behind the saved position. -/
theorem walksPastEnd_restorePoint (nodup : (s.queue 0).Nodup) (c : Config) :
    mmLru.walksPastEnd (restorePoint s l) c = false ↔
      (c.lruInsertionPointSpec = 0 → l.Fits (s.queue 0).length 0) := by
  by_cases outside : l.insertionPointPos.toNat = 2 ^ 32 - 1 ∨
      (s.queue 0).length ≤ l.insertionPointPos.toNat
  · rw [restorePoint_of_outside outside]
    exact iff_of_true rfl fun _ => outside.elim .inl fun beyond => .inr (.inl beyond)
  · obtain ⟨set, inside⟩ := not_or.mp outside
    rw [Nat.not_le] at inside
    obtain ⟨pointed, tailSize, segment⟩ := restorePoint_segment set inside nodup
    have length := congrArg List.length segment
    rw [tailSegment, pointed, List.length_drop] at length
    simp only [walksPastEnd, pointed, length, tailSize, SerializedListState.Fits, set,
      Nat.not_le_of_lt inside, false_or, if_true, Bool.and_eq_false_imp, beq_iff_eq,
      decide_eq_false_iff_not, Nat.not_lt]

/-- The end of a load of `mm_lru`, for any saved position and tail size. -/
theorem restoredTail_iff (flags : Flagged s []) (nodup : (s.queue 0).Nodup)
    (bound : (s.queue 0).length < range) (c : Config) :
    (mmLru.walksPastEnd (restorePoint s l) c = false ∧
        TailExact ((mmLru.policy env).setConfig (restorePoint s l) c sec)) ↔
      l.Fits (s.queue 0).length c.lruInsertionPointSpec := by
  by_cases outside : l.insertionPointPos.toNat = 2 ^ 32 - 1 ∨
      (s.queue 0).length ≤ l.insertionPointPos.toNat
  · rw [restorePoint_of_outside outside]
    let unset : State K V := { s with tailSize := 0, insertionPoint := none }
    have clear : Flagged unset [] := flags
    have restored : TailExact ((mmLru.policy env).setConfig unset c sec) :=
      setConfig_of_unset rfl rfl clear nodup bound c
    exact iff_of_true ⟨rfl, restored⟩ (outside.elim .inl fun beyond => .inr (.inl beyond))
  · obtain ⟨set, inside⟩ := not_or.mp outside
    rw [Nat.not_le] at inside
    have suffix := List.drop_suffix l.insertionPointPos.toNat (s.queue 0)
    have queue : (restorePoint s l).queue 0 = s.queue 0 :=
      congrFun (restorePoint_unseen s l).quiet.queue_eq 0
    obtain ⟨pointed, tailSize, segment⟩ := restorePoint_segment set inside nodup
    have marked : Flagged (restorePoint s l)
        ((tailSegment (restorePoint s l)).take (restorePoint s l).tailSize) := by
      intro i hi
      have before : (s.heap i).hook.isTail = false := by
        have unset := (flags i (queue ▸ hi)).not.mpr List.not_mem_nil
        exact Bool.eq_false_iff.mpr unset
      have after : ((restorePoint s l).heap i).hook.isTail =
          if i ∈ ((s.queue 0).drop l.insertionPointPos.toNat).take l.tailSize.toNat then true
          else (s.heap i).hook.isTail := by
        rw [restorePoint_of_inside set inside]
        exact foldl_isTail
      rw [after, before, segment, tailSize]
      split
      case isTrue tail => exact iff_of_true rfl tail
      case isFalse front => exact iff_of_false Bool.false_ne_true front
    have small : (restorePoint s l).tailSize < range := by
      rw [tailSize]
      exact l.tailSize.toNat_lt.trans (by decide)
    rw [setConfig_of_set pointed (by rw [segment, queue]; exact suffix) (queue ▸ nodup)
      (queue ▸ bound) small marked c, segment, tailSize, List.length_drop, SerializedListState.Fits]
    simp only [set, Nat.not_le_of_lt inside, false_or]

end Point

end Lru.Persist
