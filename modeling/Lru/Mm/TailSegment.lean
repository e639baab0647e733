import Lru.Mm.MmLru

/-!
# The tail segment of `mm_lru`

With an insertion-point specification the last `tail_size_` nodes of the list carry a
flag, and the insertion point is the first of them. Moving the insertion point by one
node changes the flags and the size together. So a segment that is exact stays exact,
and a size that differs from the number of nodes keeps its difference.
-/

namespace Lru.Mm.MmLru

variable {K V : Type} {l : List ItemId} {expected : Nat}

open State SizeT

/-- The nodes from the insertion point to the end of the list. -/
def tailSegment (s : State K V) : List ItemId :=
  match s.insertionPoint with
  | none => []
  | some point => point :: after s point

/-- These nodes of the list carry the flag, and no others. -/
def Flagged (s : State K V) (l : List ItemId) : Prop :=
  ∀ i ∈ s.queue 0, (s.heap i).hook.isTail = true ↔ i ∈ l

/-- The flagged nodes are the last `tail_size_` nodes and begin at the insertion point. -/
structure TailExact (s : State K V) : Prop where
  suffix : tailSegment s <:+ s.queue 0
  length : (tailSegment s).length = s.tailSize
  flagged : Flagged s (tailSegment s)

section Segments

variable {s t u : State K V} {seg : List ItemId} {point i : ItemId} {front rest : List ItemId}

theorem around_point (queue : s.queue 0 = front ++ point :: rest) (nodup : (s.queue 0).Nodup) :
    before s point = front.reverse ∧ after s point = rest := by
  rw [queue] at nodup
  have other : ∀ i ∈ front, i ≠ point := fun i hi =>
    (List.nodup_append.mp nodup).2.2 i hi point List.mem_cons_self
  rw [before, after, queue, List.takeWhile_append_of_pos (by simpa using other),
    List.dropWhile_append_of_pos (by simpa using other)]
  simp

theorem tailSegment_of_suffix (pointed : s.insertionPoint = some point)
    (suffix : point :: rest <:+ s.queue 0) (nodup : (s.queue 0).Nodup) :
    tailSegment s = point :: rest := by
  obtain ⟨front, queue⟩ := suffix
  rw [tailSegment, pointed]
  simp only [(around_point queue.symm nodup).2]

/-- `t` is `s` with the segment `seg` moved to `seg'`. -/
structure Slides (s : State K V) (seg : List ItemId) (t : State K V) (seg' : List ItemId) :
    Prop where
  unseen : Unseen s t
  suffix : seg' <:+ s.queue 0
  size : t.tailSize + seg.length = s.tailSize + seg'.length
  small : t.tailSize < SizeT.range
  flagged : Flagged s seg → Flagged t seg'

theorem Slides.refl (suffix : seg <:+ s.queue 0) (small : s.tailSize < range) :
    Slides s seg s seg :=
  ⟨.refl, suffix, rfl, small, id⟩

theorem Slides.trans {mid last : List ItemId} (first : Slides s seg t mid)
    (second : Slides t mid u last) : Slides s seg u last where
  unseen := first.unseen.trans second.unseen
  suffix := first.unseen.quiet.queue_eq ▸ second.suffix
  size := by
    have one := first.size
    have two := second.size
    omega
  small := second.small
  flagged h := second.flagged (first.flagged h)

theorem isTail_modifyHook (s : State K V) (b : Bool) (i j : ItemId) :
    ((s.modifyHook i fun h => { h with isTail := b }).heap j).hook.isTail =
      if j = i then b else (s.heap j).hook.isTail := by
  by_cases same : j = i
  · subst same
    simp [State.modifyHook, State.modify]
  · simp [State.modifyHook, State.modify, same]

/-- The segment grows by the node in front of it. -/
theorem setTail_slides (queue : s.queue 0 = front ++ i :: seg)
    (room : s.tailSize + 1 < range) :
    Slides s seg (setTail s i) (i :: seg) where
  unseen := (setTail_marks s i).toUnseen
  suffix := ⟨front, queue.symm⟩
  size := by
    show fetchAdd s.tailSize 1 + _ = _
    rw [fetchAdd_of_lt room, List.length_cons]
    omega
  small := fetchAdd_lt
  flagged h j hj := by
    refine (Eq.congr_left (isTail_modifyHook s true i j)).trans ?_
    by_cases same : j = i
    · simp [same]
    · simpa [same] using h j hj

theorem clearTail_slides (suffix : i :: seg <:+ s.queue 0) (nodup : (s.queue 0).Nodup)
    (pos : 0 < s.tailSize) (small : s.tailSize < range) :
    Slides s (i :: seg) (clearTail s i) seg where
  unseen := (clearTail_marks s i).toUnseen
  suffix := (List.suffix_cons i seg).trans suffix
  size := by
    show fetchSub s.tailSize 1 + _ = _
    rw [fetchSub_of_le small pos, List.length_cons]
    omega
  small := fetchSub_lt
  flagged h j hj := by
    have fresh : i ∉ seg := (List.nodup_cons.mp (suffix.sublist.nodup nodup)).1
    refine (Eq.congr_left (isTail_modifyHook s false i j)).trans ?_
    by_cases same : j = i
    · simp [same, fresh]
    · simpa [same] using h j hj

theorem growTail_slides {rest : List ItemId} (bound : expected < range)
    (queue : s.queue 0 = l.reverse ++ point :: rest) (small : s.tailSize < range) :
    ∃ rest', Slides s (point :: rest) (growTail expected s point l).1
      ((growTail expected s point l).2 :: rest') := by
  induction l generalizing s point rest with
  | nil => exact ⟨rest, .refl ⟨_, queue.symm⟩ small⟩
  | cons prev more ih =>
    rw [growTail]
    split
    case isTrue short =>
      rw [List.reverse_cons, List.append_assoc, List.singleton_append] at queue
      have first := setTail_slides queue (by omega)
      obtain ⟨rest', later⟩ := ih (s := setTail s prev) queue first.small
      exact ⟨rest', first.trans later⟩
    case isFalse => exact ⟨rest, .refl ⟨_, queue.symm⟩ small⟩

theorem shrinkTail_slides (suffix : point :: l <:+ s.queue 0)
    (nodup : (s.queue 0).Nodup) (small : s.tailSize < range) :
    ∃ rest', Slides s (point :: l) (shrinkTail expected s point l).1
      ((shrinkTail expected s point l).2 :: rest') := by
  induction l generalizing s point with
  | nil => exact ⟨[], .refl suffix small⟩
  | cons next more ih =>
    rw [shrinkTail]
    split
    case isTrue long =>
      have first := clearTail_slides suffix nodup (by omega) small
      obtain ⟨rest', later⟩ := ih (s := clearTail s point) first.suffix nodup first.small
      exact ⟨rest', first.trans later⟩
    case isFalse => exact ⟨next :: more, .refl suffix small⟩

theorem resizeTail_slides (suffix : point :: rest <:+ s.queue 0) (nodup : (s.queue 0).Nodup)
    (bound : (s.queue 0).length < range) (small : s.tailSize < range) :
    ∃ point' rest', (resizeTail s point).insertionPoint = some point' ∧
      Slides s (point :: rest) (resizeTail s point) (point' :: rest') := by
  obtain ⟨front, queue⟩ := suffix
  have share : (s.queue 0).length >>> s.settings.config.lruInsertionPointSpec < range :=
    (Nat.shiftRight_le _ _).trans_lt bound
  have split : s.queue 0 = (before s point).reverse ++ point :: rest := by
    rw [(around_point queue.symm nodup).1, List.reverse_reverse, queue]
  obtain ⟨middle, grown⟩ := growTail_slides share split small
  set g := growTail ((s.queue 0).length >>> s.settings.config.lruInsertionPointSpec) s point
    (before s point) with g_def
  have same : g.1.queue 0 = s.queue 0 := congrFun grown.unseen.quiet.queue_eq 0
  obtain ⟨front', queue'⟩ := grown.suffix
  have after_eq : after g.1 g.2 = middle := (around_point (same.trans queue'.symm) (same ▸ nodup)).2
  obtain ⟨rest', shrunk⟩ := shrinkTail_slides (same ▸ grown.suffix) (same ▸ nodup) grown.small
  have whole := grown.trans shrunk
  rw [← after_eq] at whole
  refine ⟨_, rest', rfl, ⟨whole.unseen.trans ⟨rfl, rfl, rfl, rfl⟩, whole.suffix, whole.size,
    whole.small, whole.flagged⟩⟩

/-- `update_lru_insertion_point` with an insertion point in the list. -/
theorem updateLruInsertionPoint_slides (spec : s.settings.config.lruInsertionPointSpec ≠ 0)
    (pointed : s.insertionPoint = some point) (suffix : tailSegment s <:+ s.queue 0)
    (nodup : (s.queue 0).Nodup) (bound : (s.queue 0).length < range)
    (small : s.tailSize < range) :
    Slides s (tailSegment s) (updateLruInsertionPoint s)
      (tailSegment (updateLruInsertionPoint s)) := by
  have segment : tailSegment s = point :: after s point := by rw [tailSegment, pointed]
  have init : initInsertionPoint s = s := by rw [initInsertionPoint, pointed]
  rw [updateLruInsertionPoint, if_neg spec, init]
  simp only [pointed]
  split
  case isTrue =>
    exact ⟨⟨rfl, rfl, rfl, rfl⟩, suffix, rfl, small, id⟩
  case isFalse =>
    rw [segment] at suffix
    obtain ⟨point', rest', moved, slides⟩ := resizeTail_slides suffix nodup bound small
    have queue : (resizeTail s point).queue = s.queue := slides.unseen.quiet.queue_eq
    have new : tailSegment (notePosition (resizeTail s point)) = point' :: rest' :=
      tailSegment_of_suffix moved
        ((congrFun queue 0).symm ▸ slides.suffix) ((congrFun queue 0).symm ▸ nodup)
    rw [new, segment]
    exact ⟨slides.unseen.trans ⟨rfl, rfl, rfl, rfl⟩, slides.suffix, slides.size, slides.small,
      slides.flagged⟩

theorem Slides.tailExact (h : Slides s (tailSegment s) t (tailSegment t))
    (exact_before : TailExact s) : TailExact t where
  suffix := h.unseen.quiet.queue_eq ▸ h.suffix
  length := by
    have size := h.size
    have before := exact_before.length
    omega
  flagged := h.flagged exact_before.flagged

/-- The insertion point is set up at the tail of the list. -/
theorem initInsertionPoint_tailExact (unset : s.insertionPoint = none) (flags : Flagged s [])
    (nonempty : s.queue 0 ≠ []) (nodup : (s.queue 0).Nodup) :
    TailExact (initInsertionPoint s) ∧
      ∃ point, (initInsertionPoint s).insertionPoint = some point := by
  have last := List.dropLast_append_getLast nonempty
  set i := (s.queue 0).getLast nonempty with i_def
  have isTail : s.tail 0 = some i := List.getLast?_eq_some_getLast nonempty
  have init : initInsertionPoint s =
      setTail { s with insertionPoint := some i, tailSize := 0 } i := by
    rw [initInsertionPoint, unset]
    simp only [isTail]
  rw [init]
  have slides : Slides { s with insertionPoint := some i, tailSize := 0 } []
      (setTail { s with insertionPoint := some i, tailSize := 0 } i) [i] :=
    setTail_slides last.symm (by decide : 0 + 1 < range)
  have segment : tailSegment (setTail { s with insertionPoint := some i, tailSize := 0 } i) = [i] :=
    tailSegment_of_suffix rfl slides.suffix nodup
  refine ⟨⟨?_, ?_, ?_⟩, i, rfl⟩
  · rw [segment]
    exact slides.suffix
  · rw [segment]
    exact slides.size.symm
  · rw [segment]
    exact slides.flagged flags

/-- `update_lru_insertion_point` of a list without flags. -/
theorem updateLruInsertionPoint_of_unset (spec : s.settings.config.lruInsertionPointSpec ≠ 0)
    (unset : s.insertionPoint = none) (flags : Flagged s []) (nonempty : s.queue 0 ≠ [])
    (nodup : (s.queue 0).Nodup) (bound : (s.queue 0).length < range) :
    TailExact (updateLruInsertionPoint s) := by
  obtain ⟨exact_init, point, pointed⟩ := initInsertionPoint_tailExact unset flags nonempty nodup
  have unseen := initInsertionPoint_marks s
  have again : updateLruInsertionPoint s = updateLruInsertionPoint (initInsertionPoint s) := by
    have idem : initInsertionPoint (initInsertionPoint s) = initInsertionPoint s := by
      rw [initInsertionPoint, pointed]
    rw [updateLruInsertionPoint, updateLruInsertionPoint, idem, unseen.settings_eq, if_neg spec,
      if_neg spec]
  have queue : (initInsertionPoint s).queue 0 = s.queue 0 := congrFun unseen.quiet.queue_eq 0
  have small : (initInsertionPoint s).tailSize < range := by
    rw [← exact_init.length]
    exact (exact_init.suffix.length_le.trans_eq (congrArg List.length queue)).trans_lt bound
  rw [again]
  exact (updateLruInsertionPoint_slides (unseen.settings_eq ▸ spec) pointed exact_init.suffix
    (queue ▸ nodup) (queue ▸ bound) small).tailExact exact_init

end Segments

/-! ## Marking and clearing runs of nodes -/

section Runs

variable {s : State K V}

theorem foldl_isTail {b : Bool} {i : ItemId} :
    ((l.foldl (fun s i => s.modifyHook i fun h => { h with isTail := b }) s).heap i).hook.isTail =
      if i ∈ l then b else (s.heap i).hook.isTail := by
  induction l generalizing s with
  | nil => rfl
  | cons j rest ih =>
    rw [List.foldl_cons, ih, isTail_modifyHook]
    by_cases here : i = j <;> by_cases later : i ∈ rest <;> simp [later]

/-- `set_config` with specification zero clears what it walks over. -/
theorem respecify_tailExact {point : ItemId} (spec : s.settings.config.lruInsertionPointSpec = 0)
    (pointed : s.insertionPoint = some point)
    (flags : ∀ i ∈ s.queue 0, (s.heap i).hook.isTail = true → i ∈ (tailSegment s).take s.tailSize) :
    TailExact (respecify s) := by
  have segment : tailSegment s = point :: after s point := by rw [tailSegment, pointed]
  rw [respecify, if_pos spec, pointed]
  simp only [← segment]
  have unseen := foldl_isTail_marks s false ((tailSegment s).take s.tailSize)
  refine ⟨List.nil_suffix, rfl, fun i hi => ?_⟩
  have listed : i ∈ s.queue 0 := congrFun unseen.quiet.queue_eq 0 ▸ hi
  have clear : ((((tailSegment s).take s.tailSize).foldl
      (fun s i => s.modifyHook i fun h => { h with isTail := false }) s).heap i).hook.isTail =
        false := by
    rw [foldl_isTail]
    split
    case isTrue => rfl
    case isFalse kept => exact Bool.eq_false_iff.mpr fun set => kept (flags i listed set)
  exact ⟨fun set => Bool.noConfusion (clear.symm.trans set), fun mem => absurd mem List.not_mem_nil⟩

end Runs

end Lru.Mm.MmLru
