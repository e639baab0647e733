import Lru.Mm.Strategy

/-!
# From the window of `mm_wtiny_lfu` to its main part

The window is drained from its tail down to its share, up to the first pinned item, and
the admission loop then exchanges tails of the window and of Probation. Neither changes
who is resident, and the window ends within its share exactly when none of the items
beyond the share is pinned.
-/

namespace Lru.Mm

variable {K V : Type} {env : Env K V} {s t : State K V} {kept : Nat}

open State Strategy

namespace Window

variable {i : ItemId} {share fuel : Nat}

/-- The part of the window that draining leaves: at least the share, and more only up to
a pinned item. -/
structure Drained (share : Nat) (s t : State K V) (kept : Nat) : Prop where
  share_le : share ≤ kept
  kept_le : kept ≤ max share (s.queue kTinyQueue).length
  window : t.queue kTinyQueue = (s.queue kTinyQueue).take kept
  unpinned : ∀ i ∈ (s.queue kTinyQueue).drop kept, (s.heap i).hasActiveHandle = false
  pinned : share < kept → ∃ i ∈ ((s.queue kTinyQueue).take kept).getLast?,
    (s.heap i).hasActiveHandle = true

theorem Drained.of_short (short : (s.queue kTinyQueue).length ≤ share) :
    Drained share s s share where
  share_le := le_rfl
  kept_le := le_max_left _ _
  window := (List.take_of_length_le short).symm
  unpinned := by simp [List.drop_eq_nil_of_le short]
  pinned lt := absurd lt (lt_irrefl _)

theorem Drained.of_pinned (long : share < (s.queue kTinyQueue).length)
    (stops : s.unpinnedTailOf kTinyQueue = none) :
    Drained share s s (s.queue kTinyQueue).length where
  share_le := long.le
  kept_le := le_max_right _ _
  window := List.take_length.symm
  unpinned := by simp
  pinned _ := by
    rw [List.take_length]
    rw [unpinnedTailOf] at stops
    cases isTail : s.tail kTinyQueue with
    | none =>
      rw [tail, List.getLast?_eq_none_iff] at isTail
      simp [isTail] at long
    | some i =>
      rw [isTail] at stops
      refine ⟨i, isTail, ?_⟩
      by_contra unpinned
      simp [unpinned] at stops

/-- One round of the loop, followed by the rest of it. -/
theorem Drained.of_round (wf : s.WellFormed env)
    (isTail : s.unpinnedTailOf kTinyQueue = some i)
    (long : share < (s.queue kTinyQueue).length)
    (rest : Drained share (s.moveToQueue i kNextQueue false) t kept) :
    Drained share s t kept := by
  have split := queue_eq_moveToQueue_append wf (tail_of_unpinnedTailOf isTail).1
    (show kTinyQueue ≠ kNextQueue by decide) false
  have handle : ∀ j, ((s.moveToQueue i kNextQueue false).heap j).hasActiveHandle =
      (s.heap j).hasActiveHandle := by
    intro j
    rw [Body.hasActiveHandle, moveToQueue_accessRef, Body.hasActiveHandle]
  obtain ⟨share_le, kept_le, window, unpinned, pinned⟩ := rest
  generalize (s.moveToQueue i kNextQueue false).queue kTinyQueue = front at *
  have longer : (s.queue kTinyQueue).length = front.length + 1 := by simp [split]
  have within : kept ≤ front.length := by omega
  have same : (s.queue kTinyQueue).take kept = front.take kept := by
    rw [split, List.take_append_of_le_length within]
  refine ⟨share_le, by omega, window.trans same.symm, fun j hj => ?_, fun lt => ?_⟩
  · rw [split, List.drop_append_of_le_length within, List.mem_append, List.mem_singleton] at hj
    obtain later | rfl := hj
    · exact (handle j).symm.trans (unpinned j later)
    · rw [Body.hasActiveHandle, (unpinnedTailOf_spec wf isTail).2]
      rfl
  · obtain ⟨j, last, held⟩ := pinned lt
    exact ⟨j, same ▸ last, (handle j).symm.trans held⟩

/-- With enough fuel the loop runs to its end, and more fuel changes nothing. -/
theorem drainTiny_ends (wf : s.WellFormed env)
    (enough : (s.queue kTinyQueue).length ≤ share + fuel) :
    (∃ kept, Drained share s (drainTiny (fun _ => share) fuel s) kept) ∧
      ∀ more, drainTiny (fun _ => share) (fuel + more) s = drainTiny (fun _ => share) fuel s := by
  induction fuel generalizing s with
  | zero =>
    refine ⟨⟨share, .of_short enough⟩, fun more => ?_⟩
    cases more with
    | zero => rfl
    | succ more =>
      rw [Nat.add_zero] at enough
      rw [Nat.zero_add, drainTiny, drainTiny, if_neg (Nat.not_lt.mpr enough)]
  | succ fuel ih =>
    simp only [Nat.succ_add, drainTiny]
    split
    case isFalse short => exact ⟨⟨share, .of_short (Nat.le_of_not_lt short)⟩, fun _ => rfl⟩
    case isTrue long =>
      cases isTail : s.unpinnedTailOf kTinyQueue with
      | none => exact ⟨⟨_, .of_pinned long isTail⟩, fun _ => rfl⟩
      | some i =>
        have moved := moveToQueue_moves wf (unpinnedTailOf_spec wf isTail).1 kNextQueue false
        have split := queue_eq_moveToQueue_append wf (tail_of_unpinnedTailOf isTail).1
          (show kTinyQueue ≠ kNextQueue by decide) false
        have shorter := congrArg List.length split
        rw [List.length_append, List.length_singleton] at shorter
        obtain ⟨⟨kept, rest⟩, same⟩ := ih moved.wf (by omega)
        exact ⟨⟨kept, rest.of_round wf isTail long⟩, same⟩

/-- The window ends within its share unless a pinned item lies beyond it. -/
theorem Drained.length_le_iff (drained : Drained share s t kept) :
    (t.queue kTinyQueue).length ≤ share ↔
      ∀ i ∈ (s.queue kTinyQueue).drop share, (s.heap i).hasActiveHandle = false := by
  rw [drained.window, List.length_take]
  have least := drained.share_le
  have most := drained.kept_le
  constructor
  · intro within
    have exact : kept = share := by omega
    exact exact ▸ drained.unpinned
  · intro unpinned
    by_contra beyond
    have more : share < kept := by omega
    obtain ⟨i, last, held⟩ := drained.pinned more
    have place : i ∈ (s.queue kTinyQueue).drop share := by
      obtain ⟨front, split⟩ := List.getLast?_eq_some_iff.mp last
      have position : front.length + 1 = kept := by
        have length := congrArg List.length split
        rw [List.length_take, List.length_append, List.length_singleton] at length
        omega
      rw [← List.take_append_drop kept (s.queue kTinyQueue), split, List.append_assoc,
        List.drop_append_of_le_length (by omega)]
      simp
    rw [unpinned i place] at held
    cases held

end Window

namespace MmWTinyLfu

open Window

variable {i candidate probTail : ItemId} {capacity tries : Nat}

/-- An exchange of tails leaves both lists as long as they were. -/
theorem swapTails_window (wf : s.WellFormed env) (hc : candidate ∈ s.queue kTinyQueue)
    (hp : probTail ∈ s.queue kProbationQueue) :
    ((swapTails s candidate probTail).queue kTinyQueue).length = (s.queue kTinyQueue).length := by
  have lost := moveToQueue_moves wf (mem_of_queue wf hp) kTinyQueue true
  have apart : probTail ∉ s.queue kTinyQueue := not_mem_other_queue wf hp (by decide)
  have joined : (s.moveToQueue probTail kTinyQueue true).queue kTinyQueue =
      s.queue kTinyQueue ++ [probTail] := by
    rw [moveToQueue_queue_tail wf, List.erase_of_not_mem apart]
  rw [swapTails, moveToQueue_queue_other lost.wf (by decide), joined,
    List.length_erase_of_mem (List.mem_append_left _ hc), List.length_append,
    List.length_singleton, Nat.add_sub_cancel]

theorem admitLoop_window (wf : s.WellFormed env) :
    ((admitLoop env capacity tries s).queue kTinyQueue).length = (s.queue kTinyQueue).length := by
  induction tries generalizing s with
  | zero => rfl
  | succ tries ih =>
    rw [admitLoop]
    split
    · rfl
    split
    · rfl
    case h_2 probTail isProb =>
      have hp := List.mem_of_getLast? (tail_of_unpinnedTailOf isProb).1
      split
      · rfl
      case h_2 candidate isTiny =>
        have hc := List.mem_of_getLast? (tail_of_unpinnedTailOf isTiny).1
        split
        · have swapped := swapTails_moves wf (mem_of_queue wf hc) (mem_of_queue wf hp)
          rw [ih swapped.wf, swapTails_window wf hc hp]
        · have home : (s.heap probTail).queueId = kProbationQueue :=
            wf.queue_id _ _ hp
          rw [moveToHead, home]
          rfl

/-- The window after `maybe_promote_from_tiny`. -/
theorem maybePromoteFromTiny_window (wf : s.WellFormed env) :
    ((maybePromoteFromTiny env s).queue kTinyQueue).length ≤ expectedTinySize env s ↔
      ∀ i ∈ (s.queue kTinyQueue).drop (expectedTinySize env s),
        (s.heap i).hasActiveHandle = false := by
  have moved := drainTiny_moves (fun _ => expectedTinySize env s) (s.queue kTinyQueue).length wf
  obtain ⟨kept, drained⟩ : ∃ kept, Drained (expectedTinySize env s) s
      (drainTiny (fun _ => expectedTinySize env s) (s.queue kTinyQueue).length s) kept :=
    (drainTiny_ends wf (Nat.le_add_left _ _)).1
  rw [← drained.length_le_iff, maybePromoteFromTiny, admitToProbation]
  split
  · rfl
  · rw [admitLoop_window moved.wf]

/-- In every well-formed state, for all frequencies: the routines between the window,
Probation and Protection keep the residents, the drain loop comes to its end, and the
window is within its share afterwards unless a pinned item lies beyond it. -/
theorem promotion_conserves (wf : s.WellFormed env) :
    KeepsResidents s (maybePromoteFromTiny env s) ∧
      KeepsResidents s (admitToProbation env s) ∧
      (∀ candidate ∈ s.queue kTinyQueue, ∀ probTail ∈ s.queue kProbationQueue,
        KeepsResidents s (swapTails s candidate probTail)) ∧
      (∀ i ∈ s.queue kProbationQueue, KeepsResidents s (tryPromoteToProtection env s i)) ∧
      (∀ more, admitToProbation env (drainTiny (fun _ => expectedTinySize env s)
        ((s.queue kTinyQueue).length + more) s) = maybePromoteFromTiny env s) ∧
      (((maybePromoteFromTiny env s).queue kTinyQueue).length ≤
          expectedTinySize env (maybePromoteFromTiny env s) ↔
        ∀ i ∈ (s.queue kTinyQueue).drop (expectedTinySize env s),
          (s.heap i).hasActiveHandle = false) := by
  have moved := maybePromoteFromTiny_moves wf
  have share : expectedTinySize env (maybePromoteFromTiny env s) = expectedTinySize env s := by
    rw [expectedTinySize, size, moved.table_eq, moved.settings_eq]
    rfl
  refine ⟨moved.keepsResidents, (admitToProbation_moves wf).keepsResidents,
    fun candidate hc probTail hp => ?_, fun i hi => ?_, fun more => ?_, ?_⟩
  · exact (swapTails_moves wf (mem_of_queue wf hc) (mem_of_queue wf hp)).keepsResidents
  · exact (tryPromoteToProtection_moves wf (mem_of_queue wf hi)).keepsResidents
  · rw [(drainTiny_ends wf (Nat.le_add_left _ _)).2, maybePromoteFromTiny]
  · rw [share]
    exact maybePromoteFromTiny_window wf

/-- `mm_wtiny_lfu` for 100 items after `set(1, 10)`, a `get(1)` whose handle is kept,
and `set(2, 20)`. -/
def pinnedWindow : State Nat Nat :=
  let p := policy Strategy.intEnv
  let s := p.set Strategy.intEnv
    (State.empty (fun _ => default) { maxSize := 100 } {} 0) 1 10 0
  p.set Strategy.intEnv (p.get Strategy.intEnv s 1 0).2 2 20 0

theorem pinnedWindow_reachable : mmWTinyLfu.Reachable intEnv pinnedWindow := by
  have executed : Transition.runWhere (mmWTinyLfu.step intEnv)
      (fun _ op => !op.isPopLru) (State.empty (fun _ => default) { maxSize := 100 } {} 0)
      [.set 1 10 0, .get 1 0, .set 2 20 0] = some pinnedWindow := rfl
  exact .of_run executed

/-- The pinned item at the tail keeps the window above its share of one, with room for
98 more items in the main part. -/
theorem pinned_tail_keeps_window :
    mmWTinyLfu.Reachable intEnv pinnedWindow ∧
      (maybePromoteFromTiny intEnv pinnedWindow).queue kTinyQueue = [1, 0] ∧
      expectedTinySize intEnv (maybePromoteFromTiny intEnv pinnedWindow) = 1 :=
  ⟨pinnedWindow_reachable, by decide +kernel, by decide +kernel⟩

theorem released_window_drained :
    ((maybePromoteFromTiny intEnv (pinnedWindow.decRef 0)).queue kTinyQueue).length ≤
      expectedTinySize intEnv
        (maybePromoteFromTiny intEnv (pinnedWindow.decRef 0)) := by
  have wf : (pinnedWindow.decRef 0).WellFormed intEnv :=
    WellFormed.write (.count (· - 1)) pinnedWindow_reachable.wf
  exact (promotion_conserves wf).2.2.2.2.2.mpr (by decide +kernel)

end MmWTinyLfu

end Lru.Mm
