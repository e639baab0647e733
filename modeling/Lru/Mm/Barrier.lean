import Lru.Mm.Sweep
import Lru.Refcount.Word

/-!
# The pin barrier

Readers without a lock may hold the address of an item that leaves the cache. `incRef` turns
them away if the linked bit is clear, so a removal has to clear it before the item passes the
reclaimer. Evictions do in every strategy; some of the other removals only unlink the item from
its list.
-/

namespace Lru.Mm

variable {K V : Type} {env : Env K V} {s t : State K V} {i : ItemId} {key : K} {value : V}
  {expiryNs : Nat} {op : Op K V}

open State Transition Policy

/-- Every item outside the table, waiting for its handles or retired, has its linked bit
clear. -/
def Barrier (s : State K V) : Prop := ∀ i < s.next, i ∉ s.table → (s.heap i).linked = false

theorem Barrier.sheds (h : Barrier s) (shed : Sheds true s t) : Barrier t := by
  intro i hi gone
  by_cases before : i ∈ s.table
  · exact shed.cleared rfl i before gone
  · have same := shed.body i fun hi => absurd hi before
    exact (congrArg Body.linked same).trans (h i (shed.next_eq ▸ hi) before)

theorem Barrier.modify (h : Barrier s) (i : ItemId) {f : Item K V → Item K V}
    (linked : ∀ item, (f item).linked = item.linked) : Barrier (s.modify i f) := by
  intro j hj gone
  by_cases same : j = i
  · subst same
    simpa [State.modify, linked] using h j hj gone
  · simpa [State.modify, same] using h j hj gone

variable [DecidableEq K]

theorem barrier_linkNew {q : QueueId} {hook : Hook}
    (place : ItemId → List ItemId → List ItemId) (wf : s.WellFormed env)
    (absent : s.find env key = none) (h : Barrier s) :
    Barrier (s.linkNew env key value q expiryNs hook place) := by
  rw [linkNew_eq wf absent]
  intro i (hi : i < s.next + 1) gone
  have old : i ≠ s.next := fun new => gone (new ▸ List.mem_cons_self)
  have before : i ∉ s.table := fun hi => gone (List.mem_cons_of_mem _ hi)
  simpa [old] using h i (Nat.lt_of_le_of_ne (Nat.le_of_lt_succ hi) old) before

theorem barrier_closed (env : Env K V) : ShedClosed env (Barrier) where
  sheds shed h := h.sheds shed
  configured _ _ _ h := h
  counted _ i _ h := h.modify i fun _ => rfl
  valued _ i _ h := h.modify i fun _ => rfl
  linked value q expiryNs hook place liveCount wf absent _ h := by
    obtain ⟨l, pushed⟩ := ttlIndexPush_eq
    rw [pushed]
    exact barrier_linkNew place wf absent h
  linkedPlain value q hook place wf absent _ h := barrier_linkNew place wf absent h

theorem setWithExpiry_barrier {strategy : Strategy} {sec : Nat}
    (wf : s.WellFormed env) (h : Barrier s) :
    Barrier ((strategy.policy env).setWithExpiry env s key value expiryNs sec) := by
  have room := (barrier_closed env).keepsRoom strategy
  rw [setWithExpiry]
  split
  case h_1 absent => exact room.insertNew value expiryNs sec wf absent h
  case h_2 i found =>
    have updated := room.updateExisting (strategy.laws env) wf h
      ((find_eq_some_iff wf).mp found).1 value sec
    have stamped := updated.modify i (f := fun item => { item with expiryNs := expiryNs })
      fun _ => rfl
    split
    · exact stamped
    · obtain ⟨l, pushed⟩ := ttlIndexPush_eq
      rw [pushed]
      exact stamped

/-- A flush that meets pinned items only leaves them all. -/
theorem flush_sheds_of_pinned {strategy : Strategy} (wf : s.WellFormed env)
    (pinned : ∀ i ∈ s.table, (s.heap i).hasActiveHandle = true) :
    Sheds true s ((strategy.policy env).flush env s) := by
  have laws := strategy.laws env
  have frames := strategy.frames env
  refine laws.flush_keeps (fun note h => h.trans (.noted note))
    (fun {t i} toRetire _ hi h => h.trans ?_)
    (fun h => h.trans (.of_quiet (laws.afterFlush _) (frames.afterFlush _))) wf (.refl s)
  have held : (t.heap i).hasActiveHandle = true := by
    rw [Body.hasActiveHandle, h.count_eq]
    exact pinned i (h.mem i hi)
  rw [flushOne, if_pos held]
  exact .of_quiet (laws.keepFlushed t i) (frames.keepFlushed t i)

/-- A sweep that meets no due entry stops before it removes anything. -/
theorem evictExpiredN_sheds_of_later {p : Policy K V} {nowNs : Nat} {batchSize : Nat}
    (later : ∀ e ∈ s.ttlIndex, nowNs < e.1) :
    Sheds true s (p.evictExpiredN env s nowNs batchSize).2 := by
  have clean : Sheds true s _ := .cleanupIf p.cleanupOnSweep s
  set u := cleanupIf p.cleanupOnSweep s with u_def
  have stops : ∀ fuel, p.sweepLoop env nowNs batchSize fuel u 0 [] = (u, 0, []) := by
    intro fuel
    cases fuel with
    | zero => rfl
    | succ fuel =>
      rw [sweepLoop]
      split
      · rfl
      split
      · rfl
      case h_2 expiryNs key rest popped =>
        have listed := (popEarliest_spec popped).1.mem_iff.mpr List.mem_cons_self
        have after : nowNs < expiryNs := later _ (clean.index_eq ▸ listed)
        rw [if_pos after]
  rw [evictExpiredN]
  simp only [← u_def, stops]
  exact clean.trans (.of_heap rfl rfl rfl (List.append_nil _))

namespace Strategy

variable {strategy : Strategy}

/-- The removals of the strategy that clear the linked bit. -/
def unmarks (strategy : Strategy) : Op K V → Bool
  | .del _ | .evictExpiredN _ _ => strategy.clearsErased
  | .forceDel _ | .pop _ | .popLru => strategy.clearsForced
  | .flush => strategy.clearsFlushed
  | _ => true

/-- The call meets no item that it would take out. -/
def FindsNothing (env : Env K V) (strategy : Strategy) (s : State K V) : Op K V → Prop
  | .del key | .pop key => ∀ i, s.find env key = some i → (s.heap i).hasActiveHandle = true
  | .forceDel key => s.find env key = none
  | .popLru => (strategy.policy env).popTail s = none
  | .flush => ∀ i ∈ s.table, (s.heap i).hasActiveHandle = true
  | .evictExpiredN nowNs _ => ∀ e ∈ s.ttlIndex, nowNs < e.1
  | _ => True

/-- `pop_lru` meets a tail with a stable key, and what a call takes out loses its linked bit. -/
def Unmarks (env : Env K V) (strategy : Strategy) (s : State K V) (op : Op K V) : Prop :=
  strategy.PopsStable env s op ∧ (strategy.unmarks op = true ∨ strategy.FindsNothing env s op)

theorem step_sheds_of_findsNothing (wf : s.WellFormed env)
    (removes : op.removes = true) (nothing : strategy.FindsNothing env s op)
    (taken : strategy.step env s op = some t) : Sheds true s t := by
  have cleaned : Sheds true s s.cleanupPendingDeletion := .noted (.cleanup s)
  cases op with try cases taken
  | del key =>
    rw [del]
    simp only [(Rearranges.cleanup wf).find_eq wf, cleanup_heap]
    split
    · exact cleaned
    case h_2 i found =>
      rw [if_pos (nothing i found)]
      exact cleaned
  | forceDel key =>
    rw [forceDel]
    simp only [(Rearranges.cleanup wf).find_eq wf]
    rw [show s.find env key = none from nothing]
    exact cleaned
  | pop key =>
    have clean := Policy.Laws.cleanupIf_rearranges (strategy.policy env).cleanupOnPop wf
    have cleaned : Sheds true s _ := .cleanupIf (strategy.policy env).cleanupOnPop s
    rw [pop]
    simp only [clean.find_eq wf]
    split
    · exact cleaned
    case h_2 i found =>
      rw [if_pos ?_]
      · exact cleaned
      rw [Body.hasActiveHandle, cleaned.count_eq]
      exact nothing i found
  | popLru =>
    obtain ⟨-, rfl⟩ := of_guarded taken
    rw [popLru]
    simp only [(strategy.laws env).popTail_cleanup]
    rw [show (strategy.policy env).popTail s = none from nothing]
    exact cleaned
  | flush => exact flush_sheds_of_pinned wf nothing
  | evictExpiredN nowNs batchSize => exact evictExpiredN_sheds_of_later nothing
  | _ => cases removes

theorem step_barrier (wf : s.WellFormed env) (allowed : strategy.Unmarks env s op)
    (taken : strategy.step env s op = some t) (h : Barrier s) : Barrier t := by
  have laws := strategy.laws env
  have frames := strategy.frames env
  have closed := barrier_closed env
  have calm := (closed.keepsRoom strategy).toKeepsCalm
  cases unmarks : strategy.unmarks op with
  | false =>
    have removes : op.removes = true := by
      cases op <;> first | rfl | cases unmarks
    have nothing := allowed.2.resolve_left (by simp [unmarks])
    exact h.sheds (step_sheds_of_findsNothing wf removes nothing taken)
  | true =>
  cases op with
  | del key =>
    cases taken
    exact calm.del (fun event _ wf _ h => h.sheds (unmarks ▸ frames.erase event wf)) wf h key
  | forceDel key =>
    cases taken
    exact calm.forceDel wf h (fun wf found h => h.sheds (unmarks ▸ frames.takeOut wf found))
  | pop key =>
    cases taken
    exact calm.pop wf h (fun wf found h => h.sheds (unmarks ▸ frames.takeOut wf found))
  | popLru =>
    obtain ⟨-, rfl⟩ := of_guarded taken
    exact calm.popLru laws wf h
      (fun wf hi key h => h.sheds (unmarks ▸ frames.popItem laws wf hi key)) (allowed.1 rfl)
  | flush => cases taken; exact h.sheds (unmarks ▸ frames.flush laws wf)
  | evictExpiredN nowNs batchSize =>
    cases taken
    exact calm.evictExpiredN (fun event _ wf _ h => h.sheds (unmarks ▸ frames.erase event wf))
      (fun _ _ h => h) laws wf h nowNs batchSize
  | setWithExpiry key value expiryNs sec =>
    cases taken
    exact setWithExpiry_barrier wf h
  | setSizeCalculators _ _ => cases taken; exact h
  | _ => exact closed.step wf rfl rfl rfl taken h

/-- In a run whose removals clear the linked bit, no reader pins an item that has left the
cache: from any state of the refcount word that agrees with the bit, in any interleaving of
the methods but the one that links a new item, `incRef` fails. -/
theorem no_pin_of_unlinked {memory : ItemId → Item K V} {settings : Settings K V}
    {sketch : Sketch} {sec : Nat}
    (reached : Transition.Reaches (strategy.step env) (strategy.Unmarks env)
      (empty memory settings sketch sec) s) (i : ItemId) (allocated : i < s.next)
    (gone : i ∉ s.table) :
    (s.heap i).linked = false ∧ ∀ {θ : Type} [DecidableEq θ]
      {p q : CasLoop.Pool θ Refcount.Method Refcount.Word Refcount.Result},
      Refcount.Word.linked p.word = (s.heap i).linked →
      (∀ thread method old, p.running thread = some (method, old) → method ≠ .markInMMContainer) →
      Transition.Reaches (CasLoop.step Refcount.Method.round)
        (CasLoop.Begins (· ≠ .markInMMContainer)) p q →
      ∃ later, q.returned = p.returned ++ later ∧
        ∀ e ∈ later, ¬ (e.1 = .incRef ∧ e.2 = .inc .kIncOk) := by
  have both := reached.invariant (P := fun s => s.WellFormed env ∧ Barrier s)
    ⟨empty_wf memory settings sketch sec, fun i hi => absurd hi (by simp [empty])⟩ ?_
  · have unlinked : (s.heap i).linked = false := both.2 i allocated gone
    exact ⟨unlinked, fun agrees begun later =>
      Refcount.no_pin_after_unlink (agrees.trans unlinked) begun later⟩
  rintro s op t ⟨wf, h⟩ allowed taken
  exact ⟨step_wf wf allowed.1 taken, step_barrier wf allowed taken h⟩

/-- Two readers have read the word of an item before it was deleted, and neither pins it. -/
theorem deleted_item_not_pinned :
    ∃ s : State Nat Nat, runWhere (mmLru.step intEnv) (fun _ op => !op.isPopLru)
      (empty (fun _ => default) {} {} 0) [.set 1 10 0, .del 1] = some s ∧ 0 < s.next ∧
      0 ∉ s.table ∧ (s.heap 0).linked = false ∧
      ∀ q, Transition.Reaches (CasLoop.step Refcount.Method.round)
        (CasLoop.Begins (· ≠ .markInMMContainer))
        ⟨0#64, fun _ : Bool => some (.incRef, 1#64 <<< 32), []⟩ q →
          ∀ e ∈ q.returned, ¬ (e.1 = .incRef ∧ e.2 = .inc .kIncOk) := by
  obtain ⟨s, executed⟩ := Option.isSome_iff_exists.mp (show (runWhere
    (mmLru.step intEnv) (fun _ op => !op.isPopLru) (empty (fun _ => default) {} {} 0)
    [.set 1 10 0, .del 1]).isSome = true by decide +kernel)
  have left : (some s).map (fun s => decide (0 < s.next ∧ 0 ∉ s.table)) = some true := by
    rw [← executed]
    decide +kernel
  obtain ⟨allocated, gone⟩ : 0 < s.next ∧ 0 ∉ s.table := by simpa using left
  have reached : Transition.Reaches (mmLru.step intEnv) (mmLru.Unmarks intEnv)
      (empty (fun _ => default) {} {} 0) s := by
    refine (Transition.Reaches.of_runWhere executed).weaken fun s op other => ⟨?_, .inl ?_⟩
    · rintro rfl
      cases other
    · cases op <;> rfl
  obtain ⟨unlinked, barred⟩ := no_pin_of_unlinked reached 0 allocated gone
  refine ⟨s, executed, allocated, gone, unlinked, fun q interleaved => ?_⟩
  obtain ⟨later, returned, none⟩ := barred (unlinked.symm ▸ by decide)
    (fun _ _ _ begun => by cases begun; decide) interleaved
  rwa [returned]

/-- `mm_fifo` pops an item, and a reader that found it before pins it afterwards. -/
theorem popped_item_pinned :
    ((run (mmFifo.step intEnv) (empty (fun _ => default) {} {} 0)
      [.set 1 10 0, .pop 1]).map fun s => (s.retired, s.table, (s.heap 0).linked)) =
        some ([0], [], true) ∧
      ((run (CasLoop.step Refcount.Method.round) ⟨1#64 <<< 32, fun _ : Unit => none, []⟩
        [.load () .incRef, .attempt () false]).map fun q => (q.returned, q.word)) =
        some ([(.incRef, .inc .kIncOk)], 1#64 <<< 32 + 1) := by
  decide +kernel

end Strategy

end Lru.Mm
