import Lru.Mm.Invariants

/-!
# The lists that a strategy uses

`mm_lru` and `mm_fifo` link everything in one list and `mm_tiny_lfu` in two. The parts of
these strategies stay in their lists, so in every reachable state the other lists are
empty.
-/

namespace Lru.Mm

variable {K V : Type} {env : Env K V} {s t : State K V} {used : QueueId → Prop} {key : K}
  {expiryNs mem curr : Nat} {p : Policy K V}

open State

def State.Confined (used : QueueId → Prop) (s : State K V) : Prop := ∀ q, ¬ used q → s.queue q = []

namespace State.Confined

section Kept

variable (h : s.Confined used) {i : ItemId} {q : QueueId} {remove : State K V → ItemId → State K V}
  {v : ItemId} {value : V} {hook : Hook}

include h

theorem of_queue_eq (same : t.queue = s.queue) : t.Confined used :=
  fun q other => (congrFun same q).trans (h q other)

theorem quiet (quiet : Quiet s t) : t.Confined used := h.of_queue_eq quiet.queue_eq

theorem used_of_mem (wf : s.WellFormed env) (hi : i ∈ s.table) : used (s.heap i).queueId := by
  by_contra other
  have linked : i ∈ s.queue (s.heap i).queueId := wf.mem_queue hi
  rw [h _ other] at linked
  exact List.not_mem_nil linked

theorem setQueue (inUse : used q) {l : List ItemId} : (s.setQueue q l).Confined used := by
  intro p other
  have apart : p ≠ q := fun same => other (same ▸ inUse)
  simp [State.setQueue, apart, h p other]

theorem unlink : (s.unlink i).Confined used := by
  intro q other
  by_cases home : q = (s.heap i).queueId
  · subst home
    simp [State.unlink, State.setQueue, h _ other]
  · simp [State.unlink, State.setQueue, home, h q other]

theorem unlinks (left : Unlinks s t i) : t.Confined used := by
  obtain ⟨b, core⟩ := left.core_eq
  exact h.unlink.of_queue_eq (congrArg Core.queue core)

theorem moveToQueue (inUse : used q) (i : ItemId) (toTail : Bool) :
    (s.moveToQueue i q toTail).Confined used :=
  h.unlink.setQueue inUse

theorem moveToHead (wf : s.WellFormed env) (hi : i ∈ s.table) : (s.moveToHead i).Confined used :=
  h.setQueue (h.used_of_mem wf hi)

theorem cleanup : s.cleanupPendingDeletion.Confined used := h.of_queue_eq (cleanup_queue s)

/-- A strategy's own unlinking, after bookkeeping. -/
theorem removed (wf : s.WellFormed env) (hv : v ∈ s.table)
    (unlinks : ∀ {u : State K V}, (u.heap v).linked = true → Unlinks u (remove u v) v)
    (queue : t.queue = s.queue) (heap : t.heap = s.heap) : (remove t v).Confined used :=
  (h.of_queue_eq queue).unlinks (unlinks (heap ▸ linked_of_mem wf hv))

theorem evictVictim [DecidableEq K] (wf : s.WellFormed env) (hv : v ∈ s.table)
    (unlinks : ∀ {u : State K V}, (u.heap v).linked = true → Unlinks u (remove u v) v) :
    (s.evictVictim env remove v).Confined used := by
  rw [State.evictVictim]
  split
  · refine Confined.of_queue_eq ?_ rfl
    exact h.removed wf hv unlinks collect_queue collect_heap
  · exact h

theorem linkNew [DecidableEq K]
    {place : ItemId → List ItemId → List ItemId} (inUse : used q) :
    (s.linkNew env key value q expiryNs hook place).Confined used := by
  intro p other
  have apart : p ≠ q := fun same => other (same ▸ inUse)
  rw [State.linkNew, State.insertNode]
  split <;> simp [State.setQueue, State.modify, apart, h p other]

theorem linkAtHead [DecidableEq K] {liveCount size : State K V → Nat}
    (inUse : used q) :
    (s.linkAtHead env key value q expiryNs hook liveCount size mem).Confined used :=
  (h.linkNew inUse).quiet (linkAtHead_quiet ..)

end Kept

theorem flushOne [DecidableEq K] (laws : p.Laws env) {i : ItemId}
    {toRetire : List ItemId} (wf : s.WellFormed env) (hi : i ∈ s.table) (h : s.Confined used) :
    (p.flushOne env (s, toRetire) i).1.Confined used := by
  rw [Policy.flushOne]
  split
  · exact h.quiet (laws.keepFlushed s i)
  · split
    · exact h.removed wf hi laws.removeFlushed collect_queue collect_heap
    · exact h

end State.Confined

/-- A strategy stays in its lists if its searches, insertions and accesses do. -/
theorem Policy.Laws.keepsConfined [DecidableEq K] (laws : p.Laws env)
    (accessed : ∀ {s : State K V} {i} mode sec, s.WellFormed env → i ∈ s.table →
      s.Confined used → (p.recordAccess s i mode sec).2.Confined used)
    (afterGet : ∀ {s : State K V} i, s.WellFormed env → s.Confined used →
      (p.afterGet s i).Confined used)
    (evict : ∀ {s : State K V}, s.WellFormed env → s.Confined used → (p.evict s).Confined used)
    (insertNew : ∀ {s : State K V} {key} value expiryNs sec, s.WellFormed env →
      s.find env key = none → s.Confined used →
      (p.insertNew s key value expiryNs sec).Confined used)
    (reconfigure : ∀ {s : State K V} sec, s.WellFormed env → s.Confined used →
      (p.reconfigure s sec).Confined used) : p.KeepsLists env (State.Confined used) where
  framed h same _ := h.of_queue_eq same
  accessed := accessed
  afterGet := afterGet
  evict := evict
  insertNew := insertNew
  removeErased linked h := h.unlinks (laws.removeErased linked)
  removeForced linked h := h.unlinks (laws.removeForced linked)
  flush wf h := laws.flush_keeps
    (fun note h => by obtain ⟨_, _, _, _, _, rfl, -⟩ := note; exact h.of_queue_eq rfl)
    (fun toRetire wf hi h => h.flushOne laws wf hi)
    (fun h => h.quiet (laws.afterFlush _)) wf h
  beforeResize n h := h.quiet (laws.beforeResize _ n)
  afterResize h := h.quiet (laws.afterResize _)
  reconfigure := reconfigure

/-! ## One list -/

def State.OneList (s : State K V) : Prop := ∀ q, q ≠ 0 → s.queue q = []

theorem State.OneList.of_queue_eq (one : s.OneList) (same : t.queue = s.queue) : t.OneList :=
  Confined.of_queue_eq one same

theorem State.OneList.liveItems (one : s.OneList) : s.liveItems = s.queue 0 := by
  rw [State.liveItems, one 1 (by decide), one 2 (by decide), List.append_nil, List.append_nil]

namespace MmFifo

variable [DecidableEq K]

theorem evict_confined (wf : s.WellFormed env) (h : s.Confined (· = 0)) :
    (evict env s).Confined (· = 0) := by
  have clean := Rearranges.cleanup wf
  rw [evict]
  split
  · exact h.cleanup
  case h_2 v found =>
    exact h.cleanup.evictVictim clean.wf (searchQueue_spec clean.wf found).1
      fun {u} _ => unlinkAndUnmark_unlinks

theorem keepsOneList (env : Env K V) : (policy env).KeepsLists env State.OneList := by
  refine (laws env).keepsConfined (fun _ _ _ _ h => h) (fun _ _ h => h) evict_confined ?_
    fun _ _ h => h
  intro s key value expiryNs sec wf absent h
  exact (insertParts env).insertNew_keeps (fun _ h => h.cleanup)
    (makeRoom_keeps evict_confined)
    (fun _ {s} _ _ h => Confined.linkAtHead h rfl) wf absent h

theorem set_oneList (wf : s.WellFormed env) (one : s.OneList) (key : K) (value : V) (sec : Nat) :
    ((policy env).set env s key value sec).OneList :=
  ((keepsOneList env).keeps (laws env)).set (laws env) wf one

end MmFifo

namespace MmLru

theorem promote_queue {i : ItemId} : (promote env s i curr).queue = (s.moveToHead i).queue := by
  have prepared := (prepared_marks env s i curr).quiet
  have home : ((ensureNotInsertionPoint (reconfigureLocked env s curr) i).heap i).queueId =
      (s.heap i).queueId := congrArg Body.queueId (prepared.body_eq i)
  have moved : ((ensureNotInsertionPoint (reconfigureLocked env s curr) i).moveToHead i).queue =
      (s.moveToHead i).queue := by
    simp only [moveToHead, setQueue, home, prepared.queue_eq]
  unfold promote
  simp only
  split
  · refine (updateLruInsertionPoint_marks _).quiet.queue_eq.trans ?_
    exact (clearTail_marks _ i).quiet.queue_eq.trans moved
  · exact moved

/-- An access moves its item to the head or nothing at all. -/
theorem recordAccessAt_queue (env : Env K V) (s : State K V) (i : ItemId) (mode : AccessMode)
    (curr : Nat) : (recordAccessAt env s i mode curr).2.queue =
      if (recordAccessAt env s i mode curr).1 then (s.moveToHead i).queue else s.queue := by
  unfold recordAccessAt
  split
  · rfl
  split
  · rfl
  split
  · refine promote_queue.trans ?_
    simp [State.moveToHead, State.setQueue, State.modifyHook, State.modify]
  split
  · rfl
  · exact promote_queue

variable [DecidableEq K]

theorem evictLru_confined (wf : s.WellFormed env) (h : s.Confined (· = 0)) :
    (evictLru env s).Confined (· = 0) := by
  have searched := findEvictionVictim_unseen s.cleanupPendingDeletion
  have kept := h.cleanup.quiet searched.quiet
  cases search : findEvictionVictim s.cleanupPendingDeletion with
  | mk victim u =>
    rw [search] at kept
    cases victim with
    | none =>
      rw [evictLru_of_missed search]
      exact kept
    | some v =>
      obtain ⟨wfu, mem, -⟩ := found_spec wf search
      rw [evictLru_of_found wf search]
      exact Confined.of_queue_eq (kept.evictVictim wfu mem removeFromList_unlinks) rfl

theorem link_confined {value : V} {sec : Nat} (h : s.Confined (· = 0)) :
    (link env s key value expiryNs sec mem).Confined (· = 0) := by
  refine Confined.quiet ?_ (updateLruInsertionPoint_marks _).quiet
  refine Confined.quiet ?_ (.noteInsertion _ _)
  split
  · exact h.linkNew rfl
  · exact (h.linkNew rfl).quiet .ttlIndexPush

theorem keepsOneList (env : Env K V) : (policy env).KeepsLists env State.OneList := by
  refine (laws env).keepsConfined ?_ (fun _ _ h => h) evictLru_confined ?_ ?_
  · intro s i mode sec wf hi h
    have queue := recordAccessAt_queue env s i mode sec
    split at queue
    · exact (h.moveToHead wf hi).of_queue_eq queue
    · exact h.of_queue_eq queue
  · intro s key value expiryNs sec wf absent h
    refine insertNew_keeps evictLru_confined (fun _ _ => link_confined) wf absent h fun note h => ?_
    obtain ⟨_, _, _, _, _, rfl, -⟩ := note
    exact h.of_queue_eq rfl
  · intro s sec wf h
    exact h.quiet (reconfigure_unseen s sec).quiet

end MmLru

/-! ## Two lists -/

namespace MmTinyLfu

open Window

theorem promoteItem_confined {i : ItemId} (wf : s.WellFormed env) (hi : i ∈ s.table)
    (h : s.Confined used) : (promoteItem env s i curr).Confined used := by
  have retuned : Unseen s (s.reconfigureLocked env curr (s.tail kMainQueue)) := .reconfigureLocked
  exact ((h.quiet retuned.quiet).moveToHead (retuned.quiet.wf wf)
    (retuned.quiet.table_eq ▸ hi)).of_queue_eq rfl

variable [DecidableEq K]

def inUse (q : QueueId) : Prop := q = kTinyQueue ∨ q = kMainQueue

theorem evictGeneric_confined {i : ItemId} (wf : s.WellFormed env) (hi : i ∈ s.table)
    (h : s.Confined used) : (s.evictGeneric env i).2.Confined used := by
  rw [evictGeneric]
  split
  · exact Confined.of_queue_eq (h.evictVictim wf hi fun {u} _ => unlinkAndUnmark_unlinks) rfl
  · exact h

theorem evict_confined (wf : s.WellFormed env) (h : s.Confined used) :
    (evict env s).Confined used := by
  have clean := Rearranges.cleanup wf
  rw [evict]
  split
  · exact h.cleanup
  case h_2 v found =>
    exact evictGeneric_confined clean.wf (findVictim_spec clean.wf found).1 h.cleanup

theorem maybePromoteFromTiny_confined (wf : s.WellFormed env) (h : s.Confined inUse) :
    (maybePromoteFromTiny env s).Confined inUse :=
  promoteLoop_keeps (fun _ _ h => h.moveToQueue (.inr rfl) _ _)
    (fun wf hi _ h => evictGeneric_confined wf hi h) wf h

theorem keepsTwoLists : (policy env).KeepsLists env (State.Confined inUse) := by
  refine (laws env).keepsConfined ?_ ?_ evict_confined ?_ ?_
  · intro s i mode sec wf hi h
    simp only [policy, recordAccessAt]
    split
    · exact h
    split
    · exact h
    split
    · have marked : Unseen s (s.modifyHook i fun h => { h with isAccessed := true }) :=
        .modifyHook i _
      exact promoteItem_confined (marked.quiet.wf wf) (marked.quiet.table_eq ▸ hi)
        (h.quiet marked.quiet)
    split
    · exact h
    · exact promoteItem_confined wf hi h
  · intro s i wf h
    simp only [policy]
    split
    · exact maybePromoteFromTiny_confined wf h
    · exact h
  · intro s key value expiryNs sec wf absent h
    refine insertParts.insertNew_keeps (fun wf h => ?_)
      (eviction.makeRoom_keeps evict_confined)
      (fun _ {s} wf absent h => ?_) wf absent h
    · exact drainTiny_keeps (fun _ _ h => h.moveToQueue (.inr rfl) _ _) _ wf h
    · refine maybePromoteFromTiny_confined (enter_inserts value expiryNs sec _ wf absent).wf ?_
      exact (Confined.linkAtHead h (.inl rfl)).quiet recordKey_unseen.quiet
  · intro s sec wf h
    have restarted : Unseen s (s.restartRefresh sec) := .restartRefresh sec
    exact maybePromoteFromTiny_confined (restarted.quiet.wf wf) (h.quiet restarted.quiet)

end MmTinyLfu

end Lru.Mm
