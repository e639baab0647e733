import Lru.Mm.Ghost

/-!
# Runs of `mm_2q` with the history of Warm

A run carries the list of the items that have been in Warm so far: those that a call links
into it, also when the rebalancing of the same call moves them on, and those found there
after the call. Over such runs the ghost queue remembers only items whose history is empty.
-/

namespace Lru.Mm.Mm2q

variable {K V : Type} {env : Env K V} {s t o : State K V} {i : ItemId} {W : List ItemId}
  {op : Op K V} {expiryNs : Nat} {mode : AccessMode}

open State Strategy Policy

/-! ## The links into Warm -/

/-- `record_access_at` takes the item from Cold to Warm. -/
def entersWarm (s : State K V) (i : ItemId) (mode : AccessMode) (sec : Nat) : Bool :=
  (s.heap i).linked && s.updatesOn mode && !s.refreshedAt i sec &&
    (s.heap i).queueId == kQueueCold

/-- The items that such an access links into Warm. -/
def warmAccess (s : State K V) (i : ItemId) (mode : AccessMode) (sec : Nat) : List ItemId :=
  if entersWarm s i mode sec then [i] else []

theorem relink_of_cold (cold : (s.heap i).queueId = kQueueCold) :
    Settles ((s.moveToQueue i kQueueWarm false).modifyHook i fun h => { h with isAccessed := true })
      (relink env s i) := by
  rw [relink, if_pos cold]
  simp only
  split
  · exact .rebalance
  · exact .refl _

theorem recordAccessAt_marked {sec : Nat} (wf : s.WellFormed env)
    (hi : i ∈ s.table) (enters : entersWarm s i mode sec = true) :
    ((recordAccessAt env s i mode sec).2.heap i).hook.isAccessed = true ∧
      ((recordAccessAt env s i mode sec).2.heap i).queueId ≠ kQueueHot := by
  have resident := (recordAccessAt_moves mode sec wf hi).mem_iff.mpr hi
  simp only [entersWarm, Bool.and_eq_true, Bool.not_eq_true', beq_iff_eq] at enters
  obtain ⟨⟨⟨linked, updates⟩, due⟩, cold⟩ := enters
  have tuned : Unseen s (s.reconfigureLocked env sec (s.tail kQueueWarm)) := .reconfigureLocked
  have still : ((s.reconfigureLocked env sec (s.tail kQueueWarm)).heap i).queueId = kQueueCold :=
    (congrArg Body.queueId (tuned.quiet.body_eq i)).trans cold
  rw [recordAccessAt, if_neg (by simp [linked]), if_neg (by simp [updates]),
    if_neg (by simp [due])] at resident ⊢
  refine ((relink_of_cold still).trans .stamp).marked resident ?_ ?_
  · simp [modifyHook, State.modify]
  · simp only [modifyHook, moveToQueue, State.modify, Function.update_self]
    decide

theorem recordAccessAt_traced (mode : AccessMode) (sec : Nat) (wf : s.WellFormed env)
    (hi : i ∈ s.table) (h : Traced W o s) :
    Traced (W ++ warmAccess s i mode sec) o (recordAccessAt env s i mode sec).2 := by
  have moved := recordAccessAt_moves mode sec wf hi
  have traced := h.settles (.recordAccessAt env s i mode sec)
  rw [warmAccess]
  split
  case isTrue enters =>
    refine traced.visit moved.wf (fun j hj => ?_) fun j hj => ?_
    · rw [List.mem_singleton.mp hj]
      exact moved.mem_iff.mpr hi
    · rw [List.mem_singleton.mp hj]
      exact recordAccessAt_marked wf hi enters
  case isFalse => rwa [List.append_nil]

/-! ## Calls -/

section Calls

theorem recordAccessAt_invariant (mode : AccessMode) (sec : Nat) (wf : s.WellFormed env)
    (hi : i ∈ s.table) (h : GhostInvariant env W o s) :
    GhostInvariant env (W ++ warmAccess s i mode sec) o (recordAccessAt env s i mode sec).2 :=
  ⟨recordAccessAt_traced mode sec wf hi h.toTraced,
    h.bounded.settles (.recordAccessAt env s i mode sec)⟩

variable [DecidableEq K] {key : K}

/-- The items that an access to this key links into Warm. -/
def keyAccess (env : Env K V) (s : State K V) (key : K) (mode : AccessMode) (sec : Nat) :
    List ItemId :=
  match s.find env key with
  | none => []
  | some i => warmAccess s i mode sec

/-- The items that a call which stores this key links into Warm. -/
def keyStore (env : Env K V) (s : State K V) (key : K) (mode : AccessMode) (sec : Nat) :
    List ItemId :=
  match s.find env key with
  | none => warmInsertions env s key
  | some i => warmAccess s i mode sec

/-- The items that a call links into Warm. There are two places that do: the promotion of an
item in Cold and the insertion of a remembered key. -/
def warmLinks (env : Env K V) (s : State K V) : Op K V → List ItemId
  | .set key _ sec => keyStore env s key .write sec
  | .setWithExpiry key _ _ sec => keyStore env s key .write sec
  | .add key _ sec => keyStore env s key .read sec
  | .replace key _ sec => keyAccess env s key .write sec
  | .get key sec => keyAccess env s key .read sec
  | .promote key sec => keyAccess env s key .read sec
  | _ => []

theorem keyStore_cleanup {sec : Nat} :
    keyStore env s.cleanupPendingDeletion key mode sec = keyStore env s key mode sec :=
  cleanup_frame s (keyStore env · key mode sec) fun _ _ _ => rfl

theorem storeValue_traced (value : V) (sec : Nat) (wf : s.WellFormed env) (hi : i ∈ s.table)
    (h : Traced W o s) : Traced (W ++ warmAccess s i .write sec) o
      ((policy env).storeValue env s i value sec) := by
  have written : Settles s (s.modify i fun item => { item with value := value }) :=
    .modify s i rfl rfl fun set => set
  have same : warmAccess (s.modify i fun item => { item with value := value }) i .write sec =
      warmAccess s i .write sec := by
    simp [warmAccess, entersWarm, State.modify, updatesOn, refreshedAt]
  have accessed := recordAccessAt_traced .write sec (WellFormed.write (.value value) wf) hi
    (h.settles written)
  rw [same] at accessed
  exact accessed.settles adjustMemory_settles

theorem updateExisting_invariant (value : V) (sec : Nat) (wf : s.WellFormed env) (hi : i ∈ s.table)
    (h : GhostInvariant env W o s) : GhostInvariant env (W ++ warmAccess s i .write sec) o
      ((policy env).updateExisting env s i value sec) := by
  have laws := laws env
  have stored : GhostInvariant env (W ++ warmAccess s i .write sec) o
      ((policy env).storeValue env s i value sec) :=
    ⟨storeValue_traced value sec wf hi h.toTraced, h.bounded.settles storeValue_settles⟩
  have after := laws.storeValue_rearranges wf value sec hi
  exact ((keeps env _ o).shrinkToFit laws after.wf stored).settle (.noted (.collect _))

theorem insertNew_invariant {value : V} {sec : Nat} (wf : s.WellFormed env)
    (absent : s.find env key = none) (h : GhostInvariant env W o s) :
    GhostInvariant env (W ++ warmInsertions env s key) o
      (insertNew env s key value expiryNs sec) :=
  have inserted := insertNew_traced wf absent h.toTraced h.bounded
  ⟨inserted.1, inserted.2⟩

section Steps

variable (wf : s.WellFormed env) (h : GhostInvariant env W o s) (key : K) (value : V) (sec : Nat)

include wf h

theorem set_invariant : GhostInvariant env (W ++ keyStore env s key .write sec) o
    ((policy env).set env s key value sec) := by
  have clean := Rearranges.cleanup wf
  have kept := h.settle (.noted (.cleanup s))
  rw [← keyStore_cleanup, keyStore, Policy.set]
  simp only [policy, Policy.cleanupIf, if_true]
  cases found : s.cleanupPendingDeletion.find env key with
  | none => exact insertNew_invariant clean.wf found kept
  | some i =>
    exact updateExisting_invariant value sec clean.wf ((find_eq_some_iff clean.wf).mp found).1
      kept

theorem setWithExpiry_invariant :
    GhostInvariant env (W ++ keyStore env s key .write sec) o
      ((policy env).setWithExpiry env s key value expiryNs sec) := by
  rw [keyStore, setWithExpiry]
  cases found : s.find env key with
  | none => exact insertNew_invariant wf found h
  | some i =>
    have updated := updateExisting_invariant value sec wf ((find_eq_some_iff wf).mp found).1 h
    have kept := keeps env (W ++ warmAccess s i .write sec) o
    have stamped := kept.stamped _ i expiryNs updated
    simp only
    split
    · exact stamped
    · exact Policy.KeepsCalm.ttlIndexPush kept.indexed stamped

theorem add_invariant : GhostInvariant env (W ++ keyStore env s key .read sec) o
    ((policy env).add env s key value sec).2 := by
  have clean := Rearranges.cleanup wf
  have kept := h.settle (.noted (.cleanup s))
  rw [← keyStore_cleanup, keyStore, add]
  simp only [policy, cleanupIf, if_true]
  cases found : s.cleanupPendingDeletion.find env key with
  | none => exact insertNew_invariant clean.wf found kept
  | some i =>
    exact recordAccessAt_invariant .read sec clean.wf ((find_eq_some_iff clean.wf).mp found).1
      kept

theorem replace_invariant : GhostInvariant env (W ++ keyAccess env s key .write sec) o
    ((policy env).replace env s key value sec).2 := by
  have clean := Rearranges.cleanup wf
  have kept := h.settle (.noted (.cleanup s))
  rw [← cleanup_frame s (keyAccess env · key .write sec) fun _ _ _ => rfl, keyAccess, replace]
  simp only [policy, cleanupIf, if_true]
  cases found : s.cleanupPendingDeletion.find env key with
  | none => exact (List.append_nil W).symm ▸ kept
  | some i =>
    exact updateExisting_invariant value sec clean.wf ((find_eq_some_iff clean.wf).mp found).1
      kept

theorem promote_invariant : GhostInvariant env (W ++ keyAccess env s key .read sec) o
    ((policy env).promote env s key sec).2 := by
  rw [keyAccess, promote]
  cases found : s.find env key with
  | none => exact (List.append_nil W).symm ▸ h
  | some i => exact recordAccessAt_invariant .read sec wf ((find_eq_some_iff wf).mp found).1 h

theorem get_invariant : GhostInvariant env (W ++ keyAccess env s key .read sec) o
    ((policy env).get env s key sec).2 := by
  rw [keyAccess, Policy.get]
  cases found : s.find env key with
  | none =>
    rw [List.append_nil]
    exact h.settle (.noted (.trans .modifyStats (.collect _)))
  | some i =>
    have accessed := recordAccessAt_invariant .read sec wf ((find_eq_some_iff wf).mp found).1 h
    have noted := accessed.settle (.noted .modifyStats)
    simp only
    split
    · exact ((keeps env _ o).counted _ _ _ (noted.settle (.noted (.collect _))))
    · exact noted.settle (.noted (.collect _))

end Steps

/-- One call, with the items that it links into Warm. -/
theorem step_invariant (wf : s.WellFormed env) (h : GhostInvariant env W o s)
    (taken : mm2q.step env s op = some t) :
    GhostInvariant env (W ++ warmLinks env s op) o t := by
  have allowed : mm2q.PopsStable env s op := fun _ _ isTail => by cases isTail
  have others : warmLinks env s op = [] → op.setsSizes = false →
      GhostInvariant env (W ++ warmLinks env s op) o t := by
    intro none fixed
    rw [none, List.append_nil]
    exact step_keeps (keeps env W o) wf allowed fixed taken h
  cases op with try cases taken
  | set key value sec => exact set_invariant wf h key value sec
  | setWithExpiry key value expiryNs sec =>
    exact setWithExpiry_invariant wf h key value sec
  | add key value sec => exact add_invariant wf h key value sec
  | replace key value sec => exact replace_invariant wf h key value sec
  | get key sec => exact get_invariant wf h key sec
  | promote key sec => exact promote_invariant wf h key sec
  | setSizeCalculators keySizeFn valueSizeFn =>
    exact (List.append_nil W).symm ▸ ⟨h.configure _ s.bucketOf, h.bounded⟩
  | _ => exact others rfl rfl

/-! ## Runs -/

/-- One call on a state with the history of Warm. -/
def trackedStep (env : Env K V) (h : State K V × List ItemId) (op : Op K V) :
    Option (State K V × List ItemId) :=
  (Strategy.mm2q.step env h.1 op).map fun t =>
    (t, h.2 ++ warmLinks env h.1 op ++ t.queue kQueueWarm)

/-- A new `mm_2q` reaches `s` by a run in which the items of `W` have been in Warm. -/
def Tracked (env : Env K V) (s : State K V) (W : List ItemId) : Prop :=
  ∃ memory settings sketch sec, Transition.Reaches (trackedStep env) (fun _ _ => True)
    (State.empty memory settings sketch sec, []) (s, W)

theorem Tracked.invariant (tracked : Tracked env s W) :
    s.WellFormed env ∧ GhostInvariant env W s s := by
  obtain ⟨memory, settings, sketch, sec, reached⟩ := tracked
  refine reached.invariant (P := fun h => h.1.WellFormed env ∧ GhostInvariant env h.2 h.1 h.1)
    ⟨Strategy.empty_wf memory settings sketch sec, ?_, Nat.zero_le _⟩ ?_
  · refine ⟨?_, ?_, ?_, ?_, ?_, ?_, Nat.le_refl _, fun _ _ => rfl, ?_, ?_⟩ <;> simp [State.empty]
  rintro ⟨s, W⟩ op ⟨t, W'⟩ ⟨wf, holds⟩ - taken
  obtain ⟨u, stepped, same⟩ := Option.map_eq_some_iff.mp taken
  cases same
  have wf' : t.WellFormed env := step_wf wf (fun _ _ isTail => by cases isTail) stepped
  have kept := step_invariant wf holds stepped
  refine ⟨wf', kept.refl.visit wf' (fun i => mem_of_queue wf') fun i hi => ?_, kept.bounded⟩
  have home : (t.heap i).queueId = kQueueWarm := wf'.queue_id _ i hi
  refine ⟨kept.warm i (mem_of_queue wf' hi) home, ?_⟩
  rw [home]
  decide

/-! ## The re-insertion of a remembered key -/

/-- The call inserts this key if it is absent. -/
def storedKey : Op K V → Option K
  | .set key _ _ | .setWithExpiry key _ _ _ | .add key _ _ => some key
  | _ => none

/-- What the insertion of a remembered key leaves: the key is no longer remembered, and its
item is in Warm, or in Cold where the rebalancing leaves nothing in Warm. -/
structure Readmitted (env : Env K V) (s : State K V) (key : K) (t : State K V) : Prop where
  consumed : key ∉ t.ghostFifo
  found : t.find env key = some s.next
  placed : s.next ∈ t.queue kQueueWarm ∨ s.next ∈ t.queue kQueueCold
  warm_iff : s.next ∈ t.queue kQueueWarm ↔ t.settings.maxSize = unlimited ∨ 0 < expectedWarm env t

theorem link_readmits (value : V) (expiryNs sec mem : Nat) (wf : s.WellFormed env)
    (absent : s.find env key = none) (h : Traced W o s) (new : key ∉ s.ghostFifo) :
    Readmitted env s key (link env s true key value expiryNs sec mem) := by
  let warm := s.linkAtHead env key value kQueueWarm expiryNs
    { updateTime := sec, isAccessed := true } size size mem
  have linked : Inserts env s warm key value expiryNs := linkAtHead_inserts wf absent
  have head : warm.queue kQueueWarm = s.next :: s.queue kQueueWarm :=
    (congrFun (linkAtHead_queue wf absent) _).trans (Function.update_self ..)
  obtain ⟨warm_iff, placed⟩ := rebalance_warm_head linked.wf head
  refine ⟨?_, (link_spec true value expiryNs sec mem wf absent).1.find_eq, placed, ?_⟩
  · rw [(link_traced wf absent h new).2]
    exact new
  · rw [← expectedWarm_rebalance linked.wf, ← (rebalance_moves linked.wf).settings_eq] at warm_iff
    exact warm_iff

theorem insertNew_readmits {value : V} {sec : Nat} (wf : s.WellFormed env)
    (h : GhostInvariant env W o s) (remembered : key ∈ s.ghostFifo)
    (positive : s.settings.maxSize ≠ 0) :
    Readmitted env s key (insertNew env s key value expiryNs sec) := by
  have absent := find_eq_none_of_remembered h.toTraced wf remembered
  rw [insertNew, if_neg positive, (ghostHit_iff h.toTraced h.bounded key).mpr remembered]
  set mem := s.settings.calcItemMemory env key value
  obtain ⟨roomy, traced, -, new⟩ := room_traced wf absent h.toTraced h.bounded
  have readmitted := link_readmits value expiryNs sec mem roomy.wf
    (roomy.find_eq_none wf absent) traced new
  exact ⟨readmitted.consumed, roomy.next_eq ▸ readmitted.found, roomy.next_eq ▸ readmitted.placed,
    roomy.next_eq ▸ readmitted.warm_iff⟩

/-- Every call that stores a remembered key inserts it. -/
theorem step_of_remembered (wf : s.WellFormed env) (h : Traced W o s)
    (remembered : key ∈ s.ghostFifo) (stores : storedKey op = some key)
    (taken : Strategy.mm2q.step env s op = some t) :
    ∃ u value expiryNs sec, Noted s u ∧ u.WellFormed env ∧
      t = insertNew env u key value expiryNs sec := by
  have absent := find_eq_none_of_remembered h wf remembered
  have clean := Rearranges.cleanup wf
  have missing : s.cleanupPendingDeletion.find env key = none := (clean.find_eq wf).trans absent
  cases op with cases stores <;> cases taken
  | set key' value sec =>
    refine ⟨_, value, 0, sec, .cleanup s, clean.wf, ?_⟩
    simp only [Strategy.policy, Policy.set, policy, Policy.cleanupIf, if_true, missing]
  | setWithExpiry key' value expiryNs sec =>
    refine ⟨s, value, expiryNs, sec, .refl, wf, ?_⟩
    simp only [Strategy.policy, Policy.setWithExpiry, policy, absent]
  | add key' value sec =>
    refine ⟨_, value, 0, sec, .cleanup s, clean.wf, ?_⟩
    simp only [Strategy.policy, Policy.add, policy, Policy.cleanupIf, if_true, missing]

/-! ## The ghost queue over runs -/

structure GhostSound (env : Env K V) (s : State K V) : Prop where
  nodup : s.ghostFifo.Nodup
  perm : s.ghostKeys.Perm s.ghostFifo
  bounded : s.ghostFifo.length ≤ ghostCapacity env s
  absent : ∀ key ∈ s.ghostFifo, s.find env key = none

/-- What a call may remember. `W` are the items that have been in Warm so far. -/
structure RemembersUnwarmed (env : Env K V) (W : List ItemId) (s : State K V) (op : Op K V)
    (t : State K V) : Prop where
  aside : op.makesRoom = false → t.ghostFifo ⊆ s.ghostFifo
  entered : ∀ key ∈ t.ghostFifo, key ∉ s.ghostFifo → ∃ i, (t.heap i).key = key ∧
    (i ∈ s.table ∨ s.next ≤ i) ∧ i ∉ t.table ∧ i ∉ W ++ warmLinks env s op

/-- In every run the ghost queue is sound between two calls, remembers only what is evicted
without ever having been in Warm, and gives up a key that is inserted again. The new item is
in Warm then; with a finite `max_size` the rebalancing takes it on to Cold if Warm is expected
to be empty. Under `max_size` 0 neither the residents nor the ghost queue change. -/
theorem ghost_queue_sound (tracked : Tracked env s W)
    (taken : mm2q.step env s op = some t) :
    GhostSound env s ∧ RemembersUnwarmed env W s op t ∧
      ∀ key ∈ s.ghostFifo, storedKey op = some key →
        (s.settings.maxSize ≠ 0 → Readmitted env s key t) ∧
        (s.settings.maxSize = 0 → t.table = s.table ∧ t.ghostFifo = s.ghostFifo) := by
  obtain ⟨wf, holds⟩ := tracked.invariant
  have kept := step_invariant wf holds taken
  have allowed : mm2q.PopsStable env s op := fun _ _ isTail => by cases isTail
  refine ⟨⟨holds.nodup, holds.perm, holds.bounded,
    fun _ => find_eq_none_of_remembered holds.toTraced wf⟩, ⟨fun aside => ?_, ?_⟩, ?_⟩
  · cases fixed : op.setsSizes with
    | false =>
      have start : Traced W s s ∧ s.ghostFifo ⊆ s.ghostFifo := ⟨holds.toTraced, fun _ hk => hk⟩
      exact (step_keepsAside keeps_remembered wf allowed fixed aside taken
        start).2
    | true =>
      cases op with
      | setSizeCalculators _ _ => cases taken; exact fun _ hk => hk
      | _ => cases fixed
  · intro key hk new
    obtain before | ⟨i, itsKey, came, -, gone, unvisited⟩ := kept.entered key hk
    · exact absurd before new
    · exact ⟨i, itsKey, came, gone, unvisited⟩
  · intro key remembered stores
    obtain ⟨u, value, expiryNs, sec, noted, wf', rfl⟩ :=
      step_of_remembered wf holds.toTraced remembered stores taken
    have still := holds.settle (.noted noted)
    obtain ⟨_, _, _, _, _, rfl, -⟩ := noted
    constructor
    · intro positive
      obtain ⟨consumed, found, placed, warm_iff⟩ := insertNew_readmits wf' still remembered positive
      exact ⟨consumed, found, placed, warm_iff⟩
    · intro zero
      rw [insertNew, if_pos zero]
      exact ⟨rfl, rfl⟩

/-! ## Small caches -/

/-- A new `mm_2q` with this `max_size` that remembers up to four keys, after these calls, with
its history of Warm. -/
def smallRun (maxSize : Nat) (ops : List (Op Nat Nat)) : State Nat Nat × List ItemId :=
  (Transition.run (trackedStep Strategy.intEnv)
    (State.empty (fun _ => default)
      { maxSize := maxSize, config := { maxGhostEntries := 4 } } {} 0, []) ops).getD
    (State.empty (fun _ => default) {} {} 0, [])

theorem smallRun_tracked {maxSize : Nat} {ops : List (Op Nat Nat)}
    (made : (Transition.run (trackedStep intEnv)
      (State.empty (fun _ => default)
        { maxSize := maxSize, config := { maxGhostEntries := 4 } } {} 0, []) ops).isSome = true) :
    Tracked intEnv (smallRun maxSize ops).1 (smallRun maxSize ops).2 := by
  obtain ⟨⟨s, W⟩, executed⟩ := Option.isSome_iff_exists.mp made
  rw [smallRun, executed]
  exact ⟨_, _, _, _, (Transition.Reaches.of_runWhere executed).weaken fun _ _ _ => trivial⟩

/-- Three items are enough to keep a re-inserted key in Warm. -/
theorem small_key_readmitted :
    ∃ t, mm2q.step intEnv
        (smallRun 3 [.set 1 10 0, .set 2 20 0, .set 3 30 0, .set 4 40 0]).1 (.set 3 31 0) = some t ∧
      Readmitted intEnv
        (smallRun 3 [.set 1 10 0, .set 2 20 0, .set 3 30 0, .set 4 40 0]).1 3 t ∧
      t.queue kQueueWarm = [4] := by
  have taken : mm2q.step intEnv
      (smallRun 3 [.set 1 10 0, .set 2 20 0, .set 3 30 0, .set 4 40 0]).1 (.set 3 31 0) =
      some _ := rfl
  have sound := ghost_queue_sound (smallRun_tracked (by decide +kernel)) taken
  exact ⟨_, taken, (sound.2.2 3 (by decide +kernel) rfl).1 (by decide +kernel), by decide +kernel⟩

/-- In a cache for one item a re-inserted key does not stay in Warm. -/
theorem single_key_demoted :
    ∃ s W t, Tracked intEnv s W ∧ 1 ∈ s.ghostFifo ∧
      mm2q.step intEnv s (.set 1 11 0) = some t ∧
      t.queue kQueueWarm = [] ∧ t.find intEnv 1 = some s.next := by
  have tracked : Tracked intEnv (smallRun 1 [.set 1 10 0, .set 2 20 0]).1
      (smallRun 1 [.set 1 10 0, .set 2 20 0]).2 := smallRun_tracked (by decide +kernel)
  exact ⟨_, _, _, tracked, by decide +kernel, rfl, by decide +kernel, by decide +kernel⟩

end Calls

end Lru.Mm.Mm2q
