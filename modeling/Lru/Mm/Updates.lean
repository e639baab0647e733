import Lru.Mm.EvictionOrder

/-!
# Updates and the shrinking that follows them

`update_existing` stores the new value and then evicts until the limits hold again. The
victims come in the order of the strategy, which knows nothing of the update: the key
survives exactly if the items before it in this order are enough.
-/

namespace Lru.Mm

variable {K V : Type} {env : Env K V} {s t : State K V} {i : ItemId} {p : Policy K V}

open State Strategy Policy List Policy.Laws

/-! ## Updates -/

/-- The items before item `i` in the order of the strategy are enough for a new value of it:
without the first `n` of them the limits hold, or nothing is left to evict. The order is the
one after the access is recorded. -/
def Strategy.OutlastsUpdate [DecidableEq K] (env : Env K V) (strategy : Strategy) (s : State K V)
    (i : ItemId) (value : V) (sec : Nat) : Prop :=
  let lists := ((strategy.policy env).recordAccess
    (s.modify i fun item => { item with value := value }) i .write sec).2
  let order := strategy.evictionOrder env lists
  let billed := adjustMemory s (s.itemMemory env i)
    (s.settings.calcItemMemory env (s.heap i).key value)
  ∃ n, i ∉ order.take n ∧ (order.length ≤ n ∨
    s.settings.exceeded (s.table.length - n) (billed.memoryWithout env (order.take n)) = false)

/-- The state in which `update_existing` starts to shrink: the value is stored, the
access recorded and the memory accounted for. -/
def Policy.stored (env : Env K V) (p : Policy K V) (s : State K V) (i : ItemId) (value : V)
    (sec : Nat) : State K V :=
  if p.collectsUpdateFirst then Policy.collectUpdate (p.storeValue env s i value sec) i
  else p.storeValue env s i value sec

/-- The update of item `i` leaves it under its key with the new value, and the update is
reported with that value. -/
structure UpdateKept [DecidableEq K] (env : Env K V) (key : K) (i : ItemId) (value : V)
    (t : State K V) : Prop where
  found : t.find env key = some i
  value_eq : (t.heap i).value = value
  reported : t.settings.callbacks.update = true → .update key value ∈ t.events

/-! ## Reports -/

section Reports

variable {e f : Event K V}

theorem mem_events_collect (h : e ∈ s.events) : e ∈ (s.collect f).events := by
  rw [collect]
  split
  · exact mem_append_left _ h
  · exact h

theorem mem_events_cleanup (h : e ∈ s.events) : e ∈ s.cleanupPendingDeletion.events := by
  have folded : ∀ (l : List ItemId) (u : State K V), e ∈ u.events →
      e ∈ (l.foldl evictAndRetire u).events := by
    intro l
    induction l with
    | nil => exact fun _ h => h
    | cons i rest ih => exact fun u h => ih _ (mem_events_collect h)
  exact folded _ s h

theorem mem_events_collectUpdate {key : K} {value : V} (h : s.settings.callbacks.update = true)
    (keyed : (s.heap i).key = key) (valued : (s.heap i).value = value) :
    .update key value ∈ (collectUpdate s i).events := by
  have wanted : s.settings.callbacks.has (.update key value) = true := h
  rw [collectUpdate, collect, keyed, valued, if_pos wanted]
  exact mem_append_right _ (mem_singleton_self _)

/-- `mm_fifo` reports the update before it shrinks, and an eviction only adds reports. -/
theorem MmFifo.mem_events_evict [DecidableEq K] (h : e ∈ s.events) :
    e ∈ (MmFifo.evict env s).events := by
  rw [MmFifo.evict]
  split
  · exact mem_events_cleanup h
  · rw [evictVictim]
    split
    · exact mem_events_collect (mem_events_cleanup h)
    · exact mem_events_cleanup h

end Reports

section Updates

variable {value : V} {sec : Nat}

theorem Policy.updateExisting_table :
    (p.updateExisting env s i value sec).table =
      (p.shrinkToFit (p.stored env s i value sec)).table := by
  rw [updateExisting, stored]
  split
  · rfl
  · exact (collectUpdate_quiet _ i).table_eq

theorem adjustMemory_eq (s : State K V) (before after : Nat) :
    ∃ stats, adjustMemory s before after = { s with stats := stats } := by
  rw [adjustMemory]
  split
  · exact ⟨_, rfl⟩
  · split <;> exact ⟨_, rfl⟩

/-- Counters and reports apart, that is what recording the access leaves. -/
theorem Policy.stored_eq : ∃ stats events, p.stored env s i value sec =
    { (p.recordAccess (s.modify i fun item => { item with value := value }) i .write sec).2 with
      stats := stats, events := events } := by
  obtain ⟨stats, accounted⟩ := adjustMemory_eq (p.recordAccess
    (s.modify i fun item => { item with value := value }) i .write sec).2 (s.itemMemory env i) _
  rw [stored, storeValue, accounted]
  split
  · obtain ⟨events, collected⟩ := collect_eq _ (.update _ _)
    exact ⟨stats, events, by rw [collectUpdate, collected]⟩
  · exact ⟨stats, _, rfl⟩

variable [DecidableEq K] {key : K}

/-- An update keeps its item exactly if the items before it are enough. -/
theorem Strategy.mem_updateExisting_iff {strategy : Strategy} (wf : s.WellFormed env)
    (found : s.find env key = some i) :
    i ∈ ((strategy.policy env).updateExisting env s i value sec).table ↔
      strategy.OutlastsUpdate env s i value sec := by
  have laws := strategy.laws env
  have ordered := strategy.ordered env
  obtain ⟨hi, hk⟩ := (find_eq_some_iff wf).mp found
  have stats := storeValue_stats laws value sec wf found
  have stored := laws.storeValue_rearranges wf value sec hi
  obtain ⟨x, events, same⟩ : ∃ stats events, (strategy.policy env).stored env s i value sec = _ :=
    Policy.stored_eq
  set p := strategy.policy env
  set u := p.stored env s i value sec with u_def
  set lists := (p.recordAccess (s.modify i fun item => { item with value := value }) i .write sec).2
  have quiet : Quiet (p.storeValue env s i value sec) u ∧
      u.stats = (p.storeValue env s i value sec).stats := by
    rw [u_def, Policy.stored]
    split
    · exact ⟨collectUpdate_quiet _ i, collect_stats⟩
    · exact ⟨.refl, rfl⟩
  have start := stored.quiet quiet.1
  have order_eq : strategy.evictionOrder env u = strategy.evictionOrder env lists := by
    rw [same]
    exact evictionOrder_eq rfl ⟨rfl, rfl, fun _ => rfl, fun _ _ _ => rfl, rfl⟩
  have table : u.table = s.table := start.table_eq
  have settings : u.settings = s.settings := start.settings_eq
  have ends : LoopEnds env p (strategy.evictionOrder env) s.settings.exceeded u
      (u.shrinkLoop p.evict p.size) :=
    ordered.evictWhile_ends start.wf fun {t} wft same => by
      rw [shouldEvict, same, settings, laws.eviction.size_eq wft, Settings.exceeded]
  rw [Policy.updateExisting_table, Policy.shrinkToFit,
    ends.mem_iff ordered start.wf (start.mem_iff.mpr hi), order_eq]
  refine exists_congr fun n => and_congr_right fun spared => or_congr_right ?_
  -- The items that go are not the one with the new value.
  rw [needsAfter, order_eq, table]
  refine Eq.congr_left (congrArg _ (memoryWithout_congr ?_ fun j hj => ?_))
  · rw [quiet.2, stats, hk]
  · have resident : j ∈ u.table := ordered.subset_table start.wf (order_eq ▸ mem_of_mem_take hj)
    have other : j ≠ i := by
      rintro rfl
      exact spared hj
    have content := start.content j resident
    obtain ⟨y, billed⟩ := adjustMemory_eq s (s.itemMemory env i)
      (s.settings.calcItemMemory env (s.heap i).key value)
    rw [billed]
    refine itemMemory_of_content settings ?_
    simpa [State.modify, other] using content

variable {p : Policy K V} (laws : p.Laws env)

include laws

/-- An item that the update keeps has the new value, and the report says so. -/
theorem Policy.updateExisting_kept
    (remembers : p.collectsUpdateFirst = true →
      ∀ {u : State K V} {e}, e ∈ u.events → e ∈ (p.evict u).events)
    (wf : s.WellFormed env) (found : s.find env key = some i)
    (kept : i ∈ (p.updateExisting env s i value sec).table) :
    UpdateKept env key i value (p.updateExisting env s i value sec) := by
  obtain ⟨hi, hk⟩ := (find_eq_some_iff wf).mp found
  have written : Shrinks env (s.modify i fun item => { item with value := value })
      (p.updateExisting env s i value sec) := laws.updateExisting_shrinks wf hi
  have content : ∀ {u : State K V},
      Shrinks env (s.modify i fun item => { item with value := value }) u → i ∈ u.table →
        (u.heap i).key = key ∧ (u.heap i).value = value := by
    intro u shrunk mem
    have same := shrunk.content i mem
    exact ⟨(congrArg Prod.fst same).trans (by simpa [Body.content, State.modify] using hk),
      (congrArg (fun c => c.2.1) same).trans (by simp [Body.content, State.modify])⟩
  obtain ⟨keyed, valued⟩ := content written kept
  refine ⟨(find_eq_some_iff written.wf).mpr ⟨kept, keyed⟩, valued, fun listens => ?_⟩
  have stored := laws.storeValue_rearranges wf value sec hi
  rw [written.settings_eq] at listens
  rw [updateExisting] at kept ⊢
  split
  case isTrue first =>
    obtain ⟨keyed, valued⟩ := content stored.toShrinks (stored.mem_iff.mpr hi)
    have reported : .update key value ∈
        (collectUpdate (p.storeValue env s i value sec) i).events :=
      mem_events_collectUpdate (by rw [stored.settings_eq]; exact listens) keyed valued
    exact laws.eviction.evictWhile_keeps (I := fun u => .update key value ∈ u.events)
      (fun _ h => remembers first h) _
      ((collectUpdate_quiet _ i).wf stored.wf) reported
  case isFalse last =>
    rw [if_neg last] at kept
    have shrunk := stored.toShrinks.trans (laws.shrinkToFit_shrinks stored.wf)
    rw [(collectUpdate_quiet _ i).table_eq] at kept
    obtain ⟨keyed, valued⟩ := content shrunk kept
    exact mem_events_collectUpdate (by rw [shrunk.settings_eq]; exact listens) keyed valued

end Updates

/-- `set_with_expiry` on a resident key is an update, the expiry of the item and an entry
in the index. -/
theorem Policy.setWithExpiry_eq [DecidableEq K] (p : Policy K V) {key : K}
    {value : V} {expiryNs sec : Nat} (found : s.find env key = some i) :
    ∃ l, p.setWithExpiry env s key value expiryNs sec =
      { (p.updateExisting env s i value sec).modify i fun item =>
          { item with expiryNs := expiryNs } with ttlIndex := l } := by
  simp only [setWithExpiry, found]
  split
  · exact ⟨_, rfl⟩
  · exact ttlIndexPush_eq

/-- A resident key survives its own `set` or `set_with_expiry`, and what the call writes
and reports afterwards belongs to the resident item, exactly if the item outlasts the
shrinking. -/
theorem Strategy.update_kept_iff [DecidableEq K] {strategy : Strategy} {key : K} (value : V)
    (expiryNs sec : Nat) (reachable : strategy.Reachable env s) (found : s.find env key = some i) :
    (UpdateKept env key i value ((strategy.policy env).set env s key value sec) ↔
      strategy.OutlastsUpdate env (cleanupIf (strategy.policy env).cleanupOnSet s) i value sec) ∧
    (UpdateKept env key i value ((strategy.policy env).setWithExpiry env s key value expiryNs sec) ∧
        (((strategy.policy env).setWithExpiry env s key value expiryNs sec).heap i).expiryNs =
          expiryNs ↔
      strategy.OutlastsUpdate env s i value sec) := by
  have wf := reachable.wf
  have laws := strategy.laws env
  have remembers : (strategy.policy env).collectsUpdateFirst = true →
      ∀ {u : State K V} {e}, e ∈ u.events → e ∈ ((strategy.policy env).evict u).events := by
    intro first u e h
    cases strategy with
    | mmFifo => exact MmFifo.mem_events_evict h
    | mmLru | mm2q | mmTinyLfu | mmWTinyLfu => cases first
  have clean := cleanupIf_rearranges (strategy.policy env).cleanupOnSet wf
  have same := (clean.find_eq wf).trans found
  rw [← mem_updateExisting_iff clean.wf same, ← mem_updateExisting_iff wf found]
  generalize strategy.policy env = p at *
  constructor
  · rw [Policy.set]
    simp only [same]
    exact ⟨fun kept => mem_of_find?_eq_some kept.found,
      updateExisting_kept laws remembers clean.wf same⟩
  · have kept : i ∈ (p.updateExisting env s i value sec).table →
        UpdateKept env key i value (p.updateExisting env s i value sec) :=
      updateExisting_kept laws remembers wf found
    have written := laws.setWithExpiry_wf wf key value expiryNs sec
    obtain ⟨l, stamped⟩ := p.setWithExpiry_eq found
    rw [stamped] at written ⊢
    refine ⟨fun h => mem_of_find?_eq_some h.1.found, fun mem => ⟨?_, ?_⟩⟩
    · have keyed := ((find_eq_some_iff (laws.updateExisting_shrinks wf
        ((find_eq_some_iff wf).mp found).1).wf).mp (kept mem).found).2
      refine ⟨(find_eq_some_iff written).mpr ⟨mem, ?_⟩, ?_, (kept mem).reported⟩
      · simpa [State.modify] using keyed
      · simpa [State.modify] using (kept mem).value_eq
    · simp [State.modify]

namespace MmLru

/-- Two items of 74 bytes in `mm_lru` with the default configuration and 400 bytes. -/
def twoSmall : State Nat Nat :=
  (Transition.runWhere (Strategy.mmLru.step Strategy.intEnv) (fun _ op => !op.isPopLru)
    (State.empty (fun _ => default)
      { maxMemory := 400, keySizeFn := some fun _ => 0, valueSizeFn := some id } {} 0)
    [.set 1 10 0, .set 2 10 0]).getD (State.empty (fun _ => default) {} {} 0)

theorem twoSmall_reachable : mmLru.Reachable intEnv twoSmall := .getD (by decide +kernel)

/-- The newer item outlasts its growth: the older one is evicted for it. -/
theorem newer_item_grows :
    UpdateKept intEnv 2 1 300
        ((mmLru.policy intEnv).set intEnv twoSmall 2 300 0) ∧
      ((policy intEnv).set intEnv twoSmall 2 300 0).table = [1] := by
  refine ⟨((update_kept_iff 300 0 0 twoSmall_reachable (by decide +kernel)).1).mpr
    ⟨1, ?_, .inr ?_⟩, by decide +kernel⟩
  · decide +kernel
  · decide +kernel

/-- The older item is the first victim of its own growth, although it fits alone and the
other item is unpinned. -/
theorem older_item_evicts_itself :
    mmLru.Reachable intEnv twoSmall ∧
      twoSmall.find intEnv 1 = some 0 ∧ twoSmall.find intEnv 2 = some 1 ∧
      (twoSmall.heap 1).accessRef = 0 ∧
      twoSmall.settings.calcItemMemory intEnv 1 300 ≤ twoSmall.settings.maxMemory ∧
      ((policy intEnv).set intEnv twoSmall 1 300 0).find intEnv 1 = none ∧
      ((policy intEnv).setWithExpiry intEnv twoSmall 1 300 7 0).find
        intEnv 1 = none ∧
      (((policy intEnv).setWithExpiry intEnv twoSmall 1 300 7 0).heap
        0).expiryNs = 7 :=
  ⟨twoSmall_reachable, by decide +kernel, by decide +kernel, by decide +kernel, by decide +kernel,
    by decide +kernel, by decide +kernel, by decide +kernel⟩

end MmLru

end Lru.Mm
