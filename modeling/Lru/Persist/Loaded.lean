import Lru.Persist.HostileInput

/-!
# What a load leaves

A load that returns has linked the items of the file behind those that the flush left,
whatever the table said to their keys, and has at most moved items afterwards. If no key
comes twice, the cache then holds the pinned items of the target and the items of the
file, the latter without expiry and handles. Otherwise the table is shorter than the
lists.
-/

namespace Lru.Mm

variable {K V : Type} {env : Env K V} {s t : State K V} {words : List UInt32}

open State

theorem Inserts.holds_cases {key : K} {value : V} {expiryNs : Nat} {c : K × V × Nat × Nat}
    (h : Inserts env s t key value expiryNs) (held : t.Holds c) :
    s.Holds c ∨ (key, value, expiryNs, 0) = c := by
  obtain ⟨i, hi, rfl⟩ := held
  by_cases new : i = s.next
  · exact .inr (new ▸ h.content_new.symm)
  · exact .inl ⟨i, h.mem_old i hi new, (h.content_old i hi new).symm⟩

end Lru.Mm

namespace Lru.Persist

open Mm State Binary Strategy

variable {K V : Type} {env : Env K V} {strategy : Strategy}
  {s t u v target : State K V} {sec : Nat} {parsed : ParsedData K V}
  {items : List (SerializedItem K V)}

/-- What a load makes of a target and the items of a file. -/
structure Loaded (env : Env K V) (target : State K V) (items : List (SerializedItem K V))
    (t : State K V) : Prop where
  listed : t.Listed
  count : t.linkedCount = target.pinnedCount + items.length
  maxSize_eq : t.settings.maxSize = target.settings.maxSize
  wf : FreshKeys target items → t.WellFormed env
  holds : FreshKeys target items → ∀ c, t.Holds c ↔
    target.Holds c ∧ 0 < c.2.2.2 ∨ ∃ item ∈ items, (item.key, item.value, 0, 0) = c
  short : ¬ FreshKeys target items → t.table.length < t.linkedCount

/-- Only the pinned items of the target matter. -/
theorem Loaded.of_samePins (same : SamePins s u) (h : Loaded env u items t) :
    Loaded env s items t where
  listed := h.listed
  count := by rw [h.count, same.count]
  maxSize_eq := h.maxSize_eq.trans same.maxSize_eq
  wf fresh := h.wf ((freshKeys_of_samePins same).mpr fresh)
  holds fresh c := by
    rw [h.holds ((freshKeys_of_samePins same).mpr fresh) c]
    exact or_congr_left (and_congr_left fun pinned => same.holds c pinned)
  short stale := h.short fun fresh => stale ((freshKeys_of_samePins same).mp fresh)

/-- `t` is `v` after steps that only move items. -/
structure Settles (env : Env K V) (v t : State K V) : Prop where
  listed : t.Listed
  count : t.linkedCount = v.linkedCount
  table_eq : t.table = v.table
  maxSize_eq : t.settings.maxSize = v.settings.maxSize
  wf : v.WellFormed env → t.WellFormed env
  content : v.WellFormed env → ∀ i ∈ v.table, (t.heap i).content = (v.heap i).content

theorem Loaded.settles (h : Loaded env s items v) (later : Settles env v t) :
    Loaded env s items t where
  listed := later.listed
  count := later.count.trans h.count
  maxSize_eq := later.maxSize_eq.trans h.maxSize_eq
  wf fresh := later.wf (h.wf fresh)
  holds fresh c := (holds_congr later.table_eq (later.content (h.wf fresh))).trans (h.holds fresh c)
  short stale := by
    rw [later.table_eq, later.count]
    exact h.short stale

theorem Settles.of_core (same : t.core = v.core)
    (maxSize : t.settings.maxSize = v.settings.maxSize) (listed : v.Listed) :
    Settles env v t := by
  have queue : t.queue = v.queue := congrArg Core.queue same
  refine ⟨listed.of_core same, ?_, congrArg Core.table same, maxSize, fun wf => ?_,
    fun _ i _ => congrArg Body.content (congrFun (congrArg Core.body same) i)⟩
  · rw [linkedCount, linkedCount, queue]
  · rw [State.WellFormed, same]
    exact wf

/-- Fresh keys are linked behind what is there. -/
theorem Relinked.holds_iff (h : Relinked env strategy s items t) (wf : s.WellFormed env)
    (after : t.WellFormed env) (fresh : Fresh s items) (c : K × V × Nat × Nat) :
    t.Holds c ↔ s.Holds c ∨ ∃ item ∈ items, (item.key, item.value, 0, 0) = c := by
  have pairs : ∀ {q i}, i ∈ t.queue q →
      ((t.heap i).key, (t.heap i).value) ∈ s.sequence q ++ added strategy items q := by
    intro q i hi
    rw [← h.sequence]
    exact List.mem_map_of_mem hi
  constructor
  · rintro ⟨i, hi, rfl⟩
    have linked : i ∈ t.queue (t.heap i).queueId := after.mem_queue hi
    obtain old | ⟨new, restored⟩ := h.origin _ i linked
    · have before : i < s.next := wf.listed.lt _ i old
      exact .inl ⟨i, mem_of_queue wf old, congrArg (fun x : Item K V => x.content)
        (h.old i before).symm⟩
    · refine .inr ?_
      obtain resident | filed := List.mem_append.mp (pairs linked)
      · -- A resident item with this key would be the item itself.
        obtain ⟨j, hj, same⟩ := List.mem_map.mp resident
        have lt : j < s.next := wf.listed.lt _ j hj
        have key : (t.heap j).key = (t.heap i).key := by
          rw [h.old j lt]
          exact congrArg Prod.fst same
        have meets : j = i := after.key_inj j
          (mem_of_queue after (h.kept _ j hj)) i hi key
        exact absurd (meets ▸ lt) (Nat.not_lt.mpr new)
      · obtain ⟨item, hitem, same⟩ := List.mem_map.mp filed
        refine ⟨item, (List.mem_filter.mp hitem).1, ?_⟩
        obtain ⟨key, value⟩ := Prod.mk.inj same
        simp [Body.content, key, value, restored.expiryNs, restored.accessRef]
  · rintro (⟨i, hi, rfl⟩ | ⟨item, hitem, rfl⟩)
    · have linked := wf.mem_queue hi
      exact ⟨i, mem_of_queue after (h.kept _ i linked), congrArg (fun x : Item K V => x.content)
        (h.old i (wf.listed.lt _ i linked))⟩
    · have filed : (item.key, item.value) ∈ t.sequence (queueOf strategy item.queueId) := by
        rw [h.sequence]
        refine List.mem_append_right _ (List.mem_map_of_mem (List.mem_filter.mpr ⟨hitem, ?_⟩))
        exact decide_eq_true rfl
      obtain ⟨i, hi, same⟩ := List.mem_map.mp filed
      obtain ⟨key, value⟩ := Prod.mk.inj same
      refine ⟨i, mem_of_queue after hi, ?_⟩
      obtain old | ⟨-, restored⟩ := h.origin _ i hi
      · refine absurd ?_ (fresh.absent item hitem i (mem_of_queue wf old))
        rw [← h.old i (wf.listed.lt _ i old)]
        exact key
      · simp [Body.content, key, value, restored.expiryNs, restored.accessRef]

theorem registerAndRebalance_settles (listed : v.Listed) :
    Settles env v (registerAndRebalance env v) := by
  let counted : State K V := v.modifyStats fun x => { x with insertions := x.insertions + 1 }
  have ready : counted.Listed := ⟨listed.nodup, listed.queueId, listed.lt⟩
  obtain ⟨after, count, table, settings⟩ := Mm2q.rebalance_listed ready
  have moves : v.WellFormed env → Moves env counted (Mm2q.rebalance env counted) :=
    fun wf => Mm2q.rebalance_moves wf
  exact ⟨after, count, table, congrArg Settings.maxSize settings, fun wf => (moves wf).wf,
    fun wf i hi => (moves wf).content i ((moves wf).mem_iff.mpr hi)⟩

variable [DecidableEq K] {c : Config}

theorem rebuildItems_loaded (strategy : Strategy) (wf : s.WellFormed env)
    (items : List (SerializedItem K V)) :
    Loaded env s items (rebuildItems env strategy s items) := by
  have survived := strategy.flush_survives wf
  have pins := survived.samePins
  have fresh : Fresh ((strategy.policy env).flush env s) items ↔ FreshKeys s items :=
    fresh_iff_freshKeys survived
  have length := survived.length_table
  have rebuilt : Rebuilt env strategy s items (rebuildItems env strategy s items) :=
    rebuildItems_rebuilt wf
  refine ⟨rebuilt.listed, ?_, congrArg Settings.maxSize rebuilt.settings_eq, fun keys => ?_,
    fun keys c => ?_, rebuildItems_short wf⟩
  all_goals
    rw [rebuildItems]
    generalize (strategy.policy env).flush env s = f at survived pins fresh length ⊢
    have linked := foldl_relinked env strategy survived.wf.listed items
  · refine linked.count.trans ?_
    rw [linkedCount_eq survived.wf, length]
  · exact foldl_wf survived.wf (fresh.mpr keys)
  · have after : (items.foldl (linkSerialized env strategy) f).WellFormed env :=
      foldl_wf survived.wf (fresh.mpr keys)
    refine (linked.holds_iff survived.wf after (fresh.mpr keys) c).trans (or_congr_left ?_)
    constructor
    · rintro ⟨i, hi, rfl⟩
      obtain ⟨mem, pinned⟩ := survived.mem_table_iff.mp hi
      rw [survived.content hi]
      exact ⟨⟨i, mem, rfl⟩, of_decide_eq_true pinned⟩
    · rintro ⟨held, pinned⟩
      exact (pins.holds c pinned).mpr held

/-! ## The strategies -/

theorem mmLru_loaded {l : SerializedListState} (wf : s.WellFormed env) :
    Loaded env s items ((mmLru.policy env).setConfig
      (restorePoint (rebuildItems env .mmLru s items) l) c sec) := by
  have loaded := rebuildItems_loaded .mmLru wf items
  refine loaded.settles ?_
  generalize rebuildItems env .mmLru s items = v at loaded
  have restored := restorePoint_unseen v l
  let configured : State K V :=
    { restorePoint v l with settings := { (restorePoint v l).settings with config := c } }
  have respecified := MmLru.reconfigure_unseen configured sec
  have maxSize : configured.settings.maxSize = v.settings.maxSize := by
    show (restorePoint v l).settings.maxSize = _
    rw [restored.settings_eq]
  exact .of_core (respecified.core_eq.trans restored.core_eq)
    ((congrArg Settings.maxSize respecified.settings_eq).trans maxSize) loaded.listed

omit [DecidableEq K] in
theorem loadSketch_eq_returned {words : List UInt32} (returned : loadSketch s words = .returned t) :
    ∃ sketch, t = { s with sketch := sketch } := by
  rw [loadSketch] at returned
  split at returned
  · exact ⟨s.sketch, (Outcome.returned.inj returned).symm⟩
  · split at returned
    · exact ⟨_, (Outcome.returned.inj returned).symm⟩
    · cases returned
    · cases returned

theorem mmLfu_loaded {words : List UInt32} (lfu : strategy.hasSketch = true)
    (pinned : s.AllPinned) (wf : s.WellFormed env)
    (sketched : loadSketch ((strategy.policy env).setConfig s c sec) words = .returned u) :
    Loaded env s items (rebuildItems env strategy u items) := by
  obtain ⟨sketch, rfl⟩ := loadSketch_eq_returned sketched
  rw [setConfig_of_allPinned lfu pinned]
  refine .of_samePins ?_ (rebuildItems_loaded strategy ?_ items)
  · exact .of_content rfl (fun _ _ => rfl) rfl
  · exact wf

/-- Every load that returns, except that of `mm_fifo`. -/
theorem rebuildFromParsed_loaded (links : strategy ≠ .mmFifo) (wf : target.WellFormed env)
    (returned : rebuildFromParsed env strategy target parsed sec = .returned t) :
    Loaded env target parsed.items t := by
  have survived := strategy.flush_survives wf
  refine .of_samePins survived.samePins ?_
  cases strategy with
  | mmFifo => exact absurd rfl links
  | mmLru =>
    obtain ⟨-, -, rfl⟩ := applyConfig_eq_returned.mp returned
    exact mmLru_loaded survived.wf
  | mm2q =>
    obtain ⟨u, applied, last⟩ := Outcome.andThen_eq_returned.mp returned
    obtain ⟨-, -, rfl⟩ := applyConfig_eq_returned.mp applied
    cases last
    obtain ⟨ready, pins⟩ : _ ∧ SamePins ((mm2q.policy env).flush env target) _ :=
      mm2q_setConfig_samePins survived.wf
    have loaded := rebuildItems_loaded .mm2q ready parsed.items
    exact .of_samePins pins (loaded.settles (registerAndRebalance_settles loaded.listed))
  | mmTinyLfu | mmWTinyLfu =>
    obtain ⟨u, applied, rest⟩ := Outcome.andThen_eq_returned.mp returned
    obtain ⟨-, -, rfl⟩ := applyConfig_eq_returned.mp applied
    obtain ⟨v, sketched, last⟩ := Outcome.andThen_eq_returned.mp rest
    cases last
    exact mmLfu_loaded rfl survived.allPinned survived.wf sketched

/-- After a load the counter of `mm_lru` is the length of its list. -/
theorem mmLru_counted
    (returned : rebuildFromParsed env .mmLru target parsed sec = .returned t) :
    t.stats.currentSize = t.linkedCount := by
  obtain ⟨-, -, rfl⟩ := applyConfig_eq_returned.mp returned
  generalize (mmLru.policy env).flush env target = f
  have stored : (rebuildItems env .mmLru f parsed.items).stats.currentSize =
      (rebuildItems env .mmLru f parsed.items).linkedCount := rfl
  generalize newConfig .mmLru f.settings.config parsed.config = c
  generalize rebuildItems env .mmLru f parsed.items = v at stored ⊢
  have restored := restorePoint_unseen v parsed.listState
  generalize restorePoint v parsed.listState = u at restored ⊢
  have respecified : Unseen { u with settings := { u.settings with config := c } }
      ((mmLru.policy env).setConfig u c sec) := MmLru.reconfigure_unseen _ sec
  have queue : ((mmLru.policy env).setConfig u c sec).queue = v.queue :=
    (congrArg Core.queue respecified.core_eq).trans (congrArg Core.queue restored.core_eq)
  rw [linkedCount, queue]
  exact (congrArg Stats.currentSize (respecified.stats_eq.trans restored.stats_eq)).trans stored

end Lru.Persist
