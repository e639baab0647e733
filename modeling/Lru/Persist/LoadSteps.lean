import Lru.Persist.Relink

/-!
# The steps of a load

After the first flush of a load only pinned items are left. A second flush leaves them
as they are, and so does the new configuration of an LFU strategy, whose promotions stop
at a pinned tail.
-/

namespace Lru.Mm

variable {K V : Type} {t s u : State K V} {env : Env K V} {i : ItemId} {q : QueueId}

open State List

/-- Keys and values of the pinned items of a list. -/
def State.pinnedSequence (s : State K V) (q : QueueId) : List (K × V) :=
  ((s.queue q).filter fun i => (s.heap i).hasActiveHandle).map fun i =>
    ((s.heap i).key, (s.heap i).value)

def State.AllPinned (s : State K V) : Prop :=
  ∀ q, ∀ i ∈ s.queue q, (s.heap i).hasActiveHandle = true

section Pinned

theorem Survives.mem (h : Survives env s t) (hi : i ∈ t.queue q) :
    i ∈ s.queue q ∧ (s.heap i).hasActiveHandle = true ∧ (t.heap i).toBody = (s.heap i).toBody := by
  have body := h.body i (mem_of_queue h.wf hi)
  rw [h.queue] at hi
  obtain ⟨linked, pinned⟩ := mem_filter.mp hi
  exact ⟨linked, pinned, body⟩

theorem Survives.allPinned (h : Survives env s t) : t.AllPinned := by
  intro q i hi
  obtain ⟨-, pinned, body⟩ := h.mem hi
  exact (congrArg Body.hasActiveHandle body).trans pinned

theorem Survives.sequence (h : Survives env s t) :
    t.sequence q = s.pinnedSequence q := by
  rw [State.sequence, State.pinnedSequence, ← h.queue q]
  refine map_congr_left fun i hi => ?_
  exact congrArg (fun b : Body K V => (b.key, b.value)) (h.mem hi).2.2

theorem Quiet.sequence_eq (h : Quiet s t) : t.sequence q = s.sequence q := by
  rw [State.sequence, State.sequence, h.queue_eq]
  exact map_congr_left fun i _ =>
    congrArg (fun b : Body K V => (b.key, b.value)) (h.body_eq i)

theorem State.AllPinned.pinnedSequence (pinned : s.AllPinned) (q : QueueId) :
    s.pinnedSequence q = s.sequence q := by
  rw [State.pinnedSequence, filter_eq_self.mpr (pinned q), State.sequence]

theorem State.AllPinned.unpinned_nil (pinned : s.AllPinned) :
    s.liveItems.filter (fun i => !(s.heap i).hasActiveHandle) = [] := by
  refine filter_eq_nil_iff.mpr fun i hi => ?_
  have linked : ∃ q, i ∈ s.queue q := by
    simp only [liveItems, mem_append] at hi
    rcases hi with (h | h) | h
    exacts [⟨0, h⟩, ⟨1, h⟩, ⟨2, h⟩]
  obtain ⟨q, hq⟩ := linked
  simp [pinned q i hq]

theorem State.AllPinned.unpinnedTailOf (pinned : s.AllPinned) (q : QueueId) :
    s.unpinnedTailOf q = none := by
  rw [State.unpinnedTailOf]
  cases isTail : s.tail q with
  | none => rfl
  | some i => exact if_pos (pinned q i (mem_of_getLast? isTail))

/-- `maybe_promote_from_tiny` stops at a pinned tail. -/
theorem MmTinyLfu.maybePromoteFromTiny_of_allPinned [DecidableEq K] (pinned : s.AllPinned) :
    MmTinyLfu.maybePromoteFromTiny env s = s := by
  have stuck : ∀ expected capacity, MmTinyLfu.promoteStep env s expected capacity = none := by
    intro expected capacity
    rw [MmTinyLfu.promoteStep, pinned.unpinnedTailOf]
    simp
  rw [MmTinyLfu.maybePromoteFromTiny]
  generalize (s.queue Window.kTinyQueue).length = fuel
  cases fuel with
  | zero => rfl
  | succ fuel => rw [MmTinyLfu.promoteLoop, stuck]

theorem MmWTinyLfu.maybePromoteFromTiny_of_allPinned (pinned : s.AllPinned) :
    MmWTinyLfu.maybePromoteFromTiny env s = s := by
  have drained : ∀ expected fuel, Window.drainTiny expected fuel s = s := by
    intro expected fuel
    cases fuel with
    | zero => rfl
    | succ fuel =>
      rw [Window.drainTiny, pinned.unpinnedTailOf]
      simp
  have admitted : ∀ capacity tries, MmWTinyLfu.admitLoop env capacity tries s = s := by
    intro capacity tries
    cases tries with
    | zero => rfl
    | succ tries =>
      rw [MmWTinyLfu.admitLoop, pinned.unpinnedTailOf]
      simp
  rw [MmWTinyLfu.maybePromoteFromTiny]
  simp only [drained]
  rw [MmWTinyLfu.admitToProbation]
  simp only [admitted, ite_self]

/-- The new configuration moves nothing in an LFU strategy that only has pinned items. -/
theorem Strategy.setConfig_of_allPinned [DecidableEq K] {strategy : Strategy}
    (sketch : strategy.hasSketch = true) (pinned : s.AllPinned) (config : Config) (sec : Nat) :
    (strategy.policy env).setConfig s config sec =
      restartRefresh { s with settings := { s.settings with config := config } } sec := by
  cases strategy with
  | mmTinyLfu => exact MmTinyLfu.maybePromoteFromTiny_of_allPinned pinned
  | mmWTinyLfu => exact MmWTinyLfu.maybePromoteFromTiny_of_allPinned pinned
  | mmLru | mmFifo | mm2q => cases sketch

end Pinned

/-! ## The pinned items -/

section Pins

/-- Some linked item has this key, value, expiry and number of handles. -/
def State.Holds (s : State K V) (c : K × V × Nat × Nat) : Prop :=
  ∃ i ∈ s.table, (s.heap i).content = c

/-- The number of linked items with a handle. -/
def State.pinnedCount (s : State K V) : Nat :=
  (s.table.filter fun i => (s.heap i).hasActiveHandle).length

/-- Both have the same pinned items and the same limit. -/
structure SamePins (s t : State K V) : Prop where
  holds : ∀ c : K × V × Nat × Nat, 0 < c.2.2.2 → (t.Holds c ↔ s.Holds c)
  count : t.pinnedCount = s.pinnedCount
  maxSize_eq : t.settings.maxSize = s.settings.maxSize

theorem holds_congr (table : t.table = s.table)
    (content : ∀ i ∈ s.table, (t.heap i).content = (s.heap i).content)
    {c : K × V × Nat × Nat} : t.Holds c ↔ s.Holds c := by
  rw [State.Holds, State.Holds, table]
  refine exists_congr fun i => and_congr_right fun hi => ?_
  rw [content i hi]

theorem SamePins.of_content (table : t.table = s.table)
    (content : ∀ i ∈ s.table, (t.heap i).content = (s.heap i).content)
    (maxSize : t.settings.maxSize = s.settings.maxSize) : SamePins s t where
  holds c _ := holds_congr table content
  count := by
    rw [pinnedCount, pinnedCount, table]
    refine congrArg length (filter_congr fun i hi => ?_)
    exact congrArg (fun c : K × V × Nat × Nat => decide (0 < c.2.2.2)) (content i hi)
  maxSize_eq := maxSize

theorem Survives.mem_table_iff (h : Survives env s t) :
    i ∈ t.table ↔ i ∈ s.table ∧ (s.heap i).hasActiveHandle = true := by
  rw [h.table, mem_filter]

theorem Survives.content (h : Survives env s t) (hi : i ∈ t.table) :
    (t.heap i).content = (s.heap i).content :=
  congrArg Body.content (h.body i hi)

theorem Survives.length_table (h : Survives env s t) : t.table.length = s.pinnedCount :=
  congrArg length h.table

theorem Survives.table_pinned (h : Survives env s t) :
    t.table.filter (fun i => (t.heap i).hasActiveHandle) = t.table :=
  filter_eq_self.mpr fun i hi => h.allPinned _ i (h.wf.mem_queue hi)

theorem Survives.samePins (h : Survives env s t) : SamePins s t where
  holds c pinned := by
    constructor
    · rintro ⟨i, hi, rfl⟩
      exact ⟨i, (h.mem_table_iff.mp hi).1, (h.content hi).symm⟩
    · rintro ⟨i, hi, rfl⟩
      have kept : i ∈ t.table := h.mem_table_iff.mpr ⟨hi, decide_eq_true pinned⟩
      exact ⟨i, kept, h.content kept⟩
  count := by rw [← h.length_table, pinnedCount, h.table_pinned]
  maxSize_eq := congrArg Settings.maxSize h.settings_eq

end Pins

section Sketches

variable [DecidableEq K] {strategy : Strategy}

theorem flushOne_sketch (lfu : strategy.hasSketch = true) {acc : State K V × List ItemId} :
    ((strategy.policy env).flushOne env acc i).1.sketch = acc.1.sketch := by
  have removed : ∀ u : State K V, ((strategy.policy env).removeFlushed u i).sketch = u.sketch := by
    cases strategy with
    | mmTinyLfu | mmWTinyLfu => exact fun _ => rfl
    | mmLru | mmFifo | mm2q => cases lfu
  have kept : ∀ u : State K V, ((strategy.policy env).keepFlushed u i).sketch = u.sketch := by
    cases strategy with
    | mmTinyLfu | mmWTinyLfu => exact fun _ => rfl
    | mmLru | mmFifo | mm2q => cases lfu
  have collected : ∀ (u : State K V) (e : Event K V), (u.collect e).sketch = u.sketch := by
    intro u e
    rw [collect]
    split <;> rfl
  rw [Policy.flushOne]
  split
  · exact kept _
  · split
    · rw [removed]
      exact collected _ _
    · rfl

theorem flush_sketch (lfu : strategy.hasSketch = true) :
    ((strategy.policy env).flush env s).sketch = s.sketch.reset := by
  have folded : ∀ (l : List ItemId) (acc : State K V × List ItemId),
      (l.foldl ((strategy.policy env).flushOne env) acc).1.sketch = acc.1.sketch := by
    intro l
    induction l with
    | nil => exact fun _ => rfl
    | cons i rest ih => exact fun acc => (ih _).trans (flushOne_sketch lfu)
  have reset : ∀ u : State K V,
      ((strategy.policy env).afterFlush u).sketch = u.sketch.reset := by
    cases strategy with
    | mmTinyLfu | mmWTinyLfu => exact fun _ => rfl
    | mmLru | mmFifo | mm2q => cases lfu
  have cleaned : ∀ u : State K V, u.cleanupPendingDeletion.sketch = u.sketch := by
    intro u
    obtain ⟨events, clean⟩ := cleanup_eq
    rw [clean]
  rw [Policy.flush]
  simp only [foldl_retire_eq]
  rw [cleaned]
  exact (reset _).trans (congrArg Sketch.reset (folded s.liveItems (s, [])))

end Sketches

end Lru.Mm

namespace Lru.Persist

open Mm State

variable {K V : Type} {env : Env K V} {strategy : Strategy} {s t : State K V}
  {items : List (SerializedItem K V)}

theorem restorePoint_unseen (s : State K V) (l : SerializedListState) :
    Unseen s (restorePoint s l) := by
  have reset : Unseen s { s with tailSize := 0, insertionPoint := none } := ⟨rfl, rfl, rfl, rfl⟩
  rw [restorePoint]
  split
  · split
    · exact reset
    · exact (reset.trans (MmLru.foldl_isTail_marks _ true _).toUnseen).trans ⟨rfl, rfl, rfl, rfl⟩
  · exact reset

variable [DecidableEq K]

/-- `t` is what `rebuild_from_serialized` makes of `s`. -/
structure Rebuilt (env : Env K V) (strategy : Strategy) (s : State K V)
    (items : List (SerializedItem K V)) (t : State K V) : Prop where
  listed : t.Listed
  sequence : ∀ q, t.sequence q = s.pinnedSequence q ++ added strategy items q
  settings_eq : t.settings = s.settings
  stats_eq : t.stats = { s.stats with
    hash := s.hashTable.report (s.table.filter fun i => (s.heap i).hasActiveHandle)
    currentSize := (strategy.policy env).size t
    currentMemory := addAll env s.settings (subtractAll env s s.stats.currentMemory
      (s.liveItems.filter fun i => !(s.heap i).hasActiveHandle)) items }

theorem rebuildItems_rebuilt (wf : s.WellFormed env) :
    Rebuilt env strategy s items (rebuildItems env strategy s items) := by
  have survived := strategy.flush_survives wf
  have linked := foldl_relinked env strategy survived.wf.listed items
  rw [rebuildItems]
  generalize (strategy.policy env).flush env s = u at survived linked ⊢
  generalize items.foldl (linkSerialized env strategy) u = v at linked ⊢
  have size : (strategy.policy env).size (v.storeSize ((strategy.policy env).size v)) =
      (strategy.policy env).size v := by
    cases strategy <;> rfl
  refine ⟨⟨linked.listed.nodup, linked.listed.queueId, linked.listed.lt⟩, fun q => ?_,
    linked.settings_eq.trans survived.settings_eq, ?_⟩
  · exact (linked.sequence q).trans (by rw [survived.sequence])
  · rw [size]
    simp only [storeSize, modifyStats, linked.stats_eq, survived.stats_eq, survived.settings_eq]

theorem Rebuilt.of_survives (h : Survives env s t) : Rebuilt env strategy s [] t where
  listed := h.wf.listed
  sequence q := h.sequence.trans (List.append_nil _).symm
  settings_eq := h.settings_eq
  stats_eq := by
    rw [(strategy.laws env).eviction.size_eq h.wf]
    exact h.stats_eq

/-- The first flush leaves the second one nothing to remove. -/
theorem Rebuilt.after_flush {u : State K V} (first : Survives env s u)
    (second : Rebuilt env strategy u items t) : Rebuilt env strategy s items t where
  listed := second.listed
  sequence q := by
    rw [second.sequence, first.allPinned.pinnedSequence, first.sequence]
  settings_eq := second.settings_eq.trans first.settings_eq
  stats_eq := by
    rw [second.stats_eq, first.allPinned.unpinned_nil, first.stats_eq, first.settings_eq,
      first.hashTable_eq, first.table_pinned, first.table]
    rfl

theorem Rebuilt.unseen {u : State K V} (h : Rebuilt env strategy s items t)
    (unseen : Unseen t u) : Rebuilt env strategy s items u where
  listed := h.listed.of_core unseen.core_eq
  sequence q := unseen.quiet.sequence_eq.trans (h.sequence q)
  settings_eq := unseen.settings_eq.trans h.settings_eq
  stats_eq := by
    have size : (strategy.policy env).size u = (strategy.policy env).size t := by
      cases strategy with
      | mmLru =>
        show u.linkedCount = t.linkedCount
        rw [linkedCount, linkedCount, unseen.quiet.queue_eq]
      | mmFifo | mm2q | mmTinyLfu | mmWTinyLfu =>
        exact congrArg (fun c : Core K V => c.table.length) unseen.core_eq
    rw [size, unseen.stats_eq]
    exact h.stats_eq

/-- The load of an LFU strategy, step by step. -/
theorem rebuildFromParsed_of_hasSketch (lfu : strategy.hasSketch = true)
    (parsed : ParsedData K V) (sec : Nat) : rebuildFromParsed env strategy s parsed sec =
      (strategy.applyConfig env ((strategy.policy env).flush env s) (newConfig strategy
        ((strategy.policy env).flush env s).settings.config parsed.config) sec).andThen fun s =>
        (loadSketch s parsed.cmsState).andThen fun s =>
          .returned (rebuildItems env strategy s parsed.items) := by
  cases strategy with
  | mmTinyLfu | mmWTinyLfu => rfl
  | mmLru | mmFifo | mm2q => cases lfu

theorem ne_mmLru_of_hasSketch (lfu : strategy.hasSketch = true) : strategy ≠ .mmLru := by
  rintro rfl
  cases lfu

end Lru.Persist
