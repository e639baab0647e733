import Lru.Mm.SketchBound
import Lru.Persist.LoadSteps
import Lru.Persist.RoundTrip

/-!
# The frequencies of a restored LFU strategy

The sketch is loaded from the file before `rebuild_from_serialized` runs, whose flush
resets it. So the lists come back and every restored estimate is zero.
-/

namespace Lru.Mm

variable {K V : Type} {s : State K V}

open State Window

namespace Sketch

def Loadable (sketch : Sketch) : Prop :=
  0 < sketch.width ∧ sketch.width ≤ kMaxWidth ∧ 0 < sketch.depth ∧ sketch.depth ≤ kMaxDepth

instance (sketch : Sketch) : Decidable sketch.Loadable :=
  inferInstanceAs (Decidable (_ ∧ _ ∧ _ ∧ _))

/-- A key whose counters are all zero has not been seen. -/
theorem estimate_of_zero {sketch : Sketch} {hash : Nat}
    (zero : ∀ row < sketch.depth, sketch.cells (sketch.indexFor hash row) = 0) :
    sketch.estimate hash = 0 := by
  rw [estimate]
  split
  · rfl
  · case isFalse deep =>
    obtain ⟨d, depth⟩ := Nat.exists_eq_succ_of_ne_zero deep
    rw [depth, List.range_succ, List.foldl_append]
    simp [zero d (by omega)]

theorem estimate_reset (sketch : Sketch) (hash : Nat) : sketch.reset.estimate hash = 0 :=
  estimate_of_zero fun _ _ => rfl

end Sketch

/-- The comparison of two keys by their estimated frequencies. -/
def Window.keyWins (env : Env K V) (s : State K V) (newcomer incumbent : K) : Bool :=
  let newFreq := s.sketch.estimate (env.hash newcomer)
  let oldFreq := s.sketch.estimate (env.hash incumbent)
  if s.settings.config.newcomerWinsOnTie then oldFreq ≤ newFreq else oldFreq < newFreq

/-- If nothing has been seen, every comparison is a tie. -/
theorem Window.keyWins_of_zero {env : Env K V}
    (zero : ∀ key, s.sketch.estimate (env.hash key) = 0) (newcomer incumbent : K) :
    keyWins env s newcomer incumbent = s.settings.config.newcomerWinsOnTie := by
  rw [keyWins]
  simp only [zero]
  cases s.settings.config.newcomerWinsOnTie <;> rfl

end Lru.Mm

namespace Lru.Persist

open Mm State Binary Serde List Window

variable {K V : Type}

/-! ## The lists -/

/-- The list that an item of list `q` is restored to. -/
def restoredTo (strategy : Strategy) (q : QueueId) : QueueId := queueOf strategy (UInt8.ofNat q)

/-- The items of a strategy, as they are saved, come back list by list. -/
theorem added_saved {env : Env K V} {s : State K V} (strategy : Strategy)
    (wf : s.WellFormed env) (q : QueueId) :
    added strategy (s.liveItems.map fun i => itemRecord (s.heap i)) q =
      (if restoredTo strategy 0 = q then s.sequence 0 else []) ++
        (if restoredTo strategy 1 = q then s.sequence 1 else []) ++
        (if restoredTo strategy 2 = q then s.sequence 2 else []) := by
  have one : ∀ p, ((s.queue p).filter fun i =>
      decide (restoredTo strategy (s.heap i).queueId = q)).map
        (fun i => ((s.heap i).key, (s.heap i).value)) =
      if restoredTo strategy p = q then s.sequence p else [] := by
    intro p
    have home : ∀ i ∈ s.queue p, (s.heap i).queueId = p := wf.queue_id p
    split
    · case isTrue same =>
      rw [filter_eq_self.mpr fun i hi => by rw [home i hi]; exact decide_eq_true same]
      rfl
    · case isFalse other =>
      rw [filter_eq_nil_iff.mpr fun i hi => by rw [home i hi]; simpa using other]
      rfl
  rw [added, filter_map, map_map, liveItems, filter_append,
    filter_append, map_append, map_append, ← one 0, ← one 1, ← one 2]
  rfl

/-! ## The sketch -/

/-- The saved words are loaded unless their dimensions are refused. -/
theorem loadSketch_stateWords {sketch : Sketch} (wide : sketch.width < 2 ^ 32)
    (deep : sketch.depth < 2 ^ 32) (s : State K V) :
    (sketch.Loadable ∧
        ∃ loaded, loadSketch s sketch.stateWords = .returned { s with sketch := loaded }) ∨
      (¬ sketch.Loadable ∧ ∃ message, loadSketch s sketch.stateWords = .threw message s) := by
  have width : (UInt32.ofNat sketch.width).toNat = sketch.width := by
    simpa using Nat.mod_eq_of_lt wide
  have depth : (UInt32.ofNat sketch.depth).toNat = sketch.depth := by
    simpa using Nat.mod_eq_of_lt deep
  have complete : ¬ ((range sketch.tableSize).map fun i =>
      UInt32.ofNat (sketch.cells i)).length < sketch.depth * sketch.width := by
    simp [Sketch.tableSize]
  rw [loadSketch, Sketch.stateWords, Sketch.Loadable]
  simp only [cons_append, nil_append, isEmpty_cons, Bool.false_eq_true, if_false,
    Sketch.loadState, width, depth]
  by_cases refused : sketch.width = 0 ∨ sketch.depth = 0 ∨ Sketch.kMaxWidth < sketch.width ∨
      Sketch.kMaxDepth < sketch.depth
  · rw [if_pos refused]
    exact .inr ⟨by omega, _, rfl⟩
  · rw [if_neg refused, if_neg complete]
    exact .inl ⟨by omega, _, rfl⟩

section Load

variable [DecidableEq K] {env : Env K V} {keys : Codec K} {values : Codec V} {strategy : Strategy}
  {s t target : State K V} {sec : Nat} {items : List (SerializedItem K V)} {parsed : ParsedData K V}

/-- `rebuild_from_serialized` starts with a flush, which resets the sketch. -/
theorem rebuildItems_sketch (lfu : strategy.hasSketch = true) (wf : s.WellFormed env) :
    (rebuildItems env strategy s items).sketch = s.sketch.reset := by
  have survived := strategy.flush_survives wf
  have linked := foldl_relinked env strategy survived.wf.listed items
  have same : (items.foldl (linkSerialized env strategy)
      ((strategy.policy env).flush env s)).sketch = ((strategy.policy env).flush env s).sketch := by
    rw [linked.rest_eq]
  exact same.trans (flush_sketch lfu)

/-- What a load leaves in an LFU strategy: the lists, the configuration of the file, and a
sketch that has seen nothing. -/
structure Reloaded (env : Env K V) (strategy : Strategy) (target : State K V)
    (parsed : ParsedData K V) (t : State K V) : Prop where
  sequence : ∀ q, t.sequence q = target.pinnedSequence q ++ added strategy parsed.items q
  config : t.settings.config = newConfig strategy target.settings.config parsed.config
  unseen : ∀ hash, t.sketch.estimate hash = 0

/-- How the load of an LFU strategy from its saved sketch ends. -/
theorem rebuildFromParsed_lfu {sketch : Sketch} (lfu : strategy.hasSketch = true)
    (wide : sketch.width < 2 ^ 32) (deep : sketch.depth < 2 ^ 32)
    (words : parsed.cmsState = sketch.stateWords) (wf : target.WellFormed env) :
    (strategy.validate env.rounding (newConfig strategy target.settings.config parsed.config) =
        none ∧ sketch.Loadable ∧
      ∃ t, rebuildFromParsed env strategy target parsed sec = .returned t ∧
        Reloaded env strategy target parsed t) ∨
    (¬ (strategy.validate env.rounding (newConfig strategy target.settings.config parsed.config) =
        none ∧ sketch.Loadable) ∧
      ∃ message t, rebuildFromParsed env strategy target parsed sec = .threw message t) := by
  have survived := strategy.flush_survives wf
  have kept : ((strategy.policy env).flush env target).settings.config = target.settings.config :=
    congrArg Settings.config survived.settings_eq
  have past := walksPastEnd_of_ne_mmLru (ne_mmLru_of_hasSketch lfu)
    ((strategy.policy env).flush env target)
  rw [rebuildFromParsed_of_hasSketch lfu, kept, words]
  generalize (strategy.policy env).flush env target = f at survived past ⊢
  generalize config : newConfig strategy target.settings.config parsed.config = c
  cases valid : strategy.validate env.rounding c with
  | some message =>
    refine .inr ⟨fun both => (nomatch both.1), message, f, ?_⟩
    exact Outcome.andThen_eq_threw.mpr (.inl (applyConfig_eq_threw.mpr ⟨valid, rfl⟩))
  | none =>
    have applied := applyConfig_eq_returned.mpr ⟨valid, past c,
      Strategy.setConfig_of_allPinned lfu survived.allPinned c sec⟩
    let u : State K V := restartRefresh { f with settings := { f.settings with config := c } } sec
    rcases loadSketch_stateWords wide deep u with
      ⟨loadable, loaded, returned⟩ | ⟨refused, message, threw⟩
    · refine .inl ⟨rfl, loadable, rebuildItems env strategy { u with sketch := loaded }
        parsed.items, ?_, ?_⟩
      · exact Outcome.andThen_eq_returned.mpr ⟨u, applied,
          Outcome.andThen_eq_returned.mpr ⟨_, returned, rfl⟩⟩
      · have ready : ({ u with sketch := loaded } : State K V).WellFormed env := survived.wf
        have rebuilt : Rebuilt env strategy { u with sketch := loaded } parsed.items _ :=
          rebuildItems_rebuilt ready
        refine ⟨fun q => ?_, ?_, fun hash => ?_⟩
        · rw [rebuilt.sequence]
          show f.pinnedSequence q ++ _ = _
          rw [survived.allPinned.pinnedSequence, survived.sequence]
        · rw [rebuilt.settings_eq, config]
          rfl
        · rw [rebuildItems_sketch lfu ready, Sketch.estimate_reset]
    · refine .inr ⟨fun both => refused both.2, message, u, ?_⟩
      exact Outcome.andThen_eq_threw.mpr (.inr ⟨u, applied,
        Outcome.andThen_eq_threw.mpr (.inl threw)⟩)

/-! ## What is restored -/

/-- `t` has the lists of `s`, and decides by frequency as `s` does. -/
structure SameKnowledge (env : Env K V) (s t : State K V) : Prop where
  sequence : ∀ q, t.sequence q = s.sequence q
  estimate : ∀ key, t.sketch.estimate (env.hash key) = s.sketch.estimate (env.hash key)
  decision : ∀ newcomer incumbent,
    Window.keyWins env t newcomer incumbent = Window.keyWins env s newcomer incumbent

/-- The target returns from the load of what `s` was saved as, and knows what `s` knew. -/
def KnowledgeRestored (env : Env K V) (strategy : Strategy) (keys : Codec K) (values : Codec V)
    (s target : State K V) (sec : Nat) : Prop :=
  ∃ bytes t, serialize keys values strategy s env = .ok bytes ∧
    deserialize env strategy target keys values bytes sec = .returned t ∧ SameKnowledge env s t

section

omit [DecidableEq K]

/-- The lists come back iff the target keeps nothing and no item changes its list. -/
theorem restored_sequence_iff (lfu : strategy.hasSketch = true) (wf : s.WellFormed env) :
    (∀ q, target.pinnedSequence q ++
        added strategy (s.liveItems.map fun i => itemRecord (s.heap i)) q = s.sequence q) ↔
      (∀ q, target.pinnedSequence q = []) ∧ (strategy = .mmTinyLfu → s.queue 2 = []) := by
  cases strategy with
  | mmLru | mmFifo | mm2q => cases lfu
  | mmWTinyLfu =>
    have whole (q : QueueId) :
        added .mmWTinyLfu (s.liveItems.map fun i => itemRecord (s.heap i)) q = s.sequence q := by
      rw [added_saved .mmWTinyLfu wf]
      match q with
      | 0 => exact (append_nil _).trans (append_nil _)
      | 1 => exact append_nil _
      | 2 => rfl
    simp [whole]
  | mmTinyLfu =>
    have saved := added_saved .mmTinyLfu wf
    generalize s.liveItems.map (fun i => itemRecord (s.heap i)) = items at saved ⊢
    have first : added .mmTinyLfu items 0 = s.sequence 0 ++ s.sequence 2 :=
      (saved 0).trans (congrArg (· ++ _) (append_nil _))
    have second : added .mmTinyLfu items 1 = s.sequence 1 := (saved 1).trans (append_nil _)
    have third : added .mmTinyLfu items 2 = [] := saved 2
    have unused : s.sequence 2 = [] ↔ s.queue 2 = [] := map_eq_nil_iff
    constructor
    · intro same
      have head := same 0
      have middle := same 1
      have last := same 2
      rw [first] at head
      rw [second, append_left_eq_self] at middle
      rw [third, append_nil] at last
      -- By its length the first list gets nothing from the target or from the third list.
      have length := congrArg length head
      simp only [length_append] at length
      have none : target.pinnedSequence 0 = [] := length_eq_zero_iff.mp (by omega)
      have empty : s.sequence 2 = [] := length_eq_zero_iff.mp (by omega)
      refine ⟨fun q => ?_, fun _ => unused.mp empty⟩
      match q with
      | 0 => exact none
      | 1 => exact middle
      | 2 => exact last.trans empty
    · rintro ⟨free, two⟩ q
      rw [free q, nil_append]
      match q with
      | 0 => rw [first, unused.mpr (two rfl), append_nil]
      | 1 => exact second
      | 2 => rw [third, unused.mpr (two rfl)]

/-- A reloaded strategy knows what `s` knew iff the lists are back and `s` had seen nothing. -/
theorem Reloaded.sameKnowledge_iff (h : Reloaded env strategy target parsed t)
    (lfu : strategy.hasSketch = true) (wf : s.WellFormed env)
    (items : parsed.items = s.liveItems.map fun i => itemRecord (s.heap i)) :
    SameKnowledge env s t ↔
      ((∀ q, target.pinnedSequence q = []) ∧ (strategy = .mmTinyLfu → s.queue 2 = [])) ∧
        ∀ key, s.sketch.estimate (env.hash key) = 0 ∧
          target.settings.config.newcomerWinsOnTie = s.settings.config.newcomerWinsOnTie := by
  have tie : t.settings.config.newcomerWinsOnTie = target.settings.config.newcomerWinsOnTie := by
    rw [h.config]
    cases strategy <;> rfl
  have wins : ∀ newcomer incumbent, keyWins env t newcomer incumbent =
      t.settings.config.newcomerWinsOnTie := keyWins_of_zero fun key => h.unseen _
  rw [← restored_sequence_iff lfu wf, ← items]
  constructor
  · intro known
    have zero : ∀ key, s.sketch.estimate (env.hash key) = 0 :=
      fun key => (known.estimate key).symm.trans (h.unseen _)
    refine ⟨fun q => (h.sequence q).symm.trans (known.sequence q), fun key => ⟨zero key, ?_⟩⟩
    rw [← tie, ← wins key key, known.decision, keyWins_of_zero zero]
  · rintro ⟨sequence, seen⟩
    have zero : ∀ key, s.sketch.estimate (env.hash key) = 0 := fun key => (seen key).1
    refine ⟨fun q => (h.sequence q).trans (sequence q),
      fun key => (h.unseen _).trans (zero key).symm, fun newcomer incumbent => ?_⟩
    rw [wins, tie, (seen newcomer).2, keyWins_of_zero zero]

theorem stateWords_of_saved {words : List UInt32} (lfu : strategy.hasSketch = true)
    (saved : cmsWords strategy s = .ok words) :
    (snapshotWith strategy s words).toParsedData.cmsState = s.sketch.stateWords := by
  rw [cmsWords, if_pos lfu, Sketch.saveState] at saved
  split at saved
  · cases saved
  · exact (Except.ok.inj saved).symm

end

/-- How the load of a saved LFU strategy ends. -/
theorem deserialize_saved (lfu : strategy.hasSketch = true) (wf : s.WellFormed env)
    (within : WithinLimits keys values strategy s) (before : target.WellFormed env) :
    ∃ (bytes : List UInt8) (parsed : ParsedData K V),
      serialize keys values strategy s env = .ok bytes ∧
      parsed.config = writtenConfig strategy s ∧
      parsed.items = (s.liveItems.map fun i => itemRecord (s.heap i)) ∧
      ((strategy.validate env.rounding (newConfig strategy target.settings.config parsed.config) =
          none ∧ s.sketch.Loadable ∧
        ∃ t, deserialize env strategy target keys values bytes sec = .returned t ∧
          Reloaded env strategy target parsed t) ∨
      (¬ (strategy.validate env.rounding (newConfig strategy target.settings.config
          parsed.config) = none ∧ s.sketch.Loadable) ∧
        ∃ message t, deserialize env strategy target keys values bytes sec =
          .threw message t)) := by
  obtain ⟨words, bytes, saved, written, parsed⟩ := exists_saved wf within
  obtain ⟨wide, deep, -⟩ := within.sketch lfu
  have stored := stateWords_of_saved lfu saved
  refine ⟨bytes, (snapshotWith strategy s words).toParsedData, written, rfl, rfl, ?_⟩
  rw [deserialize, parsed]
  exact rebuildFromParsed_lfu lfu wide deep stored before

/-- A strategy that saved what the parser accepts gets its knowledge back iff it knew nothing:
the flush before the items are linked forgets every frequency. -/
theorem knowledgeRestored_iff (env : Env K V) (strategy : Strategy) (keys : Codec K)
    (values : Codec V) (s target : State K V) (sec : Nat) (lfu : strategy.hasSketch = true)
    (wf : s.WellFormed env) (within : WithinLimits keys values strategy s)
    (before : target.WellFormed env) :
    KnowledgeRestored env strategy keys values s target sec ↔
      (∀ q, target.pinnedSequence q = []) ∧ (strategy = .mmTinyLfu → s.queue 2 = []) ∧
        strategy.validate env.rounding (newConfig strategy target.settings.config
          (writtenConfig strategy s)) = none ∧ s.sketch.Loadable ∧
        ∀ key, s.sketch.estimate (env.hash key) = 0 ∧
          target.settings.config.newcomerWinsOnTie = s.settings.config.newcomerWinsOnTie := by
  obtain ⟨bytes, parsed, written, config, items, ends⟩ := deserialize_saved lfu wf within before
  rw [config] at ends
  rcases ends with ⟨valid, loadable, t, returned, reloaded⟩ | ⟨refused, message, t, threw⟩
  · have known := reloaded.sameKnowledge_iff lfu wf items
    constructor
    · rintro ⟨_, u, same, loaded, knows⟩
      obtain rfl := Except.ok.inj (written.symm.trans same)
      obtain rfl := Outcome.returned.inj (returned.symm.trans loaded)
      obtain ⟨⟨free, two⟩, seen⟩ := known.mp knows
      exact ⟨free, two, valid, loadable, seen⟩
    · rintro ⟨free, two, -, -, seen⟩
      exact ⟨bytes, t, written, returned, known.mpr ⟨⟨free, two⟩, seen⟩⟩
  · constructor
    · rintro ⟨_, u, same, loaded, -⟩
      obtain rfl := Except.ok.inj (written.symm.trans same)
      cases threw.symm.trans loaded
    · rintro ⟨-, -, valid, loadable, -⟩
      exact absurd ⟨valid, loadable⟩ refused

end Load

section Samples

def seenState : State UInt32 UInt32 :=
  (Strategy.mmWTinyLfu.policy wordEnv).set wordEnv newState 1 10 0

/-- `mm_wtiny_lfu` for two items after `set(1, 10)` and `set(2, 20)`. The window is two
accesses long, so the second has aged all counters back to zero. -/
def agedState : State UInt32 UInt32 :=
  [(1, 10), (2, 20)].foldl
    (fun s p => (Strategy.mmWTinyLfu.policy wordEnv).set wordEnv s p.1 p.2 0)
    (State.empty (fun _ => default) { maxSize := 2, config := { cmsWindowMultiplier := 1 } }
      (Sketch.create 1 4 2) 0)

/-- Both items come back, and there is no frequency to lose. -/
theorem agedState_knowledgeRestored :
    agedState.sequence 0 = [(2, 20)] ∧ agedState.sequence 1 = [(1, 10)] ∧
      KnowledgeRestored wordEnv .mmWTinyLfu word32 word32 agedState newState 0 := by
  have wf : agedState.WellFormed wordEnv := by
    have laws := Strategy.mmWTinyLfu.laws wordEnv
    exact laws.set_wf (laws.set_wf (Strategy.empty_wf _ _ _ _) 1 10 0) 2 20 0
  have aged : ∀ i < 16, agedState.sketch.cells i = 0 := by decide +kernel
  have unseen : ∀ key, agedState.sketch.estimate (wordEnv.hash key) = 0 := by
    intro key
    refine Sketch.estimate_of_zero fun row inside => aged _ ?_
    have four : agedState.sketch.depth = 4 ∧ agedState.sketch.width = 4 := by decide +kernel
    rw [four.1] at inside
    rw [Sketch.indexFor, four.2]
    omega
  refine ⟨by decide +kernel, by decide +kernel, ?_⟩
  rw [knowledgeRestored_iff wordEnv .mmWTinyLfu word32 word32 agedState newState 0 rfl wf
    ⟨by decide +kernel, fun _ => by decide +kernel, fun i _ => ⟨word32_fits, word32_fits⟩⟩
    newState_wf]
  have tie : newState.settings.config.newcomerWinsOnTie =
      agedState.settings.config.newcomerWinsOnTie := by decide +kernel
  exact ⟨by decide, nofun, by decide +kernel, by decide +kernel, fun key => ⟨unseen key, tie⟩⟩

/-- The one item is restored, and it has lost its frequency. -/
theorem seenState_forgotten :
    ∃ bytes t, serialize word32 word32 .mmWTinyLfu seenState wordEnv = .ok bytes ∧
      deserialize wordEnv .mmWTinyLfu newState word32 word32 bytes 0 = .returned t ∧
      t.sequence 0 = [(1, 10)] ∧ seenState.sequence 0 = [(1, 10)] ∧
      seenState.sketch.estimate (wordEnv.hash 1) = 1 ∧ t.sketch.estimate (wordEnv.hash 1) = 0 ∧
      keyWins wordEnv seenState 2 1 ≠ keyWins wordEnv t 2 1 ∧
      ¬ KnowledgeRestored wordEnv .mmWTinyLfu word32 word32 seenState newState 0 := by
  have wf := (Strategy.mmWTinyLfu.laws wordEnv).set_wf newState_wf 1 10 0
  have within : WithinLimits word32 word32 .mmWTinyLfu seenState :=
    ⟨by decide +kernel, fun _ => by decide +kernel, fun i _ => ⟨word32_fits, word32_fits⟩⟩
  have seen : seenState.sketch.estimate (wordEnv.hash 1) = 1 := by decide +kernel
  have lost : keyWins wordEnv seenState 2 1 = false := by decide +kernel
  obtain ⟨bytes, parsed, written, config, items, ends⟩ :=
    deserialize_saved rfl wf within newState_wf
  rw [config] at ends
  rcases ends with ⟨-, -, t, returned, reloaded⟩ | ⟨refused, -⟩
  · have sequence : t.sequence 0 = [(1, 10)] := by
      rw [reloaded.sequence, items]
      decide +kernel
    have won : keyWins wordEnv t 2 1 = true := by
      rw [keyWins_of_zero fun key => reloaded.unseen _, reloaded.config]
      rfl
    refine ⟨bytes, t, written, returned, sequence, by decide +kernel, seen, reloaded.unseen _,
      ?_, ?_⟩
    · rw [won, lost]
      exact Bool.false_ne_true
    · rintro ⟨_, u, same, loaded, known⟩
      obtain rfl := Except.ok.inj (written.symm.trans same)
      obtain rfl := Outcome.returned.inj (returned.symm.trans loaded)
      have kept := known.estimate 1
      rw [reloaded.unseen, seen] at kept
      cases kept
  · exact absurd ⟨by decide +kernel, by decide +kernel⟩ refused

end Samples

end Lru.Persist
