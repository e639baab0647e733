import Lru.Mm.Billing
import Lru.Persist.Accounting
import Lru.Persist.Coverage
import Lru.Persist.RestoredTail

/-!
# Input with a correct checksum

The parser checks the frame of the data, not what it says. Keys that come twice, a
tail size that does not fit its position and a sketch with too few words pass it. Here
is what a load makes of them, and which data leave a cache in order.
-/

namespace Lru

namespace Outcome

variable {σ : Type} {o : Outcome σ} {next : σ → Outcome σ} {P : σ → Prop}

/-- Nothing undefined happens, and a load that returns does so in a state with property `P`. -/
def EndsIn (P : σ → Prop) : Outcome σ → Prop
  | returned s => P s
  | threw _ _ => True
  | undefined => False

theorem andThen_endsIn : (o.andThen next).EndsIn P ↔ o.EndsIn fun s => (next s).EndsIn P := by
  cases o <;> rfl

end Outcome

end Lru

namespace Lru.Persist

open Mm State Binary SizeT Strategy

variable {K V : Type} [DecidableEq K] {env : Env K V} {strategy : Strategy} {s t u : State K V}
  {keys : Codec K} {values : Codec V} {data : List UInt8} {sec : Nat} {parsed : ParsedData K V}
  {items : List (SerializedItem K V)}

/-! ## What is asked of the result -/

/-- Table and lists agree, the counters are those of the lists, and in `mm_lru` the tail
segment is exact. -/
structure Sound (env : Env K V) (strategy : Strategy) (s : State K V) : Prop where
  wf : s.WellFormed env
  accounted : Accounted env s
  tail : strategy = .mmLru → MmLru.TailExact s

/-- `deserialize` throws or leaves a cache in order, and never runs past an end. -/
def Withstands (env : Env K V) (strategy : Strategy) (keys : Codec K) (values : Codec V)
    (s : State K V) (data : List UInt8) (sec : Nat) : Prop :=
  (deserialize env strategy s keys values data sec).EndsIn (Sound env strategy)

/-! ## What is asked of the data -/

/-- No key of the file comes twice or belongs to a pinned item. -/
structure FreshKeys (s : State K V) (items : List (SerializedItem K V)) : Prop where
  nodup : (items.map SerializedItem.key).Nodup
  absent : ∀ item ∈ items, ∀ i ∈ s.table, (s.heap i).hasActiveHandle = true →
    (s.heap i).key ≠ item.key

/-- The nodes of the list of `mm_lru` after the load. -/
def restoredLength (s : State K V) (items : List (SerializedItem K V)) : Nat :=
  (s.pinnedSequence 0).length + items.length

/-- The sketch has as many words as its dimensions say. -/
def CompleteSketch (words : List UInt32) : Prop :=
  words = [] ∨ ∃ width depth total decay saturated cells,
    words = width :: depth :: total :: decay :: saturated :: cells ∧
      depth.toNat * width.toNat ≤ cells.length

/-- What the file says is consistent with itself and with the pinned items. -/
def Consistent (strategy : Strategy) (s : State K V) (parsed : ParsedData K V) : Prop :=
  match strategy with
  | .mmLru =>
    FreshKeys s parsed.items ∧ parsed.listState.Fits (restoredLength s parsed.items)
      parsed.config.lruInsertionPointSpec.toNat
  | .mm2q => FreshKeys s parsed.items
  | .mmFifo => True
  | .mmTinyLfu | .mmWTinyLfu =>
    MalformedSketch parsed.cmsState ∨ CompleteSketch parsed.cmsState ∧ FreshKeys s parsed.items

/-! ## Rules for the steps -/

section Rules

theorem applyConfig_endsIn {c : Config} {P : State K V → Prop} :
    (strategy.applyConfig env s c sec).EndsIn P ↔
      (strategy.validate env.rounding c = none →
        strategy.walksPastEnd s c = false ∧ P ((strategy.policy env).setConfig s c sec)) := by
  rw [applyConfig]
  cases strategy.validate env.rounding c with
  | some message => simp [Outcome.EndsIn]
  | none => cases strategy.walksPastEnd s c <;> simp [Outcome.EndsIn]

omit [DecidableEq K] in
theorem loadSketch_endsIn {words : List UInt32} {P : State K V → Prop} {fresh : Prop}
    (same : ∀ sketch, P { s with sketch := sketch } ↔ fresh) :
    (loadSketch s words).EndsIn P ↔ MalformedSketch words ∨ CompleteSketch words ∧ fresh := by
  have here : P s ↔ fresh := same s.sketch
  rcases words with _ | ⟨w, _ | ⟨d, _ | ⟨total, _ | ⟨decay, _ | ⟨saturated, cells⟩⟩⟩⟩⟩
  case cons.cons.cons.cons.cons =>
    simp only [loadSketch, Sketch.loadState, List.isEmpty_cons, Bool.false_eq_true, if_false]
    by_cases malformed : w.toNat = 0 ∨ d.toNat = 0 ∨ Sketch.kMaxWidth < w.toNat ∨
        Sketch.kMaxDepth < d.toNat
    · simp [malformed, MalformedSketch, Outcome.EndsIn]
    · by_cases short : cells.length < d.toNat * w.toNat
      · simp [malformed, short, MalformedSketch, CompleteSketch, Outcome.EndsIn]
      · simp [malformed, short, MalformedSketch, CompleteSketch, Outcome.EndsIn, same,
          Nat.le_of_not_lt short]
  all_goals
    simp [loadSketch, Sketch.loadState, MalformedSketch, CompleteSketch, Outcome.EndsIn, here]

end Rules

/-! ## Keys -/

section Keys

omit [DecidableEq K]

theorem freshKeys_iff : FreshKeys s items ↔
    (items.map SerializedItem.key).Nodup ∧
      ∀ item ∈ items, ∀ c, s.Holds c → 0 < c.2.2.2 → c.1 ≠ item.key := by
  constructor
  · rintro ⟨nodup, absent⟩
    refine ⟨nodup, fun item hitem c => ?_⟩
    rintro ⟨i, hi, rfl⟩ pinned
    exact absent item hitem i hi (decide_eq_true pinned)
  · rintro ⟨nodup, absent⟩
    refine ⟨nodup, fun item hitem i hi pinned => ?_⟩
    exact absent item hitem _ ⟨i, hi, rfl⟩ (of_decide_eq_true pinned)

theorem freshKeys_of_samePins (same : SamePins s t) : FreshKeys t items ↔ FreshKeys s items := by
  rw [freshKeys_iff, freshKeys_iff]
  refine and_congr_right fun _ => forall₂_congr fun item _ => forall_congr' fun c => ?_
  constructor
  · exact fun absent held pinned => absent ((same.holds c pinned).mpr held) pinned
  · exact fun absent held pinned => absent ((same.holds c pinned).mp held) pinned

theorem fresh_iff_freshKeys (survived : Survives env s t) :
    Fresh t items ↔ FreshKeys s items := by
  rw [← freshKeys_of_samePins survived.samePins]
  constructor
  · rintro ⟨nodup, absent⟩
    exact ⟨nodup, fun item hitem i hi _ => absent item hitem i hi⟩
  · rintro ⟨nodup, absent⟩
    exact ⟨nodup, fun item hitem i hi =>
      absent item hitem i hi (survived.allPinned _ i (survived.wf.mem_queue hi))⟩

end Keys

/-! ## Rebuilding -/

section Rebuilding

theorem Rebuilt.accounted (h : Rebuilt env strategy s items t) (before : Accounted env s)
    (size : (strategy.policy env).size t = t.linkedCount) : Accounted env t where
  size := by
    rw [h.stats_eq]
    exact size
  memory := by
    have small : s.stats.currentMemory < range := by
      rw [before.memory]
      exact Nat.mod_lt _ range_pos
    have exact_before : s.stats.currentMemory ≡ s.weight env [MOD range] := by
      rw [before.memory]
      exact Nat.mod_modEq _ _
    have balance := h.memory_modEq.trans (exact_before.add_right _)
    rw [Nat.add_comm (s.weight env)] at balance
    have same := Nat.ModEq.add_right_cancel' _ balance
    rw [← Nat.mod_eq_of_lt (h.memory_lt small)]
    exact same

theorem rebuildItems_of_fresh (wf : s.WellFormed env) (before : Accounted env s)
    (fresh : FreshKeys s items) :
    (rebuildItems env strategy s items).WellFormed env ∧
      Accounted env (rebuildItems env strategy s items) := by
  have survived := strategy.flush_survives wf
  have linked : (items.foldl (linkSerialized env strategy)
      ((strategy.policy env).flush env s)).WellFormed env :=
    foldl_wf survived.wf ((fresh_iff_freshKeys survived).mpr fresh)
  have rebuilt : (rebuildItems env strategy s items).WellFormed env := linked
  refine ⟨rebuilt, (rebuildItems_rebuilt wf).accounted before ?_⟩
  rw [(strategy.laws env).eviction.size_eq rebuilt, linkedCount_eq rebuilt]

/-- A key that comes twice leaves the table shorter than the lists. -/
theorem rebuildItems_short (wf : s.WellFormed env) (stale : ¬ FreshKeys s items) :
    (rebuildItems env strategy s items).table.length <
      (rebuildItems env strategy s items).linkedCount := by
  have survived := strategy.flush_survives wf
  exact foldl_short survived.wf fun fresh => stale ((fresh_iff_freshKeys survived).mp fresh)

omit [DecidableEq K] in
theorem not_wf_of_short (env : Env K V) (short : s.table.length < s.linkedCount) :
    ¬ s.WellFormed env :=
  fun wf => short.ne (linkedCount_eq wf).symm

/-- What the three rebuilding strategies start from. -/
theorem flush_spec (strategy : Strategy) (items : List (SerializedItem K V))
    (wf : s.WellFormed env) (before : Accounted env s) :
    Survives env s ((strategy.policy env).flush env s) ∧
      Accounted env ((strategy.policy env).flush env s) ∧
      ((strategy.policy env).flush env s).settings.config = s.settings.config ∧
      (FreshKeys ((strategy.policy env).flush env s) items ↔ FreshKeys s items) := by
  have survived := strategy.flush_survives wf
  have rebuilt : Rebuilt env strategy s [] _ := .of_survives survived
  refine ⟨survived, rebuilt.accounted before ?_, congrArg Settings.config survived.settings_eq,
    freshKeys_of_samePins survived.samePins⟩
  rw [(strategy.laws env).eviction.size_eq survived.wf, linkedCount_eq survived.wf]

end Rebuilding

/-! ## The strategies -/

section Strategies

theorem foldl_set_sound (wf : s.WellFormed env) (before : Accounted env s) :
    Sound env .mmFifo (items.foldl
      (fun s item => (mmFifo.policy env).set env s item.key item.value sec) s) := by
  induction items generalizing s with
  | nil => exact ⟨wf, before, nofun⟩
  | cons item rest ih =>
    exact ih ((MmFifo.laws env).set_wf wf item.key item.value sec)
      (MmFifo.set_accounted wf before)

theorem mmLfu_endsIn (lfu : strategy.hasSketch = true) (wf : s.WellFormed env)
    (before : Accounted env s) :
    (rebuildFromParsed env strategy s parsed sec).EndsIn (Sound env strategy) ↔
      (strategy.validate env.rounding (newConfig strategy s.settings.config parsed.config) = none →
        Consistent strategy s parsed) := by
  obtain ⟨survived, flushed, kept, keys⟩ := flush_spec strategy parsed.items wf before
  have consistent : Consistent strategy s parsed ↔ MalformedSketch parsed.cmsState ∨
      CompleteSketch parsed.cmsState ∧ FreshKeys s parsed.items := by
    cases strategy with
    | mmTinyLfu | mmWTinyLfu => rfl
    | mmLru | mmFifo | mm2q => cases lfu
  rw [rebuildFromParsed_of_hasSketch lfu, Outcome.andThen_endsIn, applyConfig_endsIn, consistent,
    ← keys, kept]
  generalize (strategy.policy env).flush env s = f at survived flushed ⊢
  generalize newConfig strategy s.settings.config parsed.config = c
  refine imp_congr_right fun _ => ?_
  rw [walksPastEnd_of_ne_mmLru (ne_mmLru_of_hasSketch lfu),
    setConfig_of_allPinned lfu survived.allPinned,
    Outcome.andThen_endsIn]
  simp
  refine loadSketch_endsIn fun sketch => ?_
  -- Of what the rebuild starts from, configuration, refresh times and sketch are new.
  let u : State K V :=
    { restartRefresh { f with settings := { f.settings with config := c } } sec with
      sketch := sketch }
  have ready : u.WellFormed env := survived.wf
  have counted : Accounted env u := ⟨flushed.size, flushed.memory⟩
  have same : FreshKeys u parsed.items ↔ FreshKeys f parsed.items :=
    freshKeys_of_samePins (.of_content rfl (fun _ _ => rfl) rfl)
  rw [← same]
  constructor
  · intro sound
    by_contra stale
    exact not_wf_of_short env (rebuildItems_short ready stale) sound.wf
  · intro fresh
    obtain ⟨wf, accounted⟩ := rebuildItems_of_fresh ready counted fresh
    exact ⟨wf, accounted, fun lru => absurd lru (ne_mmLru_of_hasSketch lfu)⟩

theorem registerAndRebalance_sound_iff (wf : s.WellFormed env) (before : Accounted env s) :
    Sound env .mm2q (registerAndRebalance env (rebuildItems env .mm2q s items)) ↔
      FreshKeys s items := by
  have rebuilt : Rebuilt env .mm2q s items (rebuildItems env .mm2q s items) :=
    rebuildItems_rebuilt wf
  let counted : State K V := (rebuildItems env .mm2q s items).modifyStats fun x =>
    { x with insertions := x.insertions + 1 }
  change Sound env .mm2q (Mm2q.rebalance env counted) ↔ _
  constructor
  · intro sound
    by_contra stale
    have listed : counted.Listed :=
      ⟨rebuilt.listed.nodup, rebuilt.listed.queueId, rebuilt.listed.lt⟩
    have short : counted.table.length < counted.linkedCount := rebuildItems_short wf stale
    obtain ⟨-, count, table, -⟩ := Mm2q.rebalance_listed listed
    exact not_wf_of_short env (by rw [count, table]; exact short) sound.wf
  · intro fresh
    obtain ⟨wf, accounted⟩ : (rebuildItems env .mm2q s items).WellFormed env ∧ _ :=
      rebuildItems_of_fresh wf before fresh
    have ready : counted.WellFormed env := wf
    have exact_counters : Accounted env counted := ⟨accounted.size, accounted.memory⟩
    have moved := Mm2q.rebalance_moves ready
    exact ⟨moved.wf, exact_counters.moves ready moved, nofun⟩

/-- The new configuration of `mm_2q` moves items between its lists. -/
theorem mm2q_setConfig_samePins {c : Config} (wf : s.WellFormed env) :
    ((mm2q.policy env).setConfig s c sec).WellFormed env ∧
      SamePins s ((mm2q.policy env).setConfig s c sec) := by
  let configured : State K V := { s with settings := { s.settings with config := c } }
  have ready : configured.WellFormed env := wf
  have moved : Moves env configured ((mm2q.policy env).setConfig s c sec) :=
    Mm2q.reconfigure_moves sec ready
  have pins : SamePins configured ((mm2q.policy env).setConfig s c sec) :=
    .of_content moved.table_eq (fun i hi => moved.content i (moved.mem_iff.mpr hi))
      (congrArg Settings.maxSize moved.settings_eq)
  exact ⟨moved.wf, pins.holds, pins.count, pins.maxSize_eq⟩

theorem mm2q_endsIn (wf : s.WellFormed env) (before : Accounted env s) :
    (rebuildFromParsed env .mm2q s parsed sec).EndsIn (Sound env .mm2q) ↔
      (mm2q.validate env.rounding (newConfig .mm2q s.settings.config parsed.config) =
        none → Consistent .mm2q s parsed) := by
  obtain ⟨survived, flushed, kept, keys⟩ := flush_spec .mm2q parsed.items wf before
  rw [rebuildFromParsed, Consistent, ← keys, Outcome.andThen_endsIn, applyConfig_endsIn, kept]
  generalize (mm2q.policy env).flush env s = f at survived flushed ⊢
  generalize newConfig .mm2q s.settings.config parsed.config = c
  refine imp_congr_right fun _ => ?_
  rw [walksPastEnd_of_ne_mmLru (by decide)]
  simp
  let configured : State K V := { f with settings := { f.settings with config := c } }
  have ready : configured.WellFormed env := survived.wf
  have counted : Accounted env configured := ⟨flushed.size, flushed.memory⟩
  have moved : Moves env configured ((mm2q.policy env).setConfig f c sec) :=
    Mm2q.reconfigure_moves sec ready
  rw [← freshKeys_of_samePins (mm2q_setConfig_samePins survived.wf).2]
  exact registerAndRebalance_sound_iff moved.wf (counted.moves ready moved)

theorem queue_length_rebuildItems (survived : Survives env s t) :
    ((rebuildItems env .mmLru t items).queue 0).length = restoredLength s items := by
  have rebuilt : Rebuilt env .mmLru s items (rebuildItems env .mmLru t items) :=
    .after_flush survived (rebuildItems_rebuilt survived.wf)
  have length := congrArg List.length (rebuilt.sequence 0)
  have all : items.filter (fun item => queueOf .mmLru item.queueId = 0) = items :=
    List.filter_eq_self.mpr fun _ _ => rfl
  rw [State.sequence, List.length_map, List.length_append, added, all, List.length_map] at length
  exact length

/-- Insertion point and configuration leave table, lists and counters alone. -/
theorem configured_sound_iff (wf : s.WellFormed env) (before : Accounted env s)
    (l : SerializedListState) (c : Config) :
    Sound env .mmLru ((mmLru.policy env).setConfig
        (restorePoint (rebuildItems env .mmLru s items) l) c sec) ↔
      FreshKeys s items ∧ MmLru.TailExact ((mmLru.policy env).setConfig
        (restorePoint (rebuildItems env .mmLru s items) l) c sec) := by
  set v := rebuildItems env .mmLru s items with v_def
  have restored := restorePoint_unseen v l
  let configured : State K V :=
    { restorePoint v l with settings := { (restorePoint v l).settings with config := c } }
  have respecified : Unseen configured ((mmLru.policy env).setConfig
      (restorePoint v l) c sec) := MmLru.reconfigure_unseen configured sec
  have core : ((mmLru.policy env).setConfig (restorePoint v l) c sec).core = v.core :=
    respecified.core_eq.trans restored.core_eq
  constructor
  · intro sound
    refine ⟨?_, sound.tail rfl⟩
    by_contra stale
    have short : v.table.length < v.linkedCount := rebuildItems_short wf stale
    refine not_wf_of_short env short ?_
    rw [State.WellFormed, ← core]
    exact sound.wf
  · rintro ⟨fresh, tail⟩
    obtain ⟨linked, accounted⟩ : v.WellFormed env ∧ Accounted env v :=
      rebuildItems_of_fresh wf before fresh
    have pointed : Accounted env (restorePoint v l) :=
      accounted.moves linked (.of_unseen restored linked)
    have ready : configured.WellFormed env := restored.quiet.wf linked
    have counted : Accounted env configured := ⟨pointed.size, pointed.memory⟩
    exact ⟨respecified.quiet.wf ready, counted.moves ready (.of_unseen respecified ready),
      fun _ => tail⟩

theorem mmLru_endsIn (wf : s.WellFormed env) (before : Accounted env s)
    (bound : restoredLength s parsed.items < range) :
    (rebuildFromParsed env .mmLru s parsed sec).EndsIn (Sound env .mmLru) ↔
      (mmLru.validate env.rounding (newConfig .mmLru s.settings.config parsed.config) =
        none → Consistent .mmLru s parsed) := by
  obtain ⟨survived, flushed, kept, keys⟩ := flush_spec .mmLru parsed.items wf before
  rw [rebuildFromParsed, Consistent, ← keys, applyConfig_endsIn, kept]
  generalize (mmLru.policy env).flush env s = f at survived flushed ⊢
  have length : ((rebuildItems env .mmLru f parsed.items).queue 0).length = _ :=
    queue_length_rebuildItems survived
  have rebuilt : Rebuilt env .mmLru f parsed.items (rebuildItems env .mmLru f parsed.items) :=
    rebuildItems_rebuilt survived.wf
  refine imp_congr_right fun _ => ?_
  rw [configured_sound_iff survived.wf flushed, and_left_comm, restoredTail_iff
    (rebuildItems_flagged survived.wf survived.allPinned) (rebuilt.listed.nodup 0)
    (length ▸ bound), length]
  rfl

end Strategies

/-! ## Every input -/

omit [DecidableEq K] in
theorem items_length_le (accepted : parseSerializedData keys values (typeId strategy) data =
    .ok parsed) : parsed.items.length ≤ 10000000 := by
  obtain ⟨h, payload, left, header, ran⟩ := parseSerializedData_eq_ok_iff.mp accepted
  rw [(of_readPayload ran).2.1]
  exact (run_readHeader_eq_ok_iff.mp header).2.1

/-- A load withstands its input iff what the parser and `validate()` let pass is consistent. -/
theorem withstands_iff (env : Env K V) (strategy : Strategy) (keys : Codec K) (values : Codec V)
    (s : State K V) (data : List UInt8) (sec : Nat) (wf : s.WellFormed env)
    (before : Accounted env s) (small : s.linkedCount + 10000000 < range) :
    Withstands env strategy keys values s data sec ↔
      ∀ parsed, parseSerializedData keys values (typeId strategy) data = .ok parsed →
        strategy.validate env.rounding (newConfig strategy s.settings.config parsed.config) =
          none → Consistent strategy s parsed := by
  rw [Withstands, deserialize]
  cases accepted : parseSerializedData keys values (typeId strategy) data with
  | error message => exact iff_of_true trivial (by rintro _ ⟨⟩)
  | ok parsed =>
    simp
    cases strategy with
    | mmLru =>
      refine mmLru_endsIn wf before ?_
      have few := items_length_le accepted
      have pinned : (s.pinnedSequence 0).length ≤ s.linkedCount := by
        rw [pinnedSequence, List.length_map, linkedCount]
        have part := List.length_filter_le (fun i => (s.heap i).hasActiveHandle) (s.queue 0)
        omega
      rw [restoredLength]
      omega
    | mmFifo =>
      obtain ⟨survived, flushed, -⟩ := flush_spec .mmFifo parsed.items wf before
      exact iff_of_true (foldl_set_sound survived.wf flushed) fun _ => trivial
    | mm2q => exact mm2q_endsIn wf before
    | mmTinyLfu | mmWTinyLfu => exact mmLfu_endsIn rfl wf before

section Samples

open Serde

def oneItemFile : List UInt8 :=
  serializeFromSnapshot word32 word32 { type := .lru, items := [{ key := 1, value := 10 }] }

def repeatedKeyFile : List UInt8 :=
  serializeFromSnapshot word32 word32
    { type := .lru, items := [{ key := 1, value := 10 }, { key := 1, value := 20 }] }

/-- A file whose tail segment is longer than its list. -/
def longTailFile : List UInt8 :=
  serializeFromSnapshot word32 word32
    { type := .lru, listState := ⟨0, 5⟩, items := [{ key := 1, value := 10 }] }

/-- A file with the dimensions of a sketch and no counters. -/
def shortSketchFile : List UInt8 :=
  serializeFromSnapshot word32 word32 { type := .tinyLfu, cmsState := [4, 1, 0, 0, 0] }

theorem oneItemFile_parsed : parseSerializedData word32 word32 .lru oneItemFile =
    .ok { items := [{ key := 1, value := 10 }] } := by decide +kernel

theorem repeatedKeyFile_parsed : parseSerializedData word32 word32 .lru repeatedKeyFile =
    .ok { items := [{ key := 1, value := 10 }, { key := 1, value := 20 }] } := by decide +kernel

theorem oneItemFile_withstood : Withstands wordEnv .mmLru word32 word32 newState oneItemFile 0 := by
  have counted : Accounted wordEnv newState := ⟨by decide, by decide⟩
  have small : newState.linkedCount + 10000000 < range := by decide +kernel
  rw [withstands_iff wordEnv .mmLru word32 word32 newState oneItemFile 0 newState_wf counted small]
  intro parsed ok _
  obtain rfl := Except.ok.inj (oneItemFile_parsed.symm.trans ok)
  exact ⟨⟨by decide, fun _ _ _ hi => nomatch hi⟩, .inl rfl⟩

/-- One file leaves two nodes for one table entry, one makes `set_config` follow a null link
and one makes `load_state` read behind the words. -/
theorem hostile_files_pass :
    (∃ t, deserialize wordEnv .mmLru newState word32 word32 repeatedKeyFile 0 = .returned t ∧
        t.table.length = 1 ∧ t.sequence 0 = [(1, 10), (1, 20)]) ∧
      deserialize wordEnv .mmLru newState word32 word32 longTailFile 0 = .undefined ∧
      deserialize wordEnv .mmTinyLfu newState word32 word32 shortSketchFile 0 = .undefined ∧
      ¬ Withstands wordEnv .mmLru word32 word32 newState repeatedKeyFile 0 ∧
      ¬ Withstands wordEnv .mmLru word32 word32 newState longTailFile 0 ∧
      ¬ Withstands wordEnv .mmTinyLfu word32 word32 newState shortSketchFile 0 := by
  have long : parseSerializedData word32 word32 .lru longTailFile =
      .ok { listState := ⟨0, 5⟩, items := [{ key := 1, value := 10 }] } := by decide +kernel
  have short : parseSerializedData word32 word32 .tinyLfu shortSketchFile =
      .ok { cmsState := [4, 1, 0, 0, 0] } := by decide +kernel
  have returned : ∃ t, deserialize wordEnv .mmLru newState word32 word32 repeatedKeyFile 0 =
      .returned t ∧ t.table.length = 1 ∧ t.sequence 0 = [(1, 10), (1, 20)] := by
    rw [deserialize, typeId, repeatedKeyFile_parsed]
    exact ⟨_, applyConfig_eq_returned.mpr ⟨by decide +kernel, rfl, rfl⟩, by decide, by decide⟩
  have walked : deserialize wordEnv .mmLru newState word32 word32 longTailFile 0 = .undefined := by
    rw [deserialize, typeId, long]
    exact applyConfig_eq_undefined.mpr ⟨by decide +kernel, by decide⟩
  have ran : deserialize wordEnv .mmTinyLfu newState word32 word32 shortSketchFile 0 =
      .undefined := by
    rw [deserialize, typeId, short]
    refine Outcome.andThen_eq_undefined.mpr (.inr ⟨_, applyConfig_eq_returned.mpr
      ⟨by decide +kernel, rfl, rfl⟩, Outcome.andThen_eq_undefined.mpr (.inl ?_)⟩)
    rfl
  refine ⟨returned, walked, ran, ?_, ?_, ?_⟩
  · obtain ⟨t, returned, one, two⟩ := returned
    rw [Withstands, returned]
    intro sound
    have agree := linkedCount_eq sound.wf
    have length := congrArg List.length two
    rw [State.sequence, List.length_map, List.length_cons, List.length_singleton] at length
    rw [linkedCount, one] at agree
    omega
  · rw [Withstands, walked]
    exact id
  · rw [Withstands, ran]
    exact id

end Samples

end Lru.Persist
