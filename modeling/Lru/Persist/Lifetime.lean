import Lru.Persist.FifoOrder
import Lru.Persist.Frequencies
import Lru.Persist.Loaded

/-!
# Lifetimes after a load

A snapshot has no field for the expiry of an item, and a load links every item without
one. So an item with a TTL comes back without it, and the restored cache returns it at
every later time.
-/

namespace Lru.Mm

variable {K V : Type} [DecidableEq K] {env : Env K V} {s : State K V}

open State

/-- An item without expiry and handles is returned at any time. -/
theorem peekForGet_of_holds {key : K} {value : V} (wf : s.WellFormed env)
    (held : s.Holds (key, value, 0, 0)) {nowNs : Nat} :
    ∃ i, (s.peekForGet env key nowNs).1 = some i := by
  obtain ⟨i, hi, content⟩ := held
  simp only [Body.content, Prod.mk.injEq] at content
  obtain ⟨rfl, -, endless, free⟩ := content
  have found : s.find env (s.heap i).key = some i := (find_eq_some_iff wf).mpr ⟨hi, rfl⟩
  have linked : (s.heap i).linked = true := wf.linked i hi
  have pins : (s.heap i).canPin = true := by
    simp [Body.canPin, linked, free, kAccessRefMax]
  have lives : (s.heap i).isExpired nowNs = false := by simp [Body.isExpired, endless]
  refine ⟨i, (peekForGet_of_pinned nowNs found pins).1.trans ?_⟩
  simp [lives]

namespace MmFifo

variable {key : K} {value : V} {sec : Nat}

theorem makeRoom_of_room (room : s.settings.maxSize = unlimited ∨ size s < s.settings.maxSize)
    (memory : s.settings.maxMemory = unlimited) (mem : Nat) : makeRoom env s mem = s := by
  have free : s.evictAtCapacity (evict env) MmFifo.size = s := by
    refine if_neg ?_
    simp only [isAtCapacity, Bool.and_eq_true, bne_iff_ne, decide_eq_true_eq]
    omega
  have fits : s.shrinkLoop (evict env) MmFifo.size = (s, true) := by
    refine evictWhile_of_false ?_
    simp only [shouldEvict, memory, bne_self_eq_false, Bool.false_and, Bool.or_false,
      Bool.and_eq_false_imp, bne_iff_ne, decide_eq_false_iff_not]
    omega
  rw [makeRoom, free, fits]
  simp [fitLoop, memory]

omit [DecidableEq K] in
theorem noCapacity_of_room (room : s.settings.maxSize = unlimited ∨ size s < s.settings.maxSize)
    (memory : s.settings.maxMemory = unlimited) : noCapacity s = false := by
  have positive : s.settings.maxSize ≠ 0 := by
    obtain endless | room := room
    · rw [endless]
      decide
    · omega
  rw [noCapacity, memory]
  simpa [positive] using (by decide : ¬ unlimited = 0)

/-- With room a new key takes nothing away. -/
theorem set_keeps_of_room {i : ItemId} (value : V) (sec : Nat) (wf : s.WellFormed env)
    (absent : s.find env key = none)
    (room : s.settings.maxSize = unlimited ∨ size s < s.settings.maxSize)
    (memory : s.settings.maxMemory = unlimited) (hi : i ∈ s.table) :
    i ∈ ((policy env).set env s key value sec).table := by
  have clean := Rearranges.cleanup wf
  have still : s.cleanupPendingDeletion.find env key = none := clean.find_eq_none wf absent
  have settings := clean.settings_eq
  have same : size s.cleanupPendingDeletion = size s := by
    rw [eviction.size_eq wf, eviction.size_eq clean.wf, clean.table_eq]
  rw [set_of_absent absent, insertNew, if_neg (by rw [noCapacity_of_room room memory]; decide)]
  simp only
  rw [makeRoom_of_room (by rwa [settings, same]) (by rw [settings, memory]), link,
    linkAtHead_table clean.wf still]
  exact List.mem_cons_of_mem _ (clean.mem_iff.mpr hi)

end MmFifo

end Lru.Mm

namespace Lru.Persist

open Mm State Binary Strategy List MmFifo

variable {K V : Type} [DecidableEq K] {env : Env K V} {strategy : Strategy} {keys : Codec K}
  {values : Codec V} {s t target : State K V} {sec : Nat} {items : List (SerializedItem K V)}
  {c : K × V × Nat × Nat} {rounding : Rounding}

/-! ## `mm_fifo` -/

omit [DecidableEq K] in
theorem Fresh.tail {item : SerializedItem K V} (fresh : Fresh s (item :: items))
    (origin : ∀ c, t.Holds c → s.Holds c ∨ (item.key, item.value, 0, 0) = c) : Fresh t items := by
  obtain ⟨nodup, absent⟩ := fresh
  obtain ⟨single, nodup⟩ := nodup_cons.mp nodup
  refine ⟨nodup, fun other mem i hi same => ?_⟩
  obtain ⟨j, hj, content⟩ | content := origin _ ⟨i, hi, rfl⟩
  · exact absent other (mem_cons_of_mem _ mem) j hj ((congrArg Prod.fst content).trans same)
  · exact single (mem_map.mpr ⟨other, mem, same.symm.trans (congrArg Prod.fst content).symm⟩)

/-- New keys that are set one by one bring no expiry with them. -/
theorem setAll_holds (wf : s.WellFormed env) (fresh : Fresh s items) :
    (setAll env sec s items).WellFormed env ∧
      ∀ c, (setAll env sec s items).Holds c →
        s.Holds c ∨ ∃ item ∈ items, (item.key, item.value, 0, 0) = c := by
  induction items generalizing s with
  | nil => exact ⟨wf, fun c held => .inl held⟩
  | cons item rest ih =>
    have absent := (find_eq_none_iff wf).mpr (fresh.absent item (.head _))
    have origin : ∀ c, ((MmFifo.policy env).set env s item.key item.value sec).Holds c →
        s.Holds c ∨ (item.key, item.value, 0, 0) = c := by
      intro c held
      cases full : noCapacity s with
      | true =>
        rw [set_of_noCapacity absent full] at held
        exact .inl held
      | false => exact (set_inserts item.value sec wf absent full).holds_cases held
    obtain ⟨after, later⟩ := ih ((MmFifo.laws env).set_wf wf item.key item.value sec)
      (fresh.tail origin)
    refine ⟨after, fun c held => ?_⟩
    obtain before | ⟨other, mem, same⟩ := later c held
    · obtain old | new := origin c before
      · exact .inl old
      · exact .inr ⟨item, .head _, new⟩
    · exact .inr ⟨other, .tail _ mem, same⟩

/-- With room for all of them they are there in the end. -/
theorem setAll_holds_of_room (wf : s.WellFormed env) (fresh : Fresh s items)
    (room : s.settings.maxSize = unlimited ∨
      s.table.length + items.length ≤ s.settings.maxSize)
    (memory : s.settings.maxMemory = unlimited)
    (held : s.Holds c ∨ ∃ item ∈ items, (item.key, item.value, 0, 0) = c) :
    (setAll env sec s items).Holds c := by
  induction items generalizing s with
  | nil =>
    obtain held | ⟨_, mem, _⟩ := held
    · exact held
    · cases mem
  | cons item rest ih =>
    have absent := (find_eq_none_iff wf).mpr (fresh.absent item (.head _))
    have slot : s.settings.maxSize = unlimited ∨ MmFifo.size s < s.settings.maxSize := by
      rw [MmFifo.eviction.size_eq wf]
      simp only [length_cons] at room
      omega
    have inserted := set_inserts item.value sec wf absent (noCapacity_of_room slot memory)
    have later : s.settings.maxSize = unlimited ∨
        ((MmFifo.policy env).set env s item.key item.value sec).table.length + rest.length ≤
          s.settings.maxSize := by
      have more := inserted.length_le
      simp only [length_cons] at room
      omega
    refine ih inserted.wf (fresh.tail fun c held => inserted.holds_cases held)
      (by rwa [inserted.settings_eq]) (by rw [inserted.settings_eq, memory]) ?_
    obtain ⟨i, hi, rfl⟩ | ⟨other, mem, rfl⟩ := held
    · have kept := set_keeps_of_room item.value sec wf absent slot memory hi
      have old : i ≠ s.next := by
        rintro rfl
        exact wf.next_not_mem hi
      exact .inl ⟨i, kept, inserted.content_old i kept old⟩
    · obtain rfl | later := mem_cons.mp mem
      · exact .inl ⟨s.next, inserted.mem_new, inserted.content_new⟩
      · exact .inr ⟨other, later, rfl⟩

/-! ## What was saved -/

def savedItems (s : State K V) : List (SerializedItem K V) :=
  s.liveItems.map fun i => itemRecord (s.heap i)

omit [DecidableEq K] in
theorem savedItems_freshKeys (wf : s.WellFormed env) (free : target.Unpinned) :
    FreshKeys target (savedItems s) := by
  have perm := wf.table_perm
  refine ⟨?_, fun item _ i hi pinned => ?_⟩
  · rw [savedItems, map_map]
    refine (perm.nodup_iff.mp (wf.table_nodup)).map_on fun i hi j hj same => ?_
    exact wf.key_inj i (perm.mem_iff.mpr hi) j (perm.mem_iff.mpr hj) same
  · rw [free i hi] at pinned
    cases pinned

omit [DecidableEq K] in
theorem exists_savedItems_iff (wf : s.WellFormed env) :
    (∃ item ∈ savedItems s, (item.key, item.value, 0, 0) = c) ↔
      ∃ i ∈ s.table, ((s.heap i).key, (s.heap i).value, 0, 0) = c := by
  have perm := wf.table_perm
  constructor
  · rintro ⟨item, mem, rfl⟩
    obtain ⟨i, hi, rfl⟩ := mem_map.mp mem
    exact ⟨i, perm.mem_iff.mpr hi, rfl⟩
  · rintro ⟨i, hi, rfl⟩
    exact ⟨_, mem_map_of_mem (perm.mem_iff.mp hi), rfl⟩

/-- The tail that `mm_lru` saved ends inside its list, or no walk follows it. -/
def SavedTailFits (strategy : Strategy) (s : State K V) : Prop :=
  strategy = .mmLru → (writtenConfig strategy s).lruInsertionPointSpec.toNat = 0 →
    (writtenListState strategy s).Fits s.liveItems.length 0

/-- What is saved of `s` can be loaded: a new cache accepts its configuration, its sketch
and its tail. -/
structure Restorable (env : Env K V) (strategy : Strategy) (s : State K V) : Prop where
  valid : strategy.validate env.rounding (newConfig strategy {} (writtenConfig strategy s)) = none
  sketch : strategy.hasSketch = true → s.sketch.Loadable
  tail : SavedTailFits strategy s

omit [DecidableEq K] in
theorem validate_eq_none_iff {c : Config} : strategy.validate rounding c = none ↔
      ∀ check ∈ strategy.checks rounding c, check.1 = false := by
  rw [validate, Option.map_eq_none_iff, find?_eq_none]
  exact forall₂_congr fun check _ => iff_of_eq (Bool.not_eq_true _)

/-- A configuration that some cache accepts is accepted by one with the default fields. -/
theorem validate_default {config : Config} {c : SerializedMmConfig}
    (valid : strategy.validate rounding (newConfig strategy config c) = none) :
    strategy.validate rounding (newConfig strategy {} c) = none := by
  have window : (windowCheck "" {}).1 = false := by decide +kernel
  rw [validate_eq_none_iff] at valid ⊢
  cases strategy with
  | mmFifo => exact nofun
  | mmLru =>
    have tolerance : decide (({} : Config).overflowTolerance < 0) = false := by decide +kernel
    simp only [checks, forall_mem_cons] at valid ⊢
    obtain ⟨spec, refresh, -, none⟩ := valid
    exact ⟨spec, refresh, tolerance, none⟩
  | mm2q =>
    have low : decide (({} : Config).ghostRatio < 0) = false := by decide +kernel
    have high : decide (1 < ({} : Config).ghostRatio) = false := by decide +kernel
    simp only [checks, forall_mem_cons] at valid ⊢
    obtain ⟨ratios, refresh, sum, -, -, none⟩ := valid
    exact ⟨ratios, refresh, sum, low, high, none⟩
  | mmTinyLfu =>
    simp only [checks, forall_mem_cons] at valid ⊢
    obtain ⟨-, sketch⟩ := valid
    exact ⟨window, sketch⟩
  | mmWTinyLfu =>
    have protection : (decide (({} : Config).protectionRatio < 0) ||
        decide (1 < ({} : Config).protectionRatio)) = false := by decide +kernel
    simp only [checks, forall_mem_cons] at valid ⊢
    obtain ⟨-, -, sketch⟩ := valid
    exact ⟨window, protection, sketch⟩

/-! ## The load of what was saved -/

section Load

variable {bytes : List UInt8}

/-- What the load of the saved bytes goes on with. -/
theorem exists_parsed (wf : s.WellFormed env) (within : WithinLimits keys values strategy s)
    (written : serialize keys values strategy s env = .ok bytes) :
    ∃ words, cmsWords strategy s = .ok words ∧
      ∀ (target : State K V) sec, deserialize env strategy target keys values bytes sec =
        rebuildFromParsed env strategy target (snapshotWith strategy s words).toParsedData sec := by
  obtain ⟨words, _, saved, same, parsed⟩ := exists_saved wf within
  obtain rfl := Except.ok.inj (written.symm.trans same)
  refine ⟨words, saved, fun target sec => ?_⟩
  rw [deserialize, parsed]

/-- Every item of a restored cache was saved, and has no expiry. -/
theorem restored_holds (wf : s.WellFormed env) (within : WithinLimits keys values strategy s)
    (before : target.WellFormed env) (free : target.Unpinned)
    (written : serialize keys values strategy s env = .ok bytes)
    (returned : deserialize env strategy target keys values bytes sec = .returned t) :
    t.WellFormed env ∧ ∀ c, t.Holds c →
      ∃ i ∈ s.table, ((s.heap i).key, (s.heap i).value, 0, 0) = c := by
  obtain ⟨words, -, loads⟩ := exists_parsed wf within written
  rw [loads] at returned
  have fresh := savedItems_freshKeys wf free
  by_cases fifo : strategy = .mmFifo
  · subst fifo
    cases returned
    have survived := (MmFifo.laws env).flush_survives mmFifo.flushParts before
    obtain ⟨after, origin⟩ :=
      setAll_holds survived.wf ((fresh_iff_freshKeys survived).mpr fresh)
    refine ⟨after, fun c held => (exists_savedItems_iff wf).mp ?_⟩
    obtain ⟨i, hi, -⟩ | filed := origin c held
    · rw [table_eq_nil survived.wf (survived.empty before free)] at hi
      cases hi
    · exact filed
  · have loaded := rebuildFromParsed_loaded fifo before returned
    refine ⟨loaded.wf fresh, fun c held => (exists_savedItems_iff wf).mp ?_⟩
    obtain ⟨⟨i, hi, rfl⟩, pinned⟩ | filed := (loaded.holds fresh c).mp held
    · have unpinned := free i hi
      rw [Body.hasActiveHandle, decide_eq_false_iff_not] at unpinned
      exact absurd pinned unpinned
    · exact filed

theorem applyConfig_returns_iff {c : Config} :
    (∃ t, strategy.applyConfig env s c sec = .returned t) ↔
      strategy.validate env.rounding c = none ∧ strategy.walksPastEnd s c = false := by
  simp only [applyConfig_eq_returned, exists_and_left, exists_eq', and_true]

theorem returns_iff_lfu {parsed : ParsedData K V} {sketch : Sketch}
    (lfu : strategy.hasSketch = true) (wide : sketch.width < 2 ^ 32)
    (deep : sketch.depth < 2 ^ 32) (words : parsed.cmsState = sketch.stateWords)
    (before : target.WellFormed env) :
    (∃ t, rebuildFromParsed env strategy target parsed sec = .returned t) ↔
      strategy.validate env.rounding
          (newConfig strategy target.settings.config parsed.config) = none ∧ sketch.Loadable := by
  obtain ⟨valid, loadable, t, returned, -⟩ | ⟨refused, message, t, threw⟩ :=
    rebuildFromParsed_lfu lfu wide deep words before
  · exact iff_of_true ⟨t, returned⟩ ⟨valid, loadable⟩
  · refine iff_of_false ?_ refused
    rintro ⟨u, returned⟩
    cases threw.symm.trans returned

theorem returns_iff (wf : s.WellFormed env) (within : WithinLimits keys values strategy s)
    (before : target.WellFormed env) (free : target.Unpinned)
    (written : serialize keys values strategy s env = .ok bytes) :
    (∃ t, deserialize env strategy target keys values bytes sec = .returned t) ↔
      strategy.validate env.rounding
          (newConfig strategy target.settings.config (writtenConfig strategy s)) = none ∧
        (strategy.hasSketch = true → s.sketch.Loadable) ∧ SavedTailFits strategy s := by
  obtain ⟨words, saved, loads⟩ := exists_parsed wf within written
  have survived := strategy.flush_survives before
  have kept : ((strategy.policy env).flush env target).settings.config = target.settings.config :=
    congrArg Settings.config survived.settings_eq
  rw [loads]
  cases strategy with
  | mmFifo => exact iff_of_true ⟨_, rfl⟩ ⟨rfl, by rintro ⟨⟩, by rintro ⟨⟩⟩
  | mmLru =>
    let v := rebuildItems env .mmLru ((mmLru.policy env).flush env target) (savedItems s)
    have rebuilt : Rebuilt env .mmLru _ (savedItems s) v := rebuildItems_rebuilt survived.wf
    have length : (v.queue 0).length = s.liveItems.length := by
      rw [queue_length_rebuildItems survived, restoredLength, savedItems, length_map,
        pinnedSequence, ← survived.queue, survived.empty before free]
      exact Nat.zero_add _
    have walk := walksPastEnd_restorePoint (l := writtenListState .mmLru s)
      (rebuilt.listed.nodup 0) (newConfig .mmLru target.settings.config (writtenConfig .mmLru s))
    rw [length] at walk
    have load : rebuildFromParsed env .mmLru target (snapshotWith .mmLru s words).toParsedData
        sec = mmLru.applyConfig env (restorePoint v (writtenListState .mmLru s))
          (newConfig .mmLru target.settings.config (writtenConfig .mmLru s)) sec := by
      rw [← kept]
      rfl
    rw [load, applyConfig_returns_iff, walk]
    refine and_congr_right fun _ => ?_
    exact ⟨fun fits => ⟨by rintro ⟨⟩, fun _ => fits⟩, fun fits => fits.2 rfl⟩
  | mm2q =>
    have walk : mm2q.walksPastEnd ((mm2q.policy env).flush env target)
        (newConfig .mm2q target.settings.config (writtenConfig .mm2q s)) = false :=
      walksPastEnd_of_ne_mmLru (by decide) _ _
    have load : rebuildFromParsed env .mm2q target (snapshotWith .mm2q s words).toParsedData
        sec = (mm2q.applyConfig env ((mm2q.policy env).flush env target)
          (newConfig .mm2q target.settings.config (writtenConfig .mm2q s)) sec).andThen
            fun u => .returned (registerAndRebalance env (rebuildItems env .mm2q u
              (savedItems s))) := by
      rw [← kept]
      rfl
    rw [load, Outcome.andThen_returns_iff fun u => ⟨_, rfl⟩, applyConfig_returns_iff]
    exact and_congr_right fun _ => iff_of_true rfl ⟨by rintro ⟨⟩, by rintro ⟨⟩⟩
  | mmTinyLfu | mmWTinyLfu =>
    obtain ⟨wide, deep, -⟩ := within.sketch rfl
    rw [returns_iff_lfu rfl wide deep (stateWords_of_saved rfl saved) before]
    refine and_congr_right fun _ => ⟨fun loadable => ⟨fun _ => loadable, ?_⟩, fun h => h.1 rfl⟩
    rintro ⟨⟩

/-- Every saved item is restored. Only `mm_fifo`, which sets them one by one, needs room. -/
theorem holds_restored {i : ItemId} (wf : s.WellFormed env)
    (within : WithinLimits keys values strategy s) (before : target.WellFormed env)
    (free : target.Unpinned)
    (room : strategy = .mmFifo → target.settings.maxMemory = unlimited ∧
      (target.settings.maxSize = unlimited ∨ s.table.length ≤ target.settings.maxSize))
    (written : serialize keys values strategy s env = .ok bytes)
    (returned : deserialize env strategy target keys values bytes sec = .returned t)
    (hi : i ∈ s.table) : t.Holds ((s.heap i).key, (s.heap i).value, 0, 0) := by
  have filed := (exists_savedItems_iff wf).mpr ⟨i, hi, rfl⟩
  have fresh := savedItems_freshKeys wf free
  obtain ⟨words, -, loads⟩ := exists_parsed wf within written
  rw [loads] at returned
  by_cases fifo : strategy = .mmFifo
  · subst fifo
    cases returned
    obtain ⟨memory, room⟩ := room rfl
    have survived := mmFifo.flush_survives before
    have emptied := table_eq_nil survived.wf (survived.empty before free)
    refine setAll_holds_of_room survived.wf ((fresh_iff_freshKeys survived).mpr fresh) ?_
      ((congrArg Settings.maxMemory survived.settings_eq).trans memory) (.inr filed)
    have count : (savedItems s).length = s.table.length := by
      rw [savedItems, length_map]
      exact wf.table_perm.length_eq.symm
    rw [survived.settings_eq, emptied]
    change _ ∨ 0 + (savedItems s).length ≤ _
    rwa [count, Nat.zero_add]
  · have loaded := rebuildFromParsed_loaded fifo before returned
    exact (loaded.holds fresh _).mpr (.inr filed)

/-- A new cache gets every item back, without expiry. -/
theorem exists_restored (wf : s.WellFormed env) (within : WithinLimits keys values strategy s)
    (restorable : Restorable env strategy s)
    (written : serialize keys values strategy s env = .ok bytes) (memory : ItemId → Item K V)
    (sketch : Sketch) (sec : Nat) :
    ∃ t, deserialize env strategy (.empty memory {} sketch 0) keys values bytes sec =
        .returned t ∧ t.WellFormed env ∧
      ∀ i ∈ s.table, t.Holds ((s.heap i).key, (s.heap i).value, 0, 0) := by
  have before : (State.empty memory {} sketch 0).WellFormed env :=
    Strategy.empty_wf memory {} sketch 0
  have free : (State.empty memory ({} : Settings K V) sketch 0).Unpinned := nofun
  obtain ⟨t, returned⟩ := (returns_iff wf within before free written).mpr
    ⟨restorable.valid, restorable.sketch, restorable.tail⟩
  exact ⟨t, returned, (restored_holds wf within before free written returned).1, fun i hi =>
    holds_restored wf within before free (fun _ => ⟨rfl, .inl rfl⟩) written returned hi⟩

end Load

/-! ## Lifetimes -/

/-- Whatever cache without handles the saved bytes are loaded into, from `loadedAt` on it
returns nothing under a key whose TTL has elapsed in `s`, and what had no TTL has none.
`serialize` reads no clock. -/
def KeepsLifetimes (env : Env K V) (strategy : Strategy) (keys : Codec K) (values : Codec V)
    (s : State K V) (loadedAt : Nat) : Prop :=
  ∀ bytes target sec t, serialize keys values strategy s env = .ok bytes →
    strategy.Reachable env target → target.Unpinned →
    deserialize env strategy target keys values bytes sec = .returned t →
    ∀ nowNs ≥ loadedAt, ∀ key i, s.find env key = some i →
      ((s.heap i).isExpired nowNs = true → (t.peekForGet env key nowNs).1 = none) ∧
      ((s.heap i).expiryNs = 0 → ∀ j, t.find env key = some j → (t.heap j).expiryNs = 0)

/-- Persistence extends no lifetime iff there is no TTL to extend, or nothing can be loaded. -/
theorem keepsLifetimes_iff (env : Env K V) (strategy : Strategy) (keys : Codec K)
    (values : Codec V) (s : State K V) (loadedAt : Nat) (reachable : strategy.Reachable env s)
    (within : WithinLimits keys values strategy s) :
    KeepsLifetimes env strategy keys values s loadedAt ↔
      (∀ i ∈ s.table, (s.heap i).expiryNs = 0) ∨ ¬ Restorable env strategy s := by
  have wf := reachable.wf
  constructor
  · intro keeps
    rw [or_iff_not_imp_right, not_not]
    intro restorable i hi
    by_contra limited
    obtain ⟨-, bytes, -, written, -⟩ := exists_saved wf within
    obtain ⟨t, returned, after, held⟩ :=
      exists_restored wf within restorable written s.heap s.sketch 0
    -- By this time the TTL has elapsed.
    let nowNs := max loadedAt (s.heap i).expiryNs
    have expired : (s.heap i).isExpired nowNs = true := by
      simp [Body.isExpired, limited, nowNs]
    have found := (find_eq_some_iff wf).mpr ⟨hi, rfl⟩
    obtain ⟨j, shown⟩ := peekForGet_of_holds after (held i hi)
    have gone := (keeps bytes _ 0 t written ⟨s.heap, {}, s.sketch, 0, .refl⟩
      (forall_mem_nil _) returned nowNs (le_max_left _ _) _ i found).1 expired
    cases shown.symm.trans gone
  · intro condition bytes target sec t written start free returned nowNs _ key i found
    obtain ⟨hi, -⟩ := (find_eq_some_iff wf).mp found
    have before := start.wf
    rcases condition with endless | refused
    · refine ⟨fun expired => ?_, fun _ j other => ?_⟩
      · simp [Body.isExpired, endless i hi] at expired
      · obtain ⟨after, origin⟩ := restored_holds wf within before free written returned
        obtain ⟨hj, -⟩ := (find_eq_some_iff after).mp other
        obtain ⟨_, -, content⟩ := origin _ ⟨j, hj, rfl⟩
        exact (congrArg (fun c : K × V × Nat × Nat => c.2.2.1) content).symm
    · obtain ⟨valid, sketch, tail⟩ :=
        (returns_iff wf within before free written).mp ⟨t, returned⟩
      exact absurd ⟨validate_default valid, sketch, tail⟩ refused

section Samples

open Serde

theorem savedState_keepsLifetimes : KeepsLifetimes wordEnv .mmLru word32 word32 savedState 0 :=
  (keepsLifetimes_iff wordEnv .mmLru word32 word32 savedState 0 savedState_reachable
    ⟨by decide, nofun, fun _ _ => ⟨word32_fits, word32_fits⟩⟩).mpr (.inl (by decide))

/-- `mm_lru` after `set_with_expiry(1, 10, 5)`. -/
def limitedState : State UInt32 UInt32 :=
  (Strategy.mmLru.policy wordEnv).setWithExpiry wordEnv newState 1 10 5 0

/-- Loaded into a new cache, the item is returned at time 7. -/
theorem limitedState_outlives :
    ∃ bytes t, serialize word32 word32 .mmLru limitedState wordEnv = .ok bytes ∧
      deserialize wordEnv .mmLru newState word32 word32 bytes 0 = .returned t ∧
      (limitedState.peekForGet wordEnv 1 7).1 = none ∧
      (t.peekForGet wordEnv 1 7).1.isSome = true ∧
      ¬ KeepsLifetimes wordEnv .mmLru word32 word32 limitedState 6 := by
  have wf := (mmLru.laws wordEnv).setWithExpiry_wf newState_wf 1 10 5 0
  have within : WithinLimits word32 word32 .mmLru limitedState :=
    ⟨by decide, nofun, fun _ _ => ⟨word32_fits, word32_fits⟩⟩
  have restorable : Restorable wordEnv .mmLru limitedState :=
    ⟨by decide +kernel, nofun, fun _ _ => .inl (by decide)⟩
  obtain ⟨-, bytes, -, written, -⟩ := exists_saved wf within
  obtain ⟨t, returned, after, held⟩ :=
    exists_restored wf within restorable written (fun _ => default) {} 0
  have item : limitedState.find wordEnv 1 = some 0 := by decide
  obtain ⟨j, shown⟩ : ∃ j, (t.peekForGet wordEnv 1 7).1 = some j :=
    peekForGet_of_holds after (held 0 (by decide))
  refine ⟨bytes, t, written, returned, by decide, ?_, fun keeps => ?_⟩
  · rw [shown]
    rfl
  · have gone := (keeps bytes _ 0 t written ⟨fun _ => default, {}, {}, 0, .refl⟩ nofun returned 7
      (by decide) 1 0 item).1 (by decide)
    cases shown.symm.trans gone

end Samples

end Lru.Persist
