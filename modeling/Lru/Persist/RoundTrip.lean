import Lru.Persist.Snapshot

/-!
# What is written is read back

Each record is read back as it was written, by the composition rules of readers.
The parser refuses more than ten million items, more than a million words of a
sketch and keys or values above the limits of their readers; everything else that
a serializer writes survives, and nothing beyond these limits does.
-/

namespace Lru.Persist

open Mm Binary Serde List Strategy

variable {K V : Type} {expected : MmTypeId} {data : List UInt8}

/-! ## Records -/

theorem reads_double {x : Double} : Reads readDouble (u64 x.bits) x := by
  exact .bind .u64 (.pure x)

theorem reads_bool {b : Bool} : Reads readBool [boolByte b] b := by
  have value : decide (boolByte b ≠ 0) = b := by cases b <;> rfl
  refine .bind .u8 ?_
  rw [value]
  exact .pure b

theorem SerializedMmConfig.reads (c : SerializedMmConfig) : Reads read c.write c := by
  refine .bind .u32 (.bind reads_double (.bind reads_bool (.bind reads_bool
    (.bind reads_bool (.bind .u8 (.bind .u32 (.bind reads_double
    (.bind reads_double (.bind reads_bool (.bind .u32 (.bind reads_double
    (.bind .u32 (.pure c)))))))))))))

theorem SerializedListState.reads (l : SerializedListState) : Reads read l.write l := by
  exact .bind .u32 (.bind .u32 (.bind .u32 (.bind .u32
    (.bind .u32 (.pure l)))))

/-- Items as a codec: key and value must fit. -/
def SerializedItem.codec (keys : Codec K) (values : Codec V) : Codec (SerializedItem K V) where
  write := SerializedItem.write keys values
  read := SerializedItem.read keys values
  Fits item := keys.Fits item.key ∧ values.Fits item.value
  reads item fits := .bind (keys.reads _ fits.1) (.bind (values.reads _ fits.2)
    (.bind .u32 (.bind .u8 (.bind .u8 (.pure item)))))
  misreads item unfit := by
    -- A key or value that was read differently is a field of the result.
    by_cases fits : keys.Fits item.key
    · refine .bind_second (keys.reads _ fits) ?_
      refine (values.misreads _ fun h => unfit ⟨fits, h⟩).bind_first fun v m l ran => ?_
      obtain ⟨t, _, -, ran₁⟩ := run_bind_eq_ok_iff.mp ran
      obtain ⟨f, _, -, ran₂⟩ := run_bind_eq_ok_iff.mp ran₁
      obtain ⟨q, _, -, last⟩ := run_bind_eq_ok_iff.mp ran₂
      exact congrArg SerializedItem.value (run_pure_eq_ok_iff.mp last).1
    · refine (keys.misreads _ fits).bind_first fun k m l ran => ?_
      obtain ⟨v, _, -, ran₁⟩ := run_bind_eq_ok_iff.mp ran
      obtain ⟨t, _, -, ran₂⟩ := run_bind_eq_ok_iff.mp ran₁
      obtain ⟨f, _, -, ran₃⟩ := run_bind_eq_ok_iff.mp ran₂
      obtain ⟨q, _, -, last⟩ := run_bind_eq_ok_iff.mp ran₃
      exact congrArg SerializedItem.key (run_pure_eq_ok_iff.mp last).1

def cmsCodec : Codec (List UInt32) where
  write := writeCms
  read := readCms
  Fits words := words.length ≤ 1000000
  reads words fits := by
    have same := toNat_lengthWord_of_lt (Nat.lt_of_le_of_lt fits (by decide))
    refine .bind .u32 (.require (by rw [same]; exact fits) ?_)
    rw [same]
    exact .many fun x _ => .u32
  misreads words long := by
    refine .bind_second .u32 fun left left' ran => ?_
    obtain ⟨u, middle, checked, taken⟩ := run_bind_eq_ok_iff.mp ran
    obtain ⟨within, rfl⟩ := run_require_eq_ok_iff.mp checked
    have length := (of_many taken).1
    omega

/-! ## The header -/

/-- A header is accepted iff it stands in front of the payload, declares a size between
36 and the length of the data, and holds the checksum of what lies behind that size. -/
theorem run_readHeader_eq_ok_iff {left payload : List UInt8}
    {h : Header} :
    (readHeader expected data).run left = .ok (h, payload) ↔
      left = writeHeader h.count expected.word h.headerSize h.flags h.featureFlags h.checksum ++
          payload ∧
        h.count.toNat ≤ 10000000 ∧
        (kV5HeaderSize.toNat ≤ h.headerSize.toNat ∧ h.headerSize.toNat ≤ data.length) ∧
        crc32 (data.drop h.headerSize.toNat) = h.checksum := by
  rw [readHeader]
  simp only [run_bind_eq_ok_iff, run_readU32_eq_ok_iff, run_readU64_eq_ok_iff,
    run_require_eq_ok_iff, run_pure_eq_ok_iff]
  constructor
  · rintro ⟨_, _, rfl, _, _, ⟨rfl, rfl⟩, _, _, rfl, _, _, rfl, _, _, ⟨few, rfl⟩, _, _, rfl,
      _, _, ⟨rfl, rfl⟩, _, _, ⟨rfl, rfl⟩, _, _, rfl, _, _, ⟨size, rfl⟩, _, _, rfl, _, _, rfl,
      _, _, rfl, _, _, ⟨sum, rfl⟩, rfl, rfl⟩
    refine ⟨?_, few, size, sum⟩
    simp only [writeHeader, append_assoc, nil_append]
  · rintro ⟨rfl, few, size, sum⟩
    refine ⟨_, _, rfl, (), _, ⟨rfl, rfl⟩, _, _, rfl, _, _, rfl, (), _, ⟨few, rfl⟩, _, _, rfl,
      (), _, ⟨rfl, rfl⟩, (), _, ⟨rfl, rfl⟩, _, _, rfl, (), _, ⟨size, rfl⟩, _, _, rfl, _, _, rfl,
      _, _, rfl, (), _, ⟨sum, rfl⟩, rfl, rfl⟩

@[simp] theorem length_writeHeader {count type headerSize flags : UInt32} {featureFlags : UInt64}
    {checksum : UInt32} :
    (writeHeader count type headerSize flags featureFlags checksum).length = 36 := by
  simp [writeHeader]

theorem parseSerializedData_eq_ok_iff {keys : Codec K} {values : Codec V}
    {parsed : ParsedData K V} :
    parseSerializedData keys values expected data = .ok parsed ↔
      ∃ h payload left, (readHeader expected data).run data = .ok (h, payload) ∧
        (readPayload keys values expected h).run payload = .ok (parsed, left) := by
  rw [parseSerializedData]
  cases (readHeader expected data).run data with
  | error message => simp [bind, Except.bind]
  | ok first =>
    obtain ⟨h, payload⟩ := first
    simp only [bind, Except.bind]
    cases inner : (readPayload keys values expected h).run payload with
    | error message => simp [inner]
    | ok second => simp [inner, pure, Except.pure, Prod.ext_iff]

/-! ## Snapshots -/

namespace CacheSnapshot

variable (keys : Codec K) (values : Codec V) (snap : CacheSnapshot K V)

/-- What the format has no place for is left at its default. -/
structure Canonical : Prop where
  listState : snap.type ≠ .lru → snap.type ≠ .shardedLru → snap.listState = {}
  cmsState : snap.type ≠ .tinyLfu → snap.type ≠ .wTinyLfu → snap.cmsState = []

/-- The snapshot keeps the limits of the parser. -/
structure Fits : Prop where
  count : snap.items.length ≤ 10000000
  cms : snap.cmsState.length ≤ 1000000
  items : ∀ item ∈ snap.items, keys.Fits item.key ∧ values.Fits item.value

variable {keys values snap} {h : Header}

theorem Canonical.reads_extra (canonical : snap.Canonical)
    (fits : snap.cmsState.length ≤ 1000000) :
    Reads (readExtra snap.type) snap.writeExtra (snap.listState, snap.cmsState) := by
  have lists : Reads (do let l ← SerializedListState.read; pure (l, ([] : List UInt32)))
      snap.listState.write (snap.listState, []) := by
    rw [← append_nil snap.listState.write]
    exact .bind snap.listState.reads (.pure _)
  have sketches : Reads
      (do let words ← readCms; pure (({} : SerializedListState), words))
      (writeCms snap.cmsState) ({}, snap.cmsState) := by
    rw [← append_nil (writeCms snap.cmsState)]
    exact .bind (cmsCodec.reads _ fits) (.pure _)
  have noList := canonical.listState
  have noCms := canonical.cmsState
  cases type : snap.type with
  | lru | shardedLru =>
    rw [noCms (by simp [type]) (by simp [type])]
    simpa only [readExtra, writeExtra, type] using lists
  | tinyLfu | wTinyLfu =>
    rw [noList (by simp [type]) (by simp [type])]
    simpa only [readExtra, writeExtra, type] using sketches
  | twoQ | fifo =>
    rw [noList (by simp [type]) (by simp [type]), noCms (by simp [type]) (by simp [type])]
    simpa only [readExtra, writeExtra, type] using Reads.pure _

theorem Canonical.misreads_extra (canonical : snap.Canonical)
    (long : ¬ snap.cmsState.length ≤ 1000000) {extra : SerializedListState × List UInt32}
    (same : extra.2 = snap.cmsState) : Misreads (readExtra snap.type) snap.writeExtra extra := by
  have sketches : Misreads
      (do let words ← readCms; pure (({} : SerializedListState), words))
      (writeCms snap.cmsState) extra := by
    rw [← append_nil (writeCms snap.cmsState)]
    refine (cmsCodec.misreads _ long).bind_first fun words middle left ran => ?_
    rw [← same]
    exact congrArg Prod.snd (run_pure_eq_ok_iff.mp ran).1
  have noCms := canonical.cmsState
  cases type : snap.type with
  | tinyLfu | wTinyLfu => simpa only [readExtra, writeExtra, type] using sketches
  | lru | shardedLru | twoQ | fifo =>
    rw [noCms (by simp [type]) (by simp [type])] at long
    simp at long

theorem Canonical.reads_payload (canonical : snap.Canonical) (fits : snap.Fits keys values)
    (count : h.count.toNat = snap.items.length) (flags : h.featureFlags = snap.featureFlags) :
    Reads (readPayload keys values snap.type h) (snap.writePayload keys values)
      snap.toParsedData := by
  have items : Reads (many (SerializedItem.read keys values) h.count.toNat)
      (snap.items.flatMap (SerializedItem.write keys values)) snap.items := by
    rw [count]
    exact .many fun item hi => (SerializedItem.codec keys values).reads item (fits.items item hi)
  rw [readPayload, flags]
  exact .bind snap.config.reads (.bind (canonical.reads_extra fits.cms) (.bind items (.pure _)))

/-- Beyond the limits something else is read, if anything. -/
theorem Canonical.misreads_payload (canonical : snap.Canonical) (unfit : ¬ snap.Fits keys values)
    (few : h.count.toNat ≤ 10000000) :
    Misreads (readPayload keys values snap.type h) (snap.writePayload keys values)
      snap.toParsedData := by
  refine .bind_second snap.config.reads ?_
  by_cases cms : snap.cmsState.length ≤ 1000000
  · refine .bind_second (canonical.reads_extra cms) ?_
    have items : Misreads (many (SerializedItem.read keys values) h.count.toNat)
        (snap.items.flatMap (SerializedItem.write keys values)) snap.items := by
      intro left left' ran
      have length := (of_many ran).1
      rw [← length] at ran
      refine Misreads.many (SerializedItem.codec keys values) (fun all => unfit ?_) left left' ran
      exact ⟨by omega, cms, all⟩
    refine items.bind_first fun l middle left ran => ?_
    exact congrArg ParsedData.items (run_pure_eq_ok_iff.mp ran).1
  · intro left left' ran
    rw [append_assoc] at ran
    obtain ⟨extra, middle, read, rest⟩ := run_bind_eq_ok_iff.mp ran
    obtain ⟨l, middle', -, last⟩ := run_bind_eq_ok_iff.mp rest
    have same := congrArg ParsedData.cmsState (run_pure_eq_ok_iff.mp last).1
    exact canonical.misreads_extra cms same _ _ read

variable (keys values snap) in
/-- The header that is written in front of a snapshot. -/
def header : Header where
  count := lengthWord snap.items.length
  headerSize := kV5HeaderSize
  flags := 0
  featureFlags := snap.featureFlags
  checksum := crc32 (snap.writePayload keys values)

variable (keys values snap) in
/-- A written header is accepted unless it declares too many items. -/
theorem run_readHeader (few : (lengthWord snap.items.length).toNat ≤ 10000000) :
    (readHeader snap.type (serializeFromSnapshot keys values snap)).run
      (serializeFromSnapshot keys values snap) =
        .ok (snap.header keys values, snap.writePayload keys values) := by
  refine run_readHeader_eq_ok_iff.mpr ⟨rfl, few, ⟨le_rfl, ?_⟩, ?_⟩
  · rw [serializeFromSnapshot, frame, length_append]
    exact Nat.le_add_right 36 _
  · rw [serializeFromSnapshot]
    exact congrArg crc32 (drop_left' length_writeHeader)

/-- The payload is what lies behind the header. -/
theorem eq_writePayload {behind : List UInt8}
    (header : (readHeader snap.type (serializeFromSnapshot keys values snap)).run
      (serializeFromSnapshot keys values snap) = .ok (h, behind)) :
    snap.writePayload keys values = behind ∧ h.count.toNat ≤ 10000000 := by
  obtain ⟨same, few, -, -⟩ := run_readHeader_eq_ok_iff.mp header
  exact ⟨(append_inj same (by rw [length_writeHeader, length_writeHeader])).2, few⟩

variable (keys values) in
/-- A snapshot is read back iff it keeps the limits. -/
theorem Canonical.parse_iff (canonical : snap.Canonical) :
    parseSerializedData keys values snap.type (serializeFromSnapshot keys values snap) =
      .ok snap.toParsedData ↔ snap.Fits keys values := by
  rw [parseSerializedData_eq_ok_iff]
  constructor
  · rintro ⟨h, behind, left, header, ran⟩
    obtain ⟨rfl, few⟩ := eq_writePayload header
    by_contra unfit
    rw [← append_nil (snap.writePayload keys values)] at ran
    exact canonical.misreads_payload unfit few _ _ ran
  · intro fits
    have count := toNat_lengthWord_of_lt (Nat.lt_of_le_of_lt fits.count (by decide))
    refine ⟨_, _, [], run_readHeader keys values snap (count.le.trans fits.count), ?_⟩
    have ran := canonical.reads_payload fits (h := snap.header keys values) count rfl []
    rwa [append_nil] at ran

variable (keys values snap) in
/-- What the parser says to a sketch of more than a million words. -/
theorem parse_eq_error_of_sketch (sketch : snap.type = .tinyLfu ∨ snap.type = .wTinyLfu)
    (few : snap.items.length ≤ 10000000) (small : snap.cmsState.length < 2 ^ 32)
    (long : 1000000 < snap.cmsState.length) :
    parseSerializedData keys values snap.type (serializeFromSnapshot keys values snap) =
      .error "deserialization: cms_words exceeds reasonable limit" := by
  have count := toNat_lengthWord_of_lt (Nat.lt_of_le_of_lt few (by decide))
  have words : ∀ left, readCms.run (writeCms snap.cmsState ++ left) =
      .error "deserialization: cms_words exceeds reasonable limit" := by
    intro left
    rw [readCms, writeCms, append_assoc, Reads.u32.run_bind]
    refine run_bind_eq_error (run_require_eq_error ?_)
    rw [toNat_lengthWord_of_lt small]
    exact Nat.not_le_of_lt long
  have extra : ∀ left, (readExtra snap.type).run (snap.writeExtra ++ left) =
      .error "deserialization: cms_words exceeds reasonable limit" := by
    intro left
    rcases sketch with type | type <;> simp only [readExtra, writeExtra, type]
    · exact run_bind_eq_error (words left)
    · exact run_bind_eq_error (words left)
  rw [parseSerializedData, run_readHeader keys values snap (count.le.trans few)]
  have payload : (readPayload keys values snap.type (snap.header keys values)).run
      (snap.writePayload keys values) =
        .error "deserialization: cms_words exceeds reasonable limit" := by
    rw [readPayload, writePayload, snap.config.reads.run_bind]
    exact run_bind_eq_error (extra _)
  simp only [bind, Except.bind, payload]

end CacheSnapshot

/-! ## Strategies -/

section Strategies

variable {keys : Codec K} {values : Codec V} {env : Env K V} {strategy : Strategy} {s : State K V}

theorem snapshotWith_canonical {words : List UInt32} (saved : cmsWords strategy s = .ok words) :
    (snapshotWith strategy s words).Canonical := by
  constructor
  · intro notLru _
    have other : strategy ≠ .mmLru := by
      rintro rfl
      exact notLru rfl
    simp [snapshotWith, writtenListState, other]
  · intro notTiny notWTiny
    cases strategy with
    | mmTinyLfu => exact absurd rfl notTiny
    | mmWTinyLfu => exact absurd rfl notWTiny
    | mmLru | mmFifo | mm2q => exact (Except.ok.inj saved).symm

variable [DecidableEq K]

/-- The serializer succeeds, and the parser returns from its bytes the configuration, list
state, sketch words and items that were written. -/
def RoundTrips (keys : Codec K) (values : Codec V) (env : Env K V) (strategy : Strategy)
    (s : State K V) : Prop :=
  ∃ snap, collectSnapshot strategy s = .ok snap ∧
    ∃ bytes, serialize keys values strategy s env = .ok bytes ∧
      parseSerializedData keys values (typeId strategy) bytes = .ok snap.toParsedData

/-- The limits of the parser, and those of the words that hold the sketch's dimensions. -/
structure WithinLimits (keys : Codec K) (values : Codec V) (strategy : Strategy) (s : State K V) :
    Prop where
  count : s.liveItems.length ≤ 10000000
  sketch : strategy.hasSketch → s.sketch.width < 2 ^ 32 ∧ s.sketch.depth < 2 ^ 32 ∧
    s.sketch.serializedStateWords ≤ 1000000
  items : ∀ i ∈ s.liveItems, keys.Fits (s.heap i).key ∧ values.Fits (s.heap i).value

theorem roundTrips_iff_exists (wf : s.WellFormed env) :
    RoundTrips keys values env strategy s ↔
      ∃ words, cmsWords strategy s = .ok words ∧
        (snapshotWith strategy s words).Fits keys values := by
  rw [RoundTrips, serialize_eq_save keys values wf, save, collectSnapshot]
  cases saved : cmsWords strategy s with
  | error message => simp [Except.map]
  | ok words =>
    simp only [Except.map, Except.ok.injEq, exists_eq_left']
    exact (snapshotWith_canonical saved).parse_iff keys values

omit [DecidableEq K] in
theorem exists_fits_iff :
    (∃ words, cmsWords strategy s = .ok words ∧ (snapshotWith strategy s words).Fits keys values) ↔
      WithinLimits keys values strategy s := by
  have items : ∀ words, (∀ item ∈ (snapshotWith strategy s words).items,
      keys.Fits item.key ∧ values.Fits item.value) ↔
        ∀ i ∈ s.liveItems, keys.Fits (s.heap i).key ∧ values.Fits (s.heap i).value := by
    intro words
    simp [snapshotWith, itemRecord]
  have count : ∀ words, (snapshotWith strategy s words).items.length = s.liveItems.length :=
    fun words => length_map _
  rw [cmsWords]
  cases sketch : strategy.hasSketch with
  | false =>
    simp
    constructor
    · intro fits
      exact ⟨count [] ▸ fits.count, by simp [sketch], (items []).mp fits.items⟩
    · intro within
      exact ⟨(count []).trans_le within.count, Nat.zero_le _, (items []).mpr within.items⟩
  | true =>
    simp
    constructor
    · rintro ⟨words, saved, fits⟩
      rw [Sketch.saveState] at saved
      split at saved
      case isTrue => cases saved
      case isFalse small =>
        cases saved
        have length := fits.cms
        rw [snapshotWith, Sketch.length_stateWords] at length
        exact ⟨count _ ▸ fits.count, fun _ => ⟨by omega, by omega, length⟩, (items _).mp fits.items⟩
    · intro within
      obtain ⟨width, depth, words⟩ := within.sketch sketch
      refine ⟨s.sketch.stateWords, ?_, (count _).trans_le within.count, ?_,
        (items _).mpr within.items⟩
      · rw [Sketch.saveState, if_neg (by omega)]
      · rw [snapshotWith, Sketch.length_stateWords]
        exact words

/-- Every state within the limits of the parser survives, and no other. -/
theorem roundTrips_iff_withinLimits (reachable : strategy.Reachable env s) :
    RoundTrips keys values env strategy s ↔ WithinLimits keys values strategy s :=
  (roundTrips_iff_exists reachable.wf).trans exists_fits_iff

/-- What the parser reads back within the limits. -/
theorem exists_saved (wf : s.WellFormed env) (within : WithinLimits keys values strategy s) :
    ∃ words bytes, cmsWords strategy s = .ok words ∧
      serialize keys values strategy s env = .ok bytes ∧
      parseSerializedData keys values (typeId strategy) bytes =
        .ok (snapshotWith strategy s words).toParsedData := by
  obtain ⟨snap, collected, bytes, written, parsed⟩ :=
    (roundTrips_iff_exists wf).mpr (exists_fits_iff.mpr within)
  rw [collectSnapshot] at collected
  cases saved : cmsWords strategy s with
  | error message =>
    rw [saved] at collected
    cases collected
  | ok words =>
    rw [saved] at collected
    cases collected
    exact ⟨words, bytes, rfl, written, parsed⟩

end Strategies

section Samples

def wordEnv : Env UInt32 UInt32 := integers UInt32.toNat

def newState : State UInt32 UInt32 := State.empty (fun _ => default) {} {} 0

theorem newState_wf : newState.WellFormed wordEnv := empty_wf _ _ _ _

def savedState : State UInt32 UInt32 :=
  (mmLru.policy wordEnv).set wordEnv (State.empty (fun _ => default) {} {} 0) 1 10 0

theorem savedState_reachable : mmLru.Reachable wordEnv savedState :=
  ⟨fun _ => default, {}, {}, 0, .single ⟨.set 1 10 0, nofun, rfl⟩⟩

theorem savedState_roundTrips : RoundTrips word32 word32 wordEnv .mmLru savedState := by
  refine (roundTrips_iff_withinLimits savedState_reachable).mpr ⟨by decide, nofun, fun i _ => ?_⟩
  exact ⟨word32_fits, word32_fits⟩

/-- A new `mm_tiny_lfu` for 50000 items, whose sketch has four rows of 262144 counters. -/
def wideState : State UInt32 UInt32 :=
  State.empty (fun _ => default) { maxSize := 50000 }
    { width := 262144, maxWindowSize := 1600000, windowSize := 1600000 } 0

theorem wideState_reachable : mmTinyLfu.Reachable wordEnv wideState :=
  ⟨fun _ => default, _, _, 0, .refl⟩

/-- The parser refuses the sketch that the constructor chooses for 50000 items. -/
theorem wide_sketch_refused :
    mmTinyLfu.Reachable wordEnv wideState ∧
      (∃ bytes, serialize word32 word32 .mmTinyLfu wideState wordEnv = .ok bytes ∧
        parseSerializedData word32 word32 .tinyLfu bytes =
          .error "deserialization: cms_words exceeds reasonable limit") ∧
      ¬ RoundTrips word32 word32 wordEnv .mmTinyLfu wideState := by
  have wf := wideState_reachable.wf
  obtain ⟨words, saved, length⟩ :
      ∃ words, cmsWords .mmTinyLfu wideState = .ok words ∧ words.length = 1048581 := by
    refine ⟨wideState.sketch.stateWords, ?_, Sketch.length_stateWords _⟩
    show wideState.sketch.saveState = _
    rw [Sketch.saveState, if_neg (by decide)]
  refine ⟨wideState_reachable, ⟨serializeFromSnapshot word32 word32
    (snapshotWith .mmTinyLfu wideState words), ?_, ?_⟩, ?_⟩
  · rw [serialize_eq_save word32 word32 wf, save, collectSnapshot, saved]
    rfl
  · have few : (snapshotWith .mmTinyLfu wideState words).items.length ≤ 10000000 :=
      Nat.zero_le 10000000
    exact (snapshotWith .mmTinyLfu wideState words).parse_eq_error_of_sketch word32 word32
      (.inl rfl) few (length.trans_lt (by decide))
      ((by decide : 1000000 < 1048581).trans_eq length.symm)
  · rw [roundTrips_iff_exists wf, exists_fits_iff]
    intro within
    exact absurd (within.sketch rfl).2.2 (by decide)

end Samples

end Lru.Persist
