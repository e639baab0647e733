import Lru.Persist.RoundTrip

/-!
# What the checksum covers

The parser decodes the payload from byte 36 on, but verifies the checksum of what
lies behind the header size that the header declares, which may be larger. The bytes
in between are decoded unchecked, and `inspect_serialization_header` reports the
declared size as the start of the payload.
-/

namespace Lru.Persist

open Binary Serde List

variable {K V : Type} {keys : Codec K} {values : Codec V} {expected : MmTypeId}
  {data : List UInt8} {parsed : ParsedData K V} {h : Header} {payload left : List UInt8}

def headerSizeField (data : List UInt8) : UInt32 := UInt32.ofNat (toNat ((data.drop 16).take 4))

/-- Some other byte at this position changes what the parser returns. -/
def Influences (keys : Codec K) (values : Codec V) (expected : MmTypeId) (data : List UInt8)
    (i : Nat) : Prop :=
  ∃ b, parseSerializedData keys values expected (data.set i b) ≠
    parseSerializedData keys values expected data

/-- Every byte of the payload that matters is checked, and the inspection reports what
the parser decodes. -/
structure Covered (keys : Codec K) (values : Codec V) (expected : MmTypeId) (data : List UInt8)
    (parsed : ParsedData K V) : Prop where
  checked : ∀ i, kV5HeaderSize.toNat ≤ i → i < data.length →
    Influences keys values expected data i → (headerSizeField data).toNat ≤ i
  /-- The decoder starts where the reported payload does. -/
  range : ∀ h payload, (readHeader expected data).run data = .ok (h, payload) →
    data.drop (inspectSerializationHeader data).payloadOffset = payload
  count : (inspectSerializationHeader data).itemCount.toNat = parsed.items.length
  features : (inspectSerializationHeader data).featureFlags = parsed.featureFlags
  verdict : (inspectSerializationHeader data).checksumOk = true

theorem headerSizeField_writeHeader {count type headerSize flags : UInt32} {featureFlags : UInt64}
    {checksum : UInt32} :
    headerSizeField (writeHeader count type headerSize flags featureFlags checksum ++ payload) =
      headerSize := by
  -- Four words stand in front of the field.
  have split : writeHeader count type headerSize flags featureFlags checksum ++ payload =
      (u32 kSerializationMagic ++ u32 kSerializationVersion ++ u32 count ++ u32 type) ++
        (u32 headerSize ++ (u32 flags ++ u64 featureFlags ++ u32 checksum ++ payload)) := by
    simp only [writeHeader, append_assoc, nil_append]
  have small : headerSize.toNat < 256 ^ 4 := headerSize.toNat_lt
  rw [headerSizeField, split, drop_left' (by simp), take_left' (by simp), u32,
    toNat_ofNat, Nat.mod_eq_of_lt small]
  exact UInt32.ofNat_toNat

def Header.info (h : Header) (expected : MmTypeId) : SerializationHeaderInfo where
  magic := kSerializationMagic
  version := kSerializationVersion
  itemCount := h.count
  mmType := expected.word
  headerSize := h.headerSize
  flags := h.flags
  featureFlags := h.featureFlags
  checksum := h.checksum
  computedChecksum := h.checksum
  magicOk := true
  versionSupported := true
  checksumOk := true
  payloadOffset := h.headerSize.toNat

theorem inspectSerializationHeader_eq
    (accepted : (readHeader expected data).run data = .ok (h, payload)) :
    inspectSerializationHeader data = h.info expected := by
  obtain ⟨same, few, ⟨atLeast, atMost⟩, sum⟩ := run_readHeader_eq_ok_iff.mp accepted
  have length : kV5HeaderSize.toNat ≤ data.length := atLeast.trans atMost
  have least : kV5HeaderSize.toNat = 36 := rfl
  have ran : (inspectHeader data).run data = .ok (h.info expected, payload) := by
    nth_rewrite 2 [same]
    simp only [inspectHeader, writeHeader, append_assoc, run_bind_readU32, ne_eq,
      not_true_eq_false, if_false]
    rw [if_neg (Nat.not_lt_of_le length)]
    simp only [run_bind_readU32]
    rw [if_neg (Nat.not_lt_of_le few)]
    simp only [run_bind_readU32, run_bind_readU64]
    rw [if_neg (by omega), sum]
    simp
    rfl
  rw [inspectSerializationHeader, if_neg (by omega), ran]

/-- The first word of the payload is the refresh time, and the header counts the items. -/
theorem of_readPayload
    (ran : (readPayload keys values expected h).run payload = .ok (parsed, left)) :
    payload.take 4 = u32 parsed.config.lruRefreshTime ∧
      parsed.items.length = h.count.toNat ∧ parsed.featureFlags = h.featureFlags := by
  obtain ⟨config, _, read, ran₁⟩ := run_bind_eq_ok_iff.mp ran
  obtain ⟨extra, _, -, ran₂⟩ := run_bind_eq_ok_iff.mp ran₁
  obtain ⟨items, _, many, last⟩ := run_bind_eq_ok_iff.mp ran₂
  obtain ⟨rfl, -⟩ := run_pure_eq_ok_iff.mp last
  simp only [SerializedMmConfig.read, run_bind_eq_ok_iff, run_readU32_eq_ok_iff,
    run_pure_eq_ok_iff] at read
  obtain ⟨time, _, rfl, _, _, -, _, _, -, _, _, -, _, _, -, _, _, -, _, _, -, _, _, -, _, _, -,
    _, _, -, _, _, -, _, _, -, _, _, -, rfl, -⟩ := read
  exact ⟨take_left' (length_u32 time), (of_many many).1, rfl⟩

/-- The first byte behind the 36 bytes matters, checked or not. -/
theorem influences_first (accepted : parseSerializedData keys values expected data = .ok parsed) :
    Influences keys values expected data 36 := by
  obtain ⟨h, payload, left, header, ran⟩ := parseSerializedData_eq_ok_iff.mp accepted
  obtain ⟨same, -, -, -⟩ := run_readHeader_eq_ok_iff.mp header
  have first := (of_readPayload ran).1
  obtain ⟨x, rest, rfl⟩ : ∃ x rest, payload = x :: rest := by
    cases payload with
    | nil => simp [u32, ofNat] at first
    | cons x rest => exact ⟨x, rest, rfl⟩
  refine ⟨x + 1, fun equal => ?_⟩
  obtain ⟨h', payload', left', header', ran'⟩ :=
    parseSerializedData_eq_ok_iff.mp (equal.trans accepted)
  obtain ⟨same', -, -, -⟩ := run_readHeader_eq_ok_iff.mp header'
  have behind : payload' = (x + 1) :: rest := by
    rw [same, set_append_right _ _ length_writeHeader.le]
      at same'
    exact (append_inj same' (by rw [length_writeHeader, length_writeHeader])).2.symm
  -- Both readings give the same refresh time, so the same first four bytes.
  have both := first.trans (of_readPayload ran').1.symm
  rw [behind] at both
  simp at both

/-- Everything that matters is checked iff the declared header size is 36. -/
theorem covered_iff (accepted : parseSerializedData keys values expected data = .ok parsed) :
    Covered keys values expected data parsed ↔ headerSizeField data = kV5HeaderSize := by
  obtain ⟨h, payload, left, header, ran⟩ := parseSerializedData_eq_ok_iff.mp accepted
  obtain ⟨same, -, ⟨atLeast, atMost⟩, -⟩ := run_readHeader_eq_ok_iff.mp header
  have declared : headerSizeField data = h.headerSize := by
    rw [same, headerSizeField_writeHeader]
  have info := inspectSerializationHeader_eq header
  obtain ⟨-, count, features⟩ := of_readPayload ran
  constructor
  · intro covered
    by_contra other
    have larger : kV5HeaderSize.toNat < h.headerSize.toNat := by
      refine lt_of_le_of_ne atLeast fun eq => other ?_
      rw [declared]
      exact (UInt32.toNat_inj.mp eq).symm
    have unchecked := covered.checked 36 le_rfl (larger.trans_le atMost) (influences_first accepted)
    rw [declared] at unchecked
    exact absurd larger (Nat.not_lt_of_le unchecked)
  · intro size
    refine ⟨fun i behind _ _ => size ▸ behind, fun h' payload' header' => ?_, ?_, ?_, ?_⟩
    · obtain ⟨-, rfl⟩ := Prod.mk.inj (Except.ok.inj (header.symm.trans header'))
      rw [info, Header.info, ← declared, size, same]
      exact drop_left' length_writeHeader
    · rw [info, count]
      rfl
    · rw [info, features]
      rfl
    · rw [info]
      rfl

section Samples

def twoItems : CacheSnapshot UInt32 UInt32 :=
  { type := .fifo, items := [{ key := 1, value := 10 }, { key := 2, value := 20 }] }

theorem twoItems_covered : Covered word32 word32 .fifo
    (serializeFromSnapshot word32 word32 twoItems) twoItems.toParsedData := by
  have canonical : twoItems.Canonical := ⟨fun _ _ => rfl, fun _ _ => rfl⟩
  have accepted := (canonical.parse_iff word32 word32).mpr
    ⟨by decide, by decide, fun _ _ => ⟨word32_fits, word32_fits⟩⟩
  exact (covered_iff accepted).mpr (by decide +kernel)

/-- The same payload behind a header that declares 37 bytes. -/
def shiftedFile : List UInt8 :=
  let payload := ({} : SerializedMmConfig).write
  writeHeader 0 MmTypeId.fifo.word 37 0 0 (crc32 (payload.drop 1)) ++ payload

/-- Byte 36 changes the refresh time from 60 to 61, and nobody notices. -/
theorem byte_behind_header_unchecked :
    parseSerializedData word32 word32 .fifo shiftedFile = .ok {} ∧
      parseSerializedData word32 word32 .fifo (shiftedFile.set 36 61) =
        .ok { config := { lruRefreshTime := 61 } } ∧
      (inspectSerializationHeader shiftedFile).payloadOffset = 37 ∧
      ¬ Covered word32 word32 .fifo shiftedFile {} := by
  have accepted : parseSerializedData word32 word32 .fifo shiftedFile = .ok {} := by
    decide +kernel
  have changed : parseSerializedData word32 word32 .fifo (shiftedFile.set 36 61) =
      .ok { config := { lruRefreshTime := 61 } } := by
    decide +kernel
  refine ⟨accepted, changed, by decide +kernel, fun covered => ?_⟩
  have unchecked := covered.checked 36 le_rfl (by decide +kernel) ⟨61, by
    rw [changed, accepted]
    decide⟩
  exact absurd unchecked (by decide +kernel)

end Samples

end Lru.Persist
