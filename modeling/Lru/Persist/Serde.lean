import Lru.Library.Binary

/-!
# Keys and values as bytes

`serde_write` and `serde_read` for the types that can be serialized: trivially
copyable types, strings, byte vectors, pairs, vectors and optional values. A length
is written as a 32-bit number; the readers refuse lengths above a limit, so a value
survives exactly if it and its parts keep these limits.
-/

namespace Lru.Persist.Serde

open Binary

variable {α β : Type} {element : Codec α}

/-- What `binary_reader` throws at the end of its data. -/
def endOfData : String := "binary_reader: unexpected end of data"

/-- A length as it is written: cut to 32 bits. -/
def lengthWord (n : Nat) : UInt32 := UInt32.ofNat n

theorem toNat_lengthWord (n : Nat) : (lengthWord n).toNat = n % 2 ^ 32 := UInt32.toNat_ofNat'

theorem toNat_lengthWord_of_lt {n : Nat} (small : n < 2 ^ 32) : (lengthWord n).toNat = n := by
  rw [toNat_lengthWord, Nat.mod_eq_of_lt small]

/-- A trivially copyable type of a given size, with its memory image. -/
structure Layout (α : Type) where
  size : Nat
  image : α → List UInt8
  value : List UInt8 → α
  length_image : ∀ a, (image a).length = size
  value_image : ∀ a, value (image a) = a

def Layout.word32 : Layout UInt32 where
  size := 4
  image := u32
  value bytes := UInt32.ofNat (toNat bytes)
  length_image := length_u32
  value_image x := by
    have small : x.toNat < 256 ^ 4 := x.toNat_lt
    rw [u32, toNat_ofNat, Nat.mod_eq_of_lt small]
    exact UInt32.ofNat_toNat

/-- A trivially copyable type: its size and its memory. -/
def trivial (layout : Layout α) : Codec α where
  write a := u32 (lengthWord layout.size) ++ layout.image a
  read := do
    let len ← readU32 endOfData
    require (len.toNat = layout.size) "serde: size mismatch for trivially copyable type"
    let bytes ← takeBytes endOfData layout.size
    pure (layout.value bytes)
  Fits _ := layout.size < 2 ^ 32
  reads a small := by
    refine .bind .u32 (.require (toNat_lengthWord_of_lt small) ?_)
    have taken := Reads.takeBytes endOfData (layout.image a)
    rw [layout.length_image] at taken
    intro left
    rw [taken.run_bind, layout.value_image]
    rfl
  misreads a big := by
    refine .bind_second .u32 (.require ?_)
    rw [toNat_lengthWord]
    omega

def word32 : Codec UInt32 := trivial .word32

theorem word32_fits {x : UInt32} : word32.Fits x := by
  show 4 < 2 ^ 32
  decide

/-- A byte sequence behind its length, up to a limit. -/
def limited (limit : Nat) (small : limit < 2 ^ 32) (message : String) : Codec (List UInt8) where
  write s := u32 (lengthWord s.length) ++ s
  read := do
    let len ← readU32 endOfData
    require (len.toNat ≤ limit) message
    takeBytes endOfData len.toNat
  Fits s := s.length ≤ limit
  reads s fits := by
    have same := toNat_lengthWord_of_lt (Nat.lt_of_le_of_lt fits small)
    refine .bind .u32 (.require (by rw [same]; exact fits) ?_)
    rw [same]
    exact .takeBytes endOfData s
  misreads s long := by
    refine .bind_second .u32 fun left left' ran => ?_
    obtain ⟨u, middle, checked, taken⟩ := run_bind_eq_ok_iff.mp ran
    obtain ⟨within, rfl⟩ := run_require_eq_ok_iff.mp checked
    have length := (run_takeBytes_eq_ok_iff.mp taken).2
    omega

def string : Codec (List UInt8) :=
  limited 1000000 (by decide) "deserialization: string length exceeds reasonable limit"

def byteVector : Codec (List UInt8) :=
  limited 100000000 (by decide) "deserialization: byte vector length exceeds reasonable limit"

def pair (first : Codec α) (second : Codec β) : Codec (α × β) where
  write p := first.write p.1 ++ second.write p.2
  read := do
    let a ← first.read
    let b ← second.read
    pure (a, b)
  Fits p := first.Fits p.1 ∧ second.Fits p.2
  reads p fits := by
    refine .bind (first.reads p.1 fits.1) ?_
    rw [← List.append_nil (second.write p.2)]
    exact .bind (second.reads p.2 fits.2) (.pure p)
  misreads p unfit := by
    by_cases fits : first.Fits p.1
    · refine .bind_second (first.reads p.1 fits) ?_
      rw [← List.append_nil (second.write p.2)]
      refine (second.misreads p.2 fun h => unfit ⟨fits, h⟩).bind_first fun b middle left' ran => ?_
      exact congrArg Prod.snd (run_pure_eq_ok_iff.mp ran).1
    · refine (first.misreads p.1 fits).bind_first fun a middle left' ran => ?_
      obtain ⟨b, middle', -, last⟩ := run_bind_eq_ok_iff.mp ran
      exact congrArg Prod.fst (run_pure_eq_ok_iff.mp last).1

def vector (element : Codec α) : Codec (List α) where
  write l := u32 (lengthWord l.length) ++ l.flatMap element.write
  read := do
    let n ← readU32 endOfData
    require (n.toNat ≤ 10000000) "deserialization: vector size exceeds reasonable limit"
    many element.read n.toNat
  Fits l := l.length ≤ 10000000 ∧ ∀ x ∈ l, element.Fits x
  reads l fits := by
    have same := toNat_lengthWord_of_lt (Nat.lt_of_le_of_lt fits.1 (by decide))
    refine .bind .u32 (.require (by rw [same]; exact fits.1) ?_)
    rw [same]
    exact .many fun x hx => element.reads x (fits.2 x hx)
  misreads l unfit := by
    refine .bind_second .u32 fun left left' ran => ?_
    obtain ⟨u, middle, checked, taken⟩ := run_bind_eq_ok_iff.mp ran
    obtain ⟨within, rfl⟩ := run_require_eq_ok_iff.mp checked
    have length := (of_many taken).1
    rw [← length] at taken within
    exact Misreads.many element (fun all => unfit ⟨within, all⟩) left left' taken

def optional (element : Codec α) : Codec (Option α) where
  write
    | none => [0]
    | some a => 1 :: element.write a
  read := do
    let has ← readU8 endOfData
    if has ≠ 0 then
      let a ← element.read
      pure (some a)
    else pure none
  Fits o := ∀ a ∈ o, element.Fits a
  reads o fits := by
    cases o with
    | none => exact Reads.bind .u8 (.pure none)
    | some a =>
      have value := (element.reads a (fits a rfl)).bind (f := fun a => Pure.pure (some a))
        (.pure (some a))
      rw [List.append_nil] at value
      exact Reads.bind .u8 value
  misreads o unfit := by
    cases o with
    | none => simp at unfit
    | some a =>
      have bad : ¬ element.Fits a := by simpa using unfit
      have value : Misreads (do let a ← element.read; pure (some a)) (element.write a)
          (some a) := by
        rw [← List.append_nil (element.write a)]
        refine (element.misreads a bad).bind_first fun b middle left' ran => ?_
        exact Option.some.inj (run_pure_eq_ok_iff.mp ran).1
      exact Misreads.bind_second Reads.u8 value

/-! ## Every value that is read can be written -/

section Closed

theorem trivial_closed {layout : Layout α} : (trivial layout).Closed := by
  intro left a left' ran
  obtain ⟨len, _, -, ran⟩ := run_bind_eq_ok_iff.mp ran
  obtain ⟨_, _, checked, -⟩ := run_bind_eq_ok_iff.mp ran
  obtain ⟨same, -⟩ := run_require_eq_ok_iff.mp checked
  have small := len.toNat_lt
  rw [same] at small
  exact small

theorem limited_closed (limit : Nat) (small : limit < 2 ^ 32) (message : String) :
    (limited limit small message).Closed := by
  intro left s left' ran
  obtain ⟨len, _, -, ran⟩ := run_bind_eq_ok_iff.mp ran
  obtain ⟨_, _, checked, taken⟩ := run_bind_eq_ok_iff.mp ran
  obtain ⟨within, -⟩ := run_require_eq_ok_iff.mp checked
  exact (run_takeBytes_eq_ok_iff.mp taken).2.le.trans within

theorem pair_closed {first : Codec α} {second : Codec β} (left : first.Closed)
    (right : second.Closed) : (pair first second).Closed := by
  intro bytes p bytes' ran
  obtain ⟨a, _, one, ran⟩ := run_bind_eq_ok_iff.mp ran
  obtain ⟨b, _, two, last⟩ := run_bind_eq_ok_iff.mp ran
  obtain ⟨rfl, -⟩ := run_pure_eq_ok_iff.mp last
  exact ⟨left _ _ _ one, right _ _ _ two⟩

theorem vector_closed (closed : element.Closed) : (vector element).Closed := by
  intro left l left' ran
  obtain ⟨n, _, -, ran⟩ := run_bind_eq_ok_iff.mp ran
  obtain ⟨_, _, checked, taken⟩ := run_bind_eq_ok_iff.mp ran
  obtain ⟨within, -⟩ := run_require_eq_ok_iff.mp checked
  refine ⟨(of_many taken).1.le.trans within, fun x hx => ?_⟩
  obtain ⟨before, after, read⟩ := (of_many taken).2 x hx
  exact closed _ _ _ read

theorem optional_closed (closed : element.Closed) : (optional element).Closed := by
  intro left o left' ran a some
  subst some
  obtain ⟨has, _, -, ran⟩ := run_bind_eq_ok_iff.mp ran
  split at ran
  · obtain ⟨b, _, read, last⟩ := run_bind_eq_ok_iff.mp ran
    obtain ⟨same, -⟩ := run_pure_eq_ok_iff.mp last
    cases same
    exact closed _ _ _ read
  · cases (run_pure_eq_ok_iff.mp ran).1

/-- The types that can be serialized, nested in any way. -/
inductive Serializable : {α : Type} → Codec α → Prop
  | trivial {α : Type} (layout : Layout α) : Serializable (trivial layout)
  | string : Serializable string
  | byteVector : Serializable byteVector
  | pair {α β : Type} {first : Codec α} {second : Codec β} :
    Serializable first → Serializable second → Serializable (pair first second)
  | vector {α : Type} {element : Codec α} : Serializable element → Serializable (vector element)
  | optional {α : Type} {element : Codec α} :
    Serializable element → Serializable (optional element)

theorem Serializable.closed {codec : Codec α} (type : Serializable codec) : codec.Closed := by
  induction type with
  | trivial => exact trivial_closed
  | string | byteVector => exact limited_closed _ _ _
  | pair _ _ first second => exact pair_closed first second
  | vector _ element => exact vector_closed element
  | optional _ element => exact optional_closed element

/-- Whatever `serde_read` makes of any bytes, `serde_write` writes so that it is read again. -/
theorem rereads {codec : Codec α} (type : Serializable codec) {bytes rest : List UInt8} {a : α}
    (ran : codec.read.run bytes = .ok (a, rest)) (left : List UInt8) :
    codec.read.run (codec.write a ++ left) = .ok (a, left) :=
  codec.reads a (type.closed _ _ _ ran) left

/-- A vector of one string, read from a longer input. -/
theorem rereads_string :
    (vector string).read.run ((vector string).write [[7]] ++ [9]) = .ok ([[7]], [9]) :=
  rereads (.vector .string)
    (show (vector string).read.run [1, 0, 0, 0, 1, 0, 0, 0, 7, 5] = .ok (_, [5]) from rfl) [9]

end Closed

end Lru.Persist.Serde
