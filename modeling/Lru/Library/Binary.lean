import Mathlib.Data.List.Basic
import Mathlib.Data.Nat.ModEq
import Mathlib.Tactic.Ring

/-!
# Bytes, words and readers

Little-endian words as lists of bytes, and readers that take values off the front
of what is left of the input or throw. `Reads r bytes a` says that `r` decodes
`bytes` as `a` whatever follows, `Misreads r bytes a` that it never does; both are
closed under sequencing, so a decoder is compared with its encoder part by part.
A codec is a writer and a reader together with the exact set of values that
survive them.
-/

namespace Binary

open List

/-! ## Words -/

/-- The low bytes of a number, the lowest first. -/
def ofNat : Nat → Nat → List UInt8
  | 0, _ => []
  | width + 1, n => UInt8.ofNat n :: ofNat width (n / 256)

/-- The number with these bytes, the lowest first. -/
def toNat : List UInt8 → Nat
  | [] => 0
  | byte :: rest => byte.toNat + 256 * toNat rest

@[simp] theorem length_ofNat {width n : Nat} : (ofNat width n).length = width := by
  induction width generalizing n with
  | zero => rfl
  | succ width ih => rw [ofNat, List.length_cons, ih]

theorem toNat_ofNat (width n : Nat) : toNat (ofNat width n) = n % 256 ^ width := by
  induction width generalizing n with
  | zero => simp [ofNat, toNat, Nat.mod_one]
  | succ width ih =>
    rw [ofNat, toNat, ih, Nat.pow_succ', Nat.mod_mul]
    simp

theorem ofNat_toNat (bytes : List UInt8) : ofNat bytes.length (toNat bytes) = bytes := by
  induction bytes with
  | nil => rfl
  | cons byte rest ih =>
    have lt := byte.toNat_lt
    have high : (byte.toNat + 256 * toNat rest) / 256 = toNat rest := by omega
    rw [length_cons, toNat, ofNat, high]
    congr 1
    apply UInt8.toNat_inj.mp
    simp

theorem toNat_lt {bytes : List UInt8} : toNat bytes < 256 ^ bytes.length := by
  induction bytes with
  | nil => simp [toNat]
  | cons byte rest ih =>
    have lt := byte.toNat_lt
    rw [toNat, length_cons]
    omega

def u32 (x : UInt32) : List UInt8 := ofNat 4 x.toNat

def u64 (x : UInt64) : List UInt8 := ofNat 8 x.toNat

@[simp] theorem length_u32 (x : UInt32) : (u32 x).length = 4 := length_ofNat

@[simp] theorem length_u64 (x : UInt64) : (u64 x).length = 8 := length_ofNat

/-! ## Readers -/

/-- A reader takes bytes off the front of what is left, or throws. -/
abbrev Reader (α : Type) := StateT (List UInt8) (Except String) α

def takeBytes (message : String) (count : Nat) : Reader (List UInt8) := fun left =>
  if left.length < count then .error message else .ok (left.take count, left.drop count)

def readU8 (message : String) : Reader UInt8 := do
  let bytes ← takeBytes message 1
  pure (UInt8.ofNat (toNat bytes))

def readU32 (message : String) : Reader UInt32 := do
  let bytes ← takeBytes message 4
  pure (UInt32.ofNat (toNat bytes))

def readU64 (message : String) : Reader UInt64 := do
  let bytes ← takeBytes message 8
  pure (UInt64.ofNat (toNat bytes))

def require (cond : Prop) [Decidable cond] (message : String) : Reader Unit :=
  if cond then pure () else throw message

/-- Read a number of values one after the other. -/
def many {α : Type} (reader : Reader α) : Nat → Reader (List α)
  | 0 => pure []
  | n + 1 => do
      let x ← reader
      let rest ← many reader n
      pure (x :: rest)

variable {α β : Type} {r : Reader α} {f : α → Reader β} {bytes more left left' : List UInt8}
  {a : α} {b : β} {message : String} {cond : Prop} {l : List α} {n : Nat} {g : Unit → Reader β}
  {x : UInt32}

/-- The reader decodes these bytes as this value, whatever follows. -/
def Reads (r : Reader α) (bytes : List UInt8) (a : α) : Prop :=
  ∀ left, r.run (bytes ++ left) = .ok (a, left)

/-- The reader never decodes these bytes as this value. -/
def Misreads (r : Reader α) (bytes : List UInt8) (a : α) : Prop :=
  ∀ left left', r.run (bytes ++ left) ≠ .ok (a, left')

theorem run_bind_eq_ok_iff :
    (r >>= f).run left = .ok (b, left') ↔
      ∃ a middle, r.run left = .ok (a, middle) ∧ (f a).run middle = .ok (b, left') := by
  rw [StateT.run_bind]
  cases r.run left with
  | error message => simp [bind, Except.bind]
  | ok taken =>
    obtain ⟨a, middle⟩ := taken
    simp [bind, Except.bind]

theorem run_bind_eq_error (ran : r.run left = .error message) :
    (r >>= f).run left = .error message := by
  rw [StateT.run_bind, ran]
  rfl

theorem run_pure_eq_ok_iff {a' : α} :
    (pure a : Reader α).run left = .ok (a', left') ↔ a = a' ∧ left = left' := by
  rw [StateT.run_pure]
  simp [pure, Except.pure]

theorem Reads.pure (a : α) : Reads (pure a) [] a := fun _ => rfl

theorem Reads.run_bind (reads : Reads r bytes a) :
    (r >>= f).run (bytes ++ left) = (f a).run left := by
  rw [StateT.run_bind, reads left]
  rfl

theorem Reads.bind (first : Reads r bytes a) (second : Reads (f a) more b) :
    Reads (r >>= f) (bytes ++ more) b := by
  intro left
  rw [append_assoc, first.run_bind]
  exact second left

theorem Misreads.bind_second (first : Reads r bytes a) (second : Misreads (f a) more b) :
    Misreads (r >>= f) (bytes ++ more) b := by
  intro left left'
  rw [append_assoc, first.run_bind]
  exact second left left'

/-- A wrong first value is seen in the result. -/
theorem Misreads.bind_first (first : Misreads r bytes a)
    (seen : ∀ x middle left', (f x).run middle = .ok (b, left') → x = a) :
    Misreads (r >>= f) (bytes ++ more) b := by
  intro left left' ran
  obtain ⟨x, middle, ran, rest⟩ := run_bind_eq_ok_iff.mp ran
  rw [append_assoc] at ran
  exact first _ middle (seen x middle left' rest ▸ ran)

theorem run_require_eq_ok_iff [Decidable cond] {u : Unit} :
    (require cond message).run left = .ok (u, left') ↔ cond ∧ left = left' := by
  rw [require]
  split
  case isTrue holds =>
    rw [run_pure_eq_ok_iff]
    simp [holds]
  case isFalse fails => simp [fails, throw, throwThe, MonadExceptOf.throw, StateT.run, StateT.lift]

theorem run_require_eq_error [Decidable cond] (fails : ¬ cond) :
    (require cond message).run left = .error message := by
  rw [require, if_neg fails]
  rfl

theorem Reads.require [Decidable cond] (holds : cond)
    (reads : Reads (g ()) bytes b) : Reads (Binary.require cond message >>= g) bytes b := by
  intro left
  rw [Binary.require, if_pos holds]
  exact reads left

theorem Misreads.require [Decidable cond]
    (fails : ¬ cond) :
    Misreads (Binary.require cond message >>= g) bytes b := by
  intro left left' ran
  obtain ⟨u, middle, checked, -⟩ := run_bind_eq_ok_iff.mp ran
  exact fails (run_require_eq_ok_iff.mp checked).1

theorem Reads.takeBytes (message : String) (bytes : List UInt8) :
    Reads (takeBytes message bytes.length) bytes bytes := by
  intro left
  simp [Binary.takeBytes, StateT.run]

/-- What was read stood in front of what is left. -/
theorem run_takeBytes_eq_ok_iff {count : Nat} {taken : List UInt8} :
    (Binary.takeBytes message count).run left = .ok (taken, left') ↔
      left = taken ++ left' ∧ taken.length = count := by
  simp only [Binary.takeBytes, StateT.run]
  constructor
  · intro ran
    split at ran
    case isTrue => cases ran
    case isFalse enough =>
      cases ran
      rw [take_append_drop, length_take]
      exact ⟨rfl, by omega⟩
  · rintro ⟨rfl, rfl⟩
    simp

/-- A word of any type that is a number below `256 ^ width`. -/
theorem Reads.word (message : String) (width : Nat) (g : Nat → α)
    (lt : n < 256 ^ width) :
    Reads (do let bytes ← Binary.takeBytes message width; Pure.pure (g (toNat bytes)))
      (ofNat width n) (g n) := by
  have taken := Reads.takeBytes message (ofNat width n)
  rw [length_ofNat] at taken
  intro left
  rw [taken.run_bind, toNat_ofNat, Nat.mod_eq_of_lt lt]
  rfl

theorem Reads.u8 {x : UInt8} : Reads (readU8 message) [x] x := by
  have word := Reads.word message 1 UInt8.ofNat x.toNat_lt
  rw [ofNat, UInt8.ofNat_toNat] at word
  exact word

theorem Reads.u32 : Reads (readU32 message) (u32 x) x := by
  have word := Reads.word message 4 UInt32.ofNat x.toNat_lt
  rw [UInt32.ofNat_toNat] at word
  exact word

theorem Reads.u64 {x : UInt64} : Reads (readU64 message) (u64 x) x := by
  have word := Reads.word message 8 UInt64.ofNat x.toNat_lt
  rw [UInt64.ofNat_toNat] at word
  exact word

@[simp] theorem run_bind_readU32 {f : UInt32 → Reader β} :
    (readU32 message >>= f).run (u32 x ++ left) = (f x).run left :=
  Reads.u32.run_bind

@[simp] theorem run_bind_readU64 {x : UInt64} {f : UInt64 → Reader β} :
    (readU64 message >>= f).run (u64 x ++ left) = (f x).run left :=
  Reads.u64.run_bind

/-- A word was read iff its bytes stood in front. -/
theorem run_word_eq_ok_iff {width : Nat} {g : Nat → α} {h : α → Nat} (gh : ∀ x, g (h x) = x)
    (hg : ∀ n, n < 256 ^ width → h (g n) = n) (lt : ∀ x, h x < 256 ^ width) : (do
      let bytes ← Binary.takeBytes message width
      Pure.pure (g (toNat bytes)) : Reader α).run left = .ok (a, left') ↔
        left = ofNat width (h a) ++ left' := by
  constructor
  · intro ran
    obtain ⟨bytes, middle, taken, last⟩ := run_bind_eq_ok_iff.mp ran
    obtain ⟨rfl, rfl⟩ := run_takeBytes_eq_ok_iff.mp taken
    obtain ⟨rfl, rfl⟩ := run_pure_eq_ok_iff.mp last
    rw [hg _ toNat_lt, ofNat_toNat]
  · rintro rfl
    have word := Reads.word message width g (lt a) left'
    rwa [gh] at word

theorem run_readU32_eq_ok_iff :
    (readU32 message).run left = .ok (x, left') ↔ left = u32 x ++ left' :=
  run_word_eq_ok_iff (fun _ => UInt32.ofNat_toNat) (fun _ => UInt32.toNat_ofNat_of_lt)
    UInt32.toNat_lt

theorem run_readU64_eq_ok_iff {x : UInt64} :
    (readU64 message).run left = .ok (x, left') ↔ left = u64 x ++ left' :=
  run_word_eq_ok_iff (fun _ => UInt64.ofNat_toNat) (fun _ => UInt64.toNat_ofNat_of_lt)
    UInt64.toNat_lt

/-! ## Codecs -/

/-- A writer and a reader, with the values that survive them. -/
structure Codec (α : Type) where
  write : α → List UInt8
  read : Reader α
  Fits : α → Prop
  reads : ∀ a, Fits a → Reads read (write a) a
  misreads : ∀ a, ¬ Fits a → Misreads read (write a) a

/-- Whatever the reader returns survives the writer. -/
def Codec.Closed (codec : Codec α) : Prop :=
  ∀ left a left', codec.read.run left = .ok (a, left') → codec.Fits a

/-- `many` returns as many elements as it is asked for, and each of them was read. -/
theorem of_many (ran : (many r n).run left = .ok (l, left')) :
    l.length = n ∧ ∀ x ∈ l, ∃ before after, r.run before = .ok (x, after) := by
  induction n generalizing left left' l with
  | zero =>
    obtain ⟨rfl, -⟩ := run_pure_eq_ok_iff.mp ran
    exact ⟨rfl, by simp⟩
  | succ n ih =>
    obtain ⟨x, middle, first, later⟩ := run_bind_eq_ok_iff.mp ran
    obtain ⟨rest, middle', tail, last⟩ := run_bind_eq_ok_iff.mp later
    obtain ⟨rfl, -⟩ := run_pure_eq_ok_iff.mp last
    obtain ⟨length, each⟩ := ih tail
    exact ⟨congrArg (· + 1) length, forall_mem_cons.mpr ⟨⟨left, middle, first⟩, each⟩⟩

theorem Reads.many {write : α → List UInt8} (each : ∀ x ∈ l, Reads r (write x) x) :
    Reads (many r l.length) (l.flatMap write) l := by
  induction l with
  | nil => exact .pure []
  | cons x rest ih =>
    rw [flatMap_cons]
    refine .bind (each x (by simp)) ?_
    have tail := ih fun y hy => each y (by simp [hy])
    simpa using tail.bind (f := fun l => Pure.pure (x :: l)) (.pure (x :: rest))

/-- One value that does not survive spoils the list. -/
theorem Misreads.many (codec : Codec α) (bad : ¬ ∀ x ∈ l, codec.Fits x) :
    Misreads (many codec.read l.length) (l.flatMap codec.write) l := by
  induction l with
  | nil => simp at bad
  | cons x rest ih =>
    rw [flatMap_cons]
    by_cases fits : codec.Fits x
    · refine .bind_second (codec.reads x fits) ?_
      have tail := ih fun all => bad (by simpa [fits] using all)
      rw [← append_nil (rest.flatMap codec.write)]
      refine tail.bind_first fun l middle left' ran => ?_
      obtain ⟨same, -⟩ := run_pure_eq_ok_iff.mp ran
      exact (cons.inj same).2
    · refine (codec.misreads x fits).bind_first fun y middle left' ran => ?_
      obtain ⟨l, middle', -, last⟩ := run_bind_eq_ok_iff.mp ran
      obtain ⟨same, -⟩ := run_pure_eq_ok_iff.mp last
      exact (cons.inj same).1

end Binary
