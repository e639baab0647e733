import Lru.Library.CasLoop
import Mathlib.Data.Nat.Bitwise

/-!
# The reference count word

`refcount_with_flags` packs the number of live handles, the administrative bits and the user
flags of an item into one 64-bit word. Every method is a loop around one compare-and-swap; what
a round decides on the value it has read is the method's definition here.
-/

namespace Lru.Refcount

open CasLoop BitVec

abbrev Word := BitVec 64

def kAccessRefBits : Nat := 32

def kAccessRefMask : Word := (1#64 <<< kAccessRefBits) - 1

def kLinkedBit : Nat := 32

def kAccessibleBit : Nat := 33

def kExclusiveBit : Nat := 34

inductive Flags where
  | kMMFlag0
  | kMMFlag1
  | kMMFlag2
  | kIsChainedItem
  | kHasChainedItem
  deriving DecidableEq, Repr

def Flags.bit : Flags → Nat
  | kMMFlag0 => 35
  | kMMFlag1 => 36
  | kMMFlag2 => 37
  | kIsChainedItem => 38
  | kHasChainedItem => 39

inductive IncResult where
  | kIncOk
  | kIncFailedMoving
  | kIncFailedEviction
  | kIncFailedOverflow
  | kIncFailedUnlinked
  deriving DecidableEq, Repr

inductive MarkForEvictionResult where
  | kSuccess
  | kUnlinked
  | kExclusive
  | kRefHeld
  deriving DecidableEq, Repr

inductive Result where
  | inc (result : IncResult)
  | mark (result : MarkForEvictionResult)
  | value (word : Word)
  | done
  deriving DecidableEq, Repr

namespace Word

def access (w : Word) : Word := w &&& kAccessRefMask

def bit (w : Word) (b : Nat) : Bool := w.getLsbD b

def linked (w : Word) : Bool := bit w kLinkedBit

def exclusive (w : Word) : Bool := bit w kExclusiveBit

def setBit (w : Word) (b : Nat) : Word := w ||| (1#64 <<< b)

def clearBit (w : Word) (b : Nat) : Word := w &&& ~~~(1#64 <<< b)

end Word

/-- The methods that the library calls. Nothing calls `markMoving` and `unmarkMoving`. -/
inductive Method where
  | incRef
  | decRef
  | markForEviction
  | unmarkForEviction
  | markInMMContainer
  | unmarkInMMContainer
  | markAccessible
  | unmarkAccessible
  | setFlag (flag : Flags)
  | unSetFlag (flag : Flags)
  deriving DecidableEq, Repr

open Word

def incRef (old : Word) : Round Word Result :=
  if exclusive old then
    .finish (.inc (if access old = 0 then .kIncFailedEviction else .kIncFailedMoving))
  else if !linked old then .finish (.inc .kIncFailedUnlinked)
  else if kAccessRefMask ≤ access old then .finish (.inc .kIncFailedOverflow)
  else .exchange (old + 1) (.inc .kIncOk)

/-- An underflow is counted and leaves the word. -/
def decRef (old : Word) : Round Word Result :=
  if access old = 0 then .finish (.value old) else .exchange (old - 1) (.value (old - 1))

def markForEviction (old : Word) : Round Word Result :=
  if !linked old then .finish (.mark .kUnlinked)
  else if exclusive old then .finish (.mark .kExclusive)
  else if 0 < access old then .finish (.mark .kRefHeld)
  else .exchange (setBit old kExclusiveBit) (.mark .kSuccess)

def Method.round : Method → Word → Round Word Result
  | incRef, old => Refcount.incRef old
  | decRef, old => Refcount.decRef old
  | markForEviction, old => Refcount.markForEviction old
  | unmarkForEviction, old =>
    .exchange (clearBit old kExclusiveBit) (.value (clearBit old kExclusiveBit))
  | markInMMContainer, old => .exchange (setBit old kLinkedBit) .done
  | unmarkInMMContainer, old => .exchange (clearBit old kLinkedBit) .done
  | markAccessible, old => .exchange (setBit old kAccessibleBit) .done
  | unmarkAccessible, old => .exchange (clearBit old kAccessibleBit) .done
  | setFlag flag, old => .exchange (setBit old flag.bit) .done
  | unSetFlag flag, old => .exchange (clearBit old flag.bit) .done

/-! ## Bits and count -/

section Bits

variable {w : Word} {a b : Nat}

theorem access_toNat : (access w).toNat = w.toNat % 2 ^ 32 := by
  have mask : kAccessRefMask.toNat = 2 ^ 32 - 1 := by decide
  rw [access, toNat_and, mask, Nat.and_two_pow_sub_one_eq_mod]

theorem bit_eq : bit w b = decide (w.toNat / 2 ^ b % 2 = 1) := by
  rw [bit, ← testBit_toNat, Nat.testBit_eq_decide_div_mod_eq]

theorem bit_one_shiftLeft (ha : a < 64) : (1#64 <<< b).getLsbD a = decide (a = b) := by
  rw [← twoPow_eq]
  by_cases same : b = a
  · subst same
    simp [ha]
  · simp [same, Ne.symm same]

theorem bit_setBit (ha : a < 64) : bit (setBit w b) a = (bit w a || decide (a = b)) := by
  rw [bit, setBit, getLsbD_or, bit_one_shiftLeft ha]
  rfl

theorem bit_clearBit (ha : a < 64) : bit (clearBit w b) a = (bit w a && !decide (a = b)) := by
  rw [bit, clearBit, getLsbD_and, getLsbD_not, bit_one_shiftLeft ha]
  simp [ha, bit]

theorem toNat_sub_one (positive : 0 < w.toNat % 2 ^ 32) : (w - 1).toNat = w.toNat - 1 := by
  rw [toNat_sub]
  have := w.isLt
  have : (1 : Word).toNat = 1 := rfl
  omega

/-- The count lies below the bits: counting down from a positive count leaves them. -/
theorem bit_sub_one (hb : 32 ≤ b) (positive : access w ≠ 0) : bit (w - 1) b = bit w b := by
  have count : 0 < w.toNat % 2 ^ 32 := by
    rw [← access_toNat]
    exact Nat.pos_of_ne_zero fun zero => positive (eq_of_toNat_eq zero)
  rw [bit_eq, bit_eq, toNat_sub_one count]
  obtain ⟨k, rfl⟩ := Nat.exists_eq_add_of_le hb
  have same : (w.toNat - 1) / 2 ^ 32 = w.toNat / 2 ^ 32 := by omega
  rw [Nat.pow_add, ← Nat.div_div_eq_div_mul, ← Nat.div_div_eq_div_mul, same]

end Bits

/-! ## The pin barrier -/

theorem incRef_exchange {w desired : Word} {result : Result}
    (decided : incRef w = .exchange desired result) :
    linked w = true ∧ w.toNat % 2 ^ 32 < 2 ^ 32 - 1 ∧ desired = w + 1 := by
  rw [incRef] at decided
  split at decided
  · cases decided
  split at decided
  · cases decided
  case isFalse isLinked =>
  split at decided
  · cases decided
  case isFalse room =>
    cases decided
    exact ⟨by simpa using isLinked, access_toNat ▸ Nat.not_le.mp room, rfl⟩

/-- No other method than `markInMMContainer` sets the linked bit. -/
theorem round_unlinked {method : Method} {w desired : Word} {result : Result}
    (other : method ≠ .markInMMContainer) (unlinked : linked w = false)
    (decided : method.round w = .exchange desired result) : linked desired = false := by
  have flag : ∀ f : Flags, (kLinkedBit = f.bit) = False := by
    intro f
    cases f <;> simp [kLinkedBit, Flags.bit]
  have stored : ∀ v, v = w.setBit kAccessibleBit ∨ (∃ f : Flags, v = w.setBit f.bit) ∨
      (∃ b, v = w.clearBit b) → linked v = false := by
    rintro v (rfl | ⟨f, rfl⟩ | ⟨b, rfl⟩)
    · rw [linked, bit_setBit (by decide), ← linked, unlinked]
      rfl
    · rw [linked, bit_setBit (by decide), ← linked, unlinked]
      simp [flag]
    · rw [linked, bit_clearBit (by decide), ← linked, unlinked]
      rfl
  cases method with
  | incRef =>
    cases (incRef_exchange decided).1.symm.trans unlinked
  | decRef =>
    rw [Method.round, decRef] at decided
    split at decided
    · cases decided
    case isFalse positive =>
      cases decided
      rw [linked, bit_sub_one (by decide) positive, ← linked, unlinked]
  | markForEviction =>
    rw [Method.round, markForEviction, if_pos (by simp [unlinked])] at decided
    cases decided
  | markInMMContainer => exact absurd rfl other
  | unmarkForEviction | unmarkInMMContainer | unmarkAccessible | unSetFlag _ =>
    cases decided
    exact stored _ (.inr (.inr ⟨_, rfl⟩))
  | markAccessible =>
    cases decided
    exact stored _ (.inl rfl)
  | setFlag flag =>
    cases decided
    exact stored _ (.inr (.inl ⟨flag, rfl⟩))

/-- Once the linked bit is clear, no `incRef` succeeds in any interleaving of the methods that
run on an item after its insertion, whatever the threads had read before. -/
theorem no_pin_after_unlink {θ : Type} [DecidableEq θ] {p q : Pool θ Method Word Result}
    (unlinked : linked p.word = false)
    (begun : ∀ thread method old, p.running thread = some (method, old) →
      method ≠ .markInMMContainer)
    (reached : Transition.Reaches (step Method.round) (Begins (· ≠ .markInMMContainer)) p q) :
    ∃ later, q.returned = p.returned ++ later ∧
      ∀ e ∈ later, ¬ (e.1 = .incRef ∧ e.2 = .inc .kIncOk) := by
  refine (Reaches.returned
    (Q := fun method result => ¬ (method = .incRef ∧ result = .inc .kIncOk))
    round_unlinked ?_ ?_ ⟨unlinked, begun⟩ reached).2
  · rintro _ w _ decided ⟨rfl, rfl⟩
    rw [Method.round, incRef] at decided
    split at decided
    · split at decided <;> cases decided
    split at decided
    · cases decided
    split at decided <;> cases decided
  · rintro _ w _ _ unlinked decided ⟨rfl, rfl⟩
    cases (incRef_exchange decided).1.symm.trans unlinked

/-! ## The eviction mark -/

/-- No other method than `unmarkForEviction` takes the mark away. -/
theorem round_exclusive {method : Method} {w desired : Word} {result : Result}
    (other : method ≠ .unmarkForEviction) (marked : exclusive w = true)
    (decided : method.round w = .exchange desired result) :
    exclusive desired = true := by
  have kept : ∀ b, exclusive (w.setBit b) = true := by
    intro b
    rw [exclusive, bit_setBit (by decide), ← exclusive, marked, Bool.true_or]
  have stays : ∀ b, kExclusiveBit ≠ b → exclusive (w.clearBit b) = true := by
    intro b apart
    rw [exclusive, bit_clearBit (by decide), ← exclusive, marked, decide_eq_false apart]
    rfl
  cases method with
  | unmarkForEviction => exact absurd rfl other
  | incRef => simp [Method.round, incRef, marked] at decided
  | markForEviction =>
    rw [Method.round, markForEviction, if_pos marked] at decided
    split at decided <;> cases decided
  | decRef =>
    rw [Method.round, decRef] at decided
    split at decided
    · cases decided
    case isFalse positive =>
      cases decided
      rwa [exclusive, bit_sub_one (by decide) positive]
  | markInMMContainer | markAccessible | setFlag _ =>
    cases decided
    exact kept _
  | unmarkInMMContainer | unmarkAccessible =>
    cases decided
    exact stays _ (by decide)
  | unSetFlag flag =>
    cases decided
    exact stays _ (by cases flag <;> decide)

/-- From a successful `markForEviction` until its `unmarkForEviction` begins the mark stays, and in
no interleaving of the other methods does an `incRef` or another `markForEviction` succeed. -/
theorem no_pin_while_marked {θ : Type} [DecidableEq θ] {p q : Pool θ Method Word Result}
    (marked : exclusive p.word = true)
    (begun : ∀ thread method old, p.running thread = some (method, old) →
      method ≠ .unmarkForEviction)
    (reached : Transition.Reaches (step Method.round) (Begins (· ≠ .unmarkForEviction)) p q) :
    exclusive q.word = true ∧ ∃ later, q.returned = p.returned ++ later ∧
      ∀ e ∈ later, e.2 ≠ .inc .kIncOk ∧ e.2 ≠ .mark .kSuccess := by
  refine Reaches.returned
    (Q := fun _ result => result ≠ .inc .kIncOk ∧ result ≠ .mark .kSuccess)
    round_exclusive ?_ ?_ ⟨marked, begun⟩ reached
  all_goals
    intro method
    cases method with grind [Method.round, incRef, decRef, markForEviction]

/-- A reader fails to pin a linked item with the mark. -/
theorem marked_item_not_pinned : ∃ q : Pool Unit Method Word Result,
    q.returned = [(.incRef, .inc .kIncFailedEviction)] ∧ exclusive q.word = true := by
  have refused := no_pin_while_marked (p := ⟨5#64 <<< 32, fun _ : Unit => none, []⟩) (by decide)
    nofun (.tail (.tail .refl ⟨.load () .incRef, nofun, rfl⟩) ⟨.attempt () false, trivial, rfl⟩)
  exact ⟨_, rfl, refused.1⟩

end Lru.Refcount
