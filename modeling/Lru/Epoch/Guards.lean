import Lru.Library.Transition
import Mathlib.Logic.Function.Basic

/-!
# Guards on several epoch domains

A thread keeps its slot and the depth of its critical sections in one thread-local record, which
belongs to one domain at a time. A guard on another domain takes the record over and gives the
slot of the first domain back, also where a guard on that domain is alive.
-/

namespace Lru.Epoch

open Function

/-- A slot of a domain as this thread writes it; `none` is `kInactiveEpoch`. -/
structure Slot where
  used : Bool := false
  localEpoch : Option Nat := none
  entryTimeNs : Nat := 0

structure TlsSlotCache (D : Type) where
  slotIndex : Option Nat := none
  owner : Option D := none
  csDepth : Nat := 0

/-- The record, the slots and the guards that are alive, the innermost first, each with what
`valid()` said after its construction. -/
structure State (D : Type) where
  cache : TlsSlotCache D := {}
  slots : D → Nat → Slot := fun _ _ => {}
  guards : List (D × Bool) := []

/-- A guard is constructed, with the slot that `acquire_slot` finds where it is asked, the epoch
and the clock; or the innermost one is destroyed. -/
inductive Action (D : Type) where
  | enter (d : D) (found : Option Nat) (epoch nowNs : Nat)
  | exit

variable {D : Type} [DecidableEq D] {i epoch nowNs j : Nat} {e : D}

namespace State

def setSlot (s : State D) (d : D) (i : Nat) (slot : Slot) : State D :=
  { s with slots := update s.slots d (update (s.slots d) i slot) }

/-- The slot in the record, where it belongs to this domain. -/
def cachedSlot (s : State D) (d : D) : Option Nat :=
  if s.cache.owner = some d then s.cache.slotIndex else none

def stamp (s : State D) (d : D) (i epoch nowNs : Nat) : State D :=
  { s.setSlot d i { s.slots d i with localEpoch := some epoch, entryTimeNs := nowNs } with
    cache := ⟨some i, some d, 1⟩ }

/-- `release_slot_global` on the domain that the record belongs to. -/
def releaseSlotGlobal (s : State D) : State D :=
  match s.cache.owner, s.cache.slotIndex with
  | some d, some i => s.setSlot d i {}
  | _, _ => s

def enterCritical (s : State D) (d : D) (found : Option Nat) (epoch nowNs : Nat) : State D :=
  match s.cachedSlot d with
  | some i =>
    if 0 < s.cache.csDepth then
      { s with cache := { s.cache with csDepth := s.cache.csDepth + 1 } }
    else s.stamp d i epoch nowNs
  | none =>
    let s := if s.cache.owner = some d then s else s.releaseSlotGlobal
    match found with
    | none => { s with cache := ⟨none, some d, 0⟩ }
    | some i => (s.setSlot d i { s.slots d i with used := true }).stamp d i epoch nowNs

def exitCritical (s : State D) (d : D) : State D :=
  match s.cachedSlot d with
  | none => s
  | some i =>
    if 1 < s.cache.csDepth then
      { s with cache := { s.cache with csDepth := s.cache.csDepth - 1 } }
    else
      { s.setSlot d i { s.slots d i with localEpoch := none, entryTimeNs := 0 } with
        cache := { s.cache with csDepth := 0 } }

def hasSlot (s : State D) (d : D) : Bool := s.cache.owner = some d ∧ 0 < s.cache.csDepth

end State

/-- `acquire_slot` finds a slot that nobody uses. -/
def step (s : State D) : Action D → Option (State D)
  | .enter d found epoch nowNs =>
    if ∀ i ∈ found, (s.slots d i).used = false then
      let t := s.enterCritical d found epoch nowNs
      some { t with guards := (d, t.hasSlot d) :: s.guards }
    else none
  | .exit =>
    match s.guards with
    | [] => none
    | (d, _) :: rest => some { s.exitCritical d with guards := rest }

/-- Every guard that was valid has a slot of its domain registered and stamped, and without
guards no slot is stamped. -/
def Protected (s : State D) : Prop :=
  (∀ d, (d, true) ∈ s.guards → ∃ i, (s.slots d i).used = true ∧ (s.slots d i).localEpoch ≠ none) ∧
    (s.guards = [] → ∀ d i, (s.slots d i).localEpoch = none)

/-- A guard is constructed only on the domain of the valid guards that are alive. -/
def OneDomain (s : State D) : Action D → Prop
  | .enter d .. => ∀ other, (other, true) ∈ s.guards → other = d
  | .exit => True

/-- The slot in the record is registered, and it alone is stamped while the depth is positive. The
depth counts the valid guards, which are the innermost ones. -/
structure Kept (s : State D) : Prop where
  registered : ∀ d i, s.cachedSlot d = some i → (s.slots d i).used = true
  stamped : ∀ d i, (s.slots d i).localEpoch ≠ none ↔ s.cachedSlot d = some i ∧ 0 < s.cache.csDepth
  guards : ∃ live rest, s.guards = live ++ rest ∧ live.length = s.cache.csDepth ∧
    (∀ g ∈ live, g.2 = true ∧ ∃ i, s.cachedSlot g.1 = some i) ∧ ∀ g ∈ rest, g.2 = false

section Proofs

variable {s : State D} {d : D}

@[grind =]
theorem slots_setSlot {slot : Slot} :
    (s.setSlot d i slot).slots e j = if e = d ∧ j = i then slot else s.slots e j := by
  simp only [State.setSlot, update_apply]
  grind

@[grind =]
theorem slots_stamp :
    (s.stamp d i epoch nowNs).slots e j = if e = d ∧ j = i then
      { s.slots d i with localEpoch := some epoch, entryTimeNs := nowNs } else s.slots e j :=
  slots_setSlot

theorem Kept.protected (h : Kept s) : Protected s := by
  obtain ⟨registered, stamped, live, rest, guards, depth, valid, invalid⟩ := h
  constructor
  · intro d alive
    have inside : (d, true) ∈ live := by grind
    obtain ⟨-, i, cached⟩ := valid _ inside
    refine ⟨i, registered d i cached, (stamped d i).mpr ⟨cached, ?_⟩⟩
    rw [← depth]
    exact List.length_pos_of_mem inside
  · intro gone d i
    have none : live = [] := (List.append_eq_nil_iff.mp (guards.symm.trans gone)).1
    grind

theorem Kept.of_stamp {rest : List (D × Bool)}
    (clear : ∀ e j, (s.slots e j).localEpoch = none) (used : (s.slots d i).used = true)
    (invalid : ∀ g ∈ rest, g.2 = false) : Kept { s.stamp d i epoch nowNs with
      guards := (d, (s.stamp d i epoch nowNs).hasSlot d) :: rest } := by
  have cached : ∀ e, (s.stamp d i epoch nowNs).cachedSlot e = if e = d then some i else none := by
    grind [State.cachedSlot, State.stamp]
  have entered : (s.stamp d i epoch nowNs).hasSlot d = true := by simp [State.hasSlot, State.stamp]
  rw [entered]
  refine ⟨fun e j => ?_, fun e j => ?_, [(d, true)], rest, rfl, rfl, fun g inside => ?_, invalid⟩
  · grind [State.cachedSlot, State.stamp]
  · grind [State.cachedSlot, State.stamp]
  · obtain rfl := List.mem_singleton.mp inside
    exact ⟨rfl, i, (cached d).trans (if_pos rfl)⟩

theorem Kept.enter {found : Option Nat} (h : Kept s)
    (one : ∀ other, (other, true) ∈ s.guards → other = d) :
    Kept { s.enterCritical d found epoch nowNs with
      guards := (d, (s.enterCritical d found epoch nowNs).hasSlot d) :: s.guards } := by
  obtain ⟨registered, stamped, live, rest, guards, depth, valid, invalid⟩ := h
  cases cached : s.cachedSlot d with
  | some i =>
    simp only [State.enterCritical, cached]
    split
    case isTrue deep =>
      refine ⟨registered, ?_, (d, true) :: live, rest, ?_, ?_, ?_, invalid⟩ <;>
        grind [State.hasSlot, State.cachedSlot]
    case isFalse outside =>
      obtain rfl : live = [] := by grind
      rw [guards]
      exact .of_stamp (by grind) (registered d i cached) invalid
  | none =>
    -- A valid guard would be on this domain, and the record with it.
    obtain rfl : live = [] := by
      refine List.eq_nil_iff_forall_not_mem.mpr fun g inside => ?_
      obtain ⟨isValid, i, elsewhere⟩ := valid g inside
      have := one g.1 (by grind)
      grind
    have clear : ∀ e j, ((if s.cache.owner = some d then s else s.releaseSlotGlobal).slots
        e j).localEpoch = none := by
      grind [State.releaseSlotGlobal]
    simp only [State.enterCritical, cached]
    cases found with
    | none =>
      refine ⟨?_, ?_, [], (d, false) :: s.guards, ?_, ?_, ?_, ?_⟩ <;>
        grind [State.hasSlot, State.cachedSlot]
    | some i =>
      rw [guards]
      exact .of_stamp (by grind) (by grind) invalid

theorem Kept.exit {isValid : Bool} {tail : List (D × Bool)} (h : Kept s)
    (alive : s.guards = (d, isValid) :: tail) :
    Kept { s.exitCritical d with guards := tail } := by
  obtain ⟨registered, stamped, live, rest, guards, depth, valid, invalid⟩ := h
  rw [alive] at guards
  -- The innermost guard is valid iff the depth is positive.
  cases live with
  | nil =>
    obtain rfl : (d, isValid) :: tail = rest := guards
    have later := (List.forall_mem_cons.mp invalid).2
    have outside : ¬ 1 < s.cache.csDepth := by simp [← depth]
    rw [State.exitCritical]
    split
    · exact ⟨registered, stamped, [], tail, rfl, depth, nofun, later⟩
    · rw [if_neg outside]
      refine ⟨?_, ?_, [], tail, rfl, rfl, nofun, later⟩ <;> grind [State.cachedSlot]
  | cons g live =>
    obtain ⟨rfl, rfl⟩ := List.cons.inj guards
    obtain ⟨rfl, i, cached⟩ := valid _ (.head _)
    simp only [State.exitCritical, cached]
    split
    · refine ⟨registered, ?_, live, rest, rfl, ?_, ?_, invalid⟩ <;> grind [State.cachedSlot]
    · refine ⟨?_, ?_, live, rest, rfl, ?_, ?_, invalid⟩ <;> grind [State.cachedSlot]

/-- In a run of such guards no valid one loses its slot. -/
theorem guards_protected (reached : Transition.Reaches step OneDomain {} s) : Protected s := by
  refine (reached.invariant (P := Kept) ⟨nofun, ?_, [], [], rfl, rfl, nofun, nofun⟩ ?_).protected
  · simp
  · intro s a t h one taken
    cases a with
    | enter d found epoch nowNs =>
      obtain ⟨-, rfl⟩ := Transition.of_guarded taken
      exact h.enter one
    | exit =>
      rw [step] at taken
      split at taken
      · cases taken
      case h_2 alive =>
        cases taken
        exact h.exit alive

end Proofs

/-- The slot stays while the outer one of two guards on a domain is alive. -/
theorem outer_guard_protected : ∃ s : State Bool, s.guards = [(true, true)] ∧ Protected s := by
  have reached : Transition.Reaches step OneDomain {} (_ : State Bool) :=
    .head ⟨.enter true (some 0) 5 0, nofun, rfl⟩ <|
      .head ⟨.enter true none 5 0, by simp [OneDomain], rfl⟩ <| .single ⟨.exit, trivial, rfl⟩
  exact ⟨_, rfl, guards_protected reached⟩

/-- A guard on a second domain takes the slot of the first away. -/
theorem second_domain_unprotects :
    ∃ s : State Bool, Transition.run step {} [.enter false (some 0) 5 0, .enter true (some 0) 7 0] =
      some s ∧ s.guards = [(true, true), (false, true)] ∧ ¬ Protected s := by
  refine ⟨_, rfl, rfl, fun safe => ?_⟩
  obtain ⟨i, used, -⟩ := safe.1 false (by decide)
  cases i <;> cases used

end Lru.Epoch
