import Lru.Compact.Model
import Lru.Mm.Budget

/-!
# The memory budget of `compact_cache`

Every slot counts for its own size. The memory loop of `set` compares the counter before the
new slot is added, so it makes no room for that slot: a write stays within the budget only
if the slots that the size limit keeps leave room for one more.
-/

namespace Lru.CompactCache

open SizeT

variable {K V : Type} {c : CompactCache K V} {key : K} {value : V} {d e : CompactCache K V}
  {slot : Slot K V} {fuel n sec : Nat}

def weight (c : CompactCache K V) : Nat := (c.slots.map fun _ => c.slotSize).sum

theorem weight_eq : c.weight = c.slots.length * c.slotSize := by
  simp [weight]

open Mm (unlimited)

/-- The counter is the estimate of the slots, as a machine word. -/
def Billed (c : CompactCache K V) : Prop := c.currentMemory = c.weight % SizeT.range

/-! ## Evictions -/

structure SameLimits (c d : CompactCache K V) : Prop where
  maxSize_eq : d.maxSize = c.maxSize
  maxMemory_eq : d.maxMemory = c.maxMemory
  slotSize_eq : d.slotSize = c.slotSize

theorem SameLimits.trans (first : SameLimits c d) (second : SameLimits d e) : SameLimits c e :=
  ⟨second.maxSize_eq.trans first.maxSize_eq, second.maxMemory_eq.trans first.maxMemory_eq,
    second.slotSize_eq.trans first.slotSize_eq⟩

/-- `d` is `c` with `n` slots fewer, and the counter knows. -/
structure Drops (n : Nat) (c d : CompactCache K V) : Prop extends SameLimits c d where
  length_eq : d.slots.length + n = c.slots.length
  billed : c.slotSize < SizeT.range → c.Billed → d.Billed

theorem Drops.refl (c : CompactCache K V) : Drops 0 c c := ⟨⟨rfl, rfl, rfl⟩, rfl, fun _ h => h⟩

theorem Drops.trans {m : Nat} (first : Drops m c d) (second : Drops n d e) :
    Drops (m + n) c e where
  toSameLimits := first.toSameLimits.trans second.toSameLimits
  length_eq := by
    have := first.length_eq
    have := second.length_eq
    omega
  billed small h := second.billed (first.slotSize_eq ▸ small) (first.billed small h)

/-- The counter is right, and slots have a representable size. -/
structure Sound (c : CompactCache K V) : Prop where
  small : c.slotSize < SizeT.range
  billed : c.Billed

theorem Drops.sound (h : Drops n c d) (sound : c.Sound) : d.Sound :=
  ⟨h.slotSize_eq ▸ sound.small, h.billed sound.small sound.billed⟩

theorem collect_eq (c : CompactCache K V) (e : Mm.Event K V) :
    ∃ events, c.collect e = { c with events := events } := by
  rw [collect]
  split
  · exact ⟨_, rfl⟩
  · exact ⟨c.events, rfl⟩

variable [DecidableEq K]

theorem eraseSlot_drops (mem : slot ∈ c.slots) : Drops 1 c (c.eraseSlot slot) := by
  have positive : 0 < c.slots.length := List.length_pos_of_mem mem
  have length : (c.slots.eraseP fun s => s.key = slot.key).length = c.slots.length - 1 :=
    List.length_eraseP_of_mem mem (by simp)
  obtain ⟨events, collected⟩ := collect_eq
    { c with currentMemory := fetchSub c.currentMemory c.slotSize }
    (.evict slot.key slot.value)
  rw [eraseSlot]
  simp only [collected]
  refine ⟨⟨rfl, rfl, rfl⟩, ?_, fun small h => ?_⟩
  · simp
    omega
  · have split : c.slots.length * c.slotSize = (c.slots.length - 1) * c.slotSize + c.slotSize := by
      rw [← Nat.succ_mul]
      congr 1
      omega
    simp only [Billed, weight_eq, length] at h ⊢
    rw [h, split, fetchSub_mod_add small.le]

theorem evictLru_drops (c : CompactCache K V) : Drops (min 1 c.slots.length) c c.evictLru := by
  rw [evictLru]
  cases last : c.slots.getLast? with
  | none =>
    rw [List.getLast?_eq_none_iff.mp last]
    exact .refl c
  | some victim =>
    have mem := List.mem_of_getLast? last
    rw [Nat.min_eq_left (List.length_pos_of_mem mem)]
    exact eraseSlot_drops mem

/-- The size loop keeps as many slots as fit below the limit. -/
def kept (c : CompactCache K V) : Nat :=
  if c.maxSize = unlimited then c.slots.length else min c.slots.length (c.maxSize - 1)

theorem evictToSize_drops (enough : c.slots.length < fuel)
    (positive : c.maxSize ≠ 0) :
    Drops (c.slots.length - c.kept) c (evictToSize fuel c) := by
  induction fuel generalizing c with
  | zero => omega
  | succ fuel ih =>
    have dropped := evictLru_drops c
    have shorter := dropped.length_eq
    rw [evictToSize]
    split
    case isFalse stops =>
      have all : c.kept = c.slots.length := by
        rw [kept]
        split
        · rfl
        case isFalse finite =>
          have below : c.slots.length < c.maxSize :=
            Nat.lt_of_not_le fun full => stops ⟨full, finite⟩
          omega
      rw [all, Nat.sub_self]
      exact .refl c
    case isTrue goes =>
      obtain ⟨full, finite⟩ := goes
      have one : min 1 c.slots.length = 1 := by omega
      rw [one] at dropped shorter
      rw [if_neg (by omega)]
      have rest := ih (by omega) (dropped.maxSize_eq ▸ positive)
      have count : 1 + (c.evictLru.slots.length - c.evictLru.kept) = c.slots.length - c.kept := by
        simp only [kept, dropped.maxSize_eq, if_neg finite]
        omega
      rw [← count]
      exact dropped.trans rest

/-- The memory loop takes its last slot out of a store that is over the budget. -/
theorem evictToMemory_drops (fuel : Nat) (c : CompactCache K V) :
    ∃ n, Drops n c (evictToMemory fuel c) ∧ (c.Sound → n = 0 ∨
      c.maxMemory < ((evictToMemory fuel c).slots.length + 1) * c.slotSize) := by
  induction fuel generalizing c with
  | zero => exact ⟨0, .refl c, fun _ => .inl rfl⟩
  | succ fuel ih =>
    rw [evictToMemory]
    split
    case isTrue goes =>
      simp only [shouldEvictMemory, Bool.and_eq_true, decide_eq_true_eq, Bool.not_eq_true',
        List.isEmpty_eq_false_iff] at goes
      obtain ⟨⟨-, exceeds⟩, linked⟩ := goes
      have one : min 1 c.slots.length = 1 := Nat.min_eq_left (List.length_pos_iff.mpr linked)
      have dropped := evictLru_drops c
      rw [one] at dropped
      obtain ⟨n, rest, tight⟩ := ih c.evictLru
      refine ⟨1 + n, dropped.trans rest, fun sound => .inr ?_⟩
      rw [← dropped.maxMemory_eq, ← dropped.slotSize_eq]
      obtain rfl | still := tight (dropped.sound sound)
      · have length : (evictToMemory fuel c.evictLru).slots.length + 1 = c.slots.length := by
          rw [← dropped.length_eq, ← rest.length_eq]
        rw [sound.billed] at exceeds
        rw [length, dropped.maxMemory_eq, dropped.slotSize_eq, ← weight_eq]
        exact exceeds.trans_le (Nat.mod_le _ _)
      · exact still
    case isFalse => exact ⟨0, .refl c, fun _ => .inl rfl⟩

theorem shrinkLoop_drops (fuel : Nat) (c : CompactCache K V) :
    ∃ n, Drops n c (shrinkLoop fuel c) := by
  induction fuel generalizing c with
  | zero => exact ⟨0, .refl c⟩
  | succ fuel ih =>
    rw [shrinkLoop]
    split
    · obtain ⟨n, rest⟩ := ih c.evictLru
      exact ⟨_, (evictLru_drops c).trans rest⟩
    · exact ⟨0, .refl c⟩

/-! ## The counter along a run -/

/-- Neither the limits nor the counter nor the number of slots change. -/
structure SameUse (c d : CompactCache K V) : Prop extends Drops 0 c d where
  memory_eq : d.currentMemory = c.currentMemory

omit [DecidableEq K] in
theorem SameUse.of_length (limits : SameLimits c d) (length : d.slots.length = c.slots.length)
    (memory : d.currentMemory = c.currentMemory) : SameUse c d where
  toSameLimits := limits
  length_eq := length
  memory_eq := memory
  billed _ h := by rw [Billed, memory, h, weight_eq, weight_eq, length, limits.slotSize_eq]

omit [DecidableEq K] in
theorem collect_sameUse {e : Mm.Event K V} : SameUse c (c.collect e) := by
  obtain ⟨events, collected⟩ := collect_eq c e
  rw [collected]
  exact .of_length ⟨rfl, rfl, rfl⟩ rfl rfl

theorem recordAccess_sameUse (sec : Nat)
    (mem : ∃ s ∈ c.slots, s.key = slot.key) : SameUse c (c.recordAccess slot sec) := by
  rw [recordAccess]
  split
  · exact .of_length ⟨rfl, rfl, rfl⟩ rfl rfl
  · obtain ⟨s, hs, same⟩ := mem
    refine .of_length ⟨rfl, rfl, rfl⟩ ?_ rfl
    have length : (c.slots.eraseP fun s => s.key = slot.key).length = c.slots.length - 1 :=
      List.length_eraseP_of_mem hs (by simpa using same)
    have positive := List.length_pos_of_mem hs
    simp
    omega

omit [DecidableEq K] in
theorem link_spec (key : K) (value : V) (sec : Nat) :
    SameLimits c (c.link key value sec) ∧
      (c.link key value sec).slots.length = c.slots.length + 1 ∧
      (c.Billed → (c.link key value sec).Billed) := by
  obtain ⟨events, collected⟩ := collect_eq { c with
    slots := ⟨key, value, sec⟩ :: c.slots
    currentMemory := fetchAdd c.currentMemory c.slotSize } (.insert key value)
  rw [link, collected]
  refine ⟨⟨rfl, rfl, rfl⟩, rfl, fun h => ?_⟩
  simp only [Billed, weight_eq, List.length_cons] at h ⊢
  rw [h, fetchAdd, Nat.mod_add_mod, Nat.succ_mul]

/-- What `set` does: an update, a refusal, or evictions and a new slot. -/
theorem setBody_cases (key : K) (value : V) (sec : Nat) :
    (c.find key ≠ none ∨ c.maxSize = 0) ∧ SameUse c (c.setBody key value sec) ∨
      (c.find key = none ∧ c.maxSize ≠ 0) ∧ ∃ n d, Drops n c d ∧ d.slots.length ≤ c.kept ∧
        (c.Sound → d.slots.length = c.kept ∨ c.maxMemory < (d.slots.length + 1) * c.slotSize) ∧
        c.setBody key value sec = d.link key value sec := by
  rw [setBody]
  cases found : c.find key with
  | some slot =>
    have mem : slot ∈ c.slots := List.mem_of_find?_eq_some found
    have keyed : slot.key = key := by simpa using List.find?_some found
    set updated : Slot K V := { slot with value := value } with updated_def
    set d : CompactCache K V := { c with
      slots := c.slots.map fun s : Slot K V => if s.key = key then updated else s } with d_def
    have wrote : SameUse c d := .of_length ⟨rfl, rfl, rfl⟩ (by simp [d_def]) rfl
    have there : ∃ s ∈ d.slots, s.key = updated.key :=
      ⟨updated, List.mem_map.mpr ⟨slot, mem, by simp [keyed]⟩, rfl⟩
    have accessed := recordAccess_sameUse sec there
    refine .inl ⟨.inl (Option.some_ne_none slot), ?_⟩
    exact .of_length (wrote.toSameLimits.trans accessed.toSameLimits)
      (accessed.length_eq.trans wrote.length_eq) (accessed.memory_eq.trans wrote.memory_eq)
  | none =>
    simp only
    split
    case isTrue zero => exact .inl ⟨.inr zero, .of_length ⟨rfl, rfl, rfl⟩ rfl rfl⟩
    case isFalse positive =>
      have sized := evictToSize_drops (Nat.lt_succ_self c.slots.length) positive
      set d := evictToSize (c.slots.length + 1) c
      obtain ⟨n, fitted, tight⟩ := evictToMemory_drops (d.slots.length + 1) d
      have length : d.slots.length = c.kept := by
        have count := sized.length_eq
        have le : c.kept ≤ c.slots.length := by
          rw [kept]
          split <;> omega
        omega
      have shorter := fitted.length_eq
      refine .inr ⟨⟨trivial, positive⟩, _, _, sized.trans fitted, by omega, fun sound => ?_, rfl⟩
      rw [← sized.maxMemory_eq, ← sized.slotSize_eq]
      exact (tight (sized.sound sound)).imp_left (by omega)

theorem setBody_sound (key : K) (value : V) (sec : Nat) (sound : c.Sound) :
    (c.setBody key value sec).Sound := by
  obtain ⟨-, same⟩ | ⟨-, n, d, dropped, -, -, linked⟩ := setBody_cases key value sec
  · exact same.toDrops.sound sound
  · have room := dropped.sound sound
    obtain ⟨limits, -, billed⟩ := link_spec (c := d) key value sec
    rw [linked]
    exact ⟨limits.slotSize_eq ▸ room.small, billed room.billed⟩

theorem step_sound {op : CompactOp K V} (sound : c.Sound) : (c.step op).Sound := by
  cases op with
  | set key value sec =>
    rw [step, set]
    split
    · exact sound
    · exact setBody_sound key value sec sound
  | add key value sec =>
    rw [step, add]
    split
    · exact sound
    split
    · exact sound
    · exact setBody_sound key value sec sound
  | get key sec =>
    rw [step, get]
    cases found : c.find key with
    | none => exact collect_sameUse.toDrops.sound sound
    | some slot =>
      have accessed := recordAccess_sameUse sec
        ⟨slot, List.mem_of_find?_eq_some found, rfl⟩
      exact collect_sameUse.toDrops.sound (accessed.toDrops.sound sound)
  | del key =>
    rw [step, del]
    split
    · exact sound
    cases found : c.find key with
    | none => exact sound
    | some slot => exact (eraseSlot_drops (List.mem_of_find?_eq_some found)).sound sound
  | flush =>
    rw [step, flush]
    split
    · exact sound
    · exact ⟨sound.small, by simp [Billed, weight_eq]⟩
  | maxSize newMax =>
    obtain ⟨n, dropped⟩ := shrinkLoop_drops c.slots.length { c with maxSize := newMax }
    exact dropped.sound ⟨sound.small, sound.billed⟩
  | shrinkToFit =>
    obtain ⟨n, dropped⟩ := shrinkLoop_drops c.slots.length c
    exact dropped.sound sound
  | setRefreshTime _ | setCallbacks _ | shutdown => exact ⟨sound.small, sound.billed⟩

theorem Reachable.sound (reachable : c.Reachable) : c.Sound := by
  obtain ⟨slotSize, maxSize, maxMemory, ops, small, rfl⟩ := reachable
  have run : ∀ (ops : List (CompactOp K V)) {d : CompactCache K V}, d.Sound →
      (ops.foldl step d).Sound := by
    intro ops
    induction ops with
    | nil => exact fun sound => sound
    | cons op rest ih => exact fun sound => ih (step_sound sound)
  exact run ops ⟨small, by simp [Billed, weight_eq]⟩

/-! ## Writes -/

/-- The estimate of the slots is within the budget, and the counter tells it. -/
structure InBudget (c : CompactCache K V) : Prop where
  weight_le : c.weight ≤ c.maxMemory
  memory_eq : c.currentMemory = c.weight

omit [DecidableEq K] in
theorem Sound.inBudget_iff (sound : c.Sound) (finite : c.maxMemory < unlimited) :
    c.InBudget ↔ c.weight ≤ c.maxMemory := by
  refine ⟨InBudget.weight_le, fun within => ⟨within, ?_⟩⟩
  have bound : unlimited < range := by decide
  rw [sound.billed, Nat.mod_eq_of_lt (by omega)]

/-- A new slot needs room next to the slots that the size limit keeps; where nothing is
inserted, the budget has to hold before. -/
structure AffordsSlot (c : CompactCache K V) (key : K) : Prop where
  fits : c.isShutdown = false → c.find key = none → c.maxSize ≠ 0 →
    (c.kept + 1) * c.slotSize ≤ c.maxMemory
  away : c.isShutdown = true ∨ c.find key ≠ none ∨ c.maxSize = 0 → c.weight ≤ c.maxMemory

theorem affordsSlot_iff_of_away (away : c.isShutdown = true ∨ c.find key ≠ none ∨ c.maxSize = 0) :
    c.AffordsSlot key ↔ c.weight ≤ c.maxMemory := by
  refine ⟨fun affords => affords.away away, fun within => ⟨fun running absent positive => ?_,
    fun _ => within⟩⟩
  obtain stopped | resident | zero := away
  · exact absurd stopped (by simp [running])
  · exact absurd absent resident
  · exact absurd zero positive

theorem setBody_within_iff (sound : c.Sound) (running : c.isShutdown = false)
    (finite : c.maxMemory < unlimited) :
    (c.setBody key value sec).InBudget ↔ c.AffordsSlot key := by
  have later := setBody_sound key value sec sound
  obtain ⟨idle, same⟩ | ⟨⟨absent, positive⟩, n, d, dropped, short, tight, linked⟩ :=
    setBody_cases key value sec
  · have length : (c.setBody key value sec).slots.length = c.slots.length := same.length_eq
    rw [later.inBudget_iff (same.maxMemory_eq ▸ finite), affordsSlot_iff_of_away (.inr idle),
      same.maxMemory_eq, weight_eq, length, same.slotSize_eq, ← weight_eq]
  · obtain ⟨limits, grown, -⟩ := link_spec key value sec
    have whole := dropped.toSameLimits.trans limits
    rw [linked] at later ⊢
    rw [later.inBudget_iff (whole.maxMemory_eq ▸ finite), whole.maxMemory_eq, weight_eq, grown,
      whole.slotSize_eq]
    constructor
    · intro within
      refine ⟨fun _ _ _ => ?_, fun away => ?_⟩
      · obtain same | exceeds := tight sound
        · rwa [← same]
        · omega
      · obtain stopped | resident | zero := away
        · exact absurd stopped (by simp [running])
        · exact absurd absent resident
        · exact absurd zero positive
    · intro affords
      exact (Nat.mul_le_mul_right _ (by omega)).trans (affords.fits running absent positive)

/-- In a reachable state `set` and `add` end within a finite budget exactly if the slots
that the size limit keeps leave room for one more. -/
theorem Reachable.writes_within_iff (reachable : c.Reachable) (finite : c.maxMemory < unlimited) :
    ((c.set key value sec).2.InBudget ↔ c.AffordsSlot key) ∧
      ((c.add key value sec).2.InBudget ↔ c.AffordsSlot key) := by
  have sound := reachable.sound
  have unchanged : c.isShutdown = true ∨ c.find key ≠ none ∨ c.maxSize = 0 →
      (c.InBudget ↔ c.AffordsSlot key) := fun away => by
    rw [affordsSlot_iff_of_away away, sound.inBudget_iff finite]
  cases stopped : c.isShutdown with
  | true =>
    simp only [set, add, stopped]
    exact ⟨unchanged (.inl stopped), unchanged (.inl stopped)⟩
  | false =>
    simp only [set, add, stopped, Bool.false_eq_true, if_false]
    refine ⟨setBody_within_iff sound stopped finite, ?_⟩
    split
    case isTrue resident => exact unchanged (.inr (.inl (Option.ne_none_iff_isSome.mpr resident)))
    case isFalse => exact setBody_within_iff sound stopped finite

end Lru.CompactCache

namespace Lru

open Mm Mm.Strategy

/-- After `set` and `add` in a reachable state without handles and vetoes a finite budget
holds, for every strategy and for `compact_cache`, exactly if a new item fits: into the
budget for a strategy, and next to the slots that the size limit keeps for `compact_cache`.
Calls that neither insert nor update need the budget to hold before. -/
theorem writes_within_memory_budget_iff {K V : Type} [DecidableEq K] (key : K) (value : V)
    (sec : Nat) :
    (∀ {env : Env K V} {strategy : Strategy} {s : State K V}, strategy.SizedReachable env s →
      Idle s → (s.find env key ≠ none → s.settings.vetoes (key, value) = false) →
      s.settings.maxMemory < unlimited →
      s.weight env + s.settings.calcItemMemory env key value < SizeT.range →
      (InBudget env ((strategy.policy env).set env s key value sec) ↔
        (s.find env key = none → strategy.AffordsNew env s key value)) ∧
      (InBudget env ((strategy.policy env).add env s key value sec).2 ↔
        (s.find env key = none → strategy.AffordsNew env s key value) ∧
          (s.find env key ≠ none → s.weight env ≤ s.settings.maxMemory))) ∧
    ∀ {c : CompactCache K V}, c.Reachable → c.maxMemory < unlimited →
      ((c.set key value sec).2.InBudget ↔ c.AffordsSlot key) ∧
        ((c.add key value sec).2.InBudget ↔ c.AffordsSlot key) :=
  ⟨writes_within_budget_iff, fun reachable finite => reachable.writes_within_iff finite⟩

/-- An `mm_lru` with this budget after one write of 64 bytes. A pair with the value 99 would
be vetoed. -/
def oneWrite (maxMemory : Nat) : State Nat Nat :=
  (Transition.runWhere (mmLru.step intEnv) (fun _ op => !op.isPopLru && !op.setsSizes)
    (State.empty (fun _ => default)
      { maxMemory := maxMemory, evictionPredicate := some fun _ value => value ≠ 99 } {} 0)
    [.set 1 10 0]).getD
    (State.empty (fun _ => default) {} {} 0)

/-- A `compact_cache` with slots of 64 bytes after one write. -/
def oneSlot (maxMemory : Nat) : CompactCache Nat Nat :=
  [CompactOp.set 1 10 0].foldl CompactCache.step { slotSize := 64, maxMemory := maxMemory }

theorem oneSlot_reachable {maxMemory : Nat} : (oneSlot maxMemory).Reachable :=
  ⟨64, unlimited, maxMemory, [.set 1 10 0], by decide, rfl⟩

/-- A second item of 64 bytes fits into 200 bytes, next to a predicate that vetoes other
pairs. -/
theorem second_write_within :
    InBudget intEnv ((mmLru.policy intEnv).set intEnv (oneWrite 200) 2 20 0) ∧
      ((oneSlot 200).set 2 20 0).2.InBudget := by
  have reachable : mmLru.SizedReachable intEnv (oneWrite 200) := .getD (by decide +kernel)
  have idle : Idle (oneWrite 200) := ⟨by decide +kernel, by unfold State.Unvetoed; decide +kernel⟩
  have roomy : ¬ mmLru.Crowded (oneWrite 200) := fun crowded =>
    absurd crowded.2.2 (by decide +kernel)
  have affords : mmLru.AffordsNew intEnv (oneWrite 200) 2 20 :=
    ⟨fun _ => by decide +kernel, fun _ crowded => absurd crowded roomy,
      fun _ _ => by decide +kernel⟩
  have room : (oneSlot 200).AffordsSlot 2 :=
    ⟨fun _ _ _ => by decide +kernel, fun _ => by decide +kernel⟩
  obtain ⟨strategies, compact⟩ := writes_within_memory_budget_iff 2 20 0
  exact ⟨(strategies reachable idle (absurd (by decide +kernel) ·) (by decide +kernel)
      (by decide +kernel)).1.mpr fun _ => affords,
    (compact oneSlot_reachable (by decide +kernel)).1.mpr room⟩

/-- The second slot of a `compact_cache` exceeds the budget, and so does an item of a strategy
that is larger than the budget. -/
theorem second_slot_over_budget :
    (oneSlot 100).Reachable ∧ ((oneSlot 100).set 2 20 0).2.weight = 128 ∧
      ¬ ((oneSlot 100).set 2 20 0).2.InBudget ∧
      mmLru.SizedReachable intEnv (oneWrite 50) ∧ (oneWrite 50).weight intEnv = 64 ∧
      ¬ InBudget intEnv (oneWrite 50) := by
  refine ⟨oneSlot_reachable, by decide +kernel, fun h => ?_, .getD (by decide +kernel),
    by decide +kernel, fun h => ?_⟩
  · exact absurd h.weight_le (by decide +kernel)
  · exact absurd h.weight_le (by decide +kernel)

end Lru
