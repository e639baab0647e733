import Lru.Library.UniqueMatch
import Lru.Mm.Core

/-!
# Steps that only remove or rearrange

Evictions, sweeps, promotions and rebalancing never add an item, never change
the content of an item that stays, and report no rejection. `Shrinks` is that
statement, closed under composition, so an operation inherits it from its parts.
`Quiet` is the special case of pure bookkeeping.
-/

namespace Lru.Mm

variable {K V : Type} {s : State K V} {env : Env K V} {e : Event K V}

/-- What a reader can learn about an item. -/
def Body.content (b : Body K V) : K × V × Nat × Nat := (b.key, b.value, b.expiryNs, b.accessRef)

theorem Body.content_eq_iff {a b : Body K V} : a.content = b.content ↔ a.key = b.key ∧
    a.value = b.value ∧ a.expiryNs = b.expiryNs ∧ a.accessRef = b.accessRef := by
  simp [Body.content]

namespace State

def rejects (s : State K V) : List (K × V) :=
  s.events.filterMap fun
    | .reject key value => some (key, value)
    | _ => none

def entry [DecidableEq K] (env : Env K V) (s : State K V) (key : K) : Option (K × V × Nat × Nat) :=
  (s.find env key).map fun i => (s.heap i).content

/-- Table and lists agree. -/
def WellFormed (env : Env K V) (s : State K V) : Prop := s.core.WellFormed env

end State

open State

/-- Only hooks, counters, events or private fields differ, and no rejection was
reported. -/
structure Quiet (s t : State K V) : Prop where
  core_eq : t.core = s.core
  settings_eq : t.settings = s.settings
  failed_eq : t.stats.evictionFailed = s.stats.evictionFailed
  rejects_eq : t.rejects = s.rejects

/-- Only hooks or private fields differ. -/
structure Unseen (s t : State K V) : Prop where
  core_eq : t.core = s.core
  settings_eq : t.settings = s.settings
  stats_eq : t.stats = s.stats
  events_eq : t.events = s.events

/-- `t` keeps some of the items of `s`, with their content. -/
structure Shrinks (env : Env K V) (s t : State K V) : Prop where
  wf : t.WellFormed env
  mem : ∀ i ∈ t.table, i ∈ s.table
  content : ∀ i ∈ t.table, (t.heap i).content = (s.heap i).content
  next_eq : t.next = s.next
  settings_eq : t.settings = s.settings
  failed_eq : t.stats.evictionFailed = s.stats.evictionFailed
  rejects_eq : t.rejects = s.rejects

section Relations

variable {t u : State K V}

theorem Quiet.refl : Quiet s s := ⟨rfl, rfl, rfl, rfl⟩

theorem Quiet.trans (first : Quiet s t) (second : Quiet t u) : Quiet s u :=
  ⟨second.core_eq.trans first.core_eq, second.settings_eq.trans first.settings_eq,
    second.failed_eq.trans first.failed_eq, second.rejects_eq.trans first.rejects_eq⟩

theorem Unseen.quiet (h : Unseen s t) : Quiet s t :=
  ⟨h.core_eq, h.settings_eq, congrArg Stats.evictionFailed h.stats_eq, by
    unfold rejects; rw [h.events_eq]⟩

theorem Unseen.refl : Unseen s s := ⟨rfl, rfl, rfl, rfl⟩

theorem Unseen.trans (first : Unseen s t) (second : Unseen t u) : Unseen s u :=
  ⟨second.core_eq.trans first.core_eq, second.settings_eq.trans first.settings_eq,
    second.stats_eq.trans first.stats_eq, second.events_eq.trans first.events_eq⟩

theorem Quiet.table_eq (h : Quiet s t) : t.table = s.table := congrArg Core.table h.core_eq

theorem Quiet.queue_eq (h : Quiet s t) : t.queue = s.queue := congrArg Core.queue h.core_eq

theorem Quiet.body_eq (h : Quiet s t) (i : ItemId) : (t.heap i).toBody = (s.heap i).toBody :=
  congrFun (congrArg Core.body h.core_eq) i

theorem Quiet.wf (h : Quiet s t) (wf : s.WellFormed env) : t.WellFormed env := by
  unfold State.WellFormed
  rw [h.core_eq]
  exact wf

theorem Quiet.shrinks (h : Quiet s t) (wf : s.WellFormed env) : Shrinks env s t where
  wf := h.wf wf
  mem _ hi := h.table_eq ▸ hi
  content i _ := congrArg Body.content (h.body_eq i)
  next_eq := congrArg Core.next h.core_eq
  settings_eq := h.settings_eq
  failed_eq := h.failed_eq
  rejects_eq := h.rejects_eq

theorem Shrinks.refl (wf : s.WellFormed env) : Shrinks env s s := Quiet.refl.shrinks wf

theorem Shrinks.trans (first : Shrinks env s t) (second : Shrinks env t u) : Shrinks env s u where
  wf := second.wf
  mem i hi := first.mem i (second.mem i hi)
  content i hi := (second.content i hi).trans (first.content i (second.mem i hi))
  next_eq := second.next_eq.trans first.next_eq
  settings_eq := second.settings_eq.trans first.settings_eq
  failed_eq := second.failed_eq.trans first.failed_eq
  rejects_eq := second.rejects_eq.trans first.rejects_eq

theorem Shrinks.quiet (first : Shrinks env s t) (second : Quiet t u) : Shrinks env s u :=
  first.trans (second.shrinks first.wf)

theorem Shrinks.length_le (h : Shrinks env s t) : t.table.length ≤ s.table.length :=
  (List.subperm_of_subset h.wf.table_nodup h.mem).length_le

theorem Shrinks.of_core (wf : t.WellFormed env) (mem : ∀ i ∈ t.table, i ∈ s.table)
    (content : ∀ i ∈ t.table, (t.heap i).content = (s.heap i).content) (next : t.next = s.next)
    (rest : t.settings = s.settings ∧ t.stats = s.stats ∧ t.events = s.events) :
    Shrinks env s t where
  wf := wf
  mem := mem
  content := content
  next_eq := next
  settings_eq := rest.1
  failed_eq := congrArg Stats.evictionFailed rest.2.1
  rejects_eq := by unfold rejects; rw [rest.2.2]

end Relations

/-! ## Bookkeeping -/

section Bookkeeping

def Event.isReport : Event K V → Bool
  | .reject .. => true
  | _ => false

theorem collect_rejects_of_not_report (h : e.isReport = false) :
    (s.collect e).rejects = s.rejects := by
  unfold collect
  split
  · cases e <;> simp_all [rejects, Event.isReport]
  · rfl

theorem Quiet.collect (h : e.isReport = false) : Quiet s (s.collect e) := by
  refine ⟨?_, ?_, ?_, collect_rejects_of_not_report h⟩ <;> (unfold State.collect; split <;> rfl)

theorem Quiet.modifyStats {f : Stats → Stats} (h : ∀ x, (f x).evictionFailed = x.evictionFailed) :
    Quiet s (s.modifyStats f) :=
  ⟨rfl, rfl, h _, rfl⟩

end Bookkeeping

theorem linked_of_mem {i : ItemId} (wf : s.WellFormed env)
    (hi : i ∈ s.table) : (s.heap i).linked = true :=
  wf.linked i hi

/-! ## Lookups -/

section Lookup

variable [DecidableEq K] {i j : ItemId} {key : K} (wf : s.WellFormed env)

include wf

/-- In a well-formed table a chain walk stops at an item iff it has that key. -/
theorem stopsAt_iff (hi : i ∈ s.table) : s.stopsAt env key i = true ↔ (s.heap i).key = key := by
  have hash : (s.heap i).cachedHash = env.hash (s.heap i).key := wf.hash_eq i hi
  simp only [stopsAt, Bool.and_eq_true, beq_iff_eq, hash]
  exact ⟨fun h => h.2, fun h => ⟨by rw [h], h⟩⟩

private theorem only_stop (hi : i ∈ s.table) (hk : (s.heap i).key = key) :
    ∀ j ∈ s.table, s.stopsAt env key j = true → j = i := fun j hj stop =>
  wf.key_inj j hj i hi (((stopsAt_iff wf hj).mp stop).trans hk.symm)

/-- The hash table is a map from keys to linked items, whatever its geometry. -/
theorem find_eq_some_iff : s.find env key = some i ↔ i ∈ s.table ∧ (s.heap i).key = key := by
  constructor
  · intro found
    have hi := List.mem_of_find?_eq_some found
    exact ⟨hi, (stopsAt_iff wf hi).mp (List.find?_some found)⟩
  · rintro ⟨hi, hk⟩
    exact List.find?_eq_some_of_unique hi ((stopsAt_iff wf hi).mpr hk) (only_stop wf hi hk)

theorem find_eq_none_iff : s.find env key = none ↔ ∀ i ∈ s.table, (s.heap i).key ≠ key := by
  constructor
  · intro absent i hi hk
    rw [(find_eq_some_iff wf).mpr ⟨hi, hk⟩] at absent
    cases absent
  · intro absent
    cases found : s.find env key with
    | none => rfl
    | some i =>
      obtain ⟨hi, hk⟩ := (find_eq_some_iff wf).mp found
      exact absurd hk (absent i hi)

theorem find_key (hi : i ∈ s.table) : s.find env (s.heap i).key = some i :=
  (find_eq_some_iff wf).mpr ⟨hi, rfl⟩

theorem eraseKey_table (hi : i ∈ s.table) (hk : (s.heap i).key = key) :
    (s.eraseKey env key).table = s.table.erase i :=
  List.eraseP_eq_erase_of_unique ((stopsAt_iff wf hi).mpr hk) (only_stop wf hi hk)

end Lookup

end Lru.Mm
