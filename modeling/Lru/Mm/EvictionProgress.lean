import Lru.Mm.Accounts
import Lru.Mm.OneList
import Lru.Mm.SketchBound

/-!
# Progress of `evict`

Where no item is vetoed a search of a list fails only when every item in it is
pinned. `mm_fifo`, `mm_2q` and `mm_tiny_lfu` search all the lists that they use, so one
`evict` takes an unpinned item whenever there is one. `mm_wtiny_lfu` looks only at the
tail of Protection, and a pinned tail hides the rest of that list from it.
-/

namespace Lru.Mm

variable {K V : Type} {env : Env K V} {s t : State K V}

open State Strategy

def State.Unheld (s : State K V) (i : ItemId) : Prop := (s.heap i).accessRef = 0

instance (i : ItemId) : Decidable (s.Unheld i) :=
  inferInstanceAs (Decidable ((s.heap i).accessRef = 0))

/-- The eviction predicate vetoes no resident. -/
def State.Unvetoed (s : State K V) : Prop := ∀ i ∈ s.table, s.vetoed i = false

theorem State.Unvetoed.of_none (free : s.settings.evictionPredicate = none) : s.Unvetoed :=
  fun i _ => by rw [vetoed, Settings.vetoes, free]

/-- `t` is `s` without one unpinned item, and one more eviction is counted; when all
items are pinned nothing is removed or counted. -/
structure EvictsOne (env : Env K V) (s t : State K V) : Prop where
  taken : (∃ i ∈ s.table, s.Unheld i) →
    ∃ v, s.Unheld v ∧ Removes env s t v ∧ t.stats.evictions = s.stats.evictions + 1
  spared : (∀ i ∈ s.table, ¬ s.Unheld i) →
    Rearranges env s t ∧ t.stats.evictions = s.stats.evictions

/-! ## Searches -/

section Searches

variable {q : QueueId}

/-- Without a veto the search of a list stops at the first unpinned item. -/
theorem searchVictim_eq_find {l : List ItemId} (free : ∀ i ∈ l, s.vetoed i = false)
    (tries : Nat) : s.searchVictim tries l = l.find? fun i => !(s.heap i).hasActiveHandle := by
  induction l generalizing tries with
  | nil => rfl
  | cons i rest ih =>
    have allowed : s.vetoed i = false := free i List.mem_cons_self
    rw [searchVictim]
    split
    case isTrue pinned =>
      rw [ih fun j hj => free j (List.mem_cons_of_mem i hj),
        List.find?_cons_of_neg (by simp [pinned])]
    case isFalse unpinned => rw [allowed, List.find?_cons_of_pos (by simpa using unpinned)]; rfl

theorem searchQueue_unheld_iff (wf : s.WellFormed env) (free : s.Unvetoed) :
    s.searchQueue q = none ↔ ∀ i ∈ s.queue q, ¬ s.Unheld i := by
  rw [searchQueue, searchVictim_eq_find fun i hi =>
    free i (mem_of_queue wf (List.mem_reverse.mp hi))]
  simp [Unheld, Body.hasActiveHandle]

/-- Removing, counting and finding a victim are the same thing. -/
theorem evictsOne_iff {evict : State K V → State K V} {size : State K V → Nat}
    {victim : State K V → Option ItemId} (e : Eviction env size victim evict)
    (counts : EvictionCounts env victim evict) (wf : s.WellFormed env) :
    EvictsOne env s (evict s) ↔ (victim s = none → ∀ i ∈ s.table, ¬ s.Unheld i) := by
  constructor
  · intro h none i hi unheld
    obtain ⟨v, -, -, counted⟩ := h.taken ⟨i, hi, unheld⟩
    have still : (evict s).stats.evictions = s.stats.evictions := by
      obtain stats | stats := counts.missed wf none <;> rw [stats]
    omega
  · intro h
    constructor
    · rintro ⟨i, hi, unheld⟩
      cases found : victim s with
      | none => exact absurd unheld (h found i hi)
      | some v =>
        exact ⟨v, e.unpinned wf found, e.removes wf found, by rw [counts.taken wf found]⟩
    · intro pinned
      cases found : victim s with
      | none =>
        refine ⟨e.rearranges wf found, ?_⟩
        obtain stats | stats := counts.missed wf found <;> rw [stats]
      | some v => exact absurd (e.unpinned wf found) (pinned v (e.removes wf found).mem_before)

/-- The residents are the items of the three lists. -/
theorem forall_mem_table_iff (wf : s.WellFormed env) {P : ItemId → Prop} :
    (∀ i ∈ s.table, P i) ↔ ∀ q, ∀ i ∈ s.queue q, P i := by
  refine ⟨fun h q i hi => h i (mem_of_queue wf hi), fun h i hi => ?_⟩
  exact h _ i (wf.mem_queue hi)

end Searches

/-! ## The strategies -/

theorem MmFifo.searchQueue_unheld_iff (wf : s.WellFormed env) (one : s.OneList)
    (free : s.Unvetoed) : s.searchQueue 0 = none ↔ ∀ i ∈ s.table, ¬ s.Unheld i := by
  rw [Mm.searchQueue_unheld_iff wf free, forall_mem_table_iff wf]
  refine ⟨fun pinned q i hi => ?_, fun pinned => pinned 0⟩
  by_cases first : q = 0
  · exact pinned i (first ▸ hi)
  · rw [one q first] at hi
    exact absurd hi List.not_mem_nil

variable [DecidableEq K]

theorem evictGeneric_stats {v : ItemId} (wf : s.WellFormed env) (hv : v ∈ s.table)
    (unpinned : s.Unheld v) :
    (s.evictGeneric env v).2.stats =
      { s.stats with
        currentSize := (s.evictGeneric env v).2.table.length
        currentMemory := SizeT.fetchSub s.stats.currentMemory (s.itemMemory env v)
        evictions := s.stats.evictions + 1
        evictionsCapacity := s.stats.evictionsCapacity + 1 } := by
  have free := canMarkForEviction_of_mem wf hv unpinned
  have counted : (s.evictVictim env unlinkAndUnmark v).stats = _ :=
    evictVictim_stats free fun _ => rfl
  rw [evictGeneric, if_pos free]
  simp only [storeSize, modifyStats, counted]

namespace Mm2q

theorem evictionCounts : EvictionCounts env (fun s => (findVictim s).map Prod.snd) (evict env) where
  taken {s v} wf found := by
    obtain ⟨⟨q, w⟩, searched, rfl⟩ := Option.map_eq_some_iff.mp found
    have clean := Rearranges.cleanup wf
    rw [← findVictim_cleanup] at searched
    obtain ⟨hw, unpinned⟩ := findVictim_spec clean.wf searched
    have counted : (s.cleanupPendingDeletion.evictVictim env removeFromQueue w).stats = _ :=
      evictVictim_stats (canMarkForEviction_of_mem clean.wf hw unpinned) fun _ => rfl
    rw [evict, searched]
    simp only [storeSize, modifyStats, size]
    split
    · simp only [ghostRecord_unseen.stats_eq, counted, cleanup_stats, itemMemory_cleanup]
    · simp only [counted, cleanup_stats, itemMemory_cleanup]
  missed {s} wf found := by
    rw [evict_of_none (Option.map_eq_none_iff.mp found)]
    refine .inr ?_
    simp [storeSize, modifyStats, size]

omit [DecidableEq K] in
theorem findVictim_eq_none_iff (wf : s.WellFormed env) (free : s.Unvetoed) :
    findVictim s = none ↔ ∀ i ∈ s.table, ¬ s.Unheld i := by
  rw [findVictim, List.findSome?_eq_none_iff, forall_mem_table_iff wf]
  constructor
  · intro h q
    have listed : q ∈ evictionOrder := by
      obtain rfl | rfl | rfl := queueId_cases q <;> decide
    have missed := h q listed
    rw [← searchQueue_unheld_iff wf free]
    split at missed
    case h_1 none => exact none
    case h_2 v found =>
      -- Every victim of a search can be claimed.
      obtain ⟨hv, unpinned⟩ := searchQueue_spec wf found
      rw [if_pos (canMarkForEviction_of_mem wf hv unpinned)] at missed
      cases missed
  · intro h q _
    rw [(searchQueue_unheld_iff wf free).mpr (h q)]

end Mm2q

namespace MmTinyLfu

open Window

theorem evictionCounts : EvictionCounts env (findVictim env) (evict env) where
  taken {s v} wf found := by
    have clean := Rearranges.cleanup wf
    rw [← findVictim_cleanup] at found
    obtain ⟨hv, unpinned⟩ := findVictim_spec clean.wf found
    rw [evict, found]
    rw [evictGeneric_stats clean.wf hv unpinned, cleanup_stats, itemMemory_cleanup]
  missed {s} wf found := by
    rw [evict_of_none found]
    exact .inl (cleanup_stats s)

omit [DecidableEq K] in
theorem findVictim_eq_none_iff (wf : s.WellFormed env) (lists : s.Confined inUse)
    (free : s.Unvetoed) :
    findVictim env s = none ↔ ∀ i ∈ s.table, ¬ s.Unheld i := by
  constructor
  · intro none i hi
    obtain ⟨inTiny, inMain⟩ := findVictim_eq_none none
    rw [searchQueue_unheld_iff wf free] at inTiny inMain
    have inQueue := wf.mem_queue hi
    obtain tiny | main := lists.used_of_mem wf hi
    · exact inTiny i (tiny ▸ inQueue)
    · exact inMain i (main ▸ inQueue)
  · intro pinned
    cases found : findVictim env s with
    | none => rfl
    | some v =>
      obtain ⟨hv, unpinned⟩ := findVictim_spec wf found
      exact absurd unpinned (pinned v hv)

end MmTinyLfu

namespace MmWTinyLfu

open Window

theorem evictionCounts : EvictionCounts env findVictim (evict env) where
  taken {s v} wf found := by
    obtain ⟨u, -, moved, mem, unpinned, evicted⟩ := evict_of_some wf found
    rw [evicted, evictGeneric_stats moved.wf mem unpinned, moved.stats_eq,
      itemMemory_of_content moved.settings_eq (moved.content v mem), cleanup_stats,
      itemMemory_cleanup]
  missed {s} wf found := by
    rw [evict_of_none found]
    exact .inl (cleanup_stats s)

/-- The victim search sees an unpinned item when Protection holds one: one of the other
lists does too, or it is the tail. -/
def Reclaimable (s : State K V) : Prop :=
  (∃ i ∈ s.queue kProtectionQueue, s.Unheld i) →
    (∃ i ∈ s.queue kProbationQueue, s.Unheld i) ∨ (∃ i ∈ s.queue kTinyQueue, s.Unheld i) ∨
      ∃ i ∈ s.tail kProtectionQueue, s.Unheld i

omit [DecidableEq K] in
theorem protectionVictim_eq_none_iff (wf : s.WellFormed env) (free : s.Unvetoed) :
    protectionVictim s = none ↔ ∀ i ∈ s.tail kProtectionQueue, ¬ s.Unheld i := by
  unfold protectionVictim unpinnedTailOf
  cases isTail : s.tail kProtectionQueue with
  | none => simp
  | some i =>
    have allowed : s.vetoed i = false := free i (mem_of_tail wf isTail)
    by_cases pinned : (s.heap i).hasActiveHandle
    all_goals simp_all [Unheld, Body.hasActiveHandle, Nat.pos_iff_ne_zero]

omit [DecidableEq K] in
theorem findVictim_eq_none_iff (wf : s.WellFormed env) (free : s.Unvetoed) :
    findVictim s = none ↔ (∀ i ∈ s.queue kProbationQueue, ¬ s.Unheld i) ∧
      (∀ i ∈ s.tail kProtectionQueue, ¬ s.Unheld i) ∧ ∀ i ∈ s.queue kTinyQueue, ¬ s.Unheld i := by
  rw [findVictim, Option.or_eq_none_iff, Option.or_eq_none_iff, searchQueue_unheld_iff wf free,
    searchQueue_unheld_iff wf free, protectionVictim_eq_none_iff wf free, and_assoc]

omit [DecidableEq K] in
theorem reclaimable_iff (wf : s.WellFormed env) (free : s.Unvetoed) :
    Reclaimable s ↔ (findVictim s = none → ∀ i ∈ s.table, ¬ s.Unheld i) := by
  rw [findVictim_eq_none_iff wf free, forall_mem_table_iff wf]
  constructor
  · rintro h ⟨probation, tail, tiny⟩ q i hi unheld
    obtain rfl | rfl | rfl := queueId_cases q
    · exact tiny i hi unheld
    · exact probation i hi unheld
    · obtain ⟨j, hj, unheld⟩ | ⟨j, hj, unheld⟩ | ⟨j, hj, unheld⟩ := h ⟨i, hi, unheld⟩
      · exact probation j hj unheld
      · exact tiny j hj unheld
      · exact tail j hj unheld
  · rintro h ⟨i, hi, unheld⟩
    by_contra! hidden
    exact h ⟨hidden.1, hidden.2.2, hidden.2.1⟩ kProtectionQueue i hi unheld

end MmWTinyLfu

/-- In every reachable state without a predicate one `evict` takes one unpinned item if
there is one, but for `mm_wtiny_lfu` only where its search sees it. -/
theorem Strategy.evict_progress_iff {strategy : Strategy} (covered : strategy ≠ .mmLru)
    (reachable : strategy.Reachable env s) (free : s.settings.evictionPredicate = none) :
    EvictsOne env s ((strategy.policy env).evict s) ↔
      (strategy = .mmWTinyLfu → MmWTinyLfu.Reclaimable s) := by
  have wf := reachable.wf
  have unvetoed : s.Unvetoed := .of_none free
  cases strategy with
  | mmLru => exact absurd rfl covered
  | mmFifo =>
    have one : s.OneList := Reachable.keepsLists (MmFifo.keepsOneList env)
      (fun _ _ _ _ _ _ => rfl) reachable
    rw [policy, MmFifo.policy, evictsOne_iff MmFifo.eviction MmFifo.evictionCounts wf]
    simp [MmFifo.searchQueue_unheld_iff wf one unvetoed]
  | mm2q =>
    rw [policy, Mm2q.policy, evictsOne_iff Mm2q.eviction Mm2q.evictionCounts wf]
    simp [Mm2q.findVictim_eq_none_iff wf unvetoed]
  | mmTinyLfu =>
    have lists : s.Confined MmTinyLfu.inUse := Reachable.keepsLists MmTinyLfu.keepsTwoLists
      (fun _ _ _ _ _ _ => rfl) reachable
    rw [policy, MmTinyLfu.policy, evictsOne_iff MmTinyLfu.eviction MmTinyLfu.evictionCounts wf]
    simp [MmTinyLfu.findVictim_eq_none_iff wf lists unvetoed]
  | mmWTinyLfu =>
    rw [policy, MmWTinyLfu.policy, evictsOne_iff MmWTinyLfu.eviction MmWTinyLfu.evictionCounts wf]
    simp [MmWTinyLfu.reclaimable_iff wf unvetoed]

namespace MmWTinyLfu

/-- Every access promotes, and one access protects. An error threshold of 200.0 gives the
sketch `next_pow2(e * 1000 / 200.0)` counters, which are 16. -/
def eager : State Nat Nat :=
  State.empty (fun _ => default)
    { config := { defaultLruRefreshTime := 0, protectionFreq := 0, cmsWindowMultiplier := 1
                  cmsErrorThreshold := ⟨0x4069000000000000⟩ } } (Sketch.create 16 4 1000) 0

/-- Three items reach Protection, 1 at its tail. -/
def protectThree : List (Op Nat Nat) :=
  [.set 1 10 0, .set 2 20 0, .set 3 30 0, .set 4 40 0, .set 5 50 0, .promote 1 0, .promote 2 0,
    .promote 3 0, .del 4, .del 5]

def after (ops : List (Op Nat Nat)) : State Nat Nat :=
  (Transition.runWhere (Strategy.mmWTinyLfu.step Strategy.intEnv) (fun _ op => !op.isPopLru) eager
    ops).getD eager

theorem protectThree_evicts_one :
    (after protectThree).tail kProtectionQueue = some 0 ∧
      EvictsOne intEnv (after protectThree)
        ((mmWTinyLfu.policy intEnv).evict (after protectThree)) := by
  have reachable : mmWTinyLfu.Reachable intEnv (after protectThree) := .getD (by decide +kernel)
  have tail : (after protectThree).tail kProtectionQueue = some 0 := by decide +kernel
  have unheld : (after protectThree).Unheld 0 := by decide +kernel
  have unvetoed : (after protectThree).settings.evictionPredicate = none :=
    Option.isNone_iff_eq_none.mp (by decide +kernel)
  exact ⟨tail, (evict_progress_iff (by decide) reachable unvetoed).mpr
    fun _ _ => .inr (.inr ⟨0, tail, unheld⟩)⟩

/-- A handle on the tail keeps the unpinned items in front of it. -/
theorem held_tail_evicts_none :
    mmWTinyLfu.Reachable intEnv (after (protectThree ++ [.peek 1])) ∧
      (after (protectThree ++ [.peek 1])).settings.evictionPredicate.isNone ∧
      (after (protectThree ++ [.peek 1])).queue kProtectionQueue = [2, 1, 0] ∧
      (after (protectThree ++ [.peek 1])).Unheld 1 ∧
      ¬ EvictsOne intEnv (after (protectThree ++ [.peek 1]))
        ((mmWTinyLfu.policy intEnv).evict
          (after (protectThree ++ [.peek 1]))) := by
  have reachable : mmWTinyLfu.Reachable intEnv
      (after (protectThree ++ [.peek 1])) := .getD (by decide +kernel)
  set s := after (protectThree ++ [.peek 1]) with s_def
  have same : (evict intEnv s).table = s.table := by decide +kernel
  have unheld : s.Unheld 1 := by decide +kernel
  have resident : 1 ∈ s.table := by decide +kernel
  refine ⟨reachable, by decide +kernel, by decide +kernel, unheld, fun h => ?_⟩
  obtain ⟨v, -, removed, -⟩ := h.taken ⟨1, resident, unheld⟩
  have fewer : (evict intEnv s).table.length + 1 = s.table.length := removed.length_eq
  rw [same] at fewer
  omega

end MmWTinyLfu

end Lru.Mm
