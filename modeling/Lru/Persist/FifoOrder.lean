import Lru.Persist.LoadSteps
import Lru.Persist.RoundTrip

/-!
# The order of a restored `mm_fifo`

The list is written from head to tail and read back with `set`, which links at the
head. So the item that was written last comes first, and a list of two or more items
is never restored in its order. An unpinned `mm_fifo` evicts as a plain queue of pairs
does; this decides what later evictions remove.
-/

namespace Lru.Mm

variable {K V : Type} {env : Env K V} {s t u : State K V}

open State Function List MmFifo

/-- Nothing survives the flush of an unpinned strategy. -/
theorem Survives.empty (h : Survives env s t) (wf : s.WellFormed env) (unpinned : s.Unpinned) :
    ∀ q, t.queue q = [] := by
  intro q
  rw [h.queue, filter_eq_nil_iff]
  intro i hi
  simp [unpinned i (mem_of_queue wf hi)]

theorem table_eq_nil (wf : s.WellFormed env) (empty : ∀ q, s.queue q = []) : s.table = [] := by
  refine eq_nil_iff_forall_not_mem.mpr fun i hi => ?_
  have linked : i ∈ s.queue (s.heap i).queueId := (wf.table_iff i).mp hi
  rw [empty] at linked
  cases linked

/-! ## Eviction from a queue of pairs -/

section Queue

/-- The first pair that is not vetoed, within `eviction_search_tries` vetoes. -/
def searchPairs (settings : Settings K V) : Nat → List (K × V) → Option (K × V)
  | _, [] => none
  | tries, p :: rest =>
    if settings.vetoes p then
      if settings.config.evictionSearchTries ≤ tries + 1 then none
      else searchPairs settings (tries + 1) rest
    else some p

/-- One eviction from a queue of pairs with distinct keys. -/
def evictPair [DecidableEq K] (settings : Settings K V) (l : List (K × V)) : List (K × V) :=
  match searchPairs settings 0 l.reverse with
  | none => l
  | some p => l.filter fun x => x.1 ≠ p.1

/-- The search passes over items with a handle. -/
theorem searchVictim_pairs (s : State K V) (tries : Nat) (l : List ItemId) :
    (s.searchVictim tries l).map (fun i => ((s.heap i).key, (s.heap i).value)) =
      searchPairs s.settings tries ((l.filter fun i => !(s.heap i).hasActiveHandle).map
        fun i => ((s.heap i).key, (s.heap i).value)) := by
  induction l generalizing tries with
  | nil => rfl
  | cons i rest ih =>
    have same : s.settings.vetoes ((s.heap i).key, (s.heap i).value) = s.vetoed i := rfl
    rw [searchVictim, filter_cons]
    cases held : (s.heap i).hasActiveHandle with
    | true => exact ih tries
    | false =>
      simp only [Bool.false_eq_true, if_false, Bool.not_false, if_true, map_cons, searchPairs, same]
      split
      · split
        · rfl
        · exact ih (tries + 1)
      · rfl

variable [DecidableEq K]

/-- `evict` takes the item that the search finds out of its list. -/
theorem MmFifo.evict_queue (wf : s.WellFormed env) (q : QueueId) :
    (evict env s).queue q =
      match s.searchQueue 0 with
      | none => s.queue q
      | some v => (s.queue q).erase v := by
  cases found : s.searchQueue 0 with
  | none =>
    rw [evict_of_none found]
    exact congrFun (cleanup_queue s) q
  | some v =>
    rw [← searchQueue_cleanup] at found
    have clean := Rearranges.cleanup wf
    obtain ⟨hv, unpinned⟩ := searchQueue_spec clean.wf found
    have erased := evictGeneric_queue clean.wf hv unpinned q
    rw [evictGeneric, if_pos (canMarkForEviction_of_mem clean.wf hv unpinned),
      cleanup_queue] at erased
    rw [evict, found]
    exact erased

/-- An unpinned `mm_fifo` evicts as its queue of pairs does. -/
theorem MmFifo.evict_sequence (wf : s.WellFormed env) (unpinned : s.Unpinned) :
    (evict env s).sequence 0 = evictPair s.settings (s.sequence 0) := by
  have shrunk : Shrinks env s (evict env s) := eviction.shrinks wf
  have all : ∀ i ∈ (s.queue 0).reverse, (!(s.heap i).hasActiveHandle) = true := by
    intro i hi
    rw [unpinned i (mem_of_queue wf (mem_reverse.mp hi))]
    rfl
  have searched := searchVictim_pairs s 0 (s.queue 0).reverse
  rw [filter_eq_self.mpr all, map_reverse] at searched
  rw [shrunk.sequence_eq, evict_queue wf, evictPair, State.sequence, ← searched]
  cases found : s.searchQueue 0 with
  | none =>
    rw [searchQueue] at found
    rw [found]
    rfl
  | some v =>
    obtain ⟨hv, -⟩ := searchQueue_spec wf found
    rw [searchQueue] at found
    rw [found]
    simp
    have nodup : (s.queue 0).Nodup := wf.queue_nodup 0
    rw [nodup.erase_eq_filter, filter_map]
    refine congrArg (map _) (filter_congr fun i hi => ?_)
    -- Two linked items are the same iff their keys are.
    have same : i = v ↔ (s.heap i).key = (s.heap v).key := by
      constructor
      · exact fun eq => congrArg (fun j => (s.heap j).key) eq
      · exact wf.key_inj i (mem_of_queue wf hi) v hv
    rw [Bool.eq_iff_iff]
    simp [same]

/-- A run of evictions of an unpinned `mm_fifo` is one of its queue of pairs. -/
theorem MmFifo.iterate_evict_sequence {n : Nat} (wf : s.WellFormed env) (unpinned : s.Unpinned) :
    ((evict env)^[n] s).sequence 0 = (evictPair s.settings)^[n] (s.sequence 0) := by
  induction n generalizing s with
  | zero => rfl
  | succ n ih =>
    have shrunk : Shrinks env s (evict env s) := eviction.shrinks wf
    have later := ih shrunk.wf (shrunk.unpinned unpinned)
    rw [iterate_succ_apply, iterate_succ_apply, later, shrunk.settings_eq,
      evict_sequence wf unpinned]

/-- A single pair is evicted unless it is vetoed. -/
theorem evictPair_singleton (settings : Settings K V) (p : K × V) :
    evictPair settings [p] = if settings.vetoes p then [p] else [] := by
  rw [evictPair, reverse_singleton, searchPairs]
  cases settings.vetoes p with
  | false => simp
  | true => simp [searchPairs]

/-- Two queues with a common single pair evict alike if they agree on its veto. -/
theorem iterate_evictPair_singleton {a b : Settings K V} {p : K × V}
    (agree : a.vetoes p = b.vetoes p) (n : Nat) :
    (evictPair a)^[n] [p] = (evictPair b)^[n] [p] := by
  induction n with
  | zero => rfl
  | succ n ih =>
    have gone : ∀ settings : Settings K V, (evictPair settings)^[n] [] = [] :=
      fun settings => iterate_fixed rfl n
    rw [iterate_succ_apply, iterate_succ_apply, evictPair_singleton, evictPair_singleton, agree]
    split
    · exact ih
    · rw [gone, gone]

end Queue

/-! ## Insertion at the head -/

namespace MmFifo

variable [DecidableEq K]

theorem evict_thins (wf : s.WellFormed env) : Thins env s (evict env s) := by
  refine ⟨eviction.shrinks wf, fun q => ?_⟩
  rw [evict_queue wf]
  split
  · exact .refl _
  · exact erase_sublist

theorem makeRoom_thins (mem : Nat) (wf : s.WellFormed env) : Thins env s (makeRoom env s mem) :=
  makeRoom_keeps (fun wf h => h.trans (evict_thins wf)) mem wf
    (.refl wf)

variable {key : K} {value : V} {sec : Nat}

theorem set_of_absent (absent : s.find env key = none) :
    (policy env).set env s key value sec = insertNew env s key value 0 sec := by
  have clean : Policy.cleanupIf (policy env).cleanupOnSet s = s := rfl
  rw [Policy.set, clean, absent]
  rfl

theorem set_of_noCapacity (absent : s.find env key = none) (full : noCapacity s = true) :
    (policy env).set env s key value sec = s := by
  rw [set_of_absent absent, insertNew, if_pos full]

theorem set_inserts (value : V) (sec : Nat) (wf : s.WellFormed env)
    (absent : s.find env key = none) (room : noCapacity s = false) :
    Inserts env s ((policy env).set env s key value sec) key value 0 := by
  rw [set_of_absent absent]
  exact (insertParts env).insertsAlways.inserts value 0 sec wf absent room

/-- `set` of a new key links it in front of what the evictions leave. -/
theorem set_sequence (wf : s.WellFormed env) (absent : s.find env key = none)
    (room : noCapacity s = false) :
    ∃ l, l.Sublist (s.sequence 0) ∧
      ((policy env).set env s key value sec).sequence 0 = (key, value) :: l := by
  have clean : Thins env s s.cleanupPendingDeletion :=
    ⟨cleanup_shrinks wf, fun q => by rw [cleanup_queue]⟩
  have made := clean.trans (makeRoom_thins (s.settings.calcItemMemory env key value) clean.wf)
  have still := made.find_eq_none wf absent
  refine ⟨_, made.sequence 0, ?_⟩
  rw [set_of_absent absent, insertNew, if_neg (by simp [room])]
  simp only
  generalize makeRoom env s.cleanupPendingDeletion _ = u at made still ⊢
  have inserted : Inserts env u (link env u key value 0 sec
      (s.settings.calcItemMemory env key value)) key value 0 := linkAtHead_inserts made.wf still
  have queue : (link env u key value 0 sec (s.settings.calcItemMemory env key value)).queue 0 =
      u.next :: u.queue 0 := by
    rw [link, linkAtHead_queue made.wf still]
    exact update_self ..
  exact inserted.sequence_eq queue

end MmFifo

end Lru.Mm

namespace Lru.Persist

open Mm State Binary Serde Function Strategy List MmFifo

variable {K V : Type} {env : Env K V} {s t target : State K V} {items : List (SerializedItem K V)}

/-- A list with distinct keys is only a part of its reversal if it has at most one item. -/
theorem length_le_one_of_sublist_reverse {l : List (K × V)} (nodup : (l.map Prod.fst).Nodup)
    (sublist : l.Sublist l.reverse) : l.length ≤ 1 := by
  have same : l = l.reverse := sublist.eq_of_length (length_reverse ..).symm
  by_contra long
  have ends : l[0]? = l[l.length - 1]? := by
    conv_lhs => rw [same, getElem?_reverse (by omega)]
    rfl
  have first := (getElem?_inj (by omega) nodup.of_map).mp ends
  omega

variable [DecidableEq K]

/-- The loop of `rebuild_from_parsed` for `mm_fifo`. -/
def setAll (env : Env K V) (sec : Nat) (s : State K V) (items : List (SerializedItem K V)) :
    State K V :=
  items.foldl (fun s item => (MmFifo.policy env).set env s item.key item.value sec) s

/-- `t` is `s` after new keys were set one by one. -/
structure Refilled (env : Env K V) (s : State K V) (pairs : List (K × V)) (t : State K V) :
    Prop where
  wf : t.WellFormed env
  oneList : t.OneList
  unpinned : t.Unpinned
  settings_eq : t.settings = s.settings
  sequence : (t.sequence 0).Sublist (pairs.reverse ++ s.sequence 0)

theorem Refilled.set {key : K} (value : V) (sec : Nat) (wf : s.WellFormed env)
    (one : s.OneList) (unpinned : s.Unpinned) (absent : s.find env key = none) :
    Refilled env s [(key, value)] ((MmFifo.policy env).set env s key value sec) := by
  cases full : noCapacity s with
  | true =>
    rw [set_of_noCapacity absent full]
    exact ⟨wf, one, unpinned, rfl, .cons _ (.refl _)⟩
  | false =>
    have inserted := set_inserts value sec wf absent full
    obtain ⟨l, sublist, sequence⟩ : ∃ l : List (K × V), l.Sublist (s.sequence 0) ∧
        ((MmFifo.policy env).set env s key value sec).sequence 0 = (key, value) :: l :=
      set_sequence wf absent full
    refine ⟨inserted.wf, set_oneList wf one key value sec,
      inserted.unpinned unpinned, inserted.settings_eq, ?_⟩
    rw [sequence]
    exact sublist.cons_cons _

/-- New keys that are set one by one stand in the list from last to first. -/
theorem setAll_refilled {sec : Nat}
    (wf : s.WellFormed env) (one : s.OneList) (unpinned : s.Unpinned)
    (nodup : (items.map SerializedItem.key).Nodup)
    (fresh : ∀ item ∈ items, ∀ p ∈ s.sequence 0, p.1 ≠ item.key) :
    Refilled env s (items.map fun item => (item.key, item.value)) (setAll env sec s items) := by
  induction items generalizing s with
  | nil => exact ⟨wf, one, unpinned, rfl, .refl _⟩
  | cons item rest ih =>
    have first := Refilled.set item.value sec wf one unpinned
      (one.find_eq_none wf (fresh item (.head _)))
    rw [map_cons, nodup_cons] at nodup
    have later : ∀ other ∈ rest,
        ∀ p ∈ ((MmFifo.policy env).set env s item.key item.value sec).sequence 0,
          p.1 ≠ other.key := by
      intro other mem p linked
      rcases mem_cons.mp (first.sequence.subset linked) with rfl | old
      · exact fun same => nodup.1 (mem_map.mpr ⟨other, mem, same.symm⟩)
      · exact fresh other (.tail _ mem) p old
    have last := ih first.wf first.oneList first.unpinned nodup.2 later
    refine ⟨last.wf, last.oneList, last.unpinned, last.settings_eq.trans first.settings_eq, ?_⟩
    rw [map_cons, reverse_cons, append_assoc]
    exact last.sequence.trans (.append_left first.sequence _)

theorem setAll_of_noCapacity {sec : Nat}
    (empty : s.table = []) (full : noCapacity s = true) : setAll env sec s items = s := by
  have absent : ∀ key, s.find env key = none := by
    intro key
    rw [find, empty]
    rfl
  induction items with
  | nil => rfl
  | cons item rest ih =>
    rw [setAll, foldl_cons, set_of_noCapacity (absent _) full]
    exact ih

theorem setAll_emptied (sec : Nat) (wf : s.WellFormed env) (empty : ∀ q, s.queue q = [])
    (nodup : (items.map SerializedItem.key).Nodup) :
    Refilled env s (items.map fun item => (item.key, item.value)) (setAll env sec s items) := by
  refine setAll_refilled wf (fun q _ => empty q) ?_ nodup ?_
  · rw [State.Unpinned, table_eq_nil wf empty]
    exact forall_mem_nil _
  · rw [State.sequence, empty]
    exact fun _ _ => forall_mem_nil _

/-- Loaded into an empty strategy, the pairs keep their order iff there is at most one and it
may be linked. -/
theorem setAll_sequence_eq_iff (sec : Nat) (wf : s.WellFormed env) (empty : ∀ q, s.queue q = [])
    (nodup : (items.map SerializedItem.key).Nodup) :
    (setAll env sec s items).sequence 0 = items.map (fun item => (item.key, item.value)) ↔
      items = [] ∨ ∃ item, items = [item] ∧ noCapacity s = false := by
  have table := table_eq_nil wf empty
  have nothing : s.sequence 0 = [] := by
    rw [State.sequence, empty]
    rfl
  constructor
  · intro same
    have refilled := setAll_emptied sec wf empty nodup
    have sequence := refilled.sequence
    rw [same, nothing, append_nil] at sequence
    have keys : ((items.map fun item => (item.key, item.value)).map Prod.fst).Nodup := by
      rw [map_map]
      exact nodup
    have short := length_le_one_of_sublist_reverse keys sequence
    cases items with
    | nil => exact .inl rfl
    | cons item rest =>
      obtain rfl : rest = [] := by simpa using short
      refine .inr ⟨item, rfl, ?_⟩
      rw [← Bool.not_eq_true]
      intro full
      rw [setAll_of_noCapacity table full, nothing] at same
      cases same
  · rintro (rfl | ⟨item, rfl, room⟩)
    · exact nothing
    · have absent : s.find env item.key = none := by
        rw [find, table]
        rfl
      obtain ⟨l, sublist, sequence⟩ : ∃ l : List (K × V), l.Sublist (s.sequence 0) ∧
          (setAll env sec s [item]).sequence 0 = (item.key, item.value) :: l :=
        set_sequence wf absent room
      rw [nothing, sublist_nil] at sublist
      rw [sequence, sublist]
      rfl

/-- The target returns from the load of what `s` was saved as, and from then on both lists
are the same, however many evictions follow in both. -/
def OrderRestored (env : Env K V) (keys : Codec K) (values : Codec V) (s target : State K V)
    (sec : Nat) : Prop :=
  ∃ bytes t, serialize keys values .mmFifo s env = .ok bytes ∧
    deserialize env .mmFifo target keys values bytes sec = .returned t ∧
    ∀ n, ((evict env)^[n] t).sequence 0 = ((evict env)^[n] s).sequence 0

section Load

variable {keys : Codec K} {values : Codec V} {sec : Nat}

/-- The bytes of `s` are the items of its list. -/
theorem exists_saved_fifo (wf : s.WellFormed env) (one : s.OneList)
    (within : WithinLimits keys values .mmFifo s) :
    ∃ (bytes : List UInt8) (items : List (SerializedItem K V)),
      serialize keys values .mmFifo s env = .ok bytes ∧
      items.map (fun item => (item.key, item.value)) = s.sequence 0 ∧
      ∀ (target : State K V) sec, deserialize env .mmFifo target keys values bytes sec =
        .returned (setAll env sec ((MmFifo.policy env).flush env target) items) := by
  obtain ⟨words, bytes, -, written, parsed⟩ := exists_saved wf within
  refine ⟨bytes, (snapshotWith .mmFifo s words).items, written, ?_, fun target sec => ?_⟩
  · rw [snapshotWith, map_map, one.liveItems]
    rfl
  · rw [deserialize, parsed]
    rfl

theorem orderRestored_of_saved {bytes : List UInt8}
    (written : serialize keys values .mmFifo s env = .ok bytes)
    (returned : deserialize env .mmFifo target keys values bytes sec = .returned t) :
    OrderRestored env keys values s target sec ↔
      ∀ n, ((evict env)^[n] t).sequence 0 = ((evict env)^[n] s).sequence 0 := by
  constructor
  · rintro ⟨_, u, same, loaded, alike⟩
    obtain rfl := Except.ok.inj (written.symm.trans same)
    obtain rfl := Outcome.returned.inj (returned.symm.trans loaded)
    exact alike
  · exact fun alike => ⟨bytes, t, written, returned, alike⟩

/-- An unpinned `mm_fifo` is restored in an unpinned target iff it has at most one item, which
may be linked there and is vetoed by both predicates or by none. -/
theorem orderRestored_iff_of_unpinned (wf : s.WellFormed env) (one : s.OneList)
    (unpinned : s.Unpinned) (within : WithinLimits keys values .mmFifo s)
    (before : target.WellFormed env) (free : target.Unpinned) :
    OrderRestored env keys values s target sec ↔
      s.sequence 0 = [] ∨ ∃ p, s.sequence 0 = [p] ∧ noCapacity target = false ∧
        target.settings.vetoes p = s.settings.vetoes p := by
  obtain ⟨bytes, items, written, pairs, loaded⟩ := exists_saved_fifo wf one within
  have survived := (MmFifo.laws env).flush_survives mmFifo.flushParts before
  have empty := survived.empty before free
  have nodup : (items.map SerializedItem.key).Nodup := by
    have keys := sequence_keys_nodup wf 0
    rw [← pairs, map_map] at keys
    exact keys
  have refilled := setAll_emptied sec survived.wf empty nodup
  have settings := refilled.settings_eq.trans survived.settings_eq
  have capacity : MmFifo.noCapacity ((MmFifo.policy env).flush env target) =
      MmFifo.noCapacity target := (MmFifo.laws env).noCapacity_eq survived.settings_eq
  have order := setAll_sequence_eq_iff sec survived.wf empty nodup
  rw [pairs, capacity] at order
  rw [orderRestored_of_saved written (loaded target sec)]
  generalize setAll env sec ((MmFifo.policy env).flush env target) items = t at *
  simp only [iterate_evict_sequence refilled.wf refilled.unpinned,
    iterate_evict_sequence wf unpinned, settings]
  constructor
  · intro alike
    have same : t.sequence 0 = s.sequence 0 := alike 0
    rcases order.mp same with rfl | ⟨item, rfl, room⟩
    · exact .inl pairs.symm
    · refine .inr ⟨_, pairs.symm, room, ?_⟩
      have once := alike 1
      rw [same, ← pairs, iterate_one, iterate_one, map_singleton,
        evictPair_singleton, evictPair_singleton] at once
      cases a : target.settings.vetoes (item.key, item.value) <;>
        cases b : s.settings.vetoes (item.key, item.value) <;> simp [a, b] at once ⊢
  · rintro (none | ⟨p, single, room, agree⟩) n
    · have same := order.mpr (.inl (map_eq_nil_iff.mp (pairs.trans none)))
      rw [same, none, iterate_fixed rfl, iterate_fixed rfl]
    · obtain ⟨item, rfl, -⟩ := map_eq_singleton_iff.mp (pairs.trans single)
      have same := order.mpr (.inr ⟨item, rfl, room⟩)
      rw [same, single]
      exact iterate_evictPair_singleton agree n

theorem not_orderRestored_of_noCapacity (before : target.WellFormed env)
    (free : target.Unpinned) (full : noCapacity target = true)
    (some : s.sequence 0 ≠ []) : ¬ OrderRestored env keys values s target sec := by
  rintro ⟨bytes, t, -, returned, alike⟩
  have survived := (MmFifo.laws env).flush_survives mmFifo.flushParts before
  have empty := survived.empty before free
  have capacity := ((MmFifo.laws env).noCapacity_eq survived.settings_eq).trans full
  have stays : t = (MmFifo.policy env).flush env target := by
    rw [deserialize] at returned
    split at returned
    · cases returned
    · cases returned
      exact setAll_of_noCapacity (table_eq_nil survived.wf empty) capacity
  refine some ((alike 0).symm.trans ?_)
  rw [iterate_zero, id_eq, stays, State.sequence, empty]
  rfl

/-- A pinned item of the target stays in its list. -/
theorem not_orderRestored_of_pinned {i : ItemId} (wf : s.WellFormed env) (one : s.OneList)
    (none : s.sequence 0 = []) (before : target.WellFormed env) (linked : i ∈ target.queue 0)
    (pinned : (target.heap i).hasActiveHandle = true) :
    ¬ OrderRestored env keys values s target sec := by
  have live : s.liveItems = [] := one.liveItems.trans (map_eq_nil_iff.mp none)
  have within : WithinLimits keys values .mmFifo s := ⟨by simp [live], nofun, by simp [live]⟩
  obtain ⟨bytes, items, written, pairs, loaded⟩ := exists_saved_fifo wf one within
  obtain rfl := map_eq_nil_iff.mp (pairs.trans none)
  rw [orderRestored_of_saved written (loaded target sec)]
  intro alike
  have same : ((MmFifo.policy env).flush env target).sequence 0 = [] := (alike 0).trans none
  have kept : i ∈ ((MmFifo.policy env).flush env target).queue 0 := by
    rw [((MmFifo.laws env).flush_survives mmFifo.flushParts before).queue]
    exact mem_filter.mpr ⟨linked, pinned⟩
  rw [map_eq_nil_iff.mp same] at kept
  cases kept

end Load

/-- A new `mm_fifo` gets an item, and a handle on it is taken. -/
theorem exists_pinned [Inhabited K] (env : Env K V) (memory : ItemId → Item K V) :
    ∃ (target : State K V) (i : ItemId), mmFifo.Reachable env target ∧
      i ∈ target.queue 0 ∧ (target.heap i).hasActiveHandle = true := by
  have wf : (empty memory {} {} 0).WellFormed env := Strategy.empty_wf memory {} {} 0
  have inserted : Inserts env (empty memory {} {} 0) ((MmFifo.policy env).set env
      (empty memory {} {} 0) default env.defaultValue 0) default env.defaultValue 0 :=
    set_inserts env.defaultValue 0 wf rfl rfl
  have one := set_oneList wf (fun _ _ => rfl) default env.defaultValue 0
  have reached : mmFifo.Reachable env
      ((MmFifo.policy env).set env (empty memory {} {} 0) default env.defaultValue 0) :=
    ⟨memory, {}, {}, 0, .single ⟨.set default env.defaultValue 0, by rintro ⟨⟩, rfl⟩⟩
  generalize (MmFifo.policy env).set env (empty memory {} {} 0) default env.defaultValue 0 =
    u at inserted one reached
  have mem := inserted.mem_new
  have content := inserted.content_new
  simp only [Body.content, Prod.mk.injEq] at content
  generalize (empty memory ({} : Settings K V) {} 0).next = i at mem content
  have linked : i ∈ u.queue 0 := (one.mem_table_iff inserted.wf).mp mem
  have found := (find_eq_some_iff inserted.wf).mpr ⟨mem, content.1⟩
  have pins : (u.heap i).canPin = true := by
    have bit : (u.heap i).linked = true := inserted.wf.linked i mem
    rw [Body.canPin, bit, content.2.2.2]
    rfl
  obtain ⟨memory, settings, sketch, sec, run⟩ := reached
  refine ⟨u.incRef i, i, ⟨memory, settings, sketch, sec,
    .tail run ⟨.peek default, by rintro ⟨⟩, ?_⟩⟩,
    linked, ?_⟩
  · show some (u.peek env default).2 = _
    rw [peek, findAndPin, found]
    simp only [pins, if_true]
  · simp [State.incRef, State.modify, Body.hasActiveHandle]

/-- No `mm_fifo` is restored in every target. In an unpinned one it is iff it has at most one
item, which may be linked there and is vetoed by both predicates or by none. -/
theorem orderRestored_iff [Inhabited K] (env : Env K V) (keys : Codec K) (values : Codec V)
    (s : State K V) (reachable : mmFifo.Reachable env s) (unpinned : s.Unpinned) :
    (¬ ∀ target, mmFifo.Reachable env target → ∀ sec,
        OrderRestored env keys values s target sec) ∧
      (WithinLimits keys values .mmFifo s → ∀ target, mmFifo.Reachable env target →
        target.Unpinned → ∀ sec,
          (OrderRestored env keys values s target sec ↔
            s.sequence 0 = [] ∨ ∃ p, s.sequence 0 = [p] ∧ noCapacity target = false ∧
              target.settings.vetoes p = s.settings.vetoes p)) := by
  have one : s.OneList := reachable.keepsLists (keepsOneList env) fun _ _ _ _ _ _ => rfl
  constructor
  · intro always
    by_cases none : s.sequence 0 = []
    · obtain ⟨target, i, reached, linked, pinned⟩ := exists_pinned env s.heap
      exact not_orderRestored_of_pinned reachable.wf one none reached.wf linked pinned
        (always target reached 0)
    · have reached : mmFifo.Reachable env (empty s.heap { maxSize := 0 } {} 0) :=
        ⟨s.heap, _, _, 0, .refl⟩
      exact not_orderRestored_of_noCapacity reached.wf nofun rfl none (always _ reached 0)
  · intro within target reached free sec
    exact orderRestored_iff_of_unpinned reachable.wf one unpinned within reached.wf free

section Samples

def singleFifo : State UInt32 UInt32 := (MmFifo.policy wordEnv).set wordEnv newState 1 10 0

/-- `mm_fifo` after `set(1, 10)` and `set(2, 20)`. -/
def pairFifo : State UInt32 UInt32 := (MmFifo.policy wordEnv).set wordEnv singleFifo 2 20 0

theorem singleFifo_reachable : mmFifo.Reachable wordEnv singleFifo :=
  ⟨fun _ => default, {}, {}, 0, .single ⟨.set 1 10 0, nofun, rfl⟩⟩

theorem singleFifo_orderRestored : OrderRestored wordEnv word32 word32 singleFifo newState 0 := by
  have unpinned : singleFifo.Unpinned := by
    rw [State.Unpinned]
    decide
  have within : WithinLimits word32 word32 .mmFifo singleFifo :=
    ⟨by decide, nofun, fun i _ => ⟨word32_fits, word32_fits⟩⟩
  have restored := (orderRestored_iff wordEnv word32 word32 singleFifo singleFifo_reachable
    unpinned).2 within newState
    ⟨fun _ => default, {}, {}, 0, .refl⟩ nofun 0
  exact restored.mpr (.inr ⟨(1, 10), by decide, by decide, rfl⟩)

/-- A list of two is turned around, and the first eviction takes the other key. -/
theorem pairFifo_turned_around :
    ∃ bytes t, serialize word32 word32 .mmFifo pairFifo wordEnv = .ok bytes ∧
      deserialize wordEnv .mmFifo newState word32 word32 bytes 0 = .returned t ∧
      pairFifo.sequence 0 = [(2, 20), (1, 10)] ∧ t.sequence 0 = [(1, 10), (2, 20)] ∧
      (evict wordEnv pairFifo).sequence 0 = [(2, 20)] ∧
      (evict wordEnv t).sequence 0 = [(1, 10)] ∧
      ¬ OrderRestored wordEnv word32 word32 pairFifo newState 0 := by
  have wf : pairFifo.WellFormed wordEnv :=
    (MmFifo.laws wordEnv).set_wf singleFifo_reachable.wf 2 20 0
  have within : WithinLimits word32 word32 .mmFifo pairFifo :=
    ⟨by decide, nofun, fun i _ => ⟨word32_fits, word32_fits⟩⟩
  obtain ⟨words, bytes, -, written, parsed⟩ := exists_saved wf within
  have returned : deserialize wordEnv .mmFifo newState word32 word32 bytes 0 =
      .returned (setAll wordEnv 0 ((MmFifo.policy wordEnv).flush wordEnv newState)
        (pairFifo.liveItems.map fun i => itemRecord (pairFifo.heap i))) := by
    rw [deserialize, parsed]
    rfl
  refine ⟨bytes, _, written, returned, by decide, by decide, by decide, by decide, ?_⟩
  rw [orderRestored_of_saved written returned]
  exact fun alike => absurd (alike 0) (by decide)

end Samples

end Lru.Persist
