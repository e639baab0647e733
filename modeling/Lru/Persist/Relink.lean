import Mathlib.Data.List.Find
import Lru.Mm.Listed
import Lru.Mm.Sequence
import Lru.Persist.Rebuild

/-!
# Linking the items of a snapshot

The loop of `rebuild_from_serialized` links every item at the tail of its list, also
when the hash table does not take its key. So the lists always grow by the items of the
file, while table and lists agree afterwards iff no key comes twice.
-/

namespace Lru.Persist

open Mm State Function List

variable {K V : Type} [DecidableEq K] {env : Env K V} {strategy : Strategy} {s t : State K V}
  {item : SerializedItem K V} {items : List (SerializedItem K V)}

/-- The item that is allocated; its hash is only filled in when the table takes it. -/
def restoredItem (strategy : Strategy) (item : SerializedItem K V) (hash : Nat) : Item K V :=
  { key := item.key, value := item.value, queueId := queueOf strategy item.queueId
    linked := true, cachedHash := hash, hook := restoredHook item }

/-- What one round does, whether or not the table takes the item. -/
theorem linkSerialized_cases (env : Env K V) (strategy : Strategy) (s : State K V)
    (item : SerializedItem K V) :
    ∃ hash table, (table = s.table ∨ table = s.next :: s.table) ∧
      linkSerialized env strategy s item = { s with
        heap := update s.heap s.next (restoredItem strategy item hash)
        next := s.next + 1
        table := table
        queue := update s.queue (queueOf strategy item.queueId)
          (s.queue (queueOf strategy item.queueId) ++ [s.next])
        stats := { s.stats with
          currentMemory := SizeT.fetchAdd s.stats.currentMemory
            (s.settings.calcItemMemory env item.key item.value) } } := by
  rw [linkSerialized, linkNew]
  simp only [insertNode]
  split
  · exact ⟨0, s.table, .inl rfl, rfl⟩
  · refine ⟨env.hash item.key, s.next :: s.table, .inr rfl, ?_⟩
    simp only [State.addMemory, State.modifyStats, State.modify, State.setQueue,
      update_self, update_idem]
    rfl

/-- Keys and values that the file has for a list. -/
def added (strategy : Strategy) (items : List (SerializedItem K V)) (q : QueueId) : List (K × V) :=
  (items.filter fun item => queueOf strategy item.queueId = q).map fun item =>
    (item.key, item.value)

/-- The memory counter after the items have been added to it. -/
def addAll (env : Env K V) (c : Settings K V) (memory : Nat) (items : List (SerializedItem K V)) :
    Nat :=
  items.foldl (fun m item => SizeT.fetchAdd m (c.calcItemMemory env item.key item.value)) memory

/-- An item as a load leaves it: without expiry, handles and tail flag. -/
structure IsRestored (x : Item K V) : Prop where
  expiryNs : x.expiryNs = 0
  accessRef : x.accessRef = 0
  isTail : x.hook.isTail = false

/-- `t` is `s` with the items of the file linked behind its own. -/
structure Relinked (env : Env K V) (strategy : Strategy) (s : State K V)
    (items : List (SerializedItem K V)) (t : State K V) : Prop where
  listed : t.Listed
  sequence : ∀ q, t.sequence q = s.sequence q ++ added strategy items q
  old : ∀ i < s.next, t.heap i = s.heap i
  origin : ∀ q, ∀ i ∈ t.queue q, i ∈ s.queue q ∨ s.next ≤ i ∧ IsRestored (t.heap i)
  kept : ∀ q, ∀ i ∈ s.queue q, i ∈ t.queue q
  next_eq : t.next = s.next + items.length
  count : t.linkedCount = s.linkedCount + items.length
  table_length : t.table.length ≤ s.table.length + items.length
  stats_eq : t.stats = { s.stats with
    currentMemory := addAll env s.settings s.stats.currentMemory items }
  /-- Nothing else changes. -/
  rest_eq : t = { s with
    heap := t.heap, next := t.next, table := t.table, queue := t.queue, stats := t.stats }

/-- One round adds its node to the tail of the list that the file names. -/
theorem linkSerialized_adds (env : Env K V) (strategy : Strategy) (listed : s.Listed)
    (item : SerializedItem K V) :
    s.AddsTail (linkSerialized env strategy s item) s.next (queueOf strategy item.queueId) := by
  obtain ⟨hash, table, -, linked⟩ := linkSerialized_cases env strategy s item
  rw [linked]
  constructor
  case apart => exact fun q h => Nat.lt_irrefl _ (listed.lt q _ h)
  case queue =>
    intro q
    by_cases home : queueOf strategy item.queueId = q
    · subst home
      simp
    · simp [home, Ne.symm home]
  case home => simp [restoredItem]
  case bodies => exact fun j ne => update_of_ne ne _ _
  case lt => exact Nat.lt_succ_self _
  case next_le => exact Nat.le_succ _

theorem linkSerialized_body (env : Env K V) (strategy : Strategy) (s : State K V)
    (item : SerializedItem K V) :
    ∃ hash, (linkSerialized env strategy s item).heap s.next = restoredItem strategy item hash := by
  obtain ⟨hash, table, -, linked⟩ := linkSerialized_cases env strategy s item
  refine ⟨hash, ?_⟩
  rw [linked]
  exact update_self ..

theorem linkSerialized_relinked (env : Env K V) (strategy : Strategy) (listed : s.Listed)
    (item : SerializedItem K V) :
    Relinked env strategy s [item] (linkSerialized env strategy s item) := by
  have adds := linkSerialized_adds env strategy listed item
  obtain ⟨hash, body⟩ := linkSerialized_body env strategy s item
  obtain ⟨_, table, grown, linked⟩ := linkSerialized_cases env strategy s item
  constructor
  case listed => exact adds.listed listed
  case sequence =>
    intro q
    have same : (s.queue q).map (fun i => (((linkSerialized env strategy s item).heap i).key,
        ((linkSerialized env strategy s item).heap i).value)) = s.sequence q :=
      map_congr_left fun i hi => by rw [adds.old_body hi]
    rw [State.sequence, adds.queue, map_append, same]
    by_cases home : queueOf strategy item.queueId = q <;> simp [added, home, body, restoredItem]
  case old => exact fun i lt => adds.bodies i (Nat.ne_of_lt lt)
  case origin =>
    intro q i hi
    obtain old | ⟨rfl, -⟩ := adds.mem_queue hi
    · exact .inl old
    · rw [body]
      exact .inr ⟨le_rfl, rfl, rfl, rfl⟩
  case kept =>
    intro q i hi
    rw [adds.queue]
    exact mem_append_left _ hi
  case count => exact adds.linkedCount_eq
  case next_eq =>
    rw [linked]
    rfl
  case table_length =>
    rw [linked]
    rcases grown with same | grown
    · simp [same]
    · simp [grown]
  case stats_eq =>
    rw [linked]
    rfl
  case rest_eq => rw [linked]

section

omit [DecidableEq K]

theorem Relinked.nil (listed : s.Listed) : Relinked env strategy s [] s where
  listed := listed
  sequence q := by simp [added]
  old _ _ := rfl
  origin q i hi := .inl hi
  kept q i hi := hi
  next_eq := rfl
  count := rfl
  table_length := le_rfl
  stats_eq := rfl
  rest_eq := rfl

theorem Relinked.settings_eq (h : Relinked env strategy s items t) : t.settings = s.settings := by
  rw [h.rest_eq]

theorem Relinked.append {u : State K V} {more : List (SerializedItem K V)}
    (first : Relinked env strategy s items u) (second : Relinked env strategy u more t) :
    Relinked env strategy s (items ++ more) t where
  listed := second.listed
  sequence q := by
    rw [second.sequence, first.sequence]
    simp [added]
  old i lt := by
    have later : i < u.next := by
      rw [first.next_eq]
      exact Nat.lt_add_right _ lt
    exact (second.old i later).trans (first.old i lt)
  origin q i hi := by
    obtain before | ⟨new, restored⟩ := second.origin q i hi
    · obtain old | ⟨new, restored⟩ := first.origin q i before
      · exact .inl old
      · exact .inr ⟨new, second.old i (first.listed.lt q i before) ▸ restored⟩
    · refine .inr ⟨le_trans ?_ new, restored⟩
      rw [first.next_eq]
      exact Nat.le_add_right _ _
  kept q i hi := second.kept q i (first.kept q i hi)
  next_eq := by
    rw [second.next_eq, first.next_eq, length_append, Nat.add_assoc]
  count := by
    rw [second.count, first.count, length_append, Nat.add_assoc]
  table_length := by
    have one := first.table_length
    have two := second.table_length
    rw [length_append]
    omega
  stats_eq := by
    rw [second.stats_eq, first.stats_eq, first.settings_eq]
    simp [addAll]
  rest_eq := by
    rw [second.rest_eq, first.rest_eq]

end

theorem foldl_relinked (env : Env K V) (strategy : Strategy) (listed : s.Listed)
    (items : List (SerializedItem K V)) :
    Relinked env strategy s items (items.foldl (linkSerialized env strategy) s) := by
  induction items generalizing s with
  | nil => exact .nil listed
  | cons item rest ih =>
    have first := linkSerialized_relinked env strategy listed item
    exact first.append (ih first.listed)

/-! ## Agreement of table and lists -/

/-- No key of the file comes twice or is resident. -/
structure Fresh (s : State K V) (items : List (SerializedItem K V)) : Prop where
  nodup : (items.map SerializedItem.key).Nodup
  absent : ∀ item ∈ items, ∀ i ∈ s.table, (s.heap i).key ≠ item.key

/-- The table does not take a key that it has. -/
theorem linkSerialized_table_of_find {i : ItemId} (wf : s.WellFormed env)
    (found : s.find env item.key = some i) :
    (linkSerialized env strategy s item).table = s.table := by
  have still : (setQueue { s with
      heap := update s.heap s.next
        { key := item.key, value := item.value, queueId := queueOf strategy item.queueId
          expiryNs := 0, linked := true, hook := restoredHook item }
      next := s.next + 1 } (queueOf strategy item.queueId)
        (s.queue (queueOf strategy item.queueId) ++ [s.next])).find env item.key = some i := by
    rw [← found]
    refine find?_congr fun j hj => ?_
    have old : j ≠ s.next := by
      rintro rfl
      exact wf.next_not_mem hj
    simp [stopsAt, setQueue, old]
  rw [linkSerialized, linkNew]
  simp only [insertNode, still]
  rfl

theorem linkSerialized_inserts (wf : s.WellFormed env) (absent : s.find env item.key = none) :
    Inserts env s (linkSerialized env strategy s item) item.key item.value 0 :=
  (linkNew_inserts wf absent fun _ _ => perm_append_singleton _ _).quiet (.addMemory _)

theorem fresh_cons_iff (wf : s.WellFormed env)
    (absent : s.find env item.key = none) :
    Fresh s (item :: items) ↔ Fresh (linkSerialized env strategy s item) items := by
  have table : (linkSerialized env strategy s item).table = s.next :: s.table :=
    linkNew_table wf absent
  have old : ∀ i ∈ s.table, (linkSerialized env strategy s item).heap i = s.heap i := fun i hi =>
    (linkSerialized_relinked env strategy wf.listed item).old i (wf.table_lt i hi)
  have new : ((linkSerialized env strategy s item).heap s.next).key = item.key := by
    obtain ⟨hash, table, -, linked⟩ := linkSerialized_cases env strategy s item
    rw [linked]
    simp [restoredItem]
  have missing := (find_eq_none_iff wf).mp absent
  constructor
  · rintro ⟨nodup, absent⟩
    obtain ⟨single, nodup⟩ := nodup_cons.mp nodup
    refine ⟨nodup, fun x hx i hi => ?_⟩
    rw [table] at hi
    obtain rfl | hi := mem_cons.mp hi
    · rw [new]
      rintro same
      exact single (same ▸ mem_map_of_mem hx)
    · rw [old i hi]
      exact absent x (mem_cons_of_mem _ hx) i hi
  · rintro ⟨nodup, absent⟩
    rw [table] at absent
    refine ⟨nodup_cons.mpr ⟨fun repeated => ?_, nodup⟩, fun x hx i hi => ?_⟩
    · obtain ⟨x, hx, same⟩ := mem_map.mp repeated
      exact absent x hx s.next mem_cons_self (new.trans same.symm)
    · obtain rfl | hx := mem_cons.mp hx
      · exact missing i hi
      · rw [← old i hi]
        exact absent x hx i (mem_cons_of_mem _ hi)

/-- Fresh keys keep table and lists in agreement. -/
theorem foldl_wf (wf : s.WellFormed env) (fresh : Fresh s items) :
    (items.foldl (linkSerialized env strategy) s).WellFormed env := by
  induction items generalizing s with
  | nil => exact wf
  | cons item rest ih =>
    have absent := (find_eq_none_iff wf).mpr (fresh.absent item mem_cons_self)
    exact ih (linkSerialized_inserts wf absent).wf
      ((fresh_cons_iff wf absent).mp fresh)

/-- A key that comes twice leaves an item in a list that the table does not know. -/
theorem foldl_short (wf : s.WellFormed env) (stale : ¬ Fresh s items) :
    (items.foldl (linkSerialized env strategy) s).table.length <
      (items.foldl (linkSerialized env strategy) s).linkedCount := by
  induction items generalizing s with
  | nil => exact absurd ⟨nodup_nil, nofun⟩ stale
  | cons item rest ih =>
    cases found : s.find env item.key with
    | none =>
      exact ih (linkSerialized_inserts wf found).wf fun fresh =>
        stale ((fresh_cons_iff wf found).mpr fresh)
    | some i =>
      have first := linkSerialized_relinked env strategy wf.listed item
      have later := foldl_relinked env strategy first.listed rest
      have table : (linkSerialized env strategy s item).table = s.table :=
        linkSerialized_table_of_find wf found
      have agree : s.table.length = s.linkedCount := wf.table_length
      have grown := later.table_length
      rw [table] at grown
      rw [foldl_cons, later.count, first.count, length_singleton]
      omega

end Lru.Persist
