import Lru.Persist.FifoLoad
import Lru.Persist.Load

/-!
# What can be used after a load

After a load no key should be linked twice, a lookup should find every linked item, and
the size should stay within the limit and the items that were pinned before. The load
links what the file says, so all three depend on the file; only `mm_fifo` goes through
`set`, where they depend on its eviction predicate.
-/

namespace Lru

open Mm (State Env Strategy ShardedMmLru ItemId)
open Binary (Codec)
open Persist List

namespace Mm

variable {K V : Type} {s : State K V} {sec : Nat} {limiterOver : Bool}

theorem State.Listed.liveItems_nodup (listed : s.Listed) : s.liveItems.Nodup := by
  have apart : ∀ p q, p ≠ q → List.Disjoint (s.queue p) (s.queue q) := by
    intro p q other i hp hq
    exact other ((listed.queueId p i hp).symm.trans (listed.queueId q i hq))
  refine ((listed.nodup 0).append (listed.nodup 1) (apart 0 1 (by decide))).append
    (listed.nodup 2) ?_
  rw [disjoint_append_left]
  exact ⟨apart 0 2 (by decide), apart 1 2 (by decide)⟩

theorem length_liveItems : s.liveItems.length = s.linkedCount := by
  rw [State.liveItems, length_append, length_append, State.linkedCount]

end Mm

namespace Unified

/-- Where something can be linked: in the one strategy object, in a shard, or in the compact
store. -/
inductive Place (n : Nat) where
  | item (i : ItemId)
  | shardItem (j : Fin n) (i : ItemId)
  | slot (pos : Nat)
  deriving DecidableEq, Repr

variable {K V : Type} {n : Nat}

section Definitions

/-- Something with this key is linked at this place. -/
def Linked : Unified K V n → Place n → K → Prop
  | plain _ c, .item i, key | compact c _, .item i, key =>
    i ∈ c.mm.liveItems ∧ (c.mm.heap i).key = key
  | striped c, .shardItem j i, key | compactStriped c _, .shardItem j i, key =>
    i ∈ (c.mm.shards j).liveItems ∧ ((c.mm.shards j).heap i).key = key
  | compact _ store, .slot pos, key | compactStriped _ store, .slot pos, key =>
    store.slots[pos]?.map Slot.key = some key
  | _, _, _ => False

def maxSize : Unified K V n → Nat
  | plain _ c => c.mm.settings.maxSize
  | striped c => c.mm.maxSize
  | compact _ store | compactStriped _ store => store.maxSize

/-- The number of items with a handle, which a load does not remove. -/
def pinned : Unified K V n → Nat
  | plain _ c | compact c _ => c.mm.pinnedCount
  | striped c | compactStriped c _ => ∑ j, (c.mm.shards j).pinnedCount

variable [DecidableEq K]

def size (env : Env K V) : Unified K V n → Nat
  | plain strategy c => (strategy.policy env).size c.mm
  | striped c => c.mm.size
  | compact _ store | compactStriped _ store => store.slots.length

variable [NeZero n]

def locate (env : Env K V) (u : Unified K V n) (key : K) : Option (Place n) :=
  match u with
  | plain _ c => (c.mm.find env key).map .item
  | striped c =>
    let j := c.mm.shardFor env key
    ((c.mm.shards j).find env key).map (.shardItem j)
  | compact _ store | compactStriped _ store =>
    (store.slots.findIdx? fun slot => slot.key = key).map .slot

/-- What is asked of `u'`, which a load has made of `u`. -/
structure Usable (env : Env K V) (u u' : Unified K V n) : Prop where
  once : ∀ p q key, u'.Linked p key → u'.Linked q key → p = q
  found : ∀ p key, u'.Linked p key → u'.locate env key = some p
  bounded : u'.size env ≤ u'.maxSize + u.pinned

/-- `load` or `load_per_shard` accepts the bytes and leaves `u'`. -/
def Loads (env : Env K V) (keys : Codec K) (values : Codec V) (u : Unified K V n)
    (data : List UInt8) (u' : Unified K V n) : Prop :=
  ∃ sec limiterOver, u.load env keys values data sec limiterOver = .returned u' ∨
    u.loadPerShard env keys values data sec limiterOver = .returned u'

end Definitions

/-! ## What is asked of the file -/

section Conditions

/-- The items and the pinned items of a sharded target belong where they are, and their
sum does not exceed the limit by more than the pinned ones. -/
structure ShardsFit [NeZero n] (env : Env K V) (m : ShardedMmLru K V n)
    (parsed : List (ParsedData K V)) : Prop where
  fresh : ∀ j, FreshKeys (m.shards j) (shardItems parsed j)
  routed : ∀ j, ∀ item ∈ shardItems parsed j, m.shardFor env item.key = j
  pinnedRouted : ∀ j, ∀ i ∈ (m.shards j).table, ((m.shards j).heap i).hasActiveHandle = true →
    m.shardFor env ((m.shards j).heap i).key = j
  bounded : (∑ j, ((m.shards j).pinnedCount + (shardItems parsed j).length)) % SizeT.range ≤
    m.maxSize + ∑ j, (m.shards j).pinnedCount

/-- A compact store with distinct keys and within its limit. -/
structure StoreFits (store : CompactCache K V) : Prop where
  nodup : (store.slots.map Slot.key).Nodup
  bounded : store.slots.length ≤ store.maxSize

/-- The file suits the target. Behind a compact store that is so only for a file without
items, if nothing is pinned there. -/
def FileFits [NeZero n] (env : Env K V) (keys : Codec K) (values : Codec V)
    (u : Unified K V n) (data : List UInt8) : Prop :=
  match u with
  | plain strategy c =>
    ∀ parsed, parseSerializedData keys values (typeId strategy) data = .ok parsed →
      FreshKeys c.mm parsed.items ∧ parsed.items.length ≤ c.mm.settings.maxSize
  | striped c =>
    ∀ parsed, parseShardedSerializedData keys values data = .ok parsed → ShardsFit env c.mm parsed
  | compact base store =>
    StoreFits store ∧
      ∀ parsed, parseSerializedData keys values (typeId .mmLru) data = .ok parsed →
        base.mm.pinnedCount + parsed.items.length = 0
  | compactStriped base store =>
    StoreFits store ∧ ∀ parsed, parseShardedSerializedData keys values data = .ok parsed →
      ∀ j, (base.mm.shards j).pinnedCount + (shardItems parsed j).length = 0

/-- Table and lists of every strategy object agree, as in every reachable state. -/
def InOrder (env : Env K V) : Unified K V n → Prop
  | plain strategy c => c.mm.WellFormed env ∧ (strategy = .mmFifo → c.mm.OneList)
  | striped c | compactStriped c _ => ∀ j, (c.mm.shards j).WellFormed env
  | compact c _ => c.mm.WellFormed env

end Conditions

variable [DecidableEq K] {env : Env K V} {keys : Codec K} {values : Codec V}
  {s t : State K V} {items : List (SerializedItem K V)} {parsed : List (ParsedData K V)}
  {strategy : Strategy} {c c' : Cache K V} {data : List UInt8} {u u' : Unified K V n} {sec : Nat}
  {limiterOver : Bool}

/-! ## How a load returns -/

section Loads

theorem exists_rebuilt {wrap : Cache K V → Unified K V n}
    (returned : (c.load env keys values strategy data sec limiterOver).map wrap = .returned u') :
    ∃ c' parsed, u' = wrap c' ∧
      parseSerializedData keys values (typeId strategy) data = .ok parsed ∧
      rebuildFromParsed env strategy c.mm parsed sec = .returned c'.mm := by
  rw [Cache.load] at returned
  cases loaded : deserialize env strategy c.mm keys values data sec with
  | returned mm =>
    rw [loaded] at returned
    cases returned
    obtain ⟨parsed, rebuilt⟩ := deserialize_eq_returned.mp loaded
    exact ⟨_, parsed, rfl, rebuilt⟩
  | threw | undefined =>
    rw [loaded] at returned
    cases returned

theorem loads_of_deserialize [NeZero n]
    (returned : deserialize env strategy c.mm keys values data sec = .returned t) :
    Loads env keys values (plain strategy c : Unified K V n) data
      (plain strategy ({ c with mm := t }.reportMemory false)) := by
  refine ⟨sec, false, .inl ?_⟩
  rw [load, Cache.load, returned]
  rfl

theorem exists_shardsLoaded {wrap : Striped K V n → Unified K V n} {mismatch : String}
    {d : Striped K V n}
    (wf : ∀ j, (d.mm.shards j).WellFormed env)
    (returned : (d.loadShards env keys values mismatch data sec limiterOver).map wrap =
      .returned u') :
    ∃ d' parsed, u' = wrap d' ∧ parseShardedSerializedData keys values data = .ok parsed ∧
      ShardsLoaded env d.mm parsed d'.mm := by
  rw [Striped.loadShards] at returned
  cases accepted : parseShardedSerializedData keys values data with
  | error message =>
    rw [accepted] at returned
    cases returned
  | ok parsed =>
    rw [accepted] at returned
    simp only at returned
    cases rebuilt : rebuildShardedFromParsed env mismatch d.mm parsed sec with
    | returned mm =>
      rw [rebuilt] at returned
      cases returned
      exact ⟨_, parsed, rfl, rfl, rebuildShardedFromParsed_loaded wf rebuilt⟩
    | threw | undefined =>
      rw [rebuilt] at returned
      cases returned

end Loads

/-! ## Lookups -/

section Lookups

/-- A lookup finds every linked item iff no key came twice. -/
theorem found_iff (loaded : Loaded env s items t) :
    (∀ i ∈ t.liveItems, t.find env (t.heap i).key = some i) ↔ FreshKeys s items := by
  constructor
  · intro found
    by_contra stale
    have short := loaded.short stale
    have inside : t.liveItems ⊆ t.table := fun i hi => mem_of_find?_eq_some (found i hi)
    have few := (subperm_of_subset loaded.listed.liveItems_nodup inside).length_le
    rw [Mm.length_liveItems] at few
    exact absurd few (Nat.not_le_of_lt short)
  · intro fresh i hi
    have wf := loaded.wf fresh
    exact (Mm.find_eq_some_iff wf).mpr ⟨(wf.table_perm).mem_iff.mpr hi, rfl⟩

/-- The same for the slots of a compact store. -/
theorem findIdx?_iff_nodup {l : List (Slot K V)} :
    (∀ (pos : Nat) key, l[pos]?.map Slot.key = some key →
        (l.findIdx? fun slot => slot.key = key) = some pos) ↔ (l.map Slot.key).Nodup := by
  constructor
  · intro found
    refine nodup_iff_getElem?_ne_getElem?.mpr fun i j less inside same => ?_
    rw [getElem?_map, getElem?_map] at same
    have stored : l[j]?.map Slot.key = some ((l.map Slot.key)[j]) := by
      rw [← getElem?_map, getElem?_eq_getElem inside]
    have first := found i _ (same.trans stored)
    have second := found j _ stored
    exact less.ne (Option.some.inj (first.symm.trans second))
  · intro nodup pos key stored
    rw [← getElem?_map] at stored
    obtain ⟨inside, rfl⟩ := List.getElem?_eq_some_iff.mp stored
    rw [length_map] at inside
    refine findIdx?_eq_some_iff_getElem.mpr ⟨inside, by simp, fun j less => ?_⟩
    simp
    intro same
    have keys : (l.map Slot.key)[j]? = (l.map Slot.key)[pos]? := by
      simp [less.trans inside, inside, same]
    exact nodup_iff_getElem?_ne_getElem?.mp nodup j pos less (by simpa using inside) keys

variable [NeZero n] {store : CompactCache K V}

/-- If lookups find what is linked, nothing is linked twice. -/
theorem usable_iff : Usable env u u' ↔
    (∀ p key, u'.Linked p key → u'.locate env key = some p) ∧
      u'.size env ≤ u'.maxSize + u.pinned := by
  constructor
  · rintro ⟨-, found, bounded⟩
    exact ⟨found, bounded⟩
  · rintro ⟨found, bounded⟩
    refine ⟨fun p q key first second => ?_, found, bounded⟩
    exact Option.some.inj ((found p key first).symm.trans (found q key second))

omit [DecidableEq K] [NeZero n] in
theorem Place.forall_iff {P : Place n → Prop} :
    (∀ p, P p) ↔ (∀ i, P (.item i)) ∧ (∀ j i, P (.shardItem j i)) ∧ ∀ pos, P (.slot pos) := by
  refine ⟨fun all => ⟨fun i => all _, fun j i => all _, fun pos => all _⟩, ?_⟩
  rintro ⟨item, shardItem, slot⟩ (i | ⟨j, i⟩ | pos)
  · exact item i
  · exact shardItem j i
  · exact slot pos

theorem found_plain_iff :
    (∀ p key, (plain strategy c : Unified K V n).Linked p key →
        (plain strategy c).locate env key = some p) ↔
      ∀ i ∈ c.mm.liveItems, c.mm.find env (c.mm.heap i).key = some i := by
  simp [Place.forall_iff, Linked, locate]

theorem found_striped_iff {d : Striped K V n} :
    (∀ p key, (striped d).Linked p key → (striped d).locate env key = some p) ↔
      ∀ j, ∀ i ∈ (d.mm.shards j).liveItems,
        d.mm.shardFor env ((d.mm.shards j).heap i).key = j ∧
          (d.mm.shards j).find env ((d.mm.shards j).heap i).key = some i := by
  have home : ∀ j i key, (d.mm.shards (d.mm.shardFor env key)).find env key = some i ∧
        d.mm.shardFor env key = j ↔
      d.mm.shardFor env key = j ∧ (d.mm.shards j).find env key = some i := by
    intro j i key
    rw [and_comm]
    exact and_congr_right fun home => by rw [home]
  simp [Place.forall_iff, Linked, locate, home]

theorem found_compact_iff : (∀ p key, (compact c store : Unified K V n).Linked p key →
        (compact c store).locate env key = some p) ↔
      c.mm.liveItems = [] ∧ (store.slots.map Slot.key).Nodup := by
  rw [← findIdx?_iff_nodup, Place.forall_iff]
  simp [Linked, locate, eq_nil_iff_forall_not_mem]

theorem found_compactStriped_iff {d : Striped K V n} :
    (∀ p key, (compactStriped d store).Linked p key →
        (compactStriped d store).locate env key = some p) ↔
      (∀ j, (d.mm.shards j).liveItems = []) ∧ (store.slots.map Slot.key).Nodup := by
  rw [← findIdx?_iff_nodup, Place.forall_iff]
  simp [Linked, locate, eq_nil_iff_forall_not_mem]

end Lookups

/-! ## The traits -/

section Traits

variable [NeZero n] {store : CompactCache K V}

theorem usable_plain_iff (loaded : Loaded env c.mm items c'.mm) :
    Usable env (plain strategy c : Unified K V n) (plain strategy c') ↔
      FreshKeys c.mm items ∧ items.length ≤ c.mm.settings.maxSize := by
  rw [usable_iff, found_plain_iff, found_iff loaded]
  refine and_congr_right fun fresh => ?_
  have wf := loaded.wf fresh
  have size : (plain strategy c' : Unified K V n).size env = c.mm.pinnedCount + items.length := by
    rw [size, (strategy.laws env).eviction.size_eq wf, ← Mm.linkedCount_eq wf, loaded.count]
  rw [size, maxSize, pinned, loaded.maxSize_eq]
  omega

omit [DecidableEq K] [NeZero n] in
/-- The items of a shard lie where lookups go iff those of the file and the pinned ones do. -/
theorem routed_iff {j : Fin n} {home : K → Fin n} (loaded : Loaded env s items t)
    (fresh : FreshKeys s items) :
    (∀ i ∈ t.liveItems, home (t.heap i).key = j) ↔
      (∀ item ∈ items, home item.key = j) ∧
        ∀ i ∈ s.table, (s.heap i).hasActiveHandle = true → home (s.heap i).key = j := by
  have live : ∀ i, i ∈ t.table ↔ i ∈ t.liveItems := fun i =>
    (loaded.wf fresh).table_perm.mem_iff
  have held : (∀ i ∈ t.liveItems, home (t.heap i).key = j) ↔ ∀ c, t.Holds c → home c.1 = j := by
    constructor
    · rintro at_home c ⟨i, hi, rfl⟩
      exact at_home i ((live i).mp hi)
    · exact fun at_home i hi => at_home _ ⟨i, (live i).mpr hi, rfl⟩
  rw [held]
  constructor
  · intro at_home
    refine ⟨fun item hitem => ?_, fun i hi pinned => ?_⟩
    · exact at_home _ ((loaded.holds fresh _).mpr (.inr ⟨item, hitem, rfl⟩))
    · exact at_home _ ((loaded.holds fresh _).mpr (.inl ⟨⟨i, hi, rfl⟩, of_decide_eq_true pinned⟩))
  · rintro ⟨filed, kept⟩ c held
    obtain ⟨⟨i, hi, rfl⟩, pinned⟩ | ⟨item, hitem, rfl⟩ := (loaded.holds fresh c).mp held
    · exact kept i hi (decide_eq_true pinned)
    · exact filed item hitem

theorem usable_striped_iff {d d' : Striped K V n} (loaded : ShardsLoaded env d.mm parsed d'.mm) :
    Usable env (striped d) (striped d') ↔ ShardsFit env d.mm parsed := by
  have home : d'.mm.shardFor env = d.mm.shardFor env := by
    funext key
    rw [ShardedMmLru.shardFor, ShardedMmLru.shardFor, ShardedMmLru.shardForHash,
      ShardedMmLru.shardForHash, loaded.mixShardHash_eq]
  have size : (striped d').size env =
      (∑ j, ((d.mm.shards j).pinnedCount + (shardItems parsed j).length)) % SizeT.range := by
    rw [size, ShardedMmLru.size, ShardedMmLru.sumShards, SizeT.foldl_finRange_fetchAdd]
    refine congrArg (· % SizeT.range) (Finset.sum_congr rfl fun j _ => ?_)
    rw [loaded.counted, (loaded.loaded j).count]
  rw [usable_iff, found_striped_iff, size, home, maxSize, pinned, loaded.maxSize_eq]
  constructor
  · rintro ⟨found, bounded⟩
    have fresh : ∀ j, FreshKeys (d.mm.shards j) (shardItems parsed j) := fun j =>
      (found_iff (loaded.loaded j)).mp fun i hi => (found j i hi).2
    have routed := fun j => (routed_iff (loaded.loaded j) (fresh j)).mp fun i hi => (found j i hi).1
    exact ⟨fresh, fun j => (routed j).1, fun j => (routed j).2, bounded⟩
  · rintro ⟨fresh, routed, pinned, bounded⟩
    refine ⟨fun j i hi => ⟨?_, ?_⟩, bounded⟩
    · exact (routed_iff (loaded.loaded j) (fresh j)).mpr ⟨routed j, pinned j⟩ i hi
    · exact (found_iff (loaded.loaded j)).mpr (fresh j) i hi

theorem usable_compact_iff (loaded : Loaded env c.mm items c'.mm) :
    Usable env (compact c store : Unified K V n) (compact c' store) ↔
      StoreFits store ∧ c.mm.pinnedCount + items.length = 0 := by
  rw [usable_iff, found_compact_iff, ← length_eq_zero_iff, Mm.length_liveItems, loaded.count,
    size, maxSize, pinned]
  constructor
  · rintro ⟨⟨empty, nodup⟩, bounded⟩
    exact ⟨⟨nodup, by omega⟩, empty⟩
  · rintro ⟨⟨nodup, bounded⟩, empty⟩
    exact ⟨⟨empty, nodup⟩, by omega⟩

theorem usable_compactStriped_iff {d d' : Striped K V n}
    (loaded : ShardsLoaded env d.mm parsed d'.mm) :
    Usable env (compactStriped d store) (compactStriped d' store) ↔
      StoreFits store ∧ ∀ j, (d.mm.shards j).pinnedCount + (shardItems parsed j).length = 0 := by
  have empty : (∀ j, (d'.mm.shards j).liveItems = []) ↔
      ∀ j, (d.mm.shards j).pinnedCount + (shardItems parsed j).length = 0 := by
    refine forall_congr' fun j => ?_
    rw [← length_eq_zero_iff, Mm.length_liveItems, (loaded.loaded j).count]
  rw [usable_iff, found_compactStriped_iff, empty, size, maxSize, pinned]
  constructor
  · rintro ⟨⟨none, nodup⟩, bounded⟩
    have free : ∑ j, (d.mm.shards j).pinnedCount = 0 :=
      Finset.sum_eq_zero fun j _ => (Nat.add_eq_zero_iff.mp (none j)).1
    rw [free] at bounded
    exact ⟨⟨nodup, bounded⟩, none⟩
  · rintro ⟨⟨nodup, bounded⟩, none⟩
    exact ⟨⟨none, nodup⟩, bounded.trans (Nat.le_add_right _ _)⟩

omit [DecidableEq K] [NeZero n] in
theorem forall_ok_iff {α : Type} {x : Except String α} {a : α} {P : α → Prop}
    (accepted : x = .ok a) : (∀ b, x = .ok b → P b) ↔ P a := by
  subst accepted
  constructor
  · exact fun all => all a rfl
  · rintro holds b same
    cases same
    exact holds

/-- After a load of `mm_fifo` only the size is in question. -/
theorem usable_fifo_iff (wf : c.mm.WellFormed env)
    (returned : deserialize env .mmFifo c.mm keys values data sec = .returned c'.mm) :
    Usable env (plain .mmFifo c : Unified K V n) (plain .mmFifo c') ↔
      c'.mm.table.length ≤ c.mm.settings.maxSize + c.mm.pinnedCount := by
  obtain ⟨parsed, -, loaded⟩ := exists_loaded_fifo returned
  have survived := (Mm.MmFifo.laws env).flush_survives Mm.Strategy.mmFifo.flushParts wf
  obtain ⟨after, settings⟩ := setAll_wf survived.wf
  rw [← loaded] at after settings
  have found : ∀ i ∈ c'.mm.liveItems, c'.mm.find env (c'.mm.heap i).key = some i := fun i hi =>
    (Mm.find_eq_some_iff after).mpr ⟨(after.table_perm).mem_iff.mpr hi, rfl⟩
  rw [usable_iff, found_plain_iff, maxSize, pinned, settings, survived.settings_eq]
  exact and_iff_right found

/-- A load that accepts its bytes leaves a usable cache iff the file suits the target. For
`mm_fifo` every such load does so iff no file overfills the target. -/
theorem load_usable_iff (inOrder : u.InOrder env) :
    ((∀ c, u ≠ plain .mmFifo c) → ∀ data u', Loads env keys values u data u' →
        (Usable env u u' ↔ FileFits env keys values u data)) ∧
      (keys.Closed → values.Closed → ∀ c, u = plain .mmFifo c →
        ((∀ data u', Loads env keys values u data u' → Usable env u u') ↔
          NeverOverfilled keys values c.mm)) := by
  refine ⟨fun links data u' loads => ?_, fun keysClosed valuesClosed c fifo => ?_⟩
  · obtain ⟨sec, limiterOver, returned⟩ := loads
    cases u with
    | plain strategy c =>
      obtain ⟨c', parsed, rfl, accepted, rebuilt⟩ := exists_rebuilt (returned.elim id id)
      have other : strategy ≠ .mmFifo := by
        rintro rfl
        exact links c rfl
      rw [usable_plain_iff (rebuildFromParsed_loaded other inOrder.1 rebuilt), FileFits,
        forall_ok_iff accepted]
    | striped d =>
      obtain ⟨d', parsed, rfl, accepted, loaded⟩ :=
        returned.elim (exists_shardsLoaded inOrder) (exists_shardsLoaded inOrder)
      rw [usable_striped_iff loaded, FileFits, forall_ok_iff accepted]
    | compact base store =>
      obtain ⟨base', parsed, rfl, accepted, rebuilt⟩ := exists_rebuilt (returned.elim id id)
      have loaded := rebuildFromParsed_loaded (by decide) inOrder rebuilt
      rw [usable_compact_iff loaded, FileFits, forall_ok_iff accepted]
    | compactStriped d store =>
      obtain ⟨d', parsed, rfl, accepted, loaded⟩ :=
        returned.elim (exists_shardsLoaded inOrder) (exists_shardsLoaded inOrder)
      rw [usable_compactStriped_iff loaded, FileFits, forall_ok_iff accepted]
  · subst fifo
    obtain ⟨wf, one⟩ := inOrder
    constructor
    · intro usable
      refine (fifo_load_le_iff keysClosed valuesClosed wf (one rfl) 0).mp fun data t returned => ?_
      have kept := usable data _ (loads_of_deserialize returned)
      exact (usable_fifo_iff wf returned).mp kept
    · rintro safe data u' ⟨sec, limiterOver, loads⟩
      obtain ⟨c', parsed, rfl, accepted, rebuilt⟩ := exists_rebuilt (loads.elim id id)
      have returned := deserialize_eq_returned.mpr ⟨parsed, accepted, rebuilt⟩
      exact (usable_fifo_iff wf returned).mpr
        ((fifo_load_le_iff keysClosed valuesClosed wf (one rfl) sec).mpr safe data c'.mm returned)

end Traits

section Samples

open Serde

def newLru : Unified UInt32 UInt32 1 := plain .mmLru { mm := newState }

/-- A new strategy object with room for one item. -/
def narrowState : State UInt32 UInt32 :=
  { newState with settings := { newState.settings with maxSize := 1 } }

def narrowLru : Unified UInt32 UInt32 1 := plain .mmLru { mm := narrowState }

def narrowFifo : Unified UInt32 UInt32 1 := plain .mmFifo { mm := narrowState }

def twoItemFile : List UInt8 :=
  serializeFromSnapshot word32 word32
    { type := .lru, items := [{ key := 1, value := 10 }, { key := 2, value := 20 }] }

/-- One item into a new cache, and any file into an `mm_fifo` without eviction predicate. -/
theorem sample_loads_usable :
    (∃ u', Loads wordEnv word32 word32 newLru oneItemFile u' ∧ Usable wordEnv newLru u') ∧
      ∀ data u', Loads wordEnv word32 word32 narrowFifo data u' → Usable wordEnv narrowFifo u' := by
  obtain ⟨t, returned⟩ : ∃ t, deserialize wordEnv .mmLru newState word32 word32 oneItemFile 0 =
      .returned t := by
    rw [deserialize, typeId, oneItemFile_parsed]
    exact ⟨_, applyConfig_eq_returned.mpr ⟨by decide +kernel, rfl, rfl⟩⟩
  have narrow : narrowFifo.InOrder wordEnv := ⟨newState_wf, fun _ _ _ => rfl⟩
  refine ⟨⟨_, loads_of_deserialize returned, ?_⟩, ?_⟩
  · have inOrder : newLru.InOrder wordEnv := ⟨newState_wf, by rintro ⟨⟩⟩
    refine ((load_usable_iff inOrder).1 (by rintro _ ⟨⟩) _ _
      (loads_of_deserialize returned)).mpr ?_
    intro parsed ok
    obtain rfl := Except.ok.inj (oneItemFile_parsed.symm.trans ok)
    exact ⟨⟨by decide, fun _ _ _ hi => absurd hi not_mem_nil⟩, by decide⟩
  · refine ((load_usable_iff narrow).2 trivial_closed trivial_closed _ rfl).mpr (.inr ?_)
    rintro ⟨items, length, -, -, -, vetoed⟩
    obtain ⟨first, second, rfl⟩ := length_eq_two.mp length
    have looked : min narrowState.settings.patience narrowState.settings.maxSize = 1 := by
      decide +kernel
    have inside : first ∈ [first, second].take
        (min narrowState.settings.patience narrowState.settings.maxSize) := by
      exact .head _
    cases vetoed first inside

/-- Two items under one key leave one that no lookup finds, and two items fill a cache with
room for one past its limit. -/
theorem hostile_loads_unusable :
    (∃ u', Loads wordEnv word32 word32 newLru repeatedKeyFile u' ∧ ¬ Usable wordEnv newLru u') ∧
      ∃ u', Loads wordEnv word32 word32 narrowLru twoItemFile u' ∧
        ¬ Usable wordEnv narrowLru u' := by
  have two : parseSerializedData word32 word32 .lru twoItemFile =
      .ok { items := [{ key := 1, value := 10 }, { key := 2, value := 20 }] } := by
    decide +kernel
  obtain ⟨t, rebuilt⟩ : ∃ t, rebuildFromParsed wordEnv .mmLru newState
      { items := [{ key := 1, value := 10 }, { key := 1, value := 20 }] } 0 = .returned t :=
    ⟨_, applyConfig_eq_returned.mpr ⟨by decide +kernel, rfl, rfl⟩⟩
  obtain ⟨v, filled⟩ : ∃ t, rebuildFromParsed wordEnv .mmLru narrowState
      { items := [{ key := 1, value := 10 }, { key := 2, value := 20 }] } 0 = .returned t :=
    ⟨_, applyConfig_eq_returned.mpr ⟨by decide +kernel, rfl, rfl⟩⟩
  refine ⟨⟨_, loads_of_deserialize
      (deserialize_eq_returned.mpr ⟨_, repeatedKeyFile_parsed, rebuilt⟩), ?_⟩,
    ⟨_, loads_of_deserialize (deserialize_eq_returned.mpr ⟨_, two, filled⟩), ?_⟩⟩
  · have loaded := rebuildFromParsed_loaded (by decide) newState_wf rebuilt
    intro usable
    obtain ⟨fresh, -⟩ := (usable_plain_iff loaded).mp usable
    exact absurd fresh.nodup (by decide)
  · have wf : narrowState.WellFormed wordEnv := newState_wf
    have loaded := rebuildFromParsed_loaded (by decide) wf filled
    intro usable
    obtain ⟨-, few⟩ := (usable_plain_iff loaded).mp usable
    exact absurd few (by decide)

end Samples

end Unified

end Lru
