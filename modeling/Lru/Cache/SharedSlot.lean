import Lru.Cache.Unified
import Lru.Mm.Reads

/-!
# `get_shared_cached`

A thread keeps one copied value for each pair of key and value types. The copy is
taken by `get_shared_cached` and returned again for the same key, by every cache
with these types. No write, removal, expiry or shutdown touches it. A run of a
thread over its caches is therefore right as long as each call that finds a copy is
made on the cache it was taken from, before anything is done to its item.
-/

namespace Lru

open Mm (State Env Strategy)

/-- `tls_shared_cache<Key, Value>`, the slot of one thread. -/
structure SharedSlot (K V : Type) where
  key : K
  ptr : Option V := none

/-- The copy that the slot holds for the key. -/
def SharedSlot.lookup {K V : Type} [DecidableEq K] (slot : SharedSlot K V) (key : K) : Option V :=
  if slot.key = key then slot.ptr else none

namespace Unified

variable {K V : Type} {n : Nat} [NeZero n] [DecidableEq K]

/-- `get_shared` of a striped cache reads the shard of the key. -/
def stripedGetShared (env : Env K V) (c : Striped K V n) (key : K) (a : Ambient K) :
    Option V × Striped K V n :=
  let i := c.mm.shardFor env key
  let (value, shard) := Cache.getShared env { closed := c.closed, mm := c.mm.shards i } key a
  (value, { c with mm := c.mm.modifyShard i fun _ => shard.mm })

/-- `get_shared`. It has no branch for the compact store. -/
def getShared (env : Env K V) (u : Unified K V n) (key : K) (a : Ambient K) :
    Option V × Unified K V n :=
  match u with
  | plain strategy c => (c.getShared env key a).map id (plain strategy)
  | striped c => (stripedGetShared env c key a).map id striped
  | compact base store => (base.getShared env key a).map id fun base => compact base store
  | compactStriped base store =>
    (stripedGetShared env base key a).map id fun base => compactStriped base store

/-- `get_shared_cached` with the slot of the calling thread. -/
def getSharedCached (env : Env K V) (u : Unified K V n) (slot : SharedSlot K V) (key : K)
    (a : Ambient K) : Option V × Unified K V n × SharedSlot K V :=
  match slot.lookup key with
  | some value => (some value, u, slot)
  | none =>
    match u.getShared env key a with
    | (some value, u) => (some value, u, { key := key, ptr := some value })
    | (none, u) => (none, u, slot)

/-! ## What `get_shared` answers -/

section Answers

variable (env : Env K V) (u : Unified K V n) (key : K) (nowNs : Nat)

def closed : Bool :=
  match u with
  | plain _ c | compact c _ => c.closed
  | striped c | compactStriped c _ => c.closed

/-- The strategy object that a key belongs to; on the compact traits the one behind the
store. -/
def behind : State K V :=
  match u with
  | plain _ c | compact c _ => c.mm
  | striped c | compactStriped c _ => c.mm.shards (c.mm.shardFor env key)

def answer : Option V := if u.closed then none else (u.behind env key).shown env key nowNs

end Answers

omit [DecidableEq K] in
theorem noteMiss_quiet (c : Cache K V) (key : K) : Mm.Quiet c.mm (c.noteMiss key).mm := by
  refine Mm.Quiet.trans ?_ (.collect rfl)
  exact .modifyStats fun _ => rfl

omit [DecidableEq K] in
theorem noteHit_quiet (c : Cache K V) (key : K) (i : Mm.ItemId) :
    Mm.Quiet c.mm (c.noteHit key i).mm := by
  refine Mm.Quiet.trans ?_ (.collect rfl)
  exact .modifyStats fun _ => rfl

omit [DecidableEq K] in
theorem collect_bucketOf (s : State K V) (e : Mm.Event K V) :
    (s.collect e).bucketOf = s.bucketOf := by
  rw [State.collect]
  split <;> rfl

theorem peekForGet_bucketOf (env : Env K V) (s : State K V) (key : K) (nowNs : Nat) :
    (s.peekForGet env key nowNs).2.bucketOf = s.bucketOf := by
  have checked (s : State K V) (i : Mm.ItemId) :
      (s.checkExpiry i key nowNs true).2.bucketOf = s.bucketOf := by
    unfold State.checkExpiry
    split
    · rfl
    · dsimp only
      split
      · rfl
      · exact collect_bucketOf _ _
  rw [State.peekForGet, State.findAndPin]
  split
  case h_1 missed =>
    split at missed
    · cases missed; rfl
    · split at missed <;> cases missed
      rfl
  case h_2 i t pinned =>
    have same : t.bucketOf = s.bucketOf := by
      split at pinned
      · cases pinned
      · split at pinned <;> cases pinned
        rfl
    have after := (checked t i).trans same
    split <;> simp_all

theorem getShared_bucketOf (env : Env K V) (c : Cache K V) (key : K) (a : Ambient K) :
    (c.getShared env key a).2.mm.bucketOf = c.mm.bucketOf := by
  have read := peekForGet_bucketOf env c.mm key a.nowNs
  rw [Cache.getShared]
  split
  · rfl
  · split
    case h_1 mm missed =>
      rw [missed] at read
      exact (collect_bucketOf _ _).trans read
    case h_2 i mm pinned =>
      rw [pinned] at read
      exact (collect_bucketOf _ _).trans read

/-- `get_shared` copies the value that the strategy shows, under a handle that it
releases again. -/
theorem cacheGetShared_spec (env : Env K V) (c : Cache K V) (key : K) (a : Ambient K) :
    (c.getShared env key a).1 = (if c.closed then none else c.mm.shown env key a.nowNs) ∧
      (c.getShared env key a).2.closed = c.closed ∧
      Mm.Quiet c.mm (c.getShared env key a).2.mm := by
  rw [Cache.getShared]
  split
  · exact ⟨rfl, rfl, .refl⟩
  obtain ⟨hidden, missed, quiet⟩ | ⟨i, -, shows, pinned, quiet⟩ :=
    Mm.peekForGet_cases env c.mm key a.nowNs
  · rw [hidden]
    split
    case h_1 mm read =>
      rw [read] at quiet
      exact ⟨rfl, rfl, quiet.trans (noteMiss_quiet { c with mm := mm } key)⟩
    case h_2 i mm read =>
      rw [read] at missed
      cases missed
  · rw [shows]
    split
    case h_1 mm read =>
      rw [read] at pinned
      cases pinned
    case h_2 j mm read =>
      rw [read] at pinned quiet
      obtain rfl : j = i := Option.some.inj pinned
      have stored := congrArg Mm.Body.value (quiet.body_eq j)
      refine ⟨by simpa [Cache.noteHit, State.modifyStats, State.incRef, State.modify] using stored,
        rfl, .pinned (quiet.trans (noteHit_quiet { c with mm := mm } key j))⟩

theorem getShared_fst (env : Env K V) (u : Unified K V n) (key : K) (a : Ambient K) :
    (u.getShared env key a).1 = u.answer env key a.nowNs := by
  cases u with
  | plain strategy c => exact (cacheGetShared_spec env c key a).1
  | striped c => exact (cacheGetShared_spec env _ key a).1
  | compact base store => exact (cacheGetShared_spec env base key a).1
  | compactStriped base store => exact (cacheGetShared_spec env _ key a).1

/-! ## Coherence -/

section Coherence

variable (env : Env K V) (u : Unified K V n) (key : K)

/-- `get_shared_cached` returns nothing iff `get_shared` would, and otherwise the value
that the cache stores. -/
def Coherent (slot : SharedSlot K V) (a : Ambient K) : Prop :=
  ((u.getSharedCached env slot key a).1 = none ↔ (u.getShared env key a).1 = none) ∧
    ∀ value, (u.getSharedCached env slot key a).1 = some value → u.value env key = some value

/-- What `get_shared` finds behind a compact store is what the store holds. -/
def StoreAgrees (nowNs : Nat) : Prop :=
  ∀ value, u.answer env key nowNs = some value → u.value env key = some value

/-- The value of the key's item, its expiry and whether it can take a handle. -/
def itemOf (s : State K V) (key : K) : Option (V × Nat × Bool) :=
  (s.find env key).map fun i => ((s.heap i).value, (s.heap i).expiryNs, (s.heap i).canPin)

/-- An operation that makes `u` into `u'` neither shuts the cache down nor writes,
removes, evicts or pins up the item of the key. -/
structure Keeps (u' : Unified K V n) : Prop where
  closed_eq : u'.closed = u.closed
  value_eq : u'.value env key = u.value env key
  item_eq : itemOf env (u'.behind env key) key = itemOf env (u.behind env key) key

variable {env u key} {slot : SharedSlot K V} {a : Ambient K}

theorem getSharedCached_of_miss (missed : slot.lookup key = none) :
    (u.getSharedCached env slot key a).1 = (u.getShared env key a).1 := by
  rw [getSharedCached, missed]
  cases u.getShared env key a with
  | mk value after => cases value <;> rfl

theorem getSharedCached_of_hit {value : V} (copied : slot.lookup key = some value) :
    u.getSharedCached env slot key a = (some value, u, slot) := by
  rw [getSharedCached, copied]

end Coherence

/-! ## Reads keep every item -/

section Reads

variable {env : Env K V} {u : Unified K V n} {key other : K} {a : Ambient K}

theorem quiet_find {s t : State K V} (same : Mm.Quiet s t) (buckets : t.bucketOf = s.bucketOf) :
    t.find env key = s.find env key := by
  have stops : t.stopsAt env key = s.stopsAt env key := by
    funext i
    simp only [State.stopsAt, buckets, same.body_eq i]
  rw [State.find, State.find, stops, same.table_eq]

theorem quiet_itemOf {s t : State K V} (same : Mm.Quiet s t) (buckets : t.bucketOf = s.bucketOf) :
    itemOf env t key = itemOf env s key := by
  rw [itemOf, itemOf, quiet_find same buckets]
  refine congrArg (Option.map · _) (funext fun i => ?_)
  simp only [same.body_eq i]

theorem valueIn_eq_itemOf (s : State K V) : valueIn env s key = (itemOf env s key).map (·.1) := by
  rw [valueIn, itemOf, Option.map_map]
  rfl

/-- `get_shared` keeps the item of every key. -/
theorem getShared_keeps (env : Env K V) (u : Unified K V n) (key other : K) (a : Ambient K) :
    u.Keeps env other (u.getShared env key a).2 := by
  have kept (c : Cache K V) : itemOf env (c.getShared env key a).2.mm other =
      itemOf env c.mm other :=
    quiet_itemOf (cacheGetShared_spec env c key a).2.2 (getShared_bucketOf env c key a)
  have keptShard (c : Striped K V n) :
      itemOf env ((stripedGetShared env c key a).2.mm.shards (c.mm.shardFor env other)) other =
        itemOf env (c.mm.shards (c.mm.shardFor env other)) other := by
    rw [stripedGetShared]
    by_cases same : c.mm.shardFor env other = c.mm.shardFor env key
    · simp only [Mm.ShardedMmLru.modifyShard, same, Function.update_self]
      exact kept _
    · simp only [Mm.ShardedMmLru.modifyShard, Function.update_of_ne same]
  cases u with
  | plain strategy c =>
    refine ⟨(cacheGetShared_spec env c key a).2.1, ?_, kept c⟩
    exact (valueIn_eq_itemOf _).trans ((congrArg _ (kept c)).trans (valueIn_eq_itemOf _).symm)
  | striped c =>
    refine ⟨rfl, ?_, keptShard c⟩
    exact (valueIn_eq_itemOf _).trans ((congrArg _ (keptShard c)).trans (valueIn_eq_itemOf _).symm)
  | compact base store => exact ⟨(cacheGetShared_spec env base key a).2.1, rfl, kept base⟩
  | compactStriped base store => exact ⟨rfl, rfl, keptShard base⟩

variable (env u key) in
/-- The cache is open, stores the value and has it in an item that takes handles. -/
structure Holds (value : V) : Prop where
  isOpen : u.closed = false
  stored : u.value env key = some value
  item : ∃ expiryNs, itemOf env (u.behind env key) key = some (value, expiryNs, true)

theorem Holds.of_keeps {u' : Unified K V n} {value : V} (kept : u.Keeps env key u')
    (holds : u.Holds env key value) : u'.Holds env key value :=
  ⟨kept.closed_eq.trans holds.isOpen, kept.value_eq.trans holds.stored,
    kept.item_eq ▸ holds.item⟩

/-- A cache that answers with the value of its store holds it. -/
theorem holds_of_answer {nowNs : Nat} {value : V} (answered : u.answer env key nowNs = some value)
    (agrees : u.StoreAgrees env key nowNs) : u.Holds env key value := by
  have stored := agrees value answered
  rw [answer, Option.ite_none_left_eq_some] at answered
  obtain ⟨isOpen, shows⟩ := answered
  refine ⟨by simpa using isOpen, stored, ?_⟩
  rw [State.shown] at shows
  cases found : (u.behind env key).find env key with
  | none => simp [found] at shows
  | some i =>
    simp only [found, Option.ite_none_right_eq_some, Bool.and_eq_true, Option.some.injEq] at shows
    obtain ⟨⟨pins, -⟩, rfl⟩ := shows
    exact ⟨_, by simp [itemOf, found, pins]; rfl⟩

theorem Holds.answer_eq {value : V} (holds : u.Holds env key value) {nowNs : Nat}
    (live : (u.behind env key).live env key nowNs = true) :
    u.answer env key nowNs = some value := by
  obtain ⟨expiryNs, item⟩ := holds.item
  rw [answer, holds.isOpen, State.shown]
  rw [State.live] at live
  cases found : (u.behind env key).find env key with
  | none => simp [found] at live
  | some i => simp_all [itemOf]

end Reads

end Unified

/-! ## Runs of one thread -/

/-- The caches of one pair of types that a thread uses, and its slot. -/
structure Thread (ι K V : Type) (n : Nat) where
  caches : ι → Unified K V n
  slot : SharedSlot K V

namespace Thread

variable {ι K V : Type} {n : Nat} [DecidableEq ι] [DecidableEq K] [NeZero n]

inductive Op (ι K V : Type) (n : Nat) where
  | getSharedCached (i : ι) (key : K) (a : Ambient K)
  /-- Any other operation of a cache, given by what it makes of the cache. -/
  | other (i : ι) (apply : Unified K V n → Unified K V n)

section Runs

variable (env : Env K V)

def step (t : Thread ι K V n) : Op ι K V n → Thread ι K V n
  | .getSharedCached i key a =>
    let (_, u, slot) := (t.caches i).getSharedCached env t.slot key a
    { caches := Function.update t.caches i u, slot := slot }
  | .other i apply => { t with caches := Function.update t.caches i (apply (t.caches i)) }

def run (t : Thread ι K V n) (ops : List (Op ι K V n)) : Thread ι K V n := ops.foldl (step env) t

/-- The caches whose own item the slot copies, after one more operation. A call that
takes a copy leaves only its cache, and a cache is left out once the item has been
written, removed or evicted there, or the cache was shut down. -/
def ownersAfter (t : Thread ι K V n) (owners : Set ι) : Op ι K V n → Set ι
  | .getSharedCached i key a =>
    { j | if t.slot.lookup key = none ∧ (t.caches i).answer env key a.nowNs ≠ none then j = i
      else j ∈ owners }
  | .other i apply =>
    { j | j ∈ owners ∧ (j = i → (t.caches i).Keeps env t.slot.key (apply (t.caches i))) }

/-- A `get_shared_cached` that finds no copy of its key reads a cache whose store agrees
with the strategy behind it. One that finds a copy is made on the cache of the copied
item, which has not expired. -/
def Serves (t : Thread ι K V n) (owners : Set ι) : Op ι K V n → Prop
  | .getSharedCached i key a =>
    (t.slot.lookup key = none → (t.caches i).StoreAgrees env key a.nowNs) ∧
      (t.slot.lookup key ≠ none → i ∈ owners ∧
        ((t.caches i).behind env key).live env key a.nowNs = true)
  | .other _ _ => True

/-- Every call of the run is of this kind. -/
def Careful : Thread ι K V n → Set ι → List (Op ι K V n) → Prop
  | _, _, [] => True
  | t, owners, op :: rest =>
    t.Serves env owners op ∧ Careful (t.step env op) (t.ownersAfter env owners op) rest

/-- The slot copies what its owners hold. -/
def Owned (t : Thread ι K V n) (owners : Set ι) : Prop :=
  ∀ i ∈ owners, ∀ value, t.slot.ptr = some value → (t.caches i).Holds env t.slot.key value

end Runs

variable {env : Env K V} {t : Thread ι K V n} {owners : Set ι}

theorem lookup_eq_some {slot : SharedSlot K V} {key : K} {value : V}
    (copied : slot.lookup key = some value) : slot.key = key ∧ slot.ptr = some value := by
  simpa [SharedSlot.lookup] using copied

/-- A changed cache stays an owner if it keeps the copied item. -/
theorem Owned.update {i : ι} {u : Unified K V n} {kept : Set ι} (owned : t.Owned env owners)
    (fewer : ∀ j ∈ kept, j ∈ owners ∧ (j = i → (t.caches i).Keeps env t.slot.key u)) :
    Owned env { t with caches := Function.update t.caches i u } kept := by
  intro j hj value copied
  obtain ⟨member, keeps⟩ := fewer j hj
  have held := owned j member value copied
  by_cases same : j = i
  · subst same
    simpa using held.of_keeps (keeps rfl)
  · simpa [Function.update_of_ne same] using held

theorem Owned.step {op : Op ι K V n} (owned : t.Owned env owners)
    (serves : t.Serves env owners op) :
    (t.step env op).Owned env (t.ownersAfter env owners op) := by
  cases op with
  | other i apply => exact owned.update fun j hj => hj
  | getSharedCached i key a =>
    cases copied : t.slot.lookup key with
    | some value =>
      -- The copy is returned and nothing else happens.
      have unchanged : t.step env (.getSharedCached i key a) = t := by
        simp [Thread.step, Unified.getSharedCached_of_hit copied]
      simpa [unchanged, ownersAfter, copied] using owned
    | none =>
      have agrees := serves.1 copied
      have first := Unified.getShared_fst env (t.caches i) key a
      have keeps := Unified.getShared_keeps env (t.caches i) key
      cases read : (t.caches i).getShared env key a with
      | mk found u =>
      cases found with
      | none =>
        have missed : (t.caches i).answer env key a.nowNs = none := by rw [← first, read]
        have after : t.step env (.getSharedCached i key a) =
            { t with caches := Function.update t.caches i u } := by
          simp [Thread.step, Unified.getSharedCached, copied, read]
        rw [after]
        refine owned.update fun j hj => ⟨by simpa [ownersAfter, missed] using hj, fun _ => ?_⟩
        simpa [read] using keeps t.slot.key a
      | some value =>
        have answered : (t.caches i).answer env key a.nowNs = some value := by rw [← first, read]
        have after : t.step env (.getSharedCached i key a) =
            ⟨Function.update t.caches i u, { key := key, ptr := some value }⟩ := by
          simp [Thread.step, Unified.getSharedCached, copied, read]
        rw [after]
        intro j hj other same
        obtain rfl : j = i := by simpa [ownersAfter, copied, answered] using hj
        obtain rfl : value = other := Option.some.inj same
        have held := Unified.holds_of_answer answered agrees
        simpa [read] using held.of_keeps (keeps key a)

omit [DecidableEq ι] in
/-- One call of this kind is answered rightly. -/
theorem Owned.coherent {i : ι} {key : K} {a : Ambient K} (owned : t.Owned env owners)
    (serves : t.Serves env owners (.getSharedCached i key a)) :
    (t.caches i).Coherent env key t.slot a := by
  cases copied : t.slot.lookup key with
  | none =>
    rw [Unified.Coherent, Unified.getSharedCached_of_miss copied, Unified.getShared_fst]
    exact ⟨Iff.rfl, serves.1 copied⟩
  | some value =>
    obtain ⟨rfl, taken⟩ := lookup_eq_some copied
    obtain ⟨owner, live⟩ := serves.2 (by simp [copied])
    have held := owned i owner value taken
    rw [Unified.Coherent, Unified.getSharedCached_of_hit copied, Unified.getShared_fst,
      held.answer_eq live]
    exact ⟨by simp, fun _ same => held.stored.trans same⟩

theorem coherent_of_owned (ops : List (Op ι K V n)) (owned : t.Owned env owners)
    (careful : t.Careful env owners ops) {before after : List (Op ι K V n)} {i : ι} {key : K}
    {a : Ambient K} (split : ops = before ++ .getSharedCached i key a :: after) :
    ((t.run env before).caches i).Coherent env key (t.run env before).slot a := by
  induction before generalizing t owners ops with
  | nil =>
    subst split
    exact owned.coherent careful.1
  | cons op before ih =>
    subst split
    exact ih _ (owned.step careful.1) careful.2 rfl

/-- Whatever the slot copies at first and whatever the other operations do, each
`get_shared_cached` of a careful run is answered with what its cache stores. -/
theorem careful_run_coherent (env : Env K V) (t : Thread ι K V n) (ops : List (Op ι K V n))
    (careful : t.Careful env ∅ ops) (before after : List (Op ι K V n)) (i : ι) (key : K)
    (a : Ambient K) (split : ops = before ++ .getSharedCached i key a :: after) :
    ((t.run env before).caches i).Coherent env key (t.run env before).slot a :=
  coherent_of_owned ops (fun _ none => none.elim) careful split

section Samples

open Mm.Strategy (intEnv)

/-- Two empty caches, and the slot of a thread that has not called `get_shared_cached`. -/
def twoCaches : Thread Bool Nat Nat 2 where
  caches _ := .plain .mmLru { mm := State.empty (fun _ => default) {} {} 0 }
  slot := { key := 0 }

def setOp (i : Bool) (key value : Nat) : Op Bool Nat Nat 2 :=
  .other i fun u => (u.set intEnv key value {}).2

def readOp (i : Bool) (key : Nat) : Op Bool Nat Nat 2 := .getSharedCached i key {}

/-- Between two reads of key 1 of the first cache it is given another key, and the
second cache the same key. -/
def spacedReads : List (Op Bool Nat Nat 2) :=
  [setOp true 1 10, readOp true 1, setOp true 2 20, setOp false 1 30, readOp true 1]

/-- The second read finds the copy, and it is the stored value. -/
theorem second_read_coherent :
    (twoCaches.run intEnv (spacedReads.take 4)).slot.lookup 1 = some 10 ∧
      ((twoCaches.run intEnv (spacedReads.take 4)).caches true).Coherent intEnv 1
        (twoCaches.run intEnv (spacedReads.take 4)).slot {} := by
  refine ⟨rfl, careful_run_coherent intEnv twoCaches spacedReads ?_ (spacedReads.take 4) [] true 1
    {} rfl⟩
  refine ⟨trivial, ⟨fun _ => ?_, fun copied => absurd rfl copied⟩, trivial, trivial,
    ⟨fun missed => absurd missed (by decide), fun _ => ⟨?_, rfl⟩⟩, trivial⟩
  · intro value shows
    exact shows
  · exact ⟨⟨rfl, fun _ => ⟨rfl, rfl, rfl⟩⟩, fun same => absurd same (by decide)⟩

/-- After the overwriting `set` the copy is returned for it, and also by the other cache,
which never held the key. -/
theorem copy_outlives_write :
    let t := twoCaches.run intEnv [setOp true 1 10, readOp true 1, setOp true 1 20]
    (t.caches true).value intEnv 1 = some 20 ∧
      ((t.caches true).getSharedCached intEnv t.slot 1 {}).1 = some 10 ∧
      ((t.caches false).getShared intEnv 1 {}).1 = none ∧
      ((t.caches false).getSharedCached intEnv t.slot 1 {}).1 = some 10 ∧
      ¬ (t.caches true).Coherent intEnv 1 t.slot {} ∧
      ¬ (t.caches false).Coherent intEnv 1 t.slot {} := by
  refine ⟨rfl, rfl, rfl, rfl, ?_, ?_⟩
  · rintro ⟨-, right⟩
    exact absurd (right 10 rfl) (by decide)
  · rintro ⟨nothing, -⟩
    exact absurd (nothing.mpr rfl) (by decide)

end Samples

end Thread

end Lru
