import Mathlib.Algebra.Group.Nat.Defs
import Mathlib.Data.List.Basic
import Mathlib.Data.Set.Basic
import Mathlib.Logic.Function.Basic
import Mathlib.Logic.Nontrivial.Basic

/-!
# Replicas of hot keys

`hot_key_replica_manager` over a cache that is large enough not to evict: the value of a
registered key is also written under its replica keys, and a read goes to one of them. The
replica keys live in the same key space as all others. Reads see the latest write exactly
if the replica keys of the keys in use are distinct and none of them is in use itself.
-/

namespace Lru.Replica

open Function List

variable {K V : Type} {keys : Set K} {value : V}

/-- The fields of `config` that these calls read, with the transform as a function. -/
structure Config (K : Type) where
  replicaFactor : Nat
  maxReplicatedKeys : Nat
  replicaKey : K → Nat → K

/-- The manager with its cache. `metadata` has the replica count of each registered key. -/
structure Manager (K V : Type) where
  cache : K → Option V := fun _ => none
  metadata : List (K × Nat) := []

namespace Manager

variable [DecidableEq K] (cfg : Config K)

/-- Set (or, without a value, remove) the first `count` replicas one after the other. -/
def writeReplicas (cache : K → Option V) (key : K) (content : Option V) (count : Nat) :
    K → Option V :=
  (List.range count).foldl
    (fun cache i => update cache (cfg.replicaKey key i) content) cache

def casOne [DecidableEq V] (cache : K → Option V) (key : K) (expected desired : V) :
    Bool × (K → Option V) :=
  if cache key = some expected then (true, update cache key (some desired))
  else (false, cache)

/-- The loop of `replicated_cas` over the first `count` replicas. -/
def casReplicas [DecidableEq V] (start : Bool × (K → Option V)) (key : K) (expected desired : V)
    (count : Nat) : Bool × (K → Option V) :=
  (List.range count).foldl
    (fun acc i =>
      let swapped := casOne acc.2 (cfg.replicaKey key i) expected desired
      (acc.1 && swapped.1, swapped.2)) start

variable (m : Manager K V)

def registerHotKey (key : K) : Manager K V :=
  if (m.metadata.lookup key).isSome then m
  else if cfg.maxReplicatedKeys ≤ m.metadata.length then m
  else
    match m.cache key with
    | none => m -- not in cache: nothing to replicate
    | some value =>
      { cache := writeReplicas cfg m.cache key (some value) cfg.replicaFactor
        metadata := (key, cfg.replicaFactor) :: m.metadata }

def unregisterHotKey (key : K) : Manager K V :=
  match m.metadata.lookup key with
  | none => m
  | some count =>
    { cache := writeReplicas cfg m.cache key none count
      metadata := m.metadata.filter (·.1 ≠ key) }

/-- `replicated_get`; the random index is `draw` cut to the replica count. -/
def replicatedGet (key : K) (draw : Nat) : Option V :=
  match m.metadata.lookup key with
  | none => m.cache key
  | some count =>
    let idx := if 0 < count then draw % count else 0
    (m.cache (cfg.replicaKey key idx)).or (m.cache key)

def replicatedSet (key : K) (value : V) : Manager K V :=
  let written := update m.cache key (some value)
  match m.metadata.lookup key with
  | none => { m with cache := written }
  | some count => { m with cache := writeReplicas cfg written key (some value) count }

def replicatedCas [DecidableEq V] (key : K) (expected desired : V) : Bool × Manager K V :=
  let swapped := casOne m.cache key expected desired
  match m.metadata.lookup key with
  | none => (swapped.1, { m with cache := swapped.2 })
  | some count =>
    let all := casReplicas cfg swapped key expected desired count
    (all.1, { m with cache := all.2 })

end Manager

/-! ## Runs -/

/-- The calls of a run; reads change nothing. -/
inductive Op (K V : Type) where
  | registerHotKey (key : K)
  | unregisterHotKey (key : K)
  | replicatedSet (key : K) (value : V)
  | replicatedCas (key : K) (expected desired : V)

def Op.key : Op K V → K
  | .registerHotKey key | .unregisterHotKey key | .replicatedSet key _ | .replicatedCas key _ _ =>
    key

section Runs

variable [DecidableEq K] [DecidableEq V] (cfg : Config K)

def step (m : Manager K V) : Op K V → Manager K V
  | .registerHotKey key => m.registerHotKey cfg key
  | .unregisterHotKey key => m.unregisterHotKey cfg key
  | .replicatedSet key value => m.replicatedSet cfg key value
  | .replicatedCas key expected desired => (m.replicatedCas cfg key expected desired).2

def run (ops : List (Op K V)) : Manager K V := ops.foldl (step cfg) {}

/-- A plain map under the same calls: what was written last under each key. -/
def latestStep (latest : K → Option V) : Op K V → K → Option V
  | .replicatedSet key value => update latest key (some value)
  | .replicatedCas key expected desired =>
    if latest key = some expected then update latest key (some desired) else latest
  | _ => latest

def latest (ops : List (Op K V)) : K → Option V := ops.foldl latestStep fun _ => none

/-- Runs that use only these keys: every read returns the latest write, the replica keys are
distinct, and none of them is a registered key. -/
structure Isolated (V : Type) [DecidableEq V] (keys : Set K) : Prop where
  latest : ∀ ops : List (Op K V), (∀ op ∈ ops, op.key ∈ keys) → ∀ key ∈ keys, ∀ draw,
    (run cfg ops).replicatedGet cfg key draw = latest ops key
  distinct : ∀ key ∈ keys, ∀ other ∈ keys, ∀ i < cfg.replicaFactor, ∀ j < cfg.replicaFactor,
    cfg.replicaKey key i = cfg.replicaKey other j → key = other ∧ i = j
  apart : ∀ ops : List (Op K V), (∀ op ∈ ops, op.key ∈ keys) → ∀ key ∈ keys,
    ∀ i < cfg.replicaFactor, ∀ other, ((run cfg ops).metadata.lookup other).isSome →
    cfg.replicaKey key i ≠ other

/-- No replica key is itself in use; without replicas the first one is still read. -/
structure Apart (cfg : Config K) (keys : Set K) : Prop where
  replicas : ∀ key ∈ keys, ∀ i < cfg.replicaFactor, cfg.replicaKey key i ∉ keys
  first : cfg.replicaFactor = 0 → ∀ key ∈ keys, ∀ other ∈ keys, key ≠ other →
    cfg.replicaKey key 0 ≠ other

end Runs

/-! ## The table of registered keys -/

theorem lookup_cons [DecidableEq K] (key other : K) (count : Nat) (l : List (K × Nat)) :
    ((key, count) :: l).lookup other = if other = key then some count else l.lookup other := by
  rw [List.lookup_cons]
  by_cases same : other = key
  · simp [same]
  · simp [same, beq_eq_false_iff_ne.mpr same]

theorem lookup_filter [DecidableEq K] (key other : K) (l : List (K × Nat)) :
    (l.filter (·.1 ≠ key)).lookup other = if other = key then none else l.lookup other := by
  induction l with
  | nil => simp
  | cons entry rest ih =>
    obtain ⟨k, count⟩ := entry
    rw [lookup_cons]
    by_cases dropped : k = key
    · rw [filter_cons_of_neg (by simpa using dropped), ih]
      by_cases same : other = key
      · simp [same]
      · simp [same, dropped]
    · rw [filter_cons_of_pos (by simpa using dropped), lookup_cons, ih]
      by_cases same : other = key
      · simp [same, Ne.symm dropped]
      · simp [same]

/-! ## The loops over the replicas -/

namespace Manager

section Loops

variable [DecidableEq K] (cfg : Config K) (cache : K → Option V) (key x : K)

/-- The key is one of the first replica keys. -/
def IsReplica (count : Nat) : Prop := ∃ i < count, cfg.replicaKey key i = x

omit [DecidableEq K] in
theorem isReplica_succ (count : Nat) :
    IsReplica cfg key x (count + 1) ↔ IsReplica cfg key x count ∨ cfg.replicaKey key count = x :=
  Nat.exists_lt_succ_right

open Classical in
theorem writeReplicas_apply (content : Option V) (count : Nat) :
    writeReplicas cfg cache key content count x =
      if IsReplica cfg key x count then content else cache x := by
  induction count with
  | zero => simp [writeReplicas, IsReplica]
  | succ count ih =>
    rw [writeReplicas] at ih ⊢
    rw [range_succ, foldl_append, foldl_cons, foldl_nil, update_apply, isReplica_succ, ih]
    by_cases last : cfg.replicaKey key count = x
    · simp [last]
    · simp [last, Ne.symm last]

theorem casOne_apply [DecidableEq V] (expected desired : V) :
    (casOne cache key expected desired).2 x =
      if key = x ∧ cache x = some expected then some desired else cache x := by
  rw [casOne]
  by_cases here : key = x
  · subst here
    split
    case isTrue hit => simp [hit]
    case isFalse miss => simp [miss]
  · split
    case isTrue hit => simp [here, Ne.symm here]
    case isFalse miss => simp [here]

open Classical in
theorem casReplicas_apply [DecidableEq V] (start : Bool × (K → Option V)) (expected desired : V)
    (count : Nat) :
    (casReplicas cfg start key expected desired count).2 x =
      if IsReplica cfg key x count ∧ start.2 x = some expected then some desired
      else start.2 x := by
  induction count with
  | zero => simp [casReplicas, IsReplica]
  | succ count ih =>
    rw [casReplicas] at ih ⊢
    rw [range_succ, foldl_append, foldl_cons, foldl_nil]
    rw [casOne_apply, ih, isReplica_succ]
    -- A replica key that comes twice has been swapped already.
    by_cases earlier : IsReplica cfg key x count
    · by_cases hit : start.2 x = some expected
      · simp [earlier, hit]
      · simp [hit]
    · simp [earlier]

end Loops

end Manager

/-! ## The invariant -/

section Invariant

open Manager

variable [DecidableEq K] {cfg : Config K} {m : Manager K V} {current : K → Option V}

/-- Replica keys of different keys in use, or with different indices, are different. -/
def Distinct (cfg : Config K) (keys : Set K) : Prop :=
  ∀ key ∈ keys, ∀ other ∈ keys, ∀ i < cfg.replicaFactor, ∀ j < cfg.replicaFactor,
    cfg.replicaKey key i = cfg.replicaKey other j → key = other ∧ i = j

/-- Every key in use and every replica of a registered one holds the latest value. -/
structure Synced (cfg : Config K) (keys : Set K) (m : Manager K V) (current : K → Option V) :
    Prop where
  original : ∀ key ∈ keys, m.cache key = current key
  registered : ∀ key count, m.metadata.lookup key = some count →
    key ∈ keys ∧ count = cfg.replicaFactor ∧ 0 < cfg.maxReplicatedKeys
      ∧ (current key).isSome
      ∧ ∀ i < cfg.replicaFactor, m.cache (cfg.replicaKey key i) = current key
  unused : cfg.replicaFactor = 0 → ∀ key, key ∉ keys → m.cache key = none

/-- In a synced state every read returns the latest write. -/
theorem Synced.replicatedGet_eq (synced : Synced cfg keys m current)
    (apart : 0 < cfg.maxReplicatedKeys → Apart cfg keys) {key : K} (hk : key ∈ keys) {draw : Nat} :
    m.replicatedGet cfg key draw = current key := by
  rw [replicatedGet]
  cases registered : m.metadata.lookup key with
  | none => exact synced.original key hk
  | some count =>
    obtain ⟨-, rfl, enabled, written, replicas⟩ := synced.registered key count registered
    simp only
    by_cases some : 0 < cfg.replicaFactor
    · rw [if_pos some, replicas _ (Nat.mod_lt draw some)]
      obtain ⟨value, is⟩ := Option.isSome_iff_exists.mp written
      rw [is]
      rfl
    · -- Without replicas the first replica key is looked up all the same.
      have zero : cfg.replicaFactor = 0 := by omega
      rw [if_neg some]
      by_cases own : key = cfg.replicaKey key 0
      · rw [← own, synced.original key hk]
        cases current key <;> rfl
      · have outside : cfg.replicaKey key 0 ∉ keys := fun inside =>
          (apart enabled).first zero key hk _ inside own rfl
        rw [synced.unused zero _ outside]
        exact synced.original key hk

/-- The conditions under which the calls keep the replicas in step. -/
structure Separate (cfg : Config K) (keys : Set K) : Prop where
  distinct : Distinct cfg keys
  apart : 0 < cfg.maxReplicatedKeys → Apart cfg keys

variable (separate : Separate cfg keys) (synced : Synced cfg keys m current)
include separate synced

section Keys

variable {key : K} (hk : key ∈ keys)
include hk

/-- A value is written under a key in use and, if it is registered, under its replicas. -/
theorem Synced.write {cache : K → Option V} (original : cache key = some value)
    (replicas : ∀ count, m.metadata.lookup key = some count →
      ∀ i < cfg.replicaFactor, cache (cfg.replicaKey key i) = some value)
    (others : ∀ x, x ≠ key →
      (∀ count, m.metadata.lookup key = some count → ¬ IsReplica cfg key x cfg.replicaFactor) →
      cache x = m.cache x) :
    Synced cfg keys { m with cache := cache } (update current key (some value)) := by
  have beside {other : K} (ho : other ∈ keys) (ne : other ≠ key) : cache other = m.cache other := by
    refine others other ne fun count registered => ?_
    rintro ⟨i, hi, same⟩
    have enabled := (synced.registered key count registered).2.2.1
    exact (separate.apart enabled).replicas key hk i hi (same ▸ ho)
  constructor
  · intro other ho
    by_cases same : other = key
    · subst same
      rw [update_self]
      exact original
    · rw [update_of_ne same]
      exact (beside ho same).trans (synced.original other ho)
  · intro other count registered
    obtain ⟨ho, is, enabled, written, held⟩ := synced.registered other count registered
    refine ⟨ho, is, enabled, ?_, fun i hi => ?_⟩
    · by_cases same : other = key
      · simp [same]
      · rw [update_of_ne same]
        exact written
    · by_cases same : other = key
      · subst same
        rw [update_self]
        exact replicas count registered i hi
      · rw [update_of_ne same, ← held i hi]
        refine others _ ?_ fun _ _ => ?_
        · exact fun at_key => (separate.apart enabled).replicas other ho i hi (at_key ▸ hk)
        · rintro ⟨j, hj, collides⟩
          exact same (separate.distinct key hk other ho j hj i hi collides).1.symm
  · intro zero x outside
    have ne : x ≠ key := fun h => outside (h ▸ hk)
    refine (others x ne fun _ _ => ?_).trans (synced.unused zero x outside)
    rintro ⟨i, hi, -⟩
    omega

theorem Synced.replicatedSet :
    Synced cfg keys (m.replicatedSet cfg key value)
      (update current key (some value)) := by
  rw [Manager.replicatedSet]
  cases registered : m.metadata.lookup key with
  | none =>
    refine synced.write separate hk (update_self ..) ?_ fun x ne _ => ?_
    · intro count some
      rw [registered] at some
      cases some
    · exact update_of_ne ne _ _
  | some count =>
    obtain ⟨-, rfl, enabled, -⟩ := synced.registered key count registered
    refine synced.write separate hk ?_ (fun _ _ i hi => ?_) fun x ne apart => ?_
    · rw [writeReplicas_apply, update_self]
      split <;> rfl
    · rw [writeReplicas_apply, if_pos ⟨i, hi, rfl⟩]
    · rw [writeReplicas_apply, if_neg (apart _ registered), update_of_ne ne]

theorem Synced.replicatedCas [DecidableEq V] {expected desired : V} :
    Synced cfg keys (m.replicatedCas cfg key expected desired).2
      (latestStep current (.replicatedCas key expected desired)) := by
  have here := synced.original key hk
  have unswapped (miss : ¬ current key = some expected) :
      casOne m.cache key expected desired = (false, m.cache) := by
    rw [casOne, if_neg (here.trans_ne miss)]
  rw [latestStep, Manager.replicatedCas]
  cases registered : m.metadata.lookup key with
  | none =>
    simp only
    split
    case isTrue hit =>
      refine synced.write separate hk ?_ ?_ fun x ne _ => ?_
      · rw [casOne_apply, if_pos ⟨rfl, here.trans hit⟩]
      · intro count some
        rw [registered] at some
        cases some
      · rw [casOne_apply, if_neg fun h => ne h.1.symm]
    case isFalse miss =>
      rw [unswapped miss]
      exact synced
  | some count =>
    obtain ⟨-, rfl, enabled, -, held⟩ := synced.registered key count registered
    have outside {i : Nat} (hi : i < cfg.replicaFactor) : key ≠ cfg.replicaKey key i := fun same =>
      (separate.apart enabled).replicas key hk i hi (same ▸ hk)
    simp only
    split
    case isTrue hit =>
      refine synced.write separate hk ?_ (fun _ _ i hi => ?_) fun x ne apart => ?_
      · rw [casReplicas_apply, if_neg, casOne_apply, if_pos ⟨rfl, here.trans hit⟩]
        rintro ⟨⟨i, hi, same⟩, -⟩
        exact outside hi same.symm
      · have before : (casOne m.cache key expected desired).2 (cfg.replicaKey key i)
            = some expected := by
          rw [casOne_apply, if_neg fun h => outside hi h.1, held i hi, hit]
        rw [casReplicas_apply, if_pos ⟨⟨i, hi, rfl⟩, before⟩]
      · rw [casReplicas_apply, if_neg fun h => apart _ registered h.1, casOne_apply,
          if_neg fun h => ne h.1.symm]
    case isFalse miss =>
      have same : (casReplicas cfg (casOne m.cache key expected desired) key expected desired
          cfg.replicaFactor).2 = m.cache := by
        funext x
        rw [casReplicas_apply, unswapped miss, if_neg]
        rintro ⟨⟨i, hi, rfl⟩, hit⟩
        exact miss ((held i hi).symm.trans hit)
      rw [same]
      exact synced

/-- Writes to the replicas of one key leave the other keys and their replicas alone. -/
theorem Synced.writeReplicas (enabled : 0 < cfg.maxReplicatedKeys) {content : Option V}
    {metadata : List (K × Nat)} (entries : ∀ other count, metadata.lookup other = some count →
      other = key ∧ count = cfg.replicaFactor ∧ content = current key ∧ content.isSome ∨
        other ≠ key ∧ m.metadata.lookup other = some count) :
    Synced cfg keys
      { cache := Manager.writeReplicas cfg m.cache key content cfg.replicaFactor, metadata }
      current := by
  constructor
  · intro other ho
    refine Eq.trans ((writeReplicas_apply ..).trans (if_neg ?_)) (synced.original other ho)
    rintro ⟨i, hi, same⟩
    exact (separate.apart enabled).replicas key hk i hi (same ▸ ho)
  · intro other count registered
    obtain ⟨rfl, rfl, is, written⟩ | ⟨ne, before⟩ := entries other count registered
    · refine ⟨hk, rfl, enabled, is ▸ written, fun i hi => Eq.trans ?_ is⟩
      exact (writeReplicas_apply ..).trans (if_pos ⟨i, hi, rfl⟩)
    · obtain ⟨ho, is, -, written, held⟩ := synced.registered other count before
      refine ⟨ho, is, enabled, written, fun i hi => Eq.trans ?_ (held i hi)⟩
      refine (writeReplicas_apply ..).trans (if_neg ?_)
      rintro ⟨j, hj, collides⟩
      exact ne (separate.distinct key hk other ho j hj i hi collides).1.symm
  · intro zero x outside
    rw [zero]
    exact synced.unused zero x outside

theorem Synced.registerHotKey : Synced cfg keys (m.registerHotKey cfg key) current := by
  rw [Manager.registerHotKey]
  split
  · exact synced
  split
  · exact synced
  case isFalse room =>
  split
  · exact synced
  case h_2 value peeked =>
  refine synced.writeReplicas separate hk (by omega) fun other count registered => ?_
  rw [lookup_cons] at registered
  split at registered
  case isTrue same =>
    cases registered
    exact .inl ⟨same, rfl, peeked.symm.trans (synced.original key hk), rfl⟩
  case isFalse ne => exact .inr ⟨ne, registered⟩

theorem Synced.unregisterHotKey : Synced cfg keys (m.unregisterHotKey cfg key) current := by
  rw [Manager.unregisterHotKey]
  split
  · exact synced
  case h_2 count registered =>
  obtain ⟨-, rfl, enabled, -⟩ := synced.registered key count registered
  refine synced.writeReplicas separate hk enabled fun other count still => ?_
  rw [lookup_filter] at still
  split at still
  · cases still
  case isFalse ne => exact .inr ⟨ne, still⟩

end Keys

variable [DecidableEq V]

/-- One call on a key in use keeps the replicas in step. -/
theorem Synced.step {op : Op K V} (hk : op.key ∈ keys) :
    Synced cfg keys (step cfg m op) (latestStep current op) := by
  cases op with
  | registerHotKey key => exact synced.registerHotKey separate hk
  | unregisterHotKey key => exact synced.unregisterHotKey separate hk
  | replicatedSet key value => exact synced.replicatedSet separate hk
  | replicatedCas key expected desired => exact synced.replicatedCas separate hk

theorem Synced.foldl {ops : List (Op K V)} (used : ∀ op ∈ ops, op.key ∈ keys) :
    Synced cfg keys (ops.foldl (Replica.step cfg) m) (ops.foldl latestStep current) := by
  induction ops generalizing m current with
  | nil => exact synced
  | cons op rest ih =>
    exact ih (synced.step separate (used op (by simp))) fun x hx => used x (by simp [hx])

omit synced in
theorem run_synced {ops : List (Op K V)} (used : ∀ op ∈ ops, op.key ∈ keys) :
    Synced cfg keys (run cfg ops) (latest ops) := by
  have start : Synced cfg keys ({} : Manager K V) fun _ => none :=
    ⟨fun _ _ => rfl, fun _ _ some => by simp at some, fun _ _ _ => rfl⟩
  exact start.foldl separate used

end Invariant

/-! ## Isolation -/

section Isolation

variable [DecidableEq K] [DecidableEq V] (cfg : Config K)

/-- A key that is written can be registered, and is then routed to its replicas. -/
theorem run_register (ops : List (Op K V)) (key : K)
    (enabled : (run cfg ops).metadata.length < cfg.maxReplicatedKeys)
    (unregistered : (run cfg ops).metadata.lookup key = none)
    (written : (run cfg ops).cache key = some value) :
    (run cfg (ops ++ [.registerHotKey key])).metadata =
        (key, cfg.replicaFactor) :: (run cfg ops).metadata
      ∧ (run cfg (ops ++ [.registerHotKey key])).cache =
        Manager.writeReplicas cfg (run cfg ops).cache key (some value) cfg.replicaFactor := by
  have split : run cfg (ops ++ [.registerHotKey key]) = (run cfg ops).registerHotKey cfg key := by
    rw [run, foldl_append]
    rfl
  rw [split, Manager.registerHotKey, unregistered, written]
  simp [Nat.not_le.mpr enabled]

/-- The manager isolates the replicas of the keys in use exactly if the replica keys are
distinct and, when keys can be registered at all, none of them is in use. -/
theorem isolated_iff [Nontrivial V] {cfg : Config K} :
    Isolated cfg V keys ↔ Distinct cfg keys ∧ (cfg.maxReplicatedKeys = 0 ∨ Apart cfg keys) := by
  obtain ⟨a, b, ne⟩ := exists_pair_ne V
  constructor
  · intro isolated
    refine ⟨isolated.distinct, or_iff_not_imp_left.mpr fun enabled => ⟨?_, ?_⟩⟩
    · intro key hk i hi inside
      -- Write and register the key that is also a replica key.
      have registered := (run_register cfg [.replicatedSet (cfg.replicaKey key i) a]
        (cfg.replicaKey key i) (Nat.pos_of_ne_zero enabled) rfl (update_self ..)).1
      refine isolated.apart _ ?_ key hk i hi (cfg.replicaKey key i) (by
        rw [registered, lookup_cons, if_pos rfl]
        rfl) rfl
      simpa [Op.key] using inside
    · intro zero key hk other ho different same
      -- A registered key without replicas is read from the first replica key.
      let writes : List (Op K V) := [.replicatedSet key a, .replicatedSet other b]
      have cache : (run cfg writes).cache =
          update (update (fun _ => none) key (some a)) other (some b) := rfl
      have mine : (run cfg writes).cache key = some a := by
        rw [cache, update_of_ne different, update_self]
      obtain ⟨registered, after⟩ :=
        run_register cfg writes key (Nat.pos_of_ne_zero enabled) rfl mine
      have read := isolated.latest (writes ++ [.registerHotKey key])
        (by simp [writes, Op.key, hk, ho]) key hk 0
      rw [Manager.replicatedGet, registered, lookup_cons, if_pos rfl, after, zero] at read
      have theirs : Manager.writeReplicas cfg (run cfg writes).cache key (some a) 0
          (cfg.replicaKey key 0) = some b := by
        rw [same]
        show (run cfg writes).cache other = some b
        rw [cache, update_self]
      have last : latest (writes ++ [.registerHotKey key]) key = some a := by
        have map : latest (writes ++ [.registerHotKey key]) =
            update (update (fun _ => none) key (some a)) other (some b) := rfl
        rw [map, update_of_ne different, update_self]
      rw [last] at read
      simp only [Nat.lt_irrefl, if_false, theirs] at read
      exact ne (Option.some.inj read).symm
  · rintro ⟨distinct, apart⟩
    have separate : Separate cfg keys := ⟨distinct, fun enabled => apart.resolve_left (by omega)⟩
    refine ⟨fun ops used key hk draw => ?_, distinct,
      fun ops used key hk i hi other registered => ?_⟩
    · exact (run_synced separate used).replicatedGet_eq separate.apart hk
    · obtain ⟨count, is⟩ := Option.isSome_iff_exists.mp registered
      obtain ⟨ho, -, enabled, -⟩ := (run_synced separate used).registered other count is
      exact fun same => (separate.apart enabled).replicas key hk i hi (same ▸ ho)

end Isolation

end Lru.Replica
