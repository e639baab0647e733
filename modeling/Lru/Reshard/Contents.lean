import Lru.Reshard.Copy

/-!
# What a resharded cache keeps

The clone has the unexpired items of the old cache, with their expiries and in their
order, exactly if all of them are in the first shard, none has a TTL, and the copy
brings one item at most into every new shard.
-/

namespace Lru.Reshard

variable {K V : Type} {m n now key : Nat}

open Mm State ShardedMmLru List

/-! ## The property -/

/-- Some shard links an item with this content that has not expired. -/
def Stores (mm : ShardedMmLru K V n) (now : Nat) (key : K) (value : V) (expiryNs : Nat) : Prop :=
  ∃ j, ∃ i ∈ (mm.shards j).table, ((mm.shards j).heap i).key = key ∧
    ((mm.shards j).heap i).value = value ∧ ((mm.shards j).heap i).expiryNs = expiryNs ∧
    ((mm.shards j).heap i).isExpired now = false

/-- The keys of a shard, the most recent one first. -/
def recency (mm : ShardedMmLru K V n) (j : Fin n) : List K :=
  ((mm.shards j).sequence 0).map Prod.fst

/-- The new cache has the unexpired contents of the old one, and two items that share
a shard in both keep their order. -/
structure Preserves (old : ShardedMmLru K V m) (new : ShardedMmLru K V n) (now : Nat) : Prop where
  contents : ∀ key value expiryNs,
    Stores old now key value expiryNs ↔ Stores new now key value expiryNs
  order : ∀ i j first second, [first, second].Sublist (recency old i) →
    first ∈ recency new j → second ∈ recency new j → [first, second].Sublist (recency new j)

section Clone

variable [DecidableEq K] (env : Env K V) (o : Surroundings K V)

/-- The pairs that the copy brings into one shard of the new cache, in this order. -/
def copiesTo [NeZero m] [NeZero n] (old : Striped K V m)
    (j : Fin (makeShardedConfigForStripes n n)) : List (K × V) :=
  match construct o old.mm.maxSize n n with
  | .ok c => (copied env o c (rbegin old.mm)).filter fun p => shardOf env p.1 = j
  | .error _ => []

/-- One copy at most goes to each new shard, unless the cache is for one item, and the
last ones are exactly the unexpired items of the old cache, none of them with a TTL. -/
structure Reshardable [NeZero m] (old : Striped K V m) (n : Nat) [NeZero n] (now : Nat) :
    Prop where
  alone : ∀ j : Fin (makeShardedConfigForStripes n n),
    (copiesTo env o old j).length ≤ 1 ∨ old.mm.maxSize = 1
  unexpired : ∀ key value expiryNs, Stores old.mm now key value expiryNs ↔
    expiryNs = 0 ∧ ∃ j : Fin (makeShardedConfigForStripes n n),
      (copiesTo env o old j).getLast? = some (key, value)

end Clone

/-! ## The new shards -/

section Shards

variable {quota : Nat} {copies l : List (K × V)}

/-- A list of distinct keys has one pair at most if one was copied or the quota is one. -/
theorem Filled.length_le_one_iff (filled : Filled quota copies l)
    (nodup : (l.map Prod.fst).Nodup) : l.length ≤ 1 ↔ copies.length ≤ 1 ∨ quota = 1 := by
  refine ⟨filled.single, ?_⟩
  rintro (few | one)
  · exact ((subperm_of_subset (.of_map _ nodup) filled.subset).length_le).trans few
  · exact filled.short one

/-- A single pair is the one that was copied last. -/
theorem Filled.mem_iff (filled : Filled quota copies l) (single : l.length ≤ 1) {p : K × V} :
    p ∈ l ↔ copies.getLast? = some p := by
  rw [← filled.head_eq]
  cases l with
  | nil => simp
  | cons q rest =>
    have none : rest = [] := by
      rw [length_cons] at single
      exact length_eq_zero_iff.mp (by omega)
    rw [none, mem_singleton, head?_cons, Option.some.injEq]
    exact eq_comm

/-- The first two pairs were copied the other way round. -/
theorem Filled.reversed {x y : K × V} {rest : List (K × V)}
    (filled : Filled quota copies (y :: x :: rest))
    (nodup : ((y :: x :: rest).map Prod.fst).Nodup) : [x, y].Sublist copies := by
  obtain ⟨before, rfl⟩ : ∃ before, copies = before ++ [y] :=
    getLast?_eq_some_iff.mp filled.head_eq.symm
  have other : x ≠ y := by
    rintro rfl
    simp at nodup
  have mem : x ∈ before := by
    have both := filled.subset (.tail _ (.head _))
    simpa [other] using both
  exact (singleton_sublist.mpr mem).append (.refl [y])

variable [NeZero n] {env : Env K V} {maxSize : Nat} {quotas : Fin n → Nat}
  {done : List (K × V)} {c : Striped K V n}

theorem Copying.stores_iff (copying : Copying env maxSize quotas done c) {key : K}
    {value : V} {expiryNs : Nat} : Stores c.mm now key value expiryNs ↔
      expiryNs = 0 ∧ ∃ j, (key, value) ∈ (c.mm.shards j).sequence 0 := by
  constructor
  · rintro ⟨j, i, hi, rfl, rfl, rfl, -⟩
    have plain := copying.plain j
    have linked := (plain.oneList.mem_table_iff plain.wf).mp hi
    exact ⟨plain.endless i hi, j, mem_map_of_mem linked⟩
  · rintro ⟨rfl, j, hp⟩
    have plain := copying.plain j
    obtain ⟨i, hi, pair⟩ := mem_map.mp hp
    cases pair
    have linked := (plain.oneList.mem_table_iff plain.wf).mpr hi
    have endless := plain.endless i linked
    exact ⟨j, i, linked, rfl, rfl, endless, by simp [Body.isExpired, endless]⟩

theorem Copying.nodup (copying : Copying env maxSize quotas done c) (j : Fin n) :
    (recency c.mm j).Nodup :=
  sequence_keys_nodup (copying.plain j).wf 0

/-- Two items in one new shard are never in their old order. -/
theorem Copying.order_iff [NeZero m] {old : ShardedMmLru K V m}
    (copying : Copying env maxSize quotas done c) (wf : ∀ i, (old.shards i).WellFormed env)
    (source : done.Sublist (rbegin old)) :
    (∀ i j first second, [first, second].Sublist (recency old i) → first ∈ recency c.mm j →
        second ∈ recency c.mm j → [first, second].Sublist (recency c.mm j)) ↔
      ∀ j, ((c.mm.shards j).sequence 0).length ≤ 1 := by
  constructor
  · intro order j
    have filled := copying.filled j
    have nodup := copying.nodup j
    rw [recency] at nodup
    by_contra many
    obtain ⟨y, x, rest, list⟩ : ∃ y x rest, (c.mm.shards j).sequence 0 = y :: x :: rest := by
      match h : (c.mm.shards j).sequence 0 with
      | [] | [_] => simp [h] at many
      | y :: x :: rest => exact ⟨y, x, rest, rfl⟩
    rw [list] at filled nodup
    have before := (((filled.reversed nodup).trans filter_sublist).trans source).map Prod.fst
    have kept := order 0 j x.1 y.1 before (by simp [recency, list]) (by simp [recency, list])
    rw [recency, list] at kept
    -- The most recent key would come again behind the second one.
    have first := (nodup_cons.mp nodup).1
    obtain later | ⟨tail, same, -⟩ := sublist_cons_iff.mp kept
    · exact first (later.subset (.tail _ (.head _)))
    · obtain ⟨eq, -⟩ := cons.inj same
      exact first (eq ▸ mem_map_of_mem (.head _))
  · intro single i j first second before here here'
    have distinct := (sequence_keys_nodup (wf i) 0).sublist before
    have alone : (recency c.mm j).length ≤ 1 := by
      rw [recency, length_map]
      exact single j
    have same : first = second := by
      match h : recency c.mm j with
      | [] => simp [h] at here
      | [key] =>
        rw [h, mem_singleton] at here here'
        exact here.trans here'.symm
      | _ :: _ :: _ => simp [h] at alone
    simp [same] at distinct

end Shards

/-! ## The clone -/

/-- Unless the trait sets a default memory limit, the copy takes the whole first shard. -/
theorem copiesTo_eq [DecidableEq K] [NeZero m] [NeZero n] {env : Env K V} {o : Surroundings K V}
    {old : Striped K V m} (wf : (old.mm.shards 0).WellFormed env) (within : n ≤ old.mm.maxSize)
    (sized : old.mm.maxSize ≤ unlimited) (quiescent : ∀ key, (o.calls key).drained = [])
    (unwatched : o.defaultMaxMemory = 0) (j : Fin (makeShardedConfigForStripes n n)) :
    copiesTo env o old j = (rbegin old.mm).filter fun p => shardOf env p.1 = j := by
  obtain ⟨quotas, quotas_eq, distributed⟩ := distributeMaxSize_ok within sized
  have built : construct o old.mm.maxSize n n = .ok (newCache o old.mm.maxSize quotas) := by
    rw [construct, quotas_eq]
    rfl
  have start : Copying env old.mm.maxSize quotas [] (newCache o old.mm.maxSize quotas) :=
    .start distributed
  rw [copiesTo, built]
  refine congrArg _ (start.copied_eq distributed (sequence_keys_nodup wf 0) nofun quiescent ?_ rfl)
  rw [newCache, unwatched]

/-- For every well-formed striped cache and every shard count within its limit, with
nothing left in the access rings, the clone preserves the cache at a clock reading
exactly if its first shard can be copied that way. -/
theorem clone_preserves_iff [DecidableEq K] [NeZero m] [NeZero n] {env : Env K V}
    {o : Surroundings K V} {old : Striped K V m} (wf : ∀ i, (old.mm.shards i).WellFormed env)
    (within : n ≤ old.mm.maxSize) (sized : old.mm.maxSize ≤ unlimited)
    (quiescent : ∀ key, (o.calls key).drained = []) (now : Nat) :
    ∃ new, cloneAndReshard env o old n = .ok new ∧
      (Preserves old.mm new.mm now ↔ Reshardable env o old n now) := by
  obtain ⟨quotas, quotas_eq, distributed⟩ := distributeMaxSize_ok within sized
  let fresh := newCache o old.mm.maxSize quotas
  have built : construct o old.mm.maxSize n n = .ok fresh := by
    rw [construct, quotas_eq]
    rfl
  have start : Copying env old.mm.maxSize quotas [] fresh := .start distributed
  have nodup : ((rbegin old.mm).map Prod.fst).Nodup := sequence_keys_nodup (wf 0) 0
  have copying := start.copyAll distributed nodup nofun quiescent
  rw [nil_append] at copying
  have cloned : cloneAndReshard env o old n =
      .ok ((rbegin old.mm).foldl (copyOne env o) fresh) := by
    rw [cloneAndReshard, built]
    rfl
  have copies_eq (j : Fin (makeShardedConfigForStripes n n)) : copiesTo env o old j =
      (copied env o fresh (rbegin old.mm)).filter
        fun p => shardOf env p.1 = j := by
    rw [copiesTo, built]
  have order := copying.order_iff wf (copied_sublist env o _ _)
  generalize (rbegin old.mm).foldl (copyOne env o) fresh = new at cloned copying order
  refine ⟨new, cloned, ?_⟩
  have single (j : Fin (makeShardedConfigForStripes n n)) :
      ((new.mm.shards j).sequence 0).length ≤ 1 ↔
        (copiesTo env o old j).length ≤ 1 ∨ old.mm.maxSize = 1 := by
    rw [copies_eq, (copying.filled j).length_le_one_iff (copying.nodup j), distributed.one_iff]
  have contents (alone : ∀ j, ((new.mm.shards j).sequence 0).length ≤ 1) (key : K) (value : V)
      (expiryNs : Nat) : Stores new.mm now key value expiryNs ↔
        expiryNs = 0 ∧ ∃ j : Fin (makeShardedConfigForStripes n n),
          (copiesTo env o old j).getLast? = some (key, value) := by
    refine copying.stores_iff.trans (and_congr_right' (exists_congr fun j => ?_))
    rw [copies_eq]
    exact (copying.filled j).mem_iff (alone j)
  constructor
  · intro preserved
    have alone := order.mp preserved.order
    refine ⟨fun j => (single j).mp (alone j), fun key value expiryNs => ?_⟩
    exact (preserved.contents key value expiryNs).trans (contents alone key value expiryNs)
  · intro reshardable
    have alone := fun j => (single j).mpr (reshardable.alone j)
    refine ⟨fun key value expiryNs => ?_, order.mpr alone⟩
    exact (reshardable.unexpired key value expiryNs).trans (contents alone key value expiryNs).symm

section Samples

open Mm.Strategy (intEnv)

def sampleSurroundings : Surroundings Nat Nat where
  memory := fun _ => default
  calls := fun _ => {}

/-- Shards of this many items each, into which some pairs have been copied. -/
def holding [NeZero n] (quota : Nat) (pairs : List (Nat × Nat)) : Striped Nat Nat n :=
  pairs.foldl (copyOne intEnv sampleSurroundings)
    (newCache sampleSurroundings (n * quota) fun _ => quota)

theorem holding_copying [NeZero n] (quota : Nat) (pairs : List (Nat × Nat))
    (distributed : Distributed (n * quota) fun _ : Fin n => quota)
    (nodup : (pairs.map Prod.fst).Nodup) :
    Copying intEnv (n * quota) (fun _ : Fin n => quota) pairs (holding quota pairs) := by
  have start : Copying intEnv (n * quota) (fun _ => quota) []
    (newCache sampleSurroundings (n * quota) fun _ : Fin n => quota) := .start distributed
  have all := start.copyAll (o := sampleSurroundings) distributed nodup nofun fun _ => rfl
  rwa [start.copied_eq distributed nodup nofun (fun _ => rfl) rfl rfl] at all

/-- Two keys of the first of two shards, which go to different shards of the clone. -/
theorem two_keys_preserved :
    ∃ new, cloneAndReshard intEnv sampleSurroundings
        (holding 4 [(6, 60), (2, 20)] : Striped Nat Nat 2) 8 = .ok new ∧
      Preserves (holding 4 [(6, 60), (2, 20)] : Striped Nat Nat 2).mm new.mm 0 := by
  set old : Striped Nat Nat 2 := holding 4 [(6, 60), (2, 20)] with old_eq
  have copying : Copying intEnv 8 (fun _ => 4) [(6, 60), (2, 20)] old := holding_copying 4 _
    ⟨by decide, by decide, fun _ _ => by decide, fun _ => by decide⟩ (by decide)
  have wf : ∀ j, (old.mm.shards j).WellFormed intEnv := fun j => (copying.plain j).wf
  obtain ⟨new, cloned, preserved⟩ := clone_preserves_iff (n := 8) (o := sampleSurroundings) wf
    (by decide) (by decide) (fun _ => rfl) 0
  have lists : ∀ j, (old.mm.shards j).sequence 0 =
      if j = 0 then [(2, 20), (6, 60)] else [] := by
    decide +kernel
  have copies : ∀ j : Fin (makeShardedConfigForStripes 8 8),
      copiesTo intEnv sampleSurroundings old j =
        if j = 0 then [(6, 60)] else if j = 2 then [(2, 20)] else [] := by
    intro j
    rw [copiesTo_eq (wf 0) (by decide) (by decide) (fun _ => rfl) rfl, rbegin, lists]
    revert j
    decide +kernel
  refine ⟨new, cloned, preserved.mpr ⟨fun j => .inl ?_, fun key value expiryNs => ?_⟩⟩
  · rw [copies]
    split_ifs <;> decide
  · refine copying.stores_iff.trans (and_congr_right' ⟨?_, ?_⟩)
    · rintro ⟨j, hj⟩
      rw [lists] at hj
      split at hj
      · obtain second | first := mem_pair.mp hj
        · exact ⟨2, by rw [copies, second]; rfl⟩
        · exact ⟨0, by rw [copies, first]; rfl⟩
      · cases hj
    · rintro ⟨j, hj⟩
      refine ⟨0, ?_⟩
      rw [copies] at hj
      rw [lists, if_pos rfl, mem_pair]
      split_ifs at hj
      · exact .inr (Option.some.inj hj).symm
      · exact .inl (Option.some.inj hj).symm
      · cases hj

/-- A single key in the second shard: the clone is empty. -/
theorem second_shard_lost :
    ∃ new, cloneAndReshard intEnv sampleSurroundings
        (holding 2 [(1, 10)] : Striped Nat Nat 2) 4 = .ok new ∧
      Stores (holding 2 [(1, 10)] : Striped Nat Nat 2).mm 0 1 10 0 ∧
      ¬ Preserves (holding 2 [(1, 10)] : Striped Nat Nat 2).mm new.mm 0 := by
  have copying : Copying intEnv 4 (fun _ : Fin 2 => 2) [(1, 10)] (holding 2 [(1, 10)]) :=
    holding_copying 2 _
      ⟨by decide, by decide, fun _ _ => by decide, fun _ => by decide⟩ (by decide)
  have stored : Stores (holding 2 [(1, 10)] : Striped Nat Nat 2).mm 0 1 10 0 := by
    refine copying.stores_iff.mpr ⟨rfl, 1, ?_⟩
    decide +kernel
  have executed : (cloneAndReshard intEnv sampleSurroundings
      (holding 2 [(1, 10)] : Striped Nat Nat 2) 4).toOption.map
        (fun new => (finRange _).all fun j => (new.mm.shards j).table.isEmpty) = some true := by
    decide +kernel
  cases cloned : cloneAndReshard intEnv sampleSurroundings
      (holding 2 [(1, 10)] : Striped Nat Nat 2) 4 with
  | error e =>
    rw [cloned] at executed
    cases executed
  | ok new =>
    rw [cloned] at executed
    refine ⟨new, rfl, stored, fun preserved => ?_⟩
    obtain ⟨j, i, linked, -⟩ := (preserved.contents 1 10 0).mp stored
    have empty := all_eq_true.mp (Option.some.inj executed) j (mem_finRange j)
    rw [isEmpty_iff.mp empty] at linked
    cases linked

end Samples

end Lru.Reshard
