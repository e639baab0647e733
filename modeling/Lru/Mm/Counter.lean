import Lru.Mm.Invariants
import Lru.Mm.Room
import Lru.Mm.ShardedMmLru

/-!
# The size counter of a shard

`sharded_mm_lru` reads the size of a shard from its statistics. A `set` on a shard
that is within its quota leaves both the size and the counter within it, so a
finite limit that the quotas add up to is never exceeded.
-/

namespace Lru.Mm

variable {K V : Type} {env : Env K V} {key : K} {value : V} {sec : Nat}

open State Policy

namespace MmLru

/-- Size and size counter are within the limit `cap`. -/
structure Seated (env : Env K V) (cap : Nat) (s : State K V) : Prop where
  wf : s.WellFormed env
  limit : s.settings.maxSize = cap
  size_le : size s ≤ cap
  counter_le : s.stats.currentSize ≤ cap

variable {cap : Nat} {s t : State K V}

theorem size_collect {e : Event K V} : size (s.collect e) = size s := by
  rw [collect]
  split <;> rfl

variable [DecidableEq K]

/-- Every eviction stores the size that it leaves. -/
theorem evictLru_counter : (evictLru env s).stats.currentSize = size (evictLru env s) := by
  rw [evictLru]
  split
  · rfl
  · split <;> rfl

/-- The counter holds the size, or neither has changed. -/
def Counts (s t : State K V) : Prop :=
  t.stats.currentSize = size t ∨ t.stats.currentSize = s.stats.currentSize ∧ size t = size s

omit [DecidableEq K] in
theorem Counts.noted {u : State K V} (h : Counts s t) (stats : u.stats = t.stats)
    (queue : u.queue = t.queue) : Counts s u := by
  have same : size u = size t := by rw [size, linkedCount, queue]; rfl
  rw [Counts, stats, same]
  exact h

theorem Seated.shrinks (seated : Seated env cap s) (shrunk : Shrinks env s t)
    (counter : t.stats.currentSize ≤ cap) : Seated env cap t where
  wf := shrunk.wf
  limit := (congrArg Settings.maxSize shrunk.settings_eq).trans seated.limit
  size_le := (eviction.size_mono shrunk seated.wf).trans seated.size_le
  counter_le := counter

theorem Seated.cleanup (seated : Seated env cap s) : Seated env cap s.cleanupPendingDeletion := by
  refine seated.shrinks (Rearranges.cleanup seated.wf).toShrinks ?_
  rw [cleanup_stats]
  exact seated.counter_le

theorem link_counter {expiryNs mem : Nat} :
    (link env s key value expiryNs sec mem).stats.currentSize =
      size (link env s key value expiryNs sec mem) := by
  have counted : ∀ t : State K V,
      (updateLruInsertionPoint (t.noteInsertion (size t) mem key value)).stats.currentSize =
        size (updateLruInsertionPoint (t.noteInsertion (size t) mem key value)) := by
    intro t
    have noted : Quiet t (t.noteInsertion (size t) mem key value) := .noteInsertion _ _
    have stored : (t.noteInsertion (size t) mem key value).stats.currentSize = size t := by
      rw [noteInsertion]
      simp
      rfl
    generalize t.noteInsertion (size t) mem key value = u at noted stored
    have moved := updateLruInsertionPoint_marks u
    have same : size (updateLruInsertionPoint u) = size t :=
      congrArg (fun q : QueueId → List ItemId => (q 0).length + (q 1).length + (q 2).length)
        (noted.trans moved.quiet).queue_eq
    rw [moved.stats_eq, stored, same]
  exact counted _

/-- `set` stores the size, or leaves both the size and its counter. -/
theorem set_counter (wf : s.WellFormed env) : Counts s ((policy env).set env s key value sec) := by
  have evicts : ∀ {u : State K V}, u.WellFormed env → Counts s u →
      Counts s (MmLru.evictLru env u) :=
    fun _ _ => .inl evictLru_counter
  have unswept : Policy.cleanupIf (policy env).cleanupOnSet s = s := rfl
  rw [Policy.set, unswept]
  cases found : s.find env key with
  | none =>
    exact insertNew_keepsParts evicts (fun _ _ _ => .inl link_counter) wf
      found (.inr ⟨rfl, rfl⟩) (fun h => h.noted (cleanup_stats _)
      (cleanup_queue _)) fun h => h
  | some i =>
    have stored := (laws env).storeValue_rearranges wf value sec
      ((find_eq_some_iff wf).mp found).1
    have written : Counts s ((policy env).storeValue env s i value sec) := by
      refine .inr ⟨?_, ?_⟩
      · rw [storeValue_stats (laws env) value sec wf found, Policy.adjustMemory]
        split_ifs <;> rfl
      · rw [eviction.size_eq stored.wf, stored.table_eq]
        exact (eviction.size_eq wf).symm
    have shrunk : Counts s ((policy env).shrinkToFit
        ((policy env).storeValue env s i value sec)) :=
      eviction.evictWhile_keeps evicts _ stored.wf written
    exact shrunk.noted collect_stats (Policy.Laws.collectUpdate_quiet _ i).queue_eq

/-- A new key is only linked if there is room for it. -/
theorem set_size_le (finite : cap ≠ unlimited)
    (seated : Seated env cap s) : size ((policy env).set env s key value sec) ≤ cap := by
  have fewer : ∀ {u t : State K V}, u.WellFormed env → Shrinks env u t → size u ≤ cap →
      size t ≤ cap := fun wf shrunk le => (eviction.size_mono shrunk wf).trans le
  have unswept : Policy.cleanupIf (policy env).cleanupOnSet s = s := rfl
  rw [Policy.set, unswept]
  cases found : s.find env key with
  | none =>
    simp only [policy]
    cases insertNew_ends value 0 sec seated.wf found with
    | blocked _ unchanged =>
      rw [unchanged]
      exact seated.size_le
    | failed _ _ counted =>
      have shrunk := findCapacity_shrinks seated.wf
      rw [counted]
      exact (eviction.size_mono shrunk seated.wf).trans seated.size_le
    | dropped _ _ _ shrunk => exact fewer seated.wf shrunk seated.size_le
    | inserted _ _ _ _ fits => exact seated.limit ▸ fits (seated.limit ▸ finite)
  | some i =>
    have hi := ((find_eq_some_iff seated.wf).mp found).1
    exact fewer (WellFormed.write (.value value) seated.wf)
      ((laws env).updateExisting_shrinks seated.wf hi) seated.size_le

theorem set_seated (finite : cap ≠ unlimited)
    (seated : Seated env cap s) : Seated env cap ((policy env).set env s key value sec) where
  wf := (laws env).set_wf seated.wf key value sec
  limit := (congrArg Settings.maxSize ((laws env).set_settings seated.wf key value sec)).trans
    seated.limit
  size_le := set_size_le finite seated
  counter_le := by
    obtain stored | ⟨counter, -⟩ := set_counter seated.wf
    · exact stored ▸ set_size_le finite seated
    · exact counter ▸ seated.counter_le

theorem Seated.contains (key : K) (nowNs : Nat) (seated : Seated env cap s) :
    Seated env cap (s.contains env key nowNs).2 := by
  refine seated.shrinks ((contains_quiet env s key nowNs).shrinks seated.wf) ?_
  rw [State.contains]
  split
  · exact seated.counter_le
  · exact (checkExpiry_stats s _ key nowNs false).1.trans_le seated.counter_le

theorem takeOut_counter {i : ItemId} :
    ((policy env).takeOut env s key i).stats.currentSize =
      size ((policy env).takeOut env s key i) := by
  rfl

/-- A forced removal stores the size that it leaves, if it removes anything. -/
theorem forceDel_counter (env : Env K V) (s : State K V) (key : K) :
    ((policy env).forceDel env s key).2.stats.currentSize =
        s.cleanupPendingDeletion.stats.currentSize ∨
      ((policy env).forceDel env s key).2.stats.currentSize =
        size ((policy env).forceDel env s key).2 := by
  rw [forceDel]
  split
  · exact .inl rfl
  · split_ifs
    · exact .inl rfl
    · exact .inr takeOut_counter
    · refine .inr ?_
      simp only [retire, collect_stats]
      exact takeOut_counter.trans size_collect.symm

theorem Seated.forceDel (seated : Seated env cap s) :
    Seated env cap ((policy env).forceDel env s key).2 := by
  have shrunk : Shrinks env s ((policy env).forceDel env s key).2 :=
    (laws env).forceDel_shrinks seated.wf
  refine seated.shrinks shrunk ?_
  obtain kept | stored := forceDel_counter env s key
  · rw [kept]
    exact seated.cleanup.counter_le
  · rw [stored]
    exact (eviction.size_mono shrunk seated.wf).trans seated.size_le

end MmLru

/-! ## The whole object -/

namespace ShardedMmLru

variable {n : Nat} {m : ShardedMmLru K V n}

/-- Every shard is within its quota, and the quotas add up to the limit at most. -/
structure Seated (env : Env K V) (m : ShardedMmLru K V n) : Prop where
  shard : ∀ i, MmLru.Seated env (m.shards i).settings.maxSize (m.shards i)
  finite : ∀ i, (m.shards i).settings.maxSize ≠ unlimited
  quotas : ((List.finRange n).map fun i => (m.shards i).settings.maxSize).sum ≤ m.maxSize

theorem Seated.size_le (seated : Seated env m) : m.size ≤ m.maxSize :=
  (sumShards_le fun i => (seated.shard i).counter_le).trans seated.quotas

/-- A step on one shard that keeps it within its quota. -/
theorem Seated.modifyShard {f : State K V → State K V} {i : Fin n} (seated : Seated env m)
    (after : MmLru.Seated env (m.shards i).settings.maxSize (f (m.shards i))) :
    Seated env (m.modifyShard i f) := by
  have quota : ∀ j, ((m.modifyShard i f).shards j).settings.maxSize =
      (m.shards j).settings.maxSize := by
    intro j
    by_cases same : j = i
    · subst same
      rw [modifyShard_same]
      exact after.limit
    · rw [modifyShard_of_ne f same]
  constructor
  · intro j
    rw [quota j]
    by_cases same : j = i
    · subst same
      rw [modifyShard_same]
      exact after
    · rw [modifyShard_of_ne f same]
      exact seated.shard j
  · intro j
    rw [quota j]
    exact seated.finite j
  · simp only [quota]
    exact seated.quotas

end ShardedMmLru

end Lru.Mm
