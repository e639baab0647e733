import Lru.Mm.Budget
import Lru.Mm.Counter
import Lru.Reshard.Clone

/-!
# Limits of `sharded_mm_lru`

`max_size` divides a limit among the shards, and each shard shrinks to its quota. The
division is done before any shard is touched, so a call that throws changes nothing.
Without pinned items every shard stays within its quota, and the quotas add up to the
limit unless it is `unlimited`.
-/

namespace Lru.Mm

variable {K V : Type} {env : Env K V} {s t : State K V} {key : K} {value : V} {sec : Nat}

open State

theorem Idle.inserts {expiryNs : Nat} (h : Idle s) (free : s.settings.evictionPredicate = none)
    (inserted : Inserts env s t key value expiryNs) : Idle t where
  unheld i hi := by
    by_cases new : i = s.next
    · subst new
      exact congrArg (fun c : K × V × Nat × Nat => c.2.2.2) inserted.content_new
    · exact (congrArg (fun c : K × V × Nat × Nat => c.2.2.2) (inserted.content_old i hi new)).trans
        (h.unheld i (inserted.mem_old i hi new))
  unvetoed := .of_none (inserted.settings_eq ▸ free)

namespace MmLru

variable [DecidableEq K] {cap : Nat}

theorem set_idle (wf : s.WellFormed env) (h : Idle s)
    (free : s.settings.evictionPredicate = none) :
    Idle ((policy env).set env s key value sec) := by
  obtain ⟨-, admitted⟩ | ⟨i, -, written⟩ := (laws env).set_cases wf key value sec
  · cases admitted with
    | failed u shrunk noted =>
      have idle := h.shrinks shrunk
      rw [noted]
      exact ⟨idle.unheld, idle.unvetoed⟩
    | dropped shrunk => exact h.shrinks shrunk
    | inserted inserted => exact h.inserts free inserted
  · exact (h.store (by simp [Settings.vetoes, free])).shrinks written

/-! ## The size counter -/

def Counted (s : State K V) : Prop := s.stats.currentSize = size s

omit [DecidableEq K] in
theorem Counted.rearranges (h : Counted s) (wf : s.WellFormed env) (same : Rearranges env s t)
    (stats : t.stats.currentSize = s.stats.currentSize) : Counted t := by
  rw [Counted, stats, size, linkedCount_eq same.wf, same.table_eq, ← linkedCount_eq wf]
  exact h

theorem set_counted (wf : s.WellFormed env) (h : Counted s) :
    Counted ((policy env).set env s key value sec) := by
  obtain stored | ⟨counter, same⟩ := set_counter wf
  · exact stored
  · exact counter.trans (h.trans same.symm)

/-! ## One shard -/

/-- A shard without handles that is within its limit `cap`. -/
structure Filled (env : Env K V) (cap : Nat) (s : State K V) : Prop where
  wf : s.WellFormed env
  evictable : Evictable env Steady s
  free : s.settings.evictionPredicate = none
  limit : s.settings.maxSize = cap
  within : cap ≠ unlimited → size s ≤ cap
  counted : Counted s

theorem Filled.set (h : Filled env cap s) :
    Filled env cap ((policy env).set env s key value sec) where
  wf := (laws env).set_wf h.wf key value sec
  evictable :=
    ⟨((keepsSteady env).keeps (laws env)).set (laws env) h.wf h.evictable.lists,
      set_idle h.wf h.evictable.idle h.free,
      ((bills env).keeps (laws env)).set (laws env) h.wf h.evictable.billed⟩
  free := (laws env).set_settings h.wf key value sec ▸ h.free
  limit := (congrArg Settings.maxSize ((laws env).set_settings h.wf key value sec)).trans h.limit
  within finite := (set_seated finite
    ⟨h.wf, h.limit, h.within finite, h.counted ▸ h.within finite⟩).size_le
  counted := set_counted h.wf h.counted

theorem Filled.add (h : Filled env cap s) :
    Filled env cap ((policy env).add env s key value sec).2 := by
  have unswept : Policy.cleanupIf (policy env).cleanupOnSet s = s := rfl
  cases found : s.find env key with
  | none =>
    have same : ((policy env).add env s key value sec).2 =
        (policy env).set env s key value sec := by
      simp only [Policy.add, Policy.set, unswept, found]
    rw [same]
    exact h.set
  | some i =>
    have hi := ((find_eq_some_iff h.wf).mp found).1
    have access : ((policy env).add env s key value sec).2 =
        ((policy env).recordAccess s i .read sec).2 := by
      simp only [Policy.add, unswept, found]
    have moved := (laws env).recordAccess .read sec h.wf hi
    have length : size ((policy env).recordAccess s i .read sec).2 = size s := by
      rw [size, linkedCount_eq moved.wf, moved.table_eq, ← linkedCount_eq h.wf]
      rfl
    rw [access]
    refine ⟨moved.wf, h.evictable.shrinks moved.toShrinks ?_ ?_, moved.settings_eq ▸ h.free,
      ?_, ?_, ?_⟩
    · exact (keepsSteady env).accessed .read sec h.wf hi h.evictable.lists
    · exact h.evictable.billed.moves h.wf moved
    · rw [moved.settings_eq]
      exact h.limit
    · rw [length]
      exact h.within
    · exact h.counted.rearranges h.wf moved.toRearranges
        (congrArg Stats.currentSize moved.stats_eq)

theorem shrinkToFit_filled (h : Evictable env Steady s) (wf : s.WellFormed env)
    (free : s.settings.evictionPredicate = none) (counted : Counted s) :
    Filled env s.settings.maxSize (s.shrinkLoop (evictLru env) size).1 := by
  have shrunk := eviction.shrinkLoop_shrinks wf
  have limit := congrArg Settings.maxSize shrunk.settings_eq
  obtain ⟨-, kept, exit⟩ : _ ∧ _ ∧ (s.shrinkLoop (evictLru env) size).1.shouldEvict
      (size (s.shrinkLoop (evictLru env) size).1) = false :=
    (seesAll env).shrinkLoop_exits (laws env) wf h
  refine ⟨shrunk.wf, kept, shrunk.settings_eq ▸ free, limit, fun finite => ?_, ?_⟩
  · simp only [shouldEvict, Bool.or_eq_false_iff, limit] at exit
    simpa [finite] using exit.1
  · exact eviction.evictWhile_keeps (fun _ _ => evictLru_counter) _ wf counted

theorem relimit_evictable {maxSize maxMemory : Nat} (h : Evictable env Steady s) :
    Evictable env Steady { s with settings :=
      { s.settings with maxSize := maxSize, maxMemory := maxMemory } } where
  lists := (keepsSteady env).framed h.lists rfl rfl
  idle := ⟨h.idle.unheld, h.idle.unvetoed⟩
  billed := h.billed

/-- `max_size` shrinks the shard to its new limit. -/
theorem Filled.maxSize {quota : Nat} (h : Filled env cap s) :
    Filled env quota ((policy env).maxSize s quota) := by
  have evictable : Evictable env Steady
      { s with settings := { s.settings with maxSize := quota } } :=
    relimit_evictable h.evictable
  by_cases endless : quota = unlimited
  · have same : (policy env).maxSize s quota =
        { s with settings := { s.settings with maxSize := quota } } := if_pos endless
    rw [same]
    exact ⟨h.wf, evictable, h.free, rfl, absurd endless, h.counted⟩
  · have same : (policy env).maxSize s quota = (shrinkLoop
        { s with settings := { s.settings with maxSize := quota } } (evictLru env) size).1 :=
      if_neg endless
    rw [same]
    exact shrinkToFit_filled evictable h.wf h.free h.counted

theorem Filled.maxMemory (quota : Nat) (h : Filled env cap s) :
    Filled env cap ((policy env).maxMemory s quota) := by
  have evictable : Evictable env Steady
      { s with settings := { s.settings with maxMemory := quota } } :=
    relimit_evictable h.evictable
  rw [Policy.maxMemory]
  split
  · exact ⟨h.wf, evictable, h.free, h.limit, h.within, h.counted⟩
  · rw [← h.limit]
    exact shrinkToFit_filled evictable h.wf h.free h.counted

omit [DecidableEq K] in
theorem Filled.empty (env : Env K V) (memory : ItemId → Item K V) (settings : Settings K V)
    (sketch : Sketch) (sec : Nat) (free : settings.evictionPredicate = none) :
    Filled env settings.maxSize (State.empty memory settings sketch sec) where
  wf := Strategy.empty_wf memory settings sketch sec
  evictable := ⟨⟨fun _ _ => rfl, by rintro _ ⟨⟩⟩, ⟨by rintro _ ⟨⟩, .of_none free⟩, rfl⟩
  free := free
  limit := rfl
  within _ := Nat.zero_le _
  counted := rfl

end MmLru

end Lru.Mm

namespace Lru.Reshard

open SizeT

variable {K V : Type} {n : Nat}

open Mm (State Env ShardedMmLru Settings Item ItemId unlimited)

/-! ## The limits -/

/-- The object with the limit it was asked for and its `allow_amplification`. -/
structure LimitedMmLru (K V : Type) (n : Nat) extends ShardedMmLru K V n where
  requestedMaxSize : Nat := unlimited
  allowAmplification : Bool := false

namespace LimitedMmLru

section Operations

variable [DecidableEq K] (env : Env K V) (m : LimitedMmLru K V n)

def assign (quotas : Fin n → Nat) : LimitedMmLru K V n :=
  { m with shards := fun i => (Mm.MmLru.policy env).maxSize (m.shards i) (quotas i) }

def distributeMaxSize : Except String Unit × LimitedMmLru K V n :=
  let m := if m.maxSize ≠ unlimited ∧ m.maxSize < n ∧ m.allowAmplification then
    { m with maxSize := n } else m
  match Reshard.distributeMaxSize m.maxSize n with
  | .error e => (.error e, m)
  | .ok quotas => (.ok (), m.assign env quotas)

def setMaxSize (newMax : Nat) : Except String Unit × LimitedMmLru K V n :=
  match distributeMaxSize env { m with maxSize := newMax, requestedMaxSize := newMax } with
  | (.error e, after) =>
    (.error e, { after with maxSize := m.maxSize, requestedMaxSize := m.requestedMaxSize })
  | (.ok (), after) => (.ok (), after)

def setMaxSizeStrict (newMax : Nat) : Except String Unit × LimitedMmLru K V n :=
  if newMax ≠ unlimited ∧ newMax < n then
    (.error ("sharded_mm_lru::max_size_strict(): new_max (" ++ toString newMax ++
      ") < num_shards (" ++ toString n ++ "); refusing to silently amplify capacity. " ++
      "Use max_size() for lenient behavior or raise new_max to >= num_shards."), m)
  else distributeMaxSize env { m with maxSize := newMax, requestedMaxSize := newMax }

def distributeMaxMemory : LimitedMmLru K V n :=
  if m.maxMemory = unlimited then
    { m with shards := fun i => (Mm.MmLru.policy env).maxMemory (m.shards i) unlimited }
  else
    let m := if m.maxMemory < n then { m with maxMemory := n } else m
    { m with shards := fun i =>
        let quota := m.maxMemory / n + if i < m.maxMemory % n then 1 else 0
        (Mm.MmLru.policy env).maxMemory (m.shards i) (if quota = 0 then 1 else quota) }

end Operations

inductive Call (K V : Type) where
  | set (key : K) (value : V) (sec : Nat)
  | add (key : K) (value : V) (sec : Nat)
  | maxSize (newMax : Nat)
  | maxSizeStrict (newMax : Nat)

section Runs

variable [DecidableEq K] [NeZero n] (env : Env K V) (m : LimitedMmLru K V n)

/-- The object after a call. A call that throws may be followed by others. -/
def step : Call K V → LimitedMmLru K V n
  | .set key value sec => { m with toShardedMmLru := m.set env key value sec }
  | .add key value sec =>
    { m with toShardedMmLru := m.modifyShard (m.shardFor env key) fun s =>
        ((Mm.MmLru.policy env).add env s key value sec).2 }
  | .maxSize newMax => (m.setMaxSize env newMax).2
  | .maxSizeStrict newMax => (m.setMaxSizeStrict env newMax).2

def run (calls : List (Call K V)) : LimitedMmLru K V n := calls.foldl (step env) m

end Runs

/-- What an object is constructed with. `settings` holds the configuration of the shards
and what is registered before the first write; there is no eviction predicate. -/
structure Construction (K V : Type) (n : Nat) where
  memory : Fin n → ItemId → Item K V
  settings : Settings K V
  sec : Nat
  maxSize : Nat
  maxMemory : Nat
  allowAmplification : Bool
  mixShardHash : Bool

/-- The object before the limits are divided. -/
def fresh (c : Construction K V n) : LimitedMmLru K V n where
  shards i := State.empty (c.memory i) { c.settings with
    maxSize := unlimited, maxMemory := unlimited, evictionPredicate := none } {} c.sec
  maxSize := c.maxSize
  maxMemory := c.maxMemory
  mixShardHash := c.mixShardHash
  requestedMaxSize := c.maxSize
  allowAmplification := c.allowAmplification

def construct [DecidableEq K] (env : Env K V) (c : Construction K V n) :
    Except String (LimitedMmLru K V n) :=
  match (fresh c).distributeMaxSize env with
  | (.error e, _) => .error e
  | (.ok (), m) => .ok (m.distributeMaxMemory env)

end LimitedMmLru

/-! ## The quotas -/

structure EvenSplit (total : Nat) (quotas : Fin n → Nat) : Prop where
  sum_eq : ((List.finRange n).map quotas).sum = total
  pos : ∀ i, 1 ≤ quotas i
  close : ∀ i j, quotas i ≤ quotas j + 1

theorem distributeMaxSize_even [NeZero n] {maxSize : Nat} (within : n ≤ maxSize)
    (finite : maxSize ≠ unlimited) :
    ∃ quotas, distributeMaxSize maxSize n = .ok quotas ∧ EvenSplit maxSize quotas := by
  have positive : 0 < n := Nat.pos_of_ne_zero (NeZero.ne n)
  have share : 0 < maxSize / n := Nat.div_pos within positive
  have sum := sum_quotas (maxSize / n) (Nat.mod_lt maxSize positive).le
  rw [Nat.div_add_mod] at sum
  refine ⟨fun i => maxSize / n + if i.val < maxSize % n then 1 else 0, ?_, sum, ?_, ?_⟩
  · rw [distributeMaxSize, if_neg finite, if_neg (Nat.not_lt.mpr within)]
    refine congrArg Except.ok (funext fun i => if_neg ?_)
    omega
  · intro i
    omega
  · intro i j
    split_ifs <;> omega

/-- A limit that can be divided is `unlimited`, or at least the number of the shards. -/
theorem distributeMaxSize_cases [NeZero n] {quotas : Fin n → Nat} {maxSize : Nat}
    (divided : distributeMaxSize maxSize n = .ok quotas) :
    maxSize = unlimited ∧ (quotas = fun _ => unlimited) ∨
      maxSize ≠ unlimited ∧ n ≤ maxSize ∧ EvenSplit maxSize quotas := by
  by_cases endless : maxSize = unlimited
  · rw [distributeMaxSize, if_pos endless] at divided
    cases divided
    exact .inl ⟨endless, rfl⟩
  · by_cases few : maxSize < n
    · rw [distributeMaxSize, if_neg endless, if_pos few] at divided
      cases divided
    · obtain ⟨even, same, split⟩ := distributeMaxSize_even (Nat.le_of_not_lt few) endless
      rw [same] at divided
      cases divided
      exact .inr ⟨endless, Nat.le_of_not_lt few, split⟩

theorem EvenSplit.finite {quotas : Fin n → Nat} {i : Fin n} {total : Nat}
    (h : EvenSplit total quotas) (bounded : total < unlimited) : quotas i ≠ unlimited := by
  have mem := List.mem_map_of_mem (f := quotas) (List.mem_finRange i)
  have le := List.single_le_sum (fun _ _ => Nat.zero_le _) _ mem
  rw [h.sum_eq] at le
  omega

namespace LimitedMmLru

variable [DecidableEq K] {env : Env K V} {m : LimitedMmLru K V n} {newMax : Nat}
  {e : String} {i : Fin n}

/-- A division that throws has changed nothing. -/
theorem distributeMaxSize_ends (env : Env K V) (m : LimitedMmLru K V n) :
    (∃ e, m.distributeMaxSize env = (.error e, m)) ∨
      ∃ top quotas, Reshard.distributeMaxSize top n = .ok quotas ∧
        m.distributeMaxSize env = (.ok (), assign env { m with maxSize := top } quotas) := by
  rw [distributeMaxSize]
  split
  case h_1 e failed =>
    refine .inl ⟨e, ?_⟩
    split
    case isFalse => rfl
    case isTrue raised =>
      rw [if_pos raised, Reshard.distributeMaxSize] at failed
      simp only [Nat.lt_irrefl, if_false] at failed
      split at failed <;> cases failed
  case h_2 quotas divided =>
    refine .inr ⟨_, quotas, divided, ?_⟩
    split <;> rfl

/-- A change of the limit that throws leaves the object as it was. -/
theorem setMaxSize_error
    (thrown : (m.setMaxSize env newMax).1 = .error e) : (m.setMaxSize env newMax).2 = m := by
  rw [setMaxSize] at thrown ⊢
  obtain ⟨e, failed⟩ | ⟨top, quotas, -, done⟩ :=
    distributeMaxSize_ends env { m with maxSize := newMax, requestedMaxSize := newMax }
  · rw [failed]
  · rw [done] at thrown
    cases thrown

theorem setMaxSizeStrict_error
    (thrown : (m.setMaxSizeStrict env newMax).1 = .error e) :
    (m.setMaxSizeStrict env newMax).2 = m := by
  rw [setMaxSizeStrict] at thrown ⊢
  split at thrown
  case isTrue few => rw [if_pos few]
  case isFalse many =>
    obtain ⟨e, failed⟩ | ⟨top, quotas, -, done⟩ :=
      distributeMaxSize_ends env { m with maxSize := newMax, requestedMaxSize := newMax }
    -- A limit that passes the check can be divided.
    · exfalso
      rw [distributeMaxSize] at failed
      by_cases endless : newMax = unlimited
      · simp [endless, Reshard.distributeMaxSize] at failed
      · have enough : ¬ newMax < n := fun few => many ⟨endless, few⟩
        simp [endless, enough, Reshard.distributeMaxSize] at failed
    · rw [done] at thrown
      cases thrown

/-! ## Runs -/

/-- Every shard is within its quota of the limit. -/
def Balanced (env : Env K V) (m : LimitedMmLru K V n) : Prop :=
  ∃ quotas, Reshard.distributeMaxSize m.maxSize n = .ok quotas ∧
    ∀ i, Mm.MmLru.Filled env (quotas i) (m.shards i)

theorem Balanced.assign {top : Nat} {caps quotas : Fin n → Nat}
    (divided : Reshard.distributeMaxSize top n = .ok quotas)
    (filled : ∀ i, Mm.MmLru.Filled env (caps i) (m.shards i)) :
    Balanced env (LimitedMmLru.assign env { m with maxSize := top } quotas) :=
  ⟨quotas, divided, fun i => (filled i).maxSize⟩

/-- A new limit is divided among the shards, or it is turned down. -/
theorem Balanced.distribute (h : Balanced env m) :
    (∃ e, distributeMaxSize env { m with maxSize := newMax, requestedMaxSize := newMax } =
        (.error e, { m with maxSize := newMax, requestedMaxSize := newMax })) ∨
      ∃ after, distributeMaxSize env { m with maxSize := newMax, requestedMaxSize := newMax } =
        (.ok (), after) ∧ Balanced env after := by
  obtain ⟨quotas, -, filled⟩ := h
  obtain failed | ⟨top, quotas, divided, done⟩ :=
    distributeMaxSize_ends env { m with maxSize := newMax, requestedMaxSize := newMax }
  · exact .inl failed
  · exact .inr ⟨_, done, .assign divided filled⟩

omit [DecidableEq K] in
theorem Balanced.modifyShard {f : State K V → State K V} (h : Balanced env m)
    (kept : ∀ {cap s}, Mm.MmLru.Filled env cap s → Mm.MmLru.Filled env cap (f s)) :
    Balanced env { m with toShardedMmLru := m.modifyShard i f } := by
  obtain ⟨quotas, divided, filled⟩ := h
  refine ⟨quotas, divided, fun j => ?_⟩
  by_cases same : j = i
  · subst same
    rw [ShardedMmLru.modifyShard_same]
    exact kept (filled j)
  · rw [ShardedMmLru.modifyShard_of_ne f same]
    exact filled j

theorem step_balanced [NeZero n] {call : Call K V} (h : Balanced env m) :
    Balanced env (m.step env call) := by
  cases call with
  | set key value sec => exact h.modifyShard fun filled => filled.set
  | add key value sec => exact h.modifyShard fun filled => filled.add
  | maxSize newMax =>
    rw [step, setMaxSize]
    obtain ⟨e, failed⟩ | ⟨after, done, balanced⟩ := h.distribute
    · rw [failed]
      exact h
    · rw [done]
      exact balanced
  | maxSizeStrict newMax =>
    cases result : (m.setMaxSizeStrict env newMax).1 with
    | error e =>
      rw [step, setMaxSizeStrict_error result]
      exact h
    | ok =>
      rw [step]
      rw [setMaxSizeStrict] at result ⊢
      split at result
      · cases result
      case isFalse many =>
        rw [if_neg many]
        obtain ⟨e, failed⟩ | ⟨after, done, balanced⟩ := h.distribute
        · rw [failed] at result
          cases result
        · rw [done]
          exact balanced

theorem run_balanced [NeZero n] (calls : List (Call K V)) (h : Balanced env m) :
    Balanced env (m.run env calls) := by
  induction calls generalizing m with
  | nil => exact h
  | cons call calls ih => exact ih (step_balanced h)

section

omit [DecidableEq K]

theorem size_lt (m : LimitedMmLru K V n) : m.size < range := by
  rw [ShardedMmLru.size, ShardedMmLru.sumShards,
    foldl_finRange_fetchAdd fun i => (m.shards i).stats.currentSize]
  exact Nat.mod_lt _ range_pos

theorem Balanced.length_le [NeZero n] (h : Balanced env m) (finite : m.maxSize < unlimited) :
    ((List.finRange n).map fun i => (m.shards i).table.length).sum ≤ m.maxSize := by
  obtain ⟨quotas, divided, filled⟩ := h
  obtain ⟨endless, -⟩ | ⟨-, -, even⟩ := distributeMaxSize_cases divided
  · exact absurd endless finite.ne
  · rw [← even.sum_eq]
    refine List.sum_le_sum fun i _ => ?_
    rw [← Mm.linkedCount_eq (filled i).wf]
    exact (filled i).within (even.finite finite)

theorem Balanced.size_le [NeZero n] (h : Balanced env m) : m.size ≤ m.maxSize := by
  by_cases finite : m.maxSize < unlimited
  · obtain ⟨quotas, divided, filled⟩ := h
    obtain ⟨endless, -⟩ | ⟨-, -, even⟩ := distributeMaxSize_cases divided
    · exact absurd endless finite.ne
    · have bound : ∀ i, (m.shards i).stats.currentSize ≤ quotas i := fun i => by
        rw [(filled i).counted]
        exact (filled i).within (even.finite finite)
      exact (ShardedMmLru.sumShards_le bound).trans even.sum_eq.le
  · have small := m.size_lt
    have range : range = unlimited + 1 := by decide
    omega

theorem Balanced.quotas (h : Balanced env m) :
    Reshard.distributeMaxSize m.maxSize n = .ok fun i => (m.shards i).settings.maxSize := by
  obtain ⟨quotas, divided, filled⟩ := h
  rw [divided]
  exact congrArg Except.ok (funext fun i => (filled i).limit.symm)

end

theorem Balanced.distributeMaxMemory (h : Balanced env m) :
    Balanced env (m.distributeMaxMemory env) := by
  obtain ⟨quotas, divided, filled⟩ := h
  rw [LimitedMmLru.distributeMaxMemory]
  split
  · exact ⟨quotas, divided, fun i => (filled i).maxMemory unlimited⟩
  · split <;> exact ⟨quotas, divided, fun i => (filled i).maxMemory _⟩

theorem construct_balanced {c : Construction K V n} (made : construct env c = .ok m) :
    Balanced env m := by
  rw [construct] at made
  obtain ⟨e, failed⟩ | ⟨top, quotas, divided, done⟩ := distributeMaxSize_ends env (fresh c)
  · rw [failed] at made
    cases made
  · rw [done] at made
    cases made
    have filled : ∀ i, Mm.MmLru.Filled env unlimited ((fresh c).shards i) := fun i =>
      .empty env (c.memory i) { c.settings with
        maxSize := unlimited, maxMemory := unlimited, evictionPredicate := none } {} c.sec rfl
    exact (Balanced.assign divided filled).distributeMaxMemory

/-- A finite limit of at least the number of the shards is divided exactly and evenly,
`unlimited` is given to every shard. In every run of writes and changes of the limit on a
new object the total size is within the limit, and a change that throws leaves the object,
with the quotas of its shards, as it was. -/
theorem capacity_split [NeZero n] (env : Env K V) :
    (∀ maxSize, n ≤ maxSize → maxSize ≠ unlimited → ∃ quotas : Fin n → Nat,
      Reshard.distributeMaxSize maxSize n = .ok quotas ∧ EvenSplit maxSize quotas) ∧
    Reshard.distributeMaxSize unlimited n = .ok (fun _ => unlimited) ∧
    (∀ (c : Construction K V n) (m : LimitedMmLru K V n), construct env c = .ok m →
      ∀ calls, (m.run env calls).size ≤ (m.run env calls).maxSize ∧
        ((m.run env calls).maxSize < unlimited →
          ((List.finRange n).map fun i => ((m.run env calls).shards i).table.length).sum ≤
            (m.run env calls).maxSize) ∧
        Reshard.distributeMaxSize (m.run env calls).maxSize n =
          .ok fun i => ((m.run env calls).shards i).settings.maxSize) ∧
    (∀ (m : LimitedMmLru K V n) newMax e,
      ((m.setMaxSize env newMax).1 = .error e → (m.setMaxSize env newMax).2 = m) ∧
      ((m.setMaxSizeStrict env newMax).1 = .error e → (m.setMaxSizeStrict env newMax).2 = m)) := by
  refine ⟨fun _ within finite => distributeMaxSize_even within finite, if_pos rfl, ?_,
    fun m newMax e => ⟨setMaxSize_error, setMaxSizeStrict_error⟩⟩
  intro c m made calls
  have balanced := run_balanced calls (construct_balanced made)
  exact ⟨balanced.size_le, balanced.length_le, balanced.quotas⟩

/-- Two shards that are asked for three items. -/
def pair : Construction Nat Nat 2 where
  memory _ _ := default
  settings := {}
  sec := 0
  maxSize := 3
  maxMemory := unlimited
  allowAmplification := false
  mixShardHash := false

theorem pair_split :
    (∃ quotas : Fin 2 → Nat, Reshard.distributeMaxSize 3 2 = .ok quotas ∧ EvenSplit 3 quotas) ∧
      ∃ m, construct Mm.Strategy.intEnv pair = .ok m ∧
        (m.run Mm.Strategy.intEnv [.set 1 10 0, .set 2 20 0, .set 3 30 0, .maxSize 1,
          .maxSize 2]).size ≤
          (m.run Mm.Strategy.intEnv [.set 1 10 0, .set 2 20 0, .set 3 30 0, .maxSize 1,
            .maxSize 2]).maxSize := by
  have split := capacity_split (n := 2) Mm.Strategy.intEnv
  refine ⟨split.1 3 (by decide) (by decide), ?_⟩
  cases made : construct Mm.Strategy.intEnv pair with
  | error e => cases made
  | ok m => exact ⟨m, rfl, (split.2.2.1 pair m made _).1⟩

/-- Two shards of an unlimited cache have no finite quotas to add up. -/
theorem unlimited_not_split : 2 ≤ unlimited ∧ ∃ quotas : Fin 2 → Nat,
    Reshard.distributeMaxSize unlimited 2 = .ok quotas ∧
      ((List.finRange 2).map quotas).sum ≠ unlimited :=
  ⟨by decide, fun _ => unlimited, if_pos rfl, by decide⟩

end LimitedMmLru

end Lru.Reshard
