import Lru.Cache.StripedWrites
import Lru.Cache.Runs
import Lru.Mm.Record

/-!
# `cas`

The two overloads of `cas`, for the traits whose items are read through handles.
Both decide in a critical section under the lock of the key: the value is pinned
and compared again, the memory monitor is asked, and the strategy's `set` replaces
the value. The first overload consists of this section; the second one compares a
copy outside the lock before, and starts over when the section finds another value.
-/

namespace Lru

open Mm State ShardedMmLru

/-- A cache whose items are read through handles: one strategy object, or an array of
shards with a lock for each. -/
inductive HandleCache (K V : Type) (n : Nat) where
  | plain (strategy : Strategy) (c : Cache K V)
  | striped (c : Striped K V n)

namespace HandleCache

variable {K V : Type} {n : Nat} [NeZero n]

section Model

variable (env : Env K V) (u : HandleCache K V n)

def layer : Layer :=
  match u with
  | plain _ c => c.toLayer
  | striped c => c.toLayer

def policy [DecidableEq K] : Policy K V :=
  match u with
  | plain strategy _ => strategy.policy env
  | striped _ => MmLru.policy env

/-- The strategy object that a key belongs to. -/
def shard (key : K) : State K V :=
  match u with
  | plain _ c => c.mm
  | striped c => c.mm.shards (c.mm.shardFor env key)

def setShard (key : K) (s : State K V) : HandleCache K V n :=
  match u with
  | plain strategy c => plain strategy { c with mm := s }
  | striped c => striped { c with mm := c.mm.modifyShard (c.mm.shardFor env key) fun _ => s }

def release (key : K) (i : ItemId) : HandleCache K V n :=
  u.setShard env key ((u.shard env key).decRef i)

def reportMemory (limiterOver : Bool) : HandleCache K V n :=
  match u with
  | plain strategy c => plain strategy (c.reportMemory limiterOver)
  | striped c => striped (c.reportMemory limiterOver)

def defersPromotion : Bool :=
  match u with
  | plain strategy c => c.defersPromotion strategy
  | striped c => c.defersPromotion

variable [DecidableEq K]

def checkMemoryAdmission (key : K) (value : V) (a : Ambient K) : Bool × HandleCache K V n :=
  match u with
  | plain strategy c => (c.checkMemoryAdmission env key value a).map id (plain strategy)
  | striped c => (c.checkMemoryAdmission env key value a).map id striped

def setBody (key : K) (value : V) (a : Ambient K) : HandleCache K V n :=
  match u with
  | plain strategy c => plain strategy (c.setBody env strategy key value a)
  | striped c => striped (c.setBody env key value a)

def delBody (key : K) (a : Ambient K) : HandleCache K V n :=
  (u.setShard env key ((u.policy env).del env (u.shard env key) key).2).reportMemory a.limiterOver

/-- `get`: pin the item, promote it and report the hit. -/
def getBody (key : K) (a : Ambient K) : HandleCache K V n :=
  match (u.shard env key).peekForGet env key a.nowNs with
  | (none, s) => u.setShard env key
      ((s.modifyStats fun x => { x with misses := x.misses + 1 }).collect (.miss key))
  | (some i, s) =>
    let s := if u.defersPromotion then s else ((u.policy env).promote env s key a.sec).2
    let s := s.modifyStats fun x => { x with hits := x.hits + 1 }
    u.setShard env key (s.collect (.hit key (s.heap i).value))

inductive Commit where
  /-- The key is not there, or has another value. -/
  | failed
  /-- The memory monitor does not admit the new value. -/
  | refused
  | swapped
  deriving DecidableEq, Repr

/-- The write of `cas`; the handle of the comparison goes away at the end. -/
def install (key : K) (desired : V) (i : ItemId) (a : Ambient K) : HandleCache K V n :=
  let u := u.setShard env key ((u.policy env).set env (u.shard env key) key desired a.sec)
  (u.reportMemory a.limiterOver).release env key i

/-- The critical section of both overloads of `cas`. -/
def casCommit [DecidableEq V] (key : K) (expected desired : V) (a : Ambient K) :
    Commit × HandleCache K V n :=
  match (u.shard env key).peekForGet env key a.nowNs with
  | (none, s) => (.failed, u.setShard env key s)
  | (some i, s) =>
    let u := u.setShard env key s
    if (s.heap i).value ≠ expected then (.failed, u.release env key i)
    else
      match u.checkMemoryAdmission env key desired a with
      | (false, u) => (.refused, u.release env key i)
      | (true, u) => (.swapped, u.install env key desired i a)

end Model

/-! ## Steps on one shard -/

section Shards

variable (env : Env K V) (u : HandleCache K V n)

def setMonitor (m : Memory.Monitor) : HandleCache K V n :=
  match u with
  | plain strategy c => plain strategy { c with memoryMonitor := m }
  | striped c => striped { c with memoryMonitor := m }

/-- The number of the shard that a key belongs to. -/
def home (key : K) : Nat :=
  match u with
  | plain _ _ => 0
  | striped c => c.mm.shardFor env key

/-- Table and lists agree in every strategy object. -/
def Agrees : Prop :=
  match u with
  | plain _ c => c.mm.WellFormed env
  | striped c => ∀ i, (c.mm.shards i).WellFormed env

variable {env u} {key other : K} {s t : State K V} {m : Memory.Monitor}

theorem shard_of_home (same : u.home env other = u.home env key) :
    u.shard env other = u.shard env key := by
  cases u with
  | plain strategy c => rfl
  | striped c =>
    have same := Fin.val_injective same
    rw [shard, shard, same]

theorem shard_setShard :
    (u.setShard env key s).shard env other =
      if u.home env other = u.home env key then s else u.shard env other := by
  cases u with
  | plain strategy c => rfl
  | striped c =>
    by_cases same : (striped c).home env other = (striped c).home env key
    · rw [if_pos same]
      have equal : c.mm.shardFor env other = c.mm.shardFor env key := Fin.val_injective same
      show (c.mm.modifyShard _ fun _ => s).shards (c.mm.shardFor env other) = s
      rw [equal, modifyShard_same]
    · rw [if_neg same]
      have apart : c.mm.shardFor env other ≠ c.mm.shardFor env key :=
        fun equal => same (congrArg Fin.val equal)
      show (c.mm.modifyShard _ fun _ => s).shards (c.mm.shardFor env other) = _
      rw [modifyShard_of_ne _ apart]
      rfl

@[simp]
theorem shard_setShard_self : (u.setShard env key s).shard env key = s := by
  rw [shard_setShard, if_pos rfl]

@[simp]
theorem setShard_setShard : (u.setShard env key s).setShard env key t = u.setShard env key t := by
  cases u with
  | plain strategy c => rfl
  | striped c =>
    simp only [setShard, modifyShard]
    have route : shardFor env { c.mm with
        shards := Function.update c.mm.shards (c.mm.shardFor env key) s } key =
        c.mm.shardFor env key := rfl
    rw [route, Function.update_idem]

@[simp]
theorem setShard_shard : u.setShard env key (u.shard env key) = u := by
  cases u with
  | plain strategy c => rfl
  | striped c => simp only [setShard, shard, modifyShard, Function.update_eq_self]

@[simp]
theorem shard_setMonitor : (u.setMonitor m).shard env key = u.shard env key := by
  cases u <;> rfl

@[simp]
theorem setShard_setMonitor :
    (u.setMonitor m).setShard env key s = (u.setShard env key s).setMonitor m := by
  cases u <;> rfl

omit [NeZero n] in
@[simp]
theorem setMonitor_setMonitor (m' : Memory.Monitor) :
    (u.setMonitor m).setMonitor m' = u.setMonitor m' := by
  cases u <;> rfl

omit [NeZero n] in
theorem setMonitor_self : ∃ m, u.setMonitor m = u := by
  cases u with
  | plain strategy c | striped c => exact ⟨c.memoryMonitor, rfl⟩

@[simp]
theorem policy_setShard [DecidableEq K] : (u.setShard env key s).policy env = u.policy env := by
  cases u <;> rfl

section

omit [NeZero n]

@[simp]
theorem policy_setMonitor [DecidableEq K] : (u.setMonitor m).policy env = u.policy env := by
  cases u <;> rfl

theorem reportMemory_eq {limiterOver : Bool} :
    ∃ m, u.reportMemory limiterOver = u.setMonitor m := by
  cases u with
  | plain strategy c =>
    simp only [reportMemory, Cache.reportMemory, Layer.reportMemory]
    split
    · exact ⟨_, rfl⟩
    · exact ⟨c.memoryMonitor, rfl⟩
  | striped c =>
    simp only [reportMemory, Striped.reportMemory, Layer.reportMemory]
    split
    · exact ⟨_, rfl⟩
    · exact ⟨c.memoryMonitor, rfl⟩

theorem laws [DecidableEq K] (env : Env K V) (u : HandleCache K V n) : (u.policy env).Laws env := by
  cases u with
  | plain strategy c => exact strategy.laws env
  | striped c => exact MmLru.laws env

end

theorem Agrees.shard (agrees : u.Agrees env) (key : K) : (u.shard env key).WellFormed env := by
  cases u with
  | plain strategy c => exact agrees
  | striped c => exact agrees _

theorem Agrees.setShard (agrees : u.Agrees env) (wf : s.WellFormed env) :
    (u.setShard env key s).Agrees env := by
  cases u with
  | plain strategy c => exact wf
  | striped c =>
    intro i
    by_cases same : i = c.mm.shardFor env key
    · subst same
      rw [modifyShard_same]
      exact wf
    · rw [modifyShard_of_ne _ same]
      exact agrees i

omit [NeZero n] in
theorem Agrees.setMonitor (agrees : u.Agrees env) : (u.setMonitor m).Agrees env := by
  cases u <;> exact agrees

end Shards

/-! ## The critical section of `cas` -/

section Commit

variable {env : Env K V} {u : HandleCache K V n} {key : K} {value : V} {a : Ambient K}

theorem release_setShard (s : State K V) (i : ItemId) :
    (u.setShard env key s).release env key i = u.setShard env key (s.decRef i) := by
  rw [release, shard_setShard_self, setShard_setShard]

theorem release_setMonitor (m : Memory.Monitor) (i : ItemId) :
    (u.setMonitor m).release env key i = (u.release env key i).setMonitor m := by
  rw [release, release, shard_setMonitor, setShard_setMonitor]

variable [DecidableEq K]

/-- The state of a shard as far as the monitor's question depends on it. -/
structure SameSize (env : Env K V) (key : K) (nowNs : Nat) (s t : State K V) : Prop where
  settings_eq : t.settings = s.settings
  memory_eq : t.stats.currentMemory = s.stats.currentMemory
  live_eq : t.live env key nowNs = s.live env key nowNs

theorem peekForGet_memory (env : Env K V) (s : State K V) (key : K) (nowNs : Nat) :
    (s.peekForGet env key nowNs).2.stats.currentMemory = s.stats.currentMemory := by
  rw [peekForGet]
  obtain ⟨missed, -⟩ | ⟨i, -, -, pinned⟩ := findAndPin_cases env s key
  · rw [missed]
  · rw [pinned]
    have same := (checkExpiry_stats (s.incRef i) i key nowNs true).2
    simp only
    split
    case h_1 t checked => rw [checked] at same; exact same
    case h_2 t checked => rw [checked] at same; exact same

/-- A lookup with a pin does not change the answer of the monitor. -/
theorem SameSize.of_pinned {s t : State K V} {i : ItemId} (wf : s.WellFormed env)
    (quiet : Quiet (s.incRef i) t) (memory : t.stats.currentMemory = s.stats.currentMemory)
    (nowNs : Nat) : SameSize env key nowNs s t := by
  have pinned : (s.incRef i).WellFormed env := WellFormed.write (.count (· + 1)) wf
  have find_eq : t.find env key = s.find env key :=
    ((Rearranges.of_quiet quiet pinned).find_eq pinned).trans
      (find_modify (.count (· + 1)) env s i key)
  have expiry_eq (j : ItemId) : (t.heap j).expiryNs = (s.heap j).expiryNs := by
    rw [congrArg Body.expiryNs (quiet.body_eq j)]
    by_cases same : j = i
    · subst same
      simp [State.incRef, State.modify]
    · simp [State.incRef, State.modify, same]
  refine ⟨quiet.settings_eq, memory, ?_⟩
  simp only [live, find_eq, Body.isExpired, expiry_eq]

omit [NeZero n] [DecidableEq K] in
theorem currentMemory_modifyShard {c : ShardedMmLru K V n} {i : Fin n} {t : State K V}
    (same : t.stats.currentMemory = (c.shards i).stats.currentMemory) :
    (c.modifyShard i fun _ => t).currentMemory = c.currentMemory := by
  have each : ∀ j, ((c.modifyShard i fun _ => t).shards j).stats.currentMemory =
      (c.shards j).stats.currentMemory := by
    intro j
    by_cases equal : j = i
    · subst equal
      rw [modifyShard_same]
      exact same
    · rw [modifyShard_of_ne _ equal]
  simp only [currentMemory, sumShards, each]

/-- The verdict of the monitor depends on the size of the shard only. -/
theorem checkMemoryAdmission_of_sameSize (value : V) {t : State K V}
    (same : SameSize env key a.nowNs (u.shard env key) t) :
    ((u.setShard env key t).checkMemoryAdmission env key value a).1 =
      (u.checkMemoryAdmission env key value a).1 := by
  cases u with
  | plain strategy c =>
    simp only [checkMemoryAdmission, setShard, Prod.map_fst, Cache.checkMemoryAdmission]
    split
    · simp only [contains_fst, Cache.admissionBytes]
      have settings : t.settings = c.mm.settings := same.settings_eq
      have memory : t.stats.currentMemory = c.mm.stats.currentMemory := same.memory_eq
      have live : t.live env key a.nowNs = c.mm.live env key a.nowNs := same.live_eq
      rw [settings, memory, live]
    · rfl
  | striped c =>
    have settings : t.settings = (c.mm.shards (c.mm.shardFor env key)).settings := same.settings_eq
    have live : t.live env key a.nowNs =
        (c.mm.shards (c.mm.shardFor env key)).live env key a.nowNs := same.live_eq
    have memory := currentMemory_modifyShard same.memory_eq
    have route : (c.mm.modifyShard (c.mm.shardFor env key) fun _ => t).shardFor env key =
        c.mm.shardFor env key := rfl
    simp only [checkMemoryAdmission, setShard, Prod.map_fst, Striped.checkMemoryAdmission]
    split
    · simp only [contains_fst, Striped.admissionBytes, route, modifyShard_same,
        settings, live, memory]
    · rfl

/-- Asking the monitor changes it, and counts a lookup in the shard. -/
theorem checkMemoryAdmission_snd (env : Env K V) (u : HandleCache K V n) (key : K) (value : V)
    (a : Ambient K) :
    ∃ s m, Quiet (u.shard env key) s ∧
      (u.checkMemoryAdmission env key value a).2 = (u.setShard env key s).setMonitor m := by
  cases u with
  | plain strategy c =>
    simp only [checkMemoryAdmission, Cache.checkMemoryAdmission]
    split
    · exact ⟨_, _, contains_quiet env c.mm key a.nowNs, rfl⟩
    · exact ⟨c.mm, c.memoryMonitor, .refl, rfl⟩
  | striped c =>
    simp only [checkMemoryAdmission, Striped.checkMemoryAdmission]
    split
    · exact ⟨_, _, contains_quiet env _ key a.nowNs, rfl⟩
    · refine ⟨_, c.memoryMonitor, .refl, ?_⟩
      rw [setShard_shard]
      rfl

theorem install_eq (env : Env K V) (u : HandleCache K V n) (key : K) (desired : V) (i : ItemId)
    (a : Ambient K) :
    ∃ m, u.install env key desired i a = (u.setShard env key
      (((u.policy env).set env (u.shard env key) key desired a.sec).decRef i)).setMonitor m := by
  obtain ⟨m, reported⟩ := reportMemory_eq
  refine ⟨m, ?_⟩
  rw [install, reported, release_setMonitor, release_setShard]

/-- How the critical section ends, and what it leaves of the shard. It swaps exactly if
the value shown is the expected one and the monitor admits the new one. -/
inductive Commits (env : Env K V) (u : HandleCache K V n) (key : K) (expected desired : V)
    (a : Ambient K) : Commit → State K V → Prop where
  | failed {t} (differs : (u.shard env key).shown env key a.nowNs ≠ some expected)
      (quiet : Quiet (u.shard env key) t) : Commits env u key expected desired a .failed t
  | refused {t} (shows : (u.shard env key).shown env key a.nowNs = some expected)
      (verdict : (u.checkMemoryAdmission env key desired a).1 = false)
      (quiet : Quiet (u.shard env key) t) : Commits env u key expected desired a .refused t
  | swapped {i s} (shows : (u.shard env key).shown env key a.nowNs = some expected)
      (verdict : (u.checkMemoryAdmission env key desired a).1 = true)
      (found : (u.shard env key).find env key = some i)
      (pinned : Quiet ((u.shard env key).incRef i) s) :
      Commits env u key expected desired a .swapped
        (((u.policy env).set env s key desired a.sec).decRef i)

/-- The critical section changes the shard of the key and the monitor alone. -/
theorem casCommit_spec [DecidableEq V] (agrees : u.Agrees env) {expected desired : V} :
    ∃ t m, (u.casCommit env key expected desired a).2 = (u.setShard env key t).setMonitor m ∧
      Commits env u key expected desired a (u.casCommit env key expected desired a).1 t := by
  have memory := peekForGet_memory env (u.shard env key) key a.nowNs
  rw [casCommit]
  obtain ⟨hidden, missed, quiet⟩ | ⟨i, found, shows, pinned, quiet⟩ :=
    peekForGet_cases env (u.shard env key) key a.nowNs
  · cases read : (u.shard env key).peekForGet env key a.nowNs with
    | mk item s =>
      rw [read] at missed quiet
      obtain rfl : item = none := missed
      obtain ⟨m, same⟩ := setMonitor_self
      exact ⟨s, m, same.symm, .failed (by simp [hidden]) quiet⟩
  · cases read : (u.shard env key).peekForGet env key a.nowNs with
    | mk item s =>
      rw [read] at memory pinned quiet
      obtain rfl : item = some i := pinned
      have value_eq : (s.heap i).value = ((u.shard env key).heap i).value := by
        rw [congrArg Body.value (quiet.body_eq i)]
        simp [State.incRef, State.modify]
      simp only [value_eq]
      split
      case isTrue other =>
        obtain ⟨m, same⟩ := setMonitor_self
        refine ⟨s.decRef i, m, ?_, .failed (by simpa [shows] using other) (.pinned quiet)⟩
        rw [same, release_setShard]
      case isFalse equal =>
        rw [not_not.mp equal] at shows
        -- The pin does not count for the monitor: its verdict is the one on the state before.
        have verdict := checkMemoryAdmission_of_sameSize desired
          (SameSize.of_pinned (agrees.shard key) quiet memory a.nowNs)
        obtain ⟨t, m, asked, after⟩ :=
          checkMemoryAdmission_snd env (u.setShard env key s) key desired a
        rw [shard_setShard_self] at asked
        rw [setShard_setShard] at after
        cases answer : (u.setShard env key s).checkMemoryAdmission env key desired a with
        | mk admitted d =>
          rw [answer] at after verdict
          obtain rfl : d = (u.setShard env key t).setMonitor m := after
          cases admitted with
          | false =>
            refine ⟨t.decRef i, m, ?_, .refused shows verdict.symm (.pinned (quiet.trans asked))⟩
            simp only [release_setMonitor, release_setShard]
          | true =>
            obtain ⟨m', installed⟩ :=
              install_eq env ((u.setShard env key t).setMonitor m) key desired i a
            refine ⟨_, m', ?_, .swapped shows verdict.symm found (quiet.trans asked)⟩
            simp only [installed, policy_setMonitor, policy_setShard, shard_setMonitor,
              shard_setShard_self, setShard_setMonitor, setShard_setShard, setMonitor_setMonitor]

end Commit

end HandleCache

end Lru
