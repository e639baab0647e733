import Lru.Cache.Effects

/-!
# Runs of a cache

The public calls as labels of a step function, and what holds in every state
that a cache reaches: table and lists of its strategy agree. A run may contain
any calls, clock readings, monitor samples and configuration changes; the only
restriction is that no `pop_lru` takes an item whose key a move would change.
-/

namespace Lru.Cache

open Mm State

variable {K V α : Type} {strategy : Strategy} {env : Env K V} {c : Cache K V} {fnName : String}

/-- The public calls, with what each learns from outside. -/
inductive Call (K V : Type) where
  | set (key : K) (value : V) (a : Ambient K)
  | setWithTtl (key : K) (value : V) (ttlNs : Int) (effectiveNs : Nat) (a : Ambient K)
  | setWithAbsoluteExpiry (key : K) (value : V) (expiryNs : Nat) (a : Ambient K)
  | add (key : K) (value : V) (a : Ambient K)
  | replace (key : K) (value : V) (a : Ambient K)
  | setPrehashed (key : K) (hash : Nat) (value : V) (a : Ambient K)
  | setMulti (pairs : List ((K × V) × Ambient K))
  | cas (key : K) (expected desired : V) (a : Ambient K)
  | get (key : K) (a : Ambient K)
  | peek (key : K)
  | getView (key : K)
  | getShared (key : K) (a : Ambient K)
  | contains (key : K) (a : Ambient K)
  | del (key : K) (a : Ambient K)
  | forceDel (key : K) (a : Ambient K)
  | delEx (key : K) (a : Ambient K)
  | pop (key : K) (a : Ambient K)
  | popLru (a : Ambient K)
  | evict (a : Ambient K)
  | flush (a : Ambient K)
  | evictExpired (batchSize : Nat) (a : Ambient K)
  | maxSize (newMax : Nat) (a : Ambient K)
  | maxMemory (newMax : Nat) (a : Ambient K)
  | setMaxMemory (bytes : Nat)
  | setMemoryWatermarks (soft critical : ℚ)
  | setQuiesced (quiesced : Bool)
  | shutdown (a : Ambient K)
  /-- The monitor is configured, sampled or used by a guard. -/
  | monitor (memoryMonitor : Memory.Monitor)
  /-- An operation on the strategy itself: a handle goes away, a callback, a size
  calculator or a configuration is set. -/
  | mm (op : Op K V)

section Step

variable [DecidableEq K] [DecidableEq V] (env : Env K V) (strategy : Strategy) (c : Cache K V)

def step : Call K V → Option (Cache K V)
  | .set key value a => some (c.set env strategy key value a).2
  | .setWithTtl key value ttlNs effectiveNs a =>
    some (c.setWithTtl env strategy key value ttlNs effectiveNs a).2
  | .setWithAbsoluteExpiry key value expiryNs a =>
    some (c.setWithAbsoluteExpiry env strategy key value expiryNs a).2
  | .add key value a => some (c.add env strategy key value a).2
  | .replace key value a => some (c.replace env strategy key value a).2
  | .setPrehashed key hash value a => some (c.setPrehashed env strategy key hash value a).2
  | .setMulti pairs => some (setMulti env strategy c pairs).2
  | .cas key expected desired a => some (c.cas env strategy key expected desired a).2
  | .get key a => some (c.get env strategy key a).2
  | .peek key => some (c.peek env key).2
  | .getView key => some (c.getView env key).2
  | .getShared key a => some (c.getShared env key a).2
  | .contains key a => some (c.contains env key a).2
  | .del key a => some (c.del env strategy key a).2
  | .forceDel key a => some (c.forceDel env strategy key a).2
  | .delEx key a => some (c.delEx env strategy key a).2
  | .pop key a => some (c.pop env strategy key a).2
  | .popLru a => if strategy.hasPopLru then some (c.popLru env strategy a).2 else none
  | .evict a => some (c.evict env strategy a).2
  | .flush a => some (c.flush env strategy a).2
  | .evictExpired batchSize a => some (c.evictExpired env strategy batchSize a).2
  | .maxSize newMax a => some (c.maxSize env strategy newMax a)
  | .maxMemory newMax a => some (c.maxMemory env strategy newMax a)
  | .setMaxMemory bytes => some (c.setMaxMemory env strategy bytes)
  | .setMemoryWatermarks soft critical =>
    some { c with memorySoftWatermark := soft, memoryCriticalWatermark := critical }
  | .setQuiesced quiesced => some { c with quiesced := quiesced }
  | .shutdown a => some { c with
      closed := true
      mm := a.drained.foldl (promoteKey env strategy a.sec) c.mm }
  | .monitor memoryMonitor => some { c with memoryMonitor := memoryMonitor }
  | .mm op => (strategy.step env c.mm op).map fun mm => { c with mm := mm }

/-- No `pop_lru` takes an item whose key a move would change. -/
def PopsStable : Call K V → Prop
  | .popLru a => strategy.TailKeyStable env (c.drainRing env strategy a).mm
  | .mm .popLru => strategy.TailKeyStable env c.mm
  | _ => True

end Step

/-! ## The agreement of table and lists -/

section Writes

/-- A write behind checks, which returns what they leave when they refuse it. -/
theorem checked_keeps {P : Cache K V → Prop} {verdict : Bool × Cache K V} {result : Cache K V}
    (checked : P verdict.2) (refused : ∀ d, verdict = (false, d) → result = d)
    (admitted : ∀ d, verdict = (true, d) → P d → P result) : P result := by
  obtain ⟨_ | _, d⟩ := verdict
  · exact refused d rfl ▸ checked
  · exact admitted d rfl checked

theorem guarded_wf {rejected proceed : α × Cache K V}
    (wf : c.mm.WellFormed env) (afterReject : rejected.2.mm.WellFormed env)
    (afterProceed : proceed.2.mm.WellFormed env) :
    (c.guarded fnName rejected proceed).2.mm.WellFormed env :=
  guarded_keeps (P := (·.mm.WellFormed env)) wf afterReject fun _ => afterProceed

variable [DecidableEq K]

variable (strategy) (reportsAdmission reportsOverflow : Bool) (key : K) (value : V)
  (a : Ambient K) (wf : c.mm.WellFormed env)

include wf

omit [DecidableEq K] in
theorem reportWriteRejected_wf : (c.reportWriteRejected key value).mm.WellFormed env := by
  unfold State.WellFormed reportWriteRejected
  rw [core_collect]
  exact wf

theorem admitWrite_wf :
    (c.admitWrite env strategy reportsAdmission reportsOverflow key value a).2.mm.WellFormed env :=
  admitWrite_keeps strategy reportsAdmission reportsOverflow key
    value a wf (·.mm.wf) (reportWriteRejected_wf key value)

theorem enforceCapacity_wf {sizeBefore : Nat} :
    (c.enforceCapacityAfterInsert env strategy key sizeBefore).mm.WellFormed env := by
  obtain ⟨mm, shrunk, gated | gated⟩ := enforceCapacity_spec wf
  · rw [gated]
    exact shrunk.wf
  · rw [gated]
    unfold State.WellFormed noteEvictionRejected
    rw [core_collect]
    exact shrunk.wf

theorem setBody_wf : (c.setBody env strategy key value a).mm.WellFormed env := by
  refine checked_keeps (P := (·.mm.WellFormed env))
    (admitWrite_wf strategy true true key value a wf)
    (fun d verdict => by rw [setBody, verdict]) fun d verdict checked => ?_
  rw [setBody, verdict]
  exact enforceCapacity_wf strategy key ((strategy.laws env).set_wf checked key value a.sec)

theorem set_wf : (c.set env strategy key value a).2.mm.WellFormed env :=
  guarded_wf wf (reportWriteRejected_wf key value wf) (setBody_wf strategy key value a wf)

theorem setWithExpiryNsImpl_wf {expiryNs : Nat} :
    (c.setWithExpiryNsImpl env strategy key value expiryNs a).mm.WellFormed env := by
  refine checked_keeps (P := (·.mm.WellFormed env))
    (admitWrite_wf strategy true false key value a wf)
    (fun d verdict => by rw [setWithExpiryNsImpl, verdict]) fun d verdict checked => ?_
  rw [setWithExpiryNsImpl, verdict]
  exact enforceCapacity_wf strategy key
    ((strategy.laws env).setWithExpiry_wf checked key value expiryNs a.sec)

theorem addBody_wf : (c.addBody env strategy key value a).2.mm.WellFormed env := by
  refine checked_keeps (P := (·.mm.WellFormed env))
    (admitWrite_wf strategy true false key value a wf)
    (fun d verdict => by rw [addBody, verdict]) fun d verdict checked => ?_
  rw [addBody, verdict]
  exact (strategy.laws env).add_wf checked

theorem setPrehashedBody_wf : (c.setPrehashedBody env strategy key value a).mm.WellFormed env := by
  refine checked_keeps (P := (·.mm.WellFormed env))
    (admitWrite_wf strategy true false key value a wf)
    (fun d verdict => by rw [setPrehashedBody, verdict]) fun d verdict checked => ?_
  rw [setPrehashedBody, verdict]
  exact (strategy.laws env).set_wf checked key value a.sec

theorem casBody_wf [DecidableEq V] (expected desired : V) :
    (c.casBody env strategy key expected desired a).2.mm.WellFormed env := by
  have read := peekForGet_wf key a.nowNs wf
  have released : ∀ {mm : State K V} (i : ItemId), mm.WellFormed env →
      (mm.decRef i).WellFormed env := fun i wf => WellFormed.write (.count (· - 1)) wf
  unfold casBody
  split
  case h_1 mm missed =>
    rw [missed] at read
    exact read
  case h_2 i mm pinned =>
    rw [pinned] at read
    simp only
    split
    · exact released i read
    · have asked := (checkMemoryAdmission_quiet env { c with mm := mm } key desired a).2.wf read
      split
      case h_1 d refused =>
        rw [refused] at asked
        exact released i asked
      case h_2 d admitted =>
        rw [admitted] at asked
        refine released i ?_
        exact (strategy.laws env).set_wf asked key desired a.sec

end Writes

section Reads

variable [DecidableEq K] (key : K) (a : Ambient K) (wf : c.mm.WellFormed env)

include wf

omit [DecidableEq K] in
theorem noteMiss_wf : (c.noteMiss key).mm.WellFormed env := Quiet.wf (.collect rfl) wf

omit [DecidableEq K] in
theorem noteHit_wf (i : ItemId) : (c.noteHit key i).mm.WellFormed env := Quiet.wf (.collect rfl) wf

theorem get_wf : (c.get env strategy key a).2.mm.WellFormed env := by
  have read := peekForGet_wf key a.nowNs wf
  unfold get
  split
  · exact wf
  · split
    case h_1 mm missed =>
      rw [missed] at read
      split
      · exact read
      · exact noteMiss_wf key read
    case h_2 i mm pinned =>
      rw [pinned] at read
      refine noteHit_wf key ?_ i
      split
      · exact read
      · exact ((strategy.laws env).promote_moves read key a.sec).wf

theorem peek_wf : (c.peek env key).2.mm.WellFormed env := by
  unfold peek
  split
  · exact wf
  · exact findAndPin_wf wf

theorem getView_wf : (c.getView env key).2.mm.WellFormed env := by
  have read := peek_wf key wf
  unfold getView
  split
  case h_1 d missed =>
    rw [missed] at read
    exact read
  case h_2 i d pinned =>
    rw [pinned] at read
    exact WellFormed.write (.count (· - 1)) read

theorem getShared_wf : (c.getShared env key a).2.mm.WellFormed env := by
  have read := peekForGet_wf key a.nowNs wf
  unfold getShared
  split
  · exact wf
  · split
    case h_1 mm missed =>
      rw [missed] at read
      exact noteMiss_wf key read
    case h_2 i mm pinned =>
      rw [pinned] at read
      exact WellFormed.write (.count (· - 1)) (noteHit_wf key read i)

theorem contains_wf : (c.contains env key a).2.mm.WellFormed env := by
  unfold contains
  split
  · exact wf
  · exact (contains_quiet env c.mm key a.nowNs).wf wf

end Reads

section Removals

theorem guardedRemoval_wf {result : α × Cache K V}
    (wf : c.mm.WellFormed env) (after : result.2.mm.WellFormed env) :
    (c.guardedRemoval fnName result).2.mm.WellFormed env :=
  guarded_wf wf after after

theorem removing_wf {a : Ambient K} {result : α × State K V}
    (after : result.2.WellFormed env) : (c.removing a result).2.mm.WellFormed env := by
  unfold removing
  exact after

variable [DecidableEq K]

variable (key : K) (a : Ambient K) (wf : c.mm.WellFormed env)

include wf

theorem delExBody_wf : (c.delExBody env strategy key a).2.mm.WellFormed env := by
  have looked := (contains_quiet env c.mm key a.nowNs).wf wf
  unfold delExBody
  split
  case h_1 mm absent =>
    rw [absent] at looked
    exact looked
  case h_2 mm present =>
    rw [present] at looked
    have deleted := ((strategy.laws env).del_shrinks looked key).wf
    split
    case h_1 after removed =>
      rw [removed] at deleted
      exact deleted
    case h_2 after pinned =>
      rw [pinned] at deleted
      exact deleted

theorem pop_wf : (c.pop env strategy key a).2.mm.WellFormed env := by
  have popped := ((strategy.laws env).pop_shrinks wf key).wf
  refine guardedRemoval_wf wf ?_
  split
  case h_1 mm missed =>
    rw [missed] at popped
    exact popped
  case h_2 value mm taken =>
    rw [taken] at popped
    exact popped

theorem popLru_wf (stable : strategy.TailKeyStable env (c.drainRing env strategy a).mm) :
    (c.popLru env strategy a).2.mm.WellFormed env := by
  have drained := drainRing_prepares strategy a wf
  have popped := (Strategy.popLru_shrinks drained.mm.wf stable).wf
  refine guardedRemoval_wf wf ?_
  split
  case h_1 mm missed =>
    rw [missed] at popped
    exact popped
  case h_2 entry mm taken =>
    rw [taken] at popped
    exact popped

theorem evict_wf : (c.evict env strategy a).2.mm.WellFormed env := by
  have drained := drainRing_prepares strategy a wf
  have evicted := ((strategy.laws env).eviction.shrinks drained.mm.wf).wf
  refine guardedRemoval_wf wf ?_
  split
  · rw [reportMemory_mm]
    exact evicted
  · exact evicted

theorem flush_wf : (c.flush env strategy a).2.mm.WellFormed env := by
  have drained := (foldl_promoteKey_rearranges strategy a.sec a.drained wf).1
  exact guardedRemoval_wf wf (removing_wf ((strategy.laws env).flush_shrinks drained.wf).wf)

end Removals

/-! ## Reachable states -/

section Runs

variable [DecidableEq K] [DecidableEq V] {d : Cache K V}

/-- Every call keeps table and lists in agreement, `pop_lru` on condition. -/
theorem step_wf {call : Call K V} (wf : c.mm.WellFormed env)
    (allowed : c.PopsStable env strategy call) (taken : c.step env strategy call = some d) :
    d.mm.WellFormed env := by
  have laws := strategy.laws env
  cases call with try cases taken
  | set key value a => exact set_wf strategy key value a wf
  | setWithTtl key value ttlNs effectiveNs a =>
    exact guarded_wf wf wf (setWithExpiryNsImpl_wf strategy key value a wf)
  | setWithAbsoluteExpiry key value expiryNs a =>
    exact guarded_wf wf wf (setWithExpiryNsImpl_wf strategy key value a wf)
  | add key value a => exact guarded_wf wf wf (addBody_wf strategy key value a wf)
  | replace key value a =>
    have drained := drainRing_prepares strategy a wf
    refine guarded_wf wf wf ?_
    exact laws.replace_wf drained.mm.wf
  | setPrehashed key hash value a =>
    exact guarded_wf wf wf (setPrehashedBody_wf strategy key value a wf)
  | setMulti pairs => exact setMulti_keeps (P := (·.mm.WellFormed env)) pairs (set_wf strategy) wf
  | cas key expected desired a =>
    exact guarded_wf wf (reportWriteRejected_wf key desired wf)
      (casBody_wf strategy key a wf expected desired)
  | get key a => exact get_wf key a wf
  | peek key => exact peek_wf key wf
  | getView key => exact getView_wf key wf
  | getShared key a => exact getShared_wf key a wf
  | contains key a => exact contains_wf key a wf
  | del key a => exact guardedRemoval_wf wf (removing_wf (laws.del_shrinks wf key).wf)
  | forceDel key a => exact guardedRemoval_wf wf (removing_wf (laws.forceDel_shrinks wf).wf)
  | delEx key a => exact guardedRemoval_wf wf (delExBody_wf key a wf)
  | pop key a => exact pop_wf key a wf
  | popLru a =>
    obtain ⟨-, rfl⟩ := Transition.of_guarded taken
    exact popLru_wf a wf allowed
  | evict a => exact evict_wf a wf
  | flush a => exact flush_wf a wf
  | evictExpired batchSize a => exact (laws.evictExpiredN_shrinks wf).wf
  | maxSize newMax a =>
    unfold maxSize
    rw [reportMemory_mm]
    exact (laws.maxSize_shrinks wf).wf
  | maxMemory newMax a =>
    unfold maxMemory
    exact (laws.maxMemory_shrinks wf).wf
  | setMaxMemory bytes =>
    unfold setMaxMemory
    exact (laws.maxMemory_shrinks wf).wf
  | setMemoryWatermarks | setQuiesced | monitor => exact wf
  | shutdown a => exact (foldl_promoteKey_rearranges strategy a.sec a.drained wf).1.wf
  | mm op =>
    obtain ⟨mm, stepped, rfl⟩ := Option.map_eq_some_iff.mp taken
    refine Strategy.step_wf wf ?_ stepped
    rintro rfl
    exact allowed

def Fresh (c : Cache K V) : Prop :=
  ∃ memory settings sketch sec, c.mm = State.empty memory settings sketch sec

/-- A state that a new cache reaches by such a run. -/
def Reachable (env : Env K V) (strategy : Strategy) (c : Cache K V) : Prop :=
  ∃ start, Fresh start ∧
    Transition.Reaches (fun c : Cache K V => c.step env strategy)
      (fun c => c.PopsStable env strategy) start c

theorem Reachable.wf (reachable : c.Reachable env strategy) : c.mm.WellFormed env := by
  obtain ⟨start, ⟨memory, settings, sketch, sec, empty⟩, reached⟩ := reachable
  refine Transition.Reaches.invariant (P := fun c : Cache K V => c.mm.WellFormed env) reached ?_ ?_
  · rw [empty]
    exact Strategy.empty_wf memory settings sketch sec
  · intro c call d wf allowed taken
    exact step_wf wf allowed taken

/-- A reachable state stays reachable by a permitted call. -/
theorem Reachable.step (reachable : c.Reachable env strategy) (call : Call K V)
    (allowed : c.PopsStable env strategy call) (taken : c.step env strategy call = some d) :
    d.Reachable env strategy := by
  obtain ⟨start, fresh, reached⟩ := reachable
  exact ⟨start, fresh, reached.tail ⟨call, allowed, taken⟩⟩

/-- Between any two calls each list holds, once each, the residents whose `queue_id` names it,
a key is found exactly where it is resident, and what was handed to the reclaimer or waits for
its last handle is not resident. -/
theorem table_lists_agree (reachable : c.Reachable env strategy) :
    (∀ q, (c.mm.queue q).Nodup) ∧
      (∀ q i, i ∈ c.mm.queue q ↔ i ∈ c.mm.table ∧ (c.mm.heap i).queueId = q) ∧
      (∀ key i, c.mm.find env key = some i ↔ i ∈ c.mm.table ∧ (c.mm.heap i).key = key) ∧
      ∀ i ∈ c.mm.retired ++ c.mm.pendingDeletion, i ∉ c.mm.table := by
  have wf := reachable.wf
  refine ⟨wf.queue_nodup, fun q i => ⟨fun hi => ⟨wf.mem_table hi, wf.queue_id q i hi⟩, ?_⟩,
    fun _ _ => find_eq_some_iff wf, fun i hi => ?_⟩
  · rintro ⟨hi, rfl⟩
    exact wf.mem_queue hi
  · obtain retired | waits := List.mem_append.mp hi
    · exact wf.retired_not_mem i retired
    · exact wf.pending_not_mem i waits

end Runs

section Samples

open Mm.Strategy (intEnv)

def newCache : Cache Nat Nat := { mm := State.empty (fun _ => default) {} {} 0 }

theorem newCache_reachable (strategy : Strategy) : newCache.Reachable intEnv strategy :=
  ⟨newCache, ⟨fun _ => default, {}, {}, 0, rfl⟩, .refl⟩

/-- Three keys were set, and the first one was deleted. -/
def twoOfThree : Cache Nat Nat :=
  ((((newCache.set intEnv .mmLru 1 10 {}).2.set intEnv .mmLru 2 20 {}).2.set intEnv .mmLru 3 30
    {}).2.del intEnv .mmLru 1 {}).2

theorem twoOfThree_agrees :
    (twoOfThree.mm.queue 0).Nodup ∧ 1 ∈ twoOfThree.mm.queue 0 ∧ 2 ∈ twoOfThree.mm.queue 0 ∧
      0 ∈ twoOfThree.mm.retired ∧ 0 ∉ twoOfThree.mm.table := by
  have reachable : twoOfThree.Reachable intEnv .mmLru :=
    ((((newCache_reachable .mmLru).step (.set 1 10 {}) trivial rfl).step (.set 2 20 {}) trivial
      rfl).step (.set 3 30 {}) trivial rfl).step (.del 1 {}) trivial rfl
  obtain ⟨nodup, listed, found, gone⟩ := table_lists_agree reachable
  exact ⟨nodup 0, (listed 0 1).mpr ⟨((found 2 1).mp rfl).1, rfl⟩,
    (listed 0 2).mpr ⟨((found 3 2).mp rfl).1, rfl⟩, .head _, gone 0 (.head _)⟩

end Samples

end Lru.Cache
