import Lru.Library.Transition
import Lru.Mm.MmLru
import Lru.Mm.MmFifo
import Lru.Mm.Mm2q
import Lru.Mm.MmTinyLfu
import Lru.Mm.MmWTinyLfu
import Lru.Mm.Reads

/-!
# Runs of a strategy

The five strategies, their public operations as the labels of a step function,
and the agreement of table and lists in every state of a run. The only operation
that can break it is `pop_lru`, which erases a node by a key that it has already
moved out of the item.
-/

namespace Lru.Mm

variable {K V : Type}

open State Transition

inductive Strategy where
  | mmLru
  | mmFifo
  | mm2q
  | mmTinyLfu
  | mmWTinyLfu
  deriving DecidableEq, Repr

namespace Strategy

/-- Every strategy but `mm_2q` has `pop_lru`. -/
def hasPopLru : Strategy → Bool
  | mm2q => false
  | _ => true

/-- The configuration has a `defer_promotion` field. -/
def hasDeferPromotion : Strategy → Bool
  | mmLru | mmTinyLfu | mmWTinyLfu => true
  | mmFifo | mm2q => false

/-- The configuration has an `overflow_policy_value` field. -/
def hasOverflowPolicy : Strategy → Bool
  | mmLru => true
  | _ => false

def policy [DecidableEq K] (env : Env K V) : Strategy → Policy K V
  | mmLru => MmLru.policy env
  | mmFifo => MmFifo.policy env
  | mm2q => Mm2q.policy env
  | mmTinyLfu => MmTinyLfu.policy env
  | mmWTinyLfu => MmWTinyLfu.policy env

theorem laws [DecidableEq K] (env : Env K V) (strategy : Strategy) :
    (strategy.policy env).Laws env := by
  cases strategy with
  | mmLru => exact MmLru.laws env
  | mmFifo => exact MmFifo.laws env
  | mm2q => exact Mm2q.laws env
  | mmTinyLfu => exact MmTinyLfu.laws env
  | mmWTinyLfu => exact MmWTinyLfu.laws env

theorem insertsAlways [DecidableEq K] (env : Env K V) {strategy : Strategy}
    (lax : strategy ≠ .mmLru) : (strategy.policy env).InsertsAlways env := by
  cases strategy with
  | mmLru => exact absurd rfl lax
  | mmFifo => exact (MmFifo.insertParts env).insertsAlways
  | mm2q => exact Mm2q.insertParts.insertsAlways
  | mmTinyLfu => exact MmTinyLfu.insertParts.insertsAlways
  | mmWTinyLfu => exact MmWTinyLfu.insertParts.insertsAlways

end Strategy

/-! ## Steps -/

/-- The public operations of a strategy, with the clock readings they make. -/
inductive Op (K V : Type) where
  | set (key : K) (value : V) (sec : Nat)
  | setWithExpiry (key : K) (value : V) (expiryNs sec : Nat)
  | add (key : K) (value : V) (sec : Nat)
  | replace (key : K) (value : V) (sec : Nat)
  | get (key : K) (sec : Nat)
  | peek (key : K)
  | peekForGet (key : K) (nowNs : Nat)
  | contains (key : K) (nowNs : Nat)
  | promote (key : K) (sec : Nat)
  /-- A handle on this item goes away. -/
  | release (i : ItemId)
  | del (key : K)
  | forceDel (key : K)
  | pop (key : K)
  | popLru
  | flush
  | evict
  | evictExpiredN (nowNs batchSize : Nat)
  | maxSize (newMax : Nat)
  | maxMemory (newMax : Nat)
  | setConfig (config : Config) (sec : Nat)
  | setCallbacks (callbacks : Callbacks)
  | setEvictionPredicate (pred : Option (K → V → Bool))
  | setSizeCalculators (keySizeFn : Option (K → Nat)) (valueSizeFn : Option (V → Nat))
  | noteEvictionRejected (key : K) (value : V)
  /-- The hash table gets another geometry, and counts what it does. -/
  | rehash (bucketOf : Nat → Nat) (hashTable : HashTable := {})

def Op.isPopLru : Op K V → Bool
  | .popLru => true
  | _ => false

namespace Strategy

section Step

variable [DecidableEq K] (env : Env K V) (strategy : Strategy) (s : State K V)

/-- `pop_lru` would take an item whose key stays what it is when it is moved
from. -/
def TailKeyStable : Prop :=
  ∀ i, (strategy.policy env).popTail s = some i → env.movedKey (s.heap i).key = (s.heap i).key

def step : Op K V → Option (State K V)
  | .set key value sec => some ((strategy.policy env).set env s key value sec)
  | .setWithExpiry key value expiryNs sec =>
    some ((strategy.policy env).setWithExpiry env s key value expiryNs sec)
  | .add key value sec => some ((strategy.policy env).add env s key value sec).2
  | .replace key value sec => some ((strategy.policy env).replace env s key value sec).2
  | .get key sec => some ((strategy.policy env).get env s key sec).2
  | .peek key => some (s.peek env key).2
  | .peekForGet key nowNs => some (s.peekForGet env key nowNs).2
  | .contains key nowNs => some (s.contains env key nowNs).2
  | .promote key sec => some ((strategy.policy env).promote env s key sec).2
  | .release i => if 0 < (s.heap i).accessRef then some (s.decRef i) else none
  | .del key => some ((strategy.policy env).del env s key).2
  | .forceDel key => some ((strategy.policy env).forceDel env s key).2
  | .pop key => some ((strategy.policy env).pop env s key).2
  | .popLru => if strategy.hasPopLru then some ((strategy.policy env).popLru env s).2 else none
  | .flush => some ((strategy.policy env).flush env s)
  | .evict => some ((strategy.policy env).evict s)
  | .evictExpiredN nowNs batchSize =>
    some ((strategy.policy env).evictExpiredN env s nowNs batchSize).2
  | .maxSize newMax => some ((strategy.policy env).maxSize s newMax)
  | .maxMemory newMax => some ((strategy.policy env).maxMemory s newMax)
  | .setConfig config sec => some ((strategy.policy env).setConfig s config sec)
  | .setCallbacks callbacks =>
    some { s with settings := { s.settings with callbacks := callbacks } }
  | .setEvictionPredicate pred =>
    some { s with settings := { s.settings with evictionPredicate := pred } }
  | .setSizeCalculators keySizeFn valueSizeFn =>
    some { s with settings :=
      { s.settings with keySizeFn := keySizeFn, valueSizeFn := valueSizeFn } }
  | .noteEvictionRejected key value => some (s.noteEvictionRejected key value)
  | .rehash bucketOf hashTable => some { s with bucketOf := bucketOf, hashTable := hashTable }

end Step

/-! ## The agreement of table and lists over a run -/

section Runs

theorem empty_wf {env : Env K V} (memory : ItemId → Item K V) (settings : Settings K V)
    (sketch : Sketch) (sec : Nat) : (State.empty memory settings sketch sec).WellFormed env := by
  constructor <;> simp [State.empty, core]

variable [DecidableEq K] {env : Env K V} {strategy : Strategy} {s t : State K V}
  {settings : Settings K V} {memory : ItemId → Item K V} {sketch : Sketch} {sec : Nat}
  {ops : List (Op K V)}

/-- `pop_lru` on a tail with a stable key removes at most that item. -/
theorem popLru_shrinks (wf : s.WellFormed env) (stable : strategy.TailKeyStable env s) :
    Shrinks env s ((strategy.policy env).popLru env s).2 := by
  have laws := strategy.laws env
  have clean := Rearranges.cleanup wf
  unfold Policy.popLru
  simp only
  split
  · exact clean.toShrinks
  case h_2 i isTail =>
    split
    · exact clean.toShrinks
    · have key := stable i ((laws.popTail_cleanup s).symm.trans isTail)
      rw [← cleanup_heap s] at key
      exact clean.toShrinks.trans
        (laws.popItem_removes clean.wf (laws.popTail clean.wf isTail).1 key).toShrinks

/-- Every operation keeps table and lists in agreement, `pop_lru` on condition. -/
theorem step_wf {op : Op K V} (wf : s.WellFormed env)
    (allowed : op = .popLru → strategy.TailKeyStable env s)
    (taken : strategy.step env s op = some t) : t.WellFormed env := by
  have laws := strategy.laws env
  cases op with try cases taken
  | set key value sec => exact laws.set_wf wf key value sec
  | setWithExpiry key value expiryNs sec => exact laws.setWithExpiry_wf wf key value expiryNs sec
  | add key value sec => exact laws.add_wf wf
  | replace key value sec => exact laws.replace_wf wf
  | get key sec => exact laws.get_wf wf
  | peek key => exact findAndPin_wf wf
  | peekForGet key nowNs => exact peekForGet_wf key nowNs wf
  | contains key nowNs => exact (contains_quiet env s key nowNs).wf wf
  | promote key sec => exact (laws.promote_moves wf key sec).wf
  | release i =>
    obtain ⟨-, rfl⟩ := of_guarded taken
    exact WellFormed.write (.count (· - 1)) wf
  | del key => exact (laws.del_shrinks wf key).wf
  | forceDel key => exact (laws.forceDel_shrinks wf).wf
  | pop key => exact (laws.pop_shrinks wf key).wf
  | popLru =>
    obtain ⟨-, rfl⟩ := of_guarded taken
    exact (popLru_shrinks wf (allowed rfl)).wf
  | flush => exact (laws.flush_shrinks wf).wf
  | evict => exact (laws.eviction.shrinks wf).wf
  | evictExpiredN nowNs batchSize => exact (laws.evictExpiredN_shrinks wf).wf
  | maxSize newMax => exact (laws.maxSize_shrinks wf).wf
  | maxMemory newMax => exact (laws.maxMemory_shrinks wf).wf
  | setConfig config sec =>
    refine (laws.reconfigure sec ?_).wf
    exact wf
  | setCallbacks | setEvictionPredicate => exact wf
  | setSizeCalculators keySizeFn valueSizeFn => exact wf
  | noteEvictionRejected key value =>
    unfold State.WellFormed noteEvictionRejected
    rw [core_collect]
    exact wf
  | rehash bucketOf => exact wf

/-- Every `pop_lru` of a run finds a tail with a stable key. -/
def PopsStable (env : Env K V) (strategy : Strategy) (s : State K V) (op : Op K V) : Prop :=
  op = .popLru → strategy.TailKeyStable env s

/-- A state that a newly constructed strategy reaches by such a run. -/
def Reachable (env : Env K V) (strategy : Strategy) (s : State K V) : Prop :=
  ∃ memory settings sketch sec, Transition.Reaches (strategy.step env) (strategy.PopsStable env)
    (State.empty memory settings sketch sec) s

theorem Reachable.wf (reachable : strategy.Reachable env s) : s.WellFormed env := by
  obtain ⟨memory, settings, sketch, sec, reached⟩ := reachable
  refine reached.invariant (empty_wf memory settings sketch sec) ?_
  intro s op t wf allowed taken
  exact step_wf wf allowed taken

/-- A list of calls without `pop_lru` leads to a reachable state. -/
theorem Reachable.of_run
    (executed : runWhere (strategy.step env) (fun _ op => !op.isPopLru)
      (State.empty memory settings sketch sec) ops = some t) : strategy.Reachable env t := by
  refine ⟨memory, settings, sketch, sec, (Transition.Reaches.of_runWhere executed).weaken ?_⟩
  rintro _ _ allowed rfl
  cases allowed

/-- The state after a list of calls that can all be made. -/
theorem Reachable.getD (made : (runWhere (strategy.step env) (fun _ op => !op.isPopLru)
      (State.empty memory settings sketch sec) ops).isSome = true) {other : State K V} :
    strategy.Reachable env ((runWhere (strategy.step env) (fun _ op => !op.isPopLru)
      (State.empty memory settings sketch sec) ops).getD other) := by
  obtain ⟨t, executed⟩ := Option.isSome_iff_exists.mp made
  rw [executed]
  exact .of_run executed

end Runs

/-- Integers as keys and values: a move leaves them as they are. -/
def integers {K V : Type} [OfNat V 0] (hash : K → Nat) : Env K V where
  hash := hash
  movedKey key := key
  movedValue value := value
  defaultValue := 0
  itemOverhead := 64
  rounding := Rounding.exact

def intEnv : Env Nat Nat := integers id

end Strategy

end Lru.Mm
