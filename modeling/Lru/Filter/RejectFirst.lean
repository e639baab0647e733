import Mathlib.Logic.Function.Basic
import Mathlib.Logic.Relation

/-!
# A cache behind a reject-first filter

`admission_filter_cache` with `reject_first_ap`: a key is let through when its hash is in
the tracker of the keys seen before, or has a hit signal. The tracker forgets hashes on
its own, independently of what the cache holds, so a write to a resident key can be
rejected and leaves the older value readable. The wrapped cache is any type with the
operations the filter calls.
-/

namespace Lru.Filter

/-! ## The tracker -/

structure ApproxSplitSet where
  numSplits : Nat
  maxPerSplit : Nat
  splits : Nat → List Nat

namespace ApproxSplitSet

def new (maxEntries numSplits : Nat) : ApproxSplitSet where
  numSplits := numSplits
  maxPerSplit := max 1 (maxEntries / numSplits)
  splits _ := []

variable (t : ApproxSplitSet)

def contains (keyHash : Nat) : Bool := (t.splits (keyHash % t.numSplits)).contains keyHash

/-- `insert_and_check`. Which element `begin()` is, is not specified: `first` is its
position. -/
def insertAndCheck (keyHash first : Nat) : Bool × ApproxSplitSet :=
  let split := keyHash % t.numSplits
  if (t.splits split).contains keyHash then (true, t)
  else
    let entries := t.splits split ++ [keyHash]
    let entries :=
      if t.maxPerSplit < entries.length then entries.eraseIdx (first % entries.length)
      else entries
    (false, { t with splits := Function.update t.splits split entries })

def remove (keyHash : Nat) : ApproxSplitSet :=
  let split := keyHash % t.numSplits
  { t with splits := Function.update t.splits split ((t.splits split).erase keyHash) }

theorem insertAndCheck_fst (keyHash first : Nat) :
    (t.insertAndCheck keyHash first).1 = t.contains keyHash := by
  simp only [insertAndCheck]
  split
  case isTrue seen => exact seen.symm
  case isFalse unseen => exact (Bool.eq_false_iff.mpr unseen).symm

end ApproxSplitSet

/-! ## The policy -/

/-- `reject_first_ap` with the hash of its key type. -/
structure RejectFirst (K : Type) where
  hashKey : K → Nat
  tracker : ApproxSplitSet
  useHitSignal : Bool := false
  /-- The hashes with a hit signal. -/
  hitSignals : List Nat := []

def maxHitSignals : Nat := 8192

namespace RejectFirst

variable {K : Type} (p : RejectFirst K)

def shouldAdmit (key : K) (first : Nat) : Bool × RejectFirst K :=
  let checked := p.tracker.insertAndCheck (p.hashKey key) first
  let p := { p with tracker := checked.2 }
  if checked.1 then (true, p)
  else if p.useHitSignal && p.hitSignals.contains (p.hashKey key) then
    (true, { p with hitSignals := p.hitSignals.erase (p.hashKey key) })
  else (false, p)

def onAccess (key : K) : RejectFirst K :=
  if p.useHitSignal then
    let signals := if maxHitSignals ≤ p.hitSignals.length then [] else p.hitSignals
    { p with hitSignals := signals.insert (p.hashKey key) }
  else p

def onRemove (key : K) : RejectFirst K := { p with tracker := p.tracker.remove (p.hashKey key) }

/-- The policy knows the key: its hash is tracked or has a hit signal. -/
def Seen (key : K) : Prop :=
  p.tracker.contains (p.hashKey key) = true
    ∨ (p.useHitSignal = true ∧ p.hashKey key ∈ p.hitSignals)

instance (key : K) : Decidable (p.Seen key) := inferInstanceAs (Decidable (_ ∨ (_ ∧ _)))

theorem shouldAdmit_iff (key : K) (first : Nat) :
    (p.shouldAdmit key first).1 = true ↔ p.Seen key := by
  simp only [shouldAdmit, Seen, ← p.tracker.insertAndCheck_fst (p.hashKey key) first]
  split
  case isTrue seen => simp [seen]
  case isFalse unseen =>
    split
    case isTrue signal => simpa [unseen] using signal
    case isFalse none => simpa [unseen] using none

end RejectFirst

/-! ## The wrapped cache -/

/-- A cache type as the filter uses it. `Drifts` is what happens to it without a call of
the filter: evictions, time that passes, handles that go away. -/
structure CacheType (K V : Type) where
  Cache : Type
  set : Cache → K → V → Cache
  get : Cache → K → Option V × Cache
  del : Cache → K → Bool × Cache
  collectReject : Cache → K → V → Cache
  Drifts : Cache → Cache → Prop
  /-- The value under a key that lookups may still return. -/
  held : Cache → K → Option V
  get_held : ∀ {s key value}, (get s key).1 = some value → held s key = some value
  /-- A held value can come to be returned. -/
  readable : ∀ {s key value}, held s key = some value →
    ∃ t, Relation.ReflTransGen Drifts s t ∧ (get t key).1 = some value
  held_set : ∀ {s other key value old}, key ≠ other →
    held (set s other value) key = some old → held s key = some old
  held_get : ∀ {s other key old}, held (get s other).2 key = some old → held s key = some old
  held_del : ∀ {s other key old}, held (del s other).2 key = some old → held s key = some old
  held_collectReject : ∀ s other key value, held (collectReject s other value) key = held s key
  held_drifts : ∀ {s t key old}, Drifts s t → held t key = some old → held s key = some old

variable {K V : Type} {type : CacheType K V}

/-- After its own `set` the cache holds nothing else under the key. -/
def CacheType.OwnSetReplaces (type : CacheType K V) (s : type.Cache) (key : K) (value : V) : Prop :=
  ∀ old, type.held (type.set s key value) key = some old → old = value

/-- No other value is held under the key. -/
def CacheType.HoldsOnly (type : CacheType K V) (s : type.Cache) (key : K) (value : V) : Prop :=
  ∀ old, type.held s key = some old → old = value

/-! ## The filter -/

structure FilterCache (type : CacheType K V) where
  policy : RejectFirst K
  cache : type.Cache

namespace FilterCache

def set (c : FilterCache type) (key : K) (value : V) (first : Nat) : Bool × FilterCache type :=
  let admitted := c.policy.shouldAdmit key first
  if admitted.1 then (true, ⟨admitted.2, type.set c.cache key value⟩)
  else (false, ⟨admitted.2, type.collectReject c.cache key value⟩)

def get (c : FilterCache type) (key : K) : Option V × FilterCache type :=
  let result := type.get c.cache key
  (result.1, ⟨if result.1.isSome then c.policy.onAccess key else c.policy, result.2⟩)

def del (c : FilterCache type) (key : K) : Bool × FilterCache type :=
  let result := type.del c.cache key
  (result.1, ⟨if result.1 then c.policy.onRemove key else c.policy, result.2⟩)

/-- One step that is not a mutation of the key. -/
inductive StepsBeside (key : K) : FilterCache type → FilterCache type → Prop
  | set {c : FilterCache type} {other : K} (value : V) (first : Nat) (beside : key ≠ other) :
      StepsBeside key c (c.set other value first).2
  | get {c : FilterCache type} (other : K) : StepsBeside key c (c.get other).2
  | del {c : FilterCache type} {other : K} (beside : key ≠ other) :
      StepsBeside key c (c.del other).2
  | drift {c : FilterCache type} {s : type.Cache} (drifts : type.Drifts c.cache s) :
      StepsBeside key c ⟨c.policy, s⟩

/-- After this `set`, until the key is mutated again, no `get` returns another value. -/
def LeavesNoStale (c : FilterCache type) (key : K) (value : V) (first : Nat) : Prop :=
  ∀ d, Relation.ReflTransGen (StepsBeside key) (c.set key value first).2 d →
    ∀ old, (d.get key).1 = some old → old = value

variable {c d : FilterCache type} {key : K} {value old : V}

/-- Without a mutation a key never comes to hold another value. -/
theorem StepsBeside.held (step : StepsBeside key c d) (held : type.held d.cache key = some old) :
    type.held c.cache key = some old := by
  cases step with
  | set value first beside =>
    simp only [FilterCache.set] at held
    split at held
    · exact type.held_set beside held
    · exact (type.held_collectReject ..).symm.trans held
  | get other => exact type.held_get held
  | del beside => exact type.held_del held
  | drift drifts => exact type.held_drifts drifts held

theorem held_of_reaches (reached : Relation.ReflTransGen (StepsBeside key) c d)
    (held : type.held d.cache key = some old) : type.held c.cache key = some old := by
  induction reached with
  | refl => exact held
  | tail _ last ih => exact ih (last.held held)

theorem reaches_of_drifts {s : type.Cache} (drifts : Relation.ReflTransGen type.Drifts c.cache s) :
    Relation.ReflTransGen (StepsBeside key) c ⟨c.policy, s⟩ := by
  induction drifts with
  | refl => exact .refl
  | tail _ last ih => exact .tail ih (.drift last)

/-- What can be returned later is what is held now. -/
theorem forall_returned_iff :
    (∀ d, Relation.ReflTransGen (StepsBeside key) c d →
      ∀ old, (d.get key).1 = some old → old = value) ↔ type.HoldsOnly c.cache key value := by
  constructor
  · intro fresh old held
    obtain ⟨s, drifts, returned⟩ := type.readable held
    exact fresh ⟨c.policy, s⟩ (reaches_of_drifts drifts) old returned
  · intro only d reached old returned
    exact only old (held_of_reaches reached (type.get_held returned))

/-- A `set` leaves no stale value behind exactly if the policy knows the key and the
cache's own `set` replaces the value, or the policy does not know it and the cache holds
no other value. -/
theorem leavesNoStale_iff (c : FilterCache type) (key : K) (value : V) (first : Nat) :
    c.LeavesNoStale key value first ↔
      (c.policy.Seen key ∧ type.OwnSetReplaces c.cache key value)
        ∨ (¬ c.policy.Seen key ∧ type.HoldsOnly c.cache key value) := by
  rw [LeavesNoStale, forall_returned_iff]
  by_cases seen : c.policy.Seen key
  · have admitted := (c.policy.shouldAdmit_iff key first).mpr seen
    simp only [set, admitted, seen, not_true_eq_false, true_and, false_and, or_false]
    rfl
  · have rejected := mt (c.policy.shouldAdmit_iff key first).mp seen
    simp only [set, if_neg rejected, seen, not_false_eq_true, true_and, false_and, false_or]
    simp only [CacheType.HoldsOnly, type.held_collectReject]

end FilterCache

end Lru.Filter
