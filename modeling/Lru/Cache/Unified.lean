import Lru.Cache.Striped
import Lru.Compact.Model

/-!
# Every trait

A cache is plain, striped, or one of these two with a compact store in front of
it. On the compact traits `set` and the lookups use the store.
-/

namespace Lru

open Mm (State Env Strategy)

inductive Unified (K V : Type) (n : Nat) where
  | plain (strategy : Strategy) (c : Cache K V)
  | striped (c : Striped K V n)
  /-- `compact_unified_lru_trait`. -/
  | compact (base : Cache K V) (store : CompactCache K V)
  /-- `compact_unified_sharded_lru_trait`. -/
  | compactStriped (base : Striped K V n) (store : CompactCache K V)

namespace Unified

variable {K V : Type} {n : Nat} [NeZero n] [DecidableEq K]

/-- `compact().set`, as the last step of `set`. -/
def storeSet (store : CompactCache K V) (key : K) (value : V) (a : Ambient K)
    (rebuild : CompactCache K V → Unified K V n) : Except CacheError Unit × Unified K V n :=
  match store.set key value a.sec with
  | (.error what, store) => (.error (.logicError what), rebuild store)
  | (.ok (), store) => (.ok (), rebuild store)

def set (env : Env K V) (u : Unified K V n) (key : K) (value : V) (a : Ambient K) :
    Except CacheError Unit × Unified K V n :=
  match u with
  | plain strategy c => (c.set env strategy key value a).map id (plain strategy)
  | striped c => (c.set env key value a).map id striped
  | compact base store =>
    match base.preWriteCheck "set" with
    | .error e => (.error e, compact base store)
    | .ok .kRejectInsert => (.ok (), compact (base.reportWriteRejected key value) store)
    | .ok .kProceed => storeSet store key value a (compact base)
  | compactStriped base store =>
    match base.preWriteCheck "set" with
    | .error e => (.error e, compactStriped base store)
    | .ok .kRejectInsert =>
      (.ok (), compactStriped (base.reportWriteRejected env key value) store)
    | .ok .kProceed => storeSet store key value a (compactStriped base)

def valueIn (env : Env K V) (s : State K V) (key : K) : Option V :=
  (s.find env key).map fun i => (s.heap i).value

def value (env : Env K V) : Unified K V n → K → Option V
  | plain _ c, key => valueIn env c.mm key
  | striped c, key => valueIn env (c.mm.shards (c.mm.shardFor env key)) key
  | compact _ store, key | compactStriped _ store, key => store.lookup key

end Unified

end Lru
