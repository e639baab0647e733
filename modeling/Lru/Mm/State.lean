import Lru.Mm.Item
import Lru.Mm.Sketch
import Mathlib.Data.List.Perm.Lattice
import Mathlib.Data.List.Nodup
import Mathlib.Data.List.FinRange
import Mathlib.Logic.Function.Basic

/-!
# The state of an eviction strategy

All five strategies link heap-allocated items into one to three intrusive lists
and into a hash table whose chains run through the items themselves. A lookup
walks one bucket and compares the key **stored in the item**; the table holds no
copy of it. So the table is a list of addresses, and every comparison reads the
heap.

Which bucket a hash belongs to may change at any time by a rehash, in any
geometry; `bucketOf` is that assignment. The flat record also carries the fields
that only one strategy has; the others never touch them.
-/

namespace Lru.Mm

/-- A strategy object together with the item heap it allocates from. -/
structure State (K V : Type) where
  heap : ItemId → Item K V
  /-- The next address the allocator hands out. -/
  next : ItemId := 0
  /-- The nodes of the hash table, the newest first. -/
  table : List ItemId := []
  bucketOf : Nat → Nat := id
  hashTable : HashTable := {}
  /-- The intrusive lists, head first. -/
  queue : QueueId → List ItemId := fun _ => []
  pendingDeletion : List ItemId := []
  /-- Items handed to the reclaimer. -/
  retired : List ItemId := []
  /-- The entries of the TTL heap. -/
  ttlIndex : List (Nat × K) := []
  settings : Settings K V := {}
  stats : Stats := {}
  /-- The events collected so far; their delivery changes nothing here. -/
  events : List (Event K V) := []
  /-- `mm_lru`: the cursor of the eviction search. -/
  unpinnedTail : Option ItemId := none
  insertionPoint : Option ItemId := none
  /-- The position of the insertion point as last computed, or `npos`. -/
  insertionPointPos : Nat := unlimited
  tailSize : Nat := 0
  lruRefreshTime : Nat := 0
  nextReconfigureTime : Nat := 2 ^ 32 - 1
  /-- `mm_2q`: keys of evicted items, the oldest first, and the same as a set. -/
  ghostFifo : List K := []
  ghostKeys : List K := []
  sketch : Sketch := {}

namespace State

variable {K V : Type}

/-- A strategy constructed at time `sec` over uninitialised memory. The sketch is
sized by the constructor. -/
def empty (memory : ItemId → Item K V) (settings : Settings K V) (sketch : Sketch) (sec : Nat) :
    State K V :=
  { heap := memory
    settings := settings
    sketch := sketch
    lruRefreshTime := settings.config.defaultLruRefreshTime
    nextReconfigureTime :=
      if settings.config.mmReconfigureIntervalSecs = 0 then 2 ^ 32 - 1
      else (sec + settings.config.mmReconfigureIntervalSecs) % 2 ^ 32 }

def linkedCount (s : State K V) : Nat :=
  (s.queue 0).length + (s.queue 1).length + (s.queue 2).length

def modify (s : State K V) (i : ItemId) (f : Item K V → Item K V) : State K V :=
  { s with heap := Function.update s.heap i (f (s.heap i)) }

def setQueue (s : State K V) (q : QueueId) (l : List ItemId) : State K V :=
  { s with queue := Function.update s.queue q l }

/-- Collect an event if a callback of its kind is registered. -/
def collect (s : State K V) (e : Event K V) : State K V :=
  if s.settings.callbacks.has e then { s with events := s.events ++ [e] } else s

def modifyStats (s : State K V) (f : Stats → Stats) : State K V := { s with stats := f s.stats }

/-- The heap entry passes the reclaimer; its memory is not reused in a run. -/
def retire (s : State K V) (i : ItemId) : State K V := { s with retired := s.retired ++ [i] }

section Table

variable [DecidableEq K]

/-- A chain walk for `key` stops at item `i`. -/
def stopsAt (env : Env K V) (s : State K V) (key : K) (i : ItemId) : Bool :=
  s.bucketOf (s.heap i).cachedHash == s.bucketOf (env.hash key) && (s.heap i).key == key

def find (env : Env K V) (s : State K V) (key : K) : Option ItemId :=
  s.table.find? (s.stopsAt env key)

/-- `map_.erase`: unlink the first node of the chain whose stored key equals
`key`; nothing happens when there is none. -/
def eraseKey (env : Env K V) (s : State K V) (key : K) : State K V :=
  { s with table := s.table.eraseP (s.stopsAt env key) }

/-- `map_.insert`: prepend the node unless the chain already has this key. -/
def insertNode (env : Env K V) (s : State K V) (key : K) (i : ItemId) : State K V :=
  match s.find env key with
  | some _ => s
  | none =>
    let s := s.modify i fun item => { item with cachedHash := env.hash key }
    { s with table := i :: s.table }

end Table

end State

end Lru.Mm
