import Lru.Library.MinQueue
import Lru.Library.SizeT
import Lru.Library.SpaceSaving

/-!
# `space_saving_top_k`

The summary is a map of counts with a min-heap of `(count, key)` entries next to it. Counting
a tracked key leaves the heap alone, so entries go stale; the search for the least count
discards entries of keys that are gone and refreshes entries with an old count.

The heap is any priority queue: nothing is assumed of the order of equal counts.
-/

namespace Lru

/-- The state, over an implementation of the heap. -/
structure SpaceSavingTopK (K : Type) (queue : MinQueue (Nat × K) Prod.fst) where
  capacity : Nat
  total : Nat := 0
  map : List (K × Nat) := []
  heap : queue.Queue

namespace SpaceSavingTopK

variable {K : Type} [DecidableEq K] {queue : MinQueue (Nat × K) Prod.fst}

/-- The constructor raises a capacity of zero to one. -/
def new (queue : MinQueue (Nat × K) Prod.fst) (capacity : Nat) : SpaceSavingTopK K queue where
  capacity := if capacity = 0 then 1 else capacity
  heap := queue.empty

def find (map : List (K × Nat)) (key : K) : Option Nat :=
  (map.find? fun e => e.1 = key).map Prod.snd

def increment (map : List (K × Nat)) (key : K) (count : Nat) : List (K × Nat) :=
  map.map fun e => if e.1 = key then (e.1, SizeT.fetchAdd e.2 count) else e

def erase (map : List (K × Nat)) (key : K) : List (K × Nat) := map.filter fun e => e.1 ≠ key

/-- The loop that looks for the least count: the entry found and the refreshed heap. -/
def findMin (map : List (K × Nat)) : Nat → queue.Queue → Option (Nat × K) × queue.Queue
  | 0, heap => (none, heap)
  | fuel + 1, heap =>
    match queue.top heap with
    | none => (none, heap)
    | some top =>
      match find map top.2 with
      | none => findMin map fuel (queue.pop heap)
      | some count =>
        if count ≠ top.1 then findMin map fuel (queue.push (queue.pop heap) (count, top.2))
        else (some top, heap)

/-- `std::min_element` over the map: the first of the least counts. -/
def minElement : List (K × Nat) → Option (K × Nat)
  | [] => none
  | e :: rest =>
    match minElement rest with
    | none => some e
    | some least => if least.2 < e.2 then some least else some e

def rebuildHeap (queue : MinQueue (Nat × K) Prod.fst) (map : List (K × Nat)) : queue.Queue :=
  queue.pushAll queue.empty (map.map fun e => (e.2, e.1))

/-- The key to replace, its count and the heap without its entry. Each round of the search
removes a stale entry, so the size of the heap bounds the rounds. The scan of the map is the
fallback of the source for a heap without a valid entry. -/
def takeMin (map : List (K × Nat)) (heap : queue.Queue) : Option ((Nat × K) × queue.Queue) :=
  match findMin map (queue.size heap + 1) heap with
  | (some least, heap) => some (least, queue.pop heap)
  | (none, heap) => (minElement map).map fun e => ((e.2, e.1), heap)

variable (s : SpaceSavingTopK K queue)

/-- The part of `add` that replaces the key with the least count. A full map is never empty,
so there is one. -/
def replaceMin (key : K) (count : Nat) : SpaceSavingTopK K queue :=
  match takeMin s.map s.heap with
  | none => s
  | some (least, heap) =>
    let newCount := SizeT.fetchAdd least.1 count
    let map := erase s.map least.2 ++ [(key, newCount)]
    let heap := queue.push heap (newCount, key)
    let heap :=
      if s.capacity * 4 % SizeT.range < queue.size heap then rebuildHeap queue map else heap
    { s with map := map, heap := heap }

def add (key : K) (count : Nat) : SpaceSavingTopK K queue :=
  let s := { s with total := SizeT.fetchAdd s.total count }
  match find s.map key with
  | some _ => { s with map := increment s.map key count }
  | none =>
    if s.map.length < s.capacity then
      { s with map := s.map ++ [(key, count)], heap := queue.push s.heap (count, key) }
    else s.replaceMin key count

def errorBound : Nat := if 0 < s.capacity then s.total / s.capacity else 0

/-- The state after a stream of observations. -/
def observe (queue : MinQueue (Nat × K) Prod.fst) (capacity : Nat) (stream : List (K × Nat)) :
    SpaceSavingTopK K queue :=
  stream.foldl (fun s e => s.add e.1 e.2) (new queue capacity)

end SpaceSavingTopK

end Lru
