import Mathlib.Data.Nat.Bitwise
import Mathlib.Order.Lattice

/-!
# Count-Min frequency sketch

`count_min_sketch` as the LFU strategies use it in a sequential run: `depth`
rows of `width` counters in one array, each saturating at 32 bits, and an ageing
step that halves every counter when the access window is full. The counters are
a function of the array index. `recount_saturated` only feeds a statistic.
-/

namespace Lru.Mm

def kCounterMax : Nat := 2 ^ 32 - 1

def kMinWindowSize : Nat := 256

structure Sketch where
  width : Nat := 4
  depth : Nat := 4
  cells : Nat → Nat := fun _ => 0
  totalAccesses : Nat := 0
  /-- Always 0, unless loaded. -/
  decayStep : Nat := 0
  maxWindowSize : Nat := 1000
  windowSize : Nat := 1000

namespace Sketch

def hashSeed (i : Nat) : Nat :=
  (match i % 4 with
    | 0 => 0xc3a7c8e5
    | 1 => 0x5bd1e995
    | 2 => 0x1b873593
    | _ => 0x27d4eb2f) ^^^ (i * 0x9e3779b9 % 2 ^ 64)

/-- The 64-bit finaliser applied before the row index is taken. -/
def mix (x : Nat) : Nat :=
  let x := (x + 0x9e3779b97f4a7c15) % 2 ^ 64
  let x := (x ^^^ (x >>> 30)) * 0xbf58476d1ce4e5b9 % 2 ^ 64
  let x := (x ^^^ (x >>> 27)) * 0x94d049bb133111eb % 2 ^ 64
  x ^^^ (x >>> 31)

def indexFor (s : Sketch) (hash row : Nat) : Nat :=
  row * s.width + mix ((hash + hashSeed row + row) % 2 ^ 64) % s.width

def stepDecay (s : Sketch) : Sketch :=
  { s with
    cells := fun i => s.cells i >>> 1
    windowSize := if kMinWindowSize < s.windowSize then max (s.windowSize >>> 1) kMinWindowSize
      else s.windowSize }

/-- The saturating increments of one `record`. -/
def bump (s : Sketch) (hash : Nat) : Sketch :=
  { s with cells := fun i =>
      if (List.range s.depth).any (fun row => s.indexFor hash row == i)
      then min (s.cells i + 1) kCounterMax else s.cells i }

def record (s : Sketch) (hash : Nat) : Sketch :=
  let s := s.bump hash
  let total := s.totalAccesses + 1
  if total < s.windowSize then { s with totalAccesses := total }
  else { s with totalAccesses := 0 }.stepDecay

/-- `estimate`: the least counter of the key, over all rows. -/
def estimate (s : Sketch) (hash : Nat) : Nat :=
  if s.depth = 0 then 0
  else (List.range s.depth).foldl (fun least row => min least (s.cells (s.indexFor hash row)))
    kCounterMax

/-- `set_max_window_size`: the new maximum re-arms the live decay period. -/
def setMaxWindowSize (s : Sketch) (size : Nat) : Sketch :=
  { s with maxWindowSize := size, windowSize := size }

def reset (s : Sketch) : Sketch :=
  { s with cells := fun _ => 0, totalAccesses := 0, decayStep := 0 }

end Sketch

end Lru.Mm
