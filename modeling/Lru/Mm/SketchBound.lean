import Lru.Mm.Sketch

/-!
# The estimate never falls below a key's own count

The cells of the sketch are shared by all keys. Beside them stands one reference
counter for each key, which sees only that key's records and every ageing pass:
a pass halves the whole table, so it covers the cells of every key. Whatever the
hash function, each of the key's cells is at least its reference counter.
-/

namespace Lru.Mm.Sketch

/-- The table that the constructor builds from its number of counters, which
`next_pow2` has already rounded. -/
def create (counters hashCount window : Nat) : Sketch :=
  let depth := max hashCount 1
  { width := max (counters / depth) 4
    depth
    maxWindowSize := window
    windowSize := window }

/-- `decay` with its default factor. The product of a 32-bit counter and `0.5` is
exact, and its conversion truncates. -/
def decay (s : Sketch) : Sketch :=
  { s with
    cells := fun i => s.cells i >>> 1
    totalAccesses := 0
    decayStep := 0
    windowSize := s.maxWindowSize }

def stepDecayLocked (s : Sketch) : Sketch := { s.stepDecay with totalAccesses := 0 }

inductive Op (K : Type) where
  | record (key : K)
  | decay
  | stepDecay
  | reset

variable {K : Type} {key : K} {other : Nat} {op : Op K} {ops : List (Op K)}

def step (hash : K → Nat) (s : Sketch) : Op K → Sketch
  | .record key => s.record (hash key)
  | .decay => s.decay
  | .stepDecay => s.stepDecayLocked
  | .reset => s.reset

/-- The access that fills the window also runs an ageing pass. -/
def windowFull (s : Sketch) : Bool := s.windowSize ≤ s.totalAccesses + 1

/-- The reference counter of one key. It reads nothing of the sketch but whether a
record runs an ageing pass. -/
def reference [DecidableEq K] (s : Sketch) (key : K) (count : Nat) : Op K → Nat
  | .record other =>
    let count := if other = key then min (count + 1) kCounterMax else count
    if s.windowFull then count / 2 else count
  | .decay | .stepDecay => count / 2
  | .reset => 0

/-- The sketch and the reference counter of `key` after a list of calls. -/
def runBeside [DecidableEq K] (hash : K → Nat) (key : K) :
    Sketch × Nat → List (Op K) → Sketch × Nat :=
  List.foldl fun state op => (state.1.step hash op, state.1.reference key state.2 op)

/-- Every cell of the key is at least its reference counter. -/
structure Covers (hash count : Nat) (s : Sketch) : Prop where
  le_max : count ≤ kCounterMax
  cell : ∀ row < s.depth, count ≤ s.cells (s.indexFor hash row)

variable {s : Sketch} {hash count : Nat}

/-- An ageing pass halves both sides, and the window does not matter. -/
theorem Covers.halve {t : Sketch} (covers : Covers hash count s) (width : t.width = s.width)
    (depth : t.depth = s.depth) (cells : ∀ i, t.cells i = s.cells i >>> 1) :
    Covers hash (count / 2) t := by
  refine ⟨(Nat.div_le_self _ _).trans covers.le_max, fun row inside => ?_⟩
  have same : t.indexFor hash row = s.indexFor hash row := by rw [indexFor, indexFor, width]
  rw [same, cells]
  exact Nat.div_le_div_right (covers.cell row (depth ▸ inside))

/-- Increments of any key never lower a cell below a 32-bit count. -/
theorem Covers.bump (covers : Covers hash count s) :
    Covers hash count (s.bump other) := by
  refine ⟨covers.le_max, fun row inside => ?_⟩
  have below := covers.cell row inside
  have le_max := covers.le_max
  change count ≤ if _ then _ else _
  split
  · exact le_min (Nat.le_succ_of_le below) le_max
  · exact below

/-- A record of the key increments every cell of its own. -/
theorem Covers.bump_self (covers : Covers hash count s) :
    Covers hash (min (count + 1) kCounterMax) (s.bump hash) := by
  refine ⟨min_le_right _ _, fun row inside => ?_⟩
  have own : (List.range s.depth).any (fun r => s.indexFor hash r == s.indexFor hash row) :=
    List.any_eq_true.mpr ⟨row, List.mem_range.mpr inside, by simp⟩
  have bumped : (s.bump hash).cells (s.indexFor hash row) =
      min (s.cells (s.indexFor hash row) + 1) kCounterMax := if_pos own
  change _ ≤ (s.bump hash).cells (s.indexFor hash row)
  have below := covers.cell row inside
  omega

/-- `record` is the increments, followed by an ageing pass when the window is full. -/
theorem Covers.record (covers : Covers hash count (s.bump other)) :
    Covers hash (if s.windowFull then count / 2 else count) (s.record other) := by
  rcases Nat.lt_or_ge (s.totalAccesses + 1) s.windowSize with room | full
  · have open_window : s.windowFull = false := by simpa [windowFull] using room
    have after : s.record other = { s.bump other with totalAccesses := s.totalAccesses + 1 } :=
      if_pos room
    rw [open_window, after]
    exact ⟨covers.le_max, covers.cell⟩
  · have closed : s.windowFull = true := by simpa [windowFull] using full
    have after : s.record other = { s.bump other with totalAccesses := 0 }.stepDecay :=
      if_neg (Nat.not_lt.mpr full)
    rw [closed, after]
    exact covers.halve rfl rfl fun _ => rfl

theorem Covers.step [DecidableEq K] {hash : K → Nat}
    (covers : Covers (hash key) count s) :
    Covers (hash key) (s.reference key count op) (s.step hash op) := by
  cases op with
  | record other =>
    by_cases same : other = key
    · subst same
      simpa [reference, Sketch.step] using covers.bump_self.record
    · simpa [reference, Sketch.step, same] using covers.bump.record
  | decay | stepDecay => exact covers.halve rfl rfl fun _ => rfl
  | reset => exact ⟨Nat.zero_le _, fun _ _ => Nat.zero_le _⟩

theorem Covers.runBeside [DecidableEq K] {hash : K → Nat}
    (covers : Covers (hash key) count s) :
    Covers (hash key) (Sketch.runBeside hash key (s, count) ops).2
      (Sketch.runBeside hash key (s, count) ops).1 := by
  induction ops generalizing s count with
  | nil => exact covers
  | cons op rest ih => exact ih covers.step

theorem step_depth (hash : K → Nat) : (s.step hash op).depth = s.depth := by
  cases op with
  | record key =>
    simp only [step, Sketch.record]
    split <;> rfl
  | decay | stepDecay | reset => rfl

theorem runBeside_depth [DecidableEq K] (hash : K → Nat) :
    (runBeside hash key (s, count) ops).1.depth = s.depth := by
  induction ops generalizing s count with
  | nil => rfl
  | cons op rest ih => exact ih.trans (step_depth hash)

/-- A lower bound of all cells of the key is one of the estimate. -/
theorem Covers.le_estimate (covers : Covers hash count s) (rows : 0 < s.depth) :
    count ≤ s.estimate hash := by
  rw [estimate, if_neg (Nat.ne_of_gt rows)]
  refine List.foldlRecOn _ _ covers.le_max fun least below row inside => ?_
  exact le_min below (covers.cell row (List.mem_range.mp inside))

/-- After every sequence of calls the estimate of a key is at least its reference
counter, for every hash function, every size of the table and whatever the cells
hold at the start. The constructor and `load_state` give every table a row. -/
theorem reference_le_estimate [DecidableEq K] (hash : K → Nat) (s : Sketch)
    (rows : 0 < s.depth) (key : K) (ops : List (Op K)) :
    (runBeside hash key (s, 0) ops).2 ≤ (runBeside hash key (s, 0) ops).1.estimate (hash key) := by
  have start : Covers (hash key) 0 s := ⟨Nat.zero_le _, fun _ _ => Nat.zero_le _⟩
  exact start.runBeside.le_estimate (by rwa [runBeside_depth])

/-- Five records, of which the fourth fills the window of 4, and a full decay. -/
theorem reference_le_estimate_aged :
    (runBeside id 7 (create 16 4 4, 0)
      [.record 7, .record 7, .record 3, .record 7, .record 7, .decay]).2 = 1 ∧
    1 ≤ (runBeside id 7 (create 16 4 4, 0)
      [.record 7, .record 7, .record 3, .record 7, .record 7, .decay]).1.estimate 7 := by
  have count : (runBeside id 7 (create 16 4 4, 0)
      [.record 7, .record 7, .record 3, .record 7, .record 7, .decay]).2 = 1 := by decide +kernel
  exact ⟨count, count ▸ reference_le_estimate id _ (Nat.le_max_right _ _) 7 _⟩

end Lru.Mm.Sketch
