import Lru.Library.Transition
import Mathlib.Data.Nat.Bitwise
import Mathlib.Data.List.Basic

/-!
# Snapshots under the sequence lock

`seqlock` packs a writer bit and a sequence into one word, which a writer advances when it enters
its section and when it leaves. A reader compares the words before and after its loads.
`read_begin` does not wait for the writer, so a read section may lie inside a write section.
-/

namespace Lru.Seqlock

open Function Transition BitVec

abbrev Word := BitVec 32

def kWriterBit : Word := 0x80000000

def kSeqMask : Word := ~~~kWriterBit

/-- Where a thread is: `claiming` and `leaving` are `write_lock` and `write_unlock` with the word
they have read, `reading` has what `read_begin` returned and the loads since, the last first. -/
inductive Phase (κ V : Type) where
  | outside
  | claiming (cur : Word)
  | writing
  | leaving (cur : Word)
  | reading (startSeq : Word) (loads : List (κ × V))

def Phase.writes {κ V : Type} : Phase κ V → Bool
  | writing | leaving _ => true
  | _ => false

/-- The payload stands for the counters and `advances` counts the changes of the word. -/
structure State (θ κ V : Type) where
  payload : κ → V
  seq : Word := 0
  phase : θ → Phase κ V := fun _ => .outside
  advances : Nat := 0

inductive Action (κ V : Type) where
  | writeLock
  | claim (spurious : Bool)
  | store (k : κ) (v : V)
  | writeUnlock
  | release
  | readBegin
  | load (k : κ)
  | readRetry

variable {θ κ V : Type} {n : Nat}

/-- The write sections begun so far; a section advances the word twice. -/
def State.sections (s : State θ κ V) : Nat := (s.advances + 1) / 2

def State.readRetry (s : State θ κ V) (startSeq : Word) : Bool := s.seq ≠ startSeq

variable [DecidableEq θ]

def State.move (s : State θ κ V) (i : θ) (p : Phase κ V) : State θ κ V :=
  { s with phase := update s.phase i p }

@[grind =]
theorem phase_move (s : State θ κ V) (i : θ) (p : Phase κ V) (j : θ) :
    (s.move i p).phase j = if j = i then p else s.phase j :=
  update_apply s.phase i p j

variable [DecidableEq κ]

def step (s : State θ κ V) : θ × Action κ V → Option (State θ κ V)
  | (i, a) => match s.phase i, a with
    | .outside, .writeLock => some (s.move i (.claiming s.seq))
    | .claiming cur, .claim spurious =>
      if cur &&& kWriterBit = 0 ∧ s.seq = cur ∧ spurious = false then some
        { s.move i .writing with
          seq := kWriterBit ||| ((cur &&& kSeqMask) + 1), advances := s.advances + 1 }
      else some (s.move i (.claiming s.seq))
    | .writing, .store k v => some { s with payload := update s.payload k v }
    | .writing, .writeUnlock => some (s.move i (.leaving s.seq))
    | .leaving cur, .release => some
        { s.move i .outside with seq := (cur + 1) &&& kSeqMask, advances := s.advances + 1 }
    | .outside, .readBegin => some (s.move i (.reading s.seq []))
    | .reading startSeq loads, .load k =>
      some (s.move i (.reading startSeq ((k, s.payload k) :: loads)))
    | .reading _ _, .readRetry => some (s.move i .outside)
    | _, _ => none

/-- At some moment of the run nobody is in a write section and the payload is what was loaded. -/
def Current (s : State θ κ V) (labels : List (θ × Action κ V)) (loads : List (κ × V)) : Prop :=
  ∃ n u, run step s (labels.take n) = some u ∧ (∀ i, (u.phase i).writes = false) ∧
    ∀ l ∈ loads, u.payload l.1 = l.2

/-- The word after so many changes: the writer bit is set in every other one. -/
def wordAt (n : Nat) : Word := BitVec.ofNat 32 (n % 2 ^ 31 + n % 2 * 2 ^ 31)

theorem wordAt_zero : wordAt 0 = 0 := by decide

theorem toNat_wordAt : (wordAt n).toNat = n % 2 ^ 31 + n % 2 * 2 ^ 31 := by
  rw [wordAt, toNat_ofNat]
  omega

theorem toNat_and_kSeqMask (w : Word) : (w &&& kSeqMask).toNat = w.toNat % 2 ^ 31 := by
  have mask : kSeqMask.toNat = 2 ^ 31 - 1 := rfl
  rw [toNat_and, mask, Nat.and_two_pow_sub_one_eq_mod]

theorem toNat_succ (w : Word) : (w + 1).toNat = (w.toNat + 1) % 2 ^ 32 := toNat_add w 1

theorem eq_of_wordAt {m : Nat} (le : m ≤ n) (few : n < m + 2 ^ 31) (same : wordAt n = wordAt m) :
    n = m := by
  have := congrArg BitVec.toNat same
  rw [toNat_wordAt, toNat_wordAt] at this
  omega

theorem wordAt_and_kWriterBit : wordAt n &&& kWriterBit = 0 ↔ n % 2 = 0 := by
  have bit : kWriterBit = twoPow 32 31 := rfl
  have set : (wordAt n).getLsbD 31 = decide (n % 2 = 1) := by
    rw [← msb_eq_getLsbD_last (wordAt n), msb_eq_decide, toNat_wordAt]
    grind
  have nonzero : twoPow 32 31 ≠ 0 := by decide
  grind

theorem claimed (even : n % 2 = 0) :
    kWriterBit ||| ((wordAt n &&& kSeqMask) + 1) = wordAt (n + 1) := by
  apply eq_of_toNat_eq
  have low : ((wordAt n &&& kSeqMask) + 1).toNat = n % 2 ^ 31 + 1 := by
    rw [toNat_succ, toNat_and_kSeqMask, toNat_wordAt]
    omega
  have bit : kWriterBit.toNat = 2 ^ 31 * 1 := rfl
  rw [toNat_or, bit, ← Nat.two_pow_add_eq_or_of_lt (by omega), toNat_wordAt]
  omega

theorem released (odd : n % 2 = 1) : (wordAt n + 1) &&& kSeqMask = wordAt (n + 1) := by
  apply eq_of_toNat_eq
  rw [toNat_and_kSeqMask, toNat_succ, toNat_wordAt, toNat_wordAt]
  omega

/-- A writer holds the word with the bit set, alone. -/
structure Kept (s : State θ κ V) : Prop where
  word : s.seq = wordAt s.advances
  odd : ∀ i, (s.phase i).writes → s.advances % 2 = 1
  alone : ∀ i j, (s.phase i).writes → (s.phase j).writes → i = j
  cur : ∀ i cur, s.phase i = .leaving cur → cur = s.seq

/-- What has happened since `i` began to read in `b`: until the word changes, the payload and what
`i` has loaded are those of `b`. -/
structure Since (b : State θ κ V) (i : θ) (s : State θ κ V) : Prop where
  advances : b.advances ≤ s.advances
  start : ∀ startSeq loads, s.phase i = .reading startSeq loads → startSeq = b.seq
  payload : s.advances = b.advances → s.payload = b.payload
  loads : s.advances = b.advances → ∀ startSeq loads, s.phase i = .reading startSeq loads →
    ∀ l ∈ loads, b.payload l.1 = l.2

section Proofs

variable {s t b : State θ κ V} {i : θ} {label : θ × Action κ V}

theorem Kept.of_step (h : Kept s) (taken : step s label = some t) : Kept t := by
  obtain ⟨word, odd, alone, cur⟩ := h
  obtain ⟨i, a⟩ := label
  simp only [step] at taken
  split at taken
  case h_2 c spurious phase =>
    split at taken
    case isTrue free =>
      obtain ⟨clear, rfl, -⟩ := free
      cases taken
      rw [word, wordAt_and_kWriterBit] at clear
      rw [word, claimed clear]
      refine ⟨rfl, ?_, ?_, ?_⟩ <;> grind [Phase.writes]
    case isFalse =>
      cases taken
      refine ⟨word, ?_, ?_, ?_⟩ <;> grind [State.move, Phase.writes]
  case h_5 c phase =>
    cases taken
    have held := odd i (by rw [phase]; rfl)
    rw [cur i c phase, word, released held]
    refine ⟨rfl, ?_, ?_, ?_⟩ <;> grind [Phase.writes]
  case h_9 => cases taken
  all_goals
    cases taken
    refine ⟨word, ?_, ?_, ?_⟩ <;> grind [State.move, Phase.writes]

theorem Since.of_step (h : Since b i s) (even : b.advances % 2 = 0) (kept : Kept s)
    (same : label ≠ (i, .readBegin)) (taken : step s label = some t) : Since b i t := by
  obtain ⟨advances, start, payload, loads⟩ := h
  have odd := kept.odd
  obtain ⟨j, a⟩ := label
  simp only [step] at taken
  split at taken
  case h_2 c spurious phase =>
    split at taken
    all_goals
      cases taken
      refine ⟨?_, ?_, ?_, ?_⟩ <;> grind [State.move]
  case h_9 => cases taken
  all_goals
    cases taken
    refine ⟨?_, ?_, ?_, ?_⟩ <;> grind [State.move, Phase.writes]

theorem Since.of_run {labels : List (θ × Action κ V)} (h : Since b i s) (even : b.advances % 2 = 0)
    (kept : Kept s) (same : (i, .readBegin) ∉ labels) (executed : run step s labels = some t) :
    Kept t ∧ Since b i t := by
  induction labels generalizing s with
  | nil =>
    cases executed
    exact ⟨kept, h⟩
  | cons label rest ih =>
    obtain ⟨u, taken, executed⟩ := Option.bind_eq_some_iff.mp executed
    obtain ⟨other, same⟩ := List.ne_and_not_mem_of_not_mem_cons same
    exact ih (h.of_step even kept other.symm taken) (kept.of_step taken) same executed

/-- A snapshot that was begun outside every write section and that `read_retry` accepts. -/
theorem snapshot_current {payload : κ → V} {after : List (θ × Action κ V)} {startSeq : Word}
    {loads : List (κ × V)} (reached : Reaches step (fun _ _ => True) { payload } s)
    (clear : s.seq &&& kWriterBit = 0) (begun : step s (i, .readBegin) = some b)
    (same : (i, .readBegin) ∉ after) (executed : run step b after = some t)
    (few : t.sections < s.sections + 2 ^ 30) (reading : t.phase i = .reading startSeq loads)
    (passed : t.readRetry startSeq = false) : Current b after loads := by
  have kept : Kept s := reached.invariant ⟨wordAt_zero.symm, nofun, nofun, nofun⟩
    fun _ _ _ h _ taken => h.of_step taken
  have even : s.advances % 2 = 0 := wordAt_and_kWriterBit.mp (kept.word ▸ clear)
  obtain rfl : s.move i (.reading s.seq []) = b := by
    simp only [step] at begun
    grind
  have first := kept.of_step begun
  obtain ⟨last, since⟩ := Since.of_run (b := s.move i (.reading s.seq []))
    ⟨le_rfl, by grind [State.move], fun _ => rfl, by grind⟩ even first same executed
  have word : wordAt t.advances = wordAt s.advances := by
    have accepted : t.seq = startSeq := by simpa [State.readRetry] using passed
    rw [← last.word, ← kept.word, accepted, since.start _ _ reading]
    rfl
  have unchanged : t.advances = s.advances :=
    eq_of_wordAt since.advances (by grind [State.sections]) word
  refine ⟨0, _, rfl, fun j => ?_, since.loads unchanged _ _ reading⟩
  have := first.odd j
  grind [State.move]

end Proofs

/-- A snapshot of two counters; another thread begins to wait for the word meanwhile. -/
theorem two_loads_current : ∃ b : State Bool Bool Nat,
    step { payload := fun _ => 5 } (true, .readBegin) = some b ∧
      Current b [(true, .load false), (false, .writeLock), (true, .load true)]
        [(true, 5), (false, 5)] :=
  ⟨_, rfl, snapshot_current .refl rfl rfl (by simp) rfl (by decide) rfl rfl⟩

/-- A reset has cleared one counter of two, and a read section inside it is accepted. -/
theorem snapshot_inside_reset : ∃ s b t : State Bool Bool Nat,
    run step { payload := fun _ => 5 } [(false, .writeLock), (false, .claim false),
      (false, .store false 0)] = some s ∧ step s (true, .readBegin) = some b ∧
    run step b [(true, .load false), (true, .load true)] = some t ∧ t.sections = s.sections ∧
    t.phase true = .reading b.seq [(true, 5), (false, 0)] ∧ t.readRetry b.seq = false ∧
    ¬ Current b [(true, .load false), (true, .load true)] [(true, 5), (false, 0)] := by
  refine ⟨_, _, _, rfl, rfl, rfl, rfl, rfl, rfl, ?_⟩
  rintro ⟨n, u, executed, outside, -⟩
  rcases n with _ | _ | _ | n <;> cases executed <;> cases outside false

end Lru.Seqlock
