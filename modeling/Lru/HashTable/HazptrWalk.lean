import Mathlib.Data.List.Basic

/-!
# Lookups under hazard pointers

The hazard-pointer walks of `concurrent_hash_table` while nobody changes the table. Before a walk
leaves a node it checks that the head still reaches it, and starts again from the head where it
does not; `is_reachable` looks at no more than 64 nodes.

A node is named by its place, so a chain is the list of its keys. The fuel of a search counts the
rounds of its loop: `none` is a search that has not ended.
-/

namespace Lru.HashTable

open List

variable {K : Type} [DecidableEq K] {length : Nat}

inductive Node where
  | slot (i : Nat) | link (i : Nat)
  deriving DecidableEq

/-- `locked` is the way to `find_and_pin_with_hash` after a refused pin. -/
inductive Outcome where
  | found (n : Node) | missed | locked
  deriving DecidableEq

/-- `is_reachable`, from place `head` of a chain of `length` nodes and with `steps` left. -/
def isReachable (length target : Nat) : (steps head : Nat) → Bool
  | 0, _ => false
  | steps + 1, head =>
    head < length && (head = target || isReachable length target steps (head + 1))

def outcome (pin : Node → Bool) : Option Node → Outcome
  | none => .missed
  | some n => if pin n then .found n else .locked

/-- `verify != curr && !is_reachable(verify, curr)`, for the node at place `i`. -/
def lost (length i : Nat) : Bool := i ≠ 0 && !isReachable length i 64 0

section Walk

variable (k : K) (verifyFirst : Bool) (pin : Node → Bool) (chain : List K)

/-- The loop of a walk, at place `i`. With `verifyFirst` it also verifies a node before it compares
the key. -/
def walk : (fuel i : Nat) → Option Outcome
  | 0, _ => none
  | fuel + 1, i =>
    match chain[i]? with
    | none => some .missed
    | some key =>
      if verifyFirst && lost chain.length i then walk fuel 0
      else if key = k then some (outcome pin (some (.link i)))
      else if i + 1 = chain.length then some .missed
      else if lost chain.length i then walk fuel 0
      else walk fuel (i + 1)

/-- The nodes a walk compares before it starts again. -/
def bound : Nat := if verifyFirst then 64 else 65

/-- The walk need not pass its first `n` nodes. -/
def Near (n : Nat) : Prop := chain.length ≤ n ∨ chain.findIdx (· = k) < n

def link? : Option Node := (chain.findIdx? (· = k)).map .link

end Walk

variable {k : K} {verifyFirst : Bool} {pin : Node → Bool} {chain : List K} {i : Nat}

theorem isReachable_iff {target steps head : Nat} (lt : target < length)
    (le : head ≤ target) : isReachable length target steps head ↔ target < head + steps := by
  induction steps generalizing head with
  | zero => simp [isReachable, le]
  | succ steps ih =>
    obtain rfl | ne := eq_or_ne head target
    · simp [isReachable, lt]
    · have next := @ih (head + 1) (by omega)
      simp only [isReachable, Bool.and_eq_true, decide_eq_true_eq, Bool.or_eq_true, next]
      omega

/-- A node is lost where 64 nodes stand before it. -/
theorem lost_iff (lt : i < length) : lost length i ↔ 64 ≤ i := by
  rw [lost, Bool.and_eq_true, decide_eq_true_eq, Bool.not_eq_true', ← Bool.not_eq_true,
    isReachable_iff lt (Nat.zero_le i)]
  omega

/-- A walk that need not pass its bound ends at the first node with the key. -/
theorem walk_ends (near : Near k chain (bound verifyFirst)) (le : i ≤ chain.findIdx (· = k)) :
    ∃ fuel, walk k verifyFirst pin chain fuel i = some (outcome pin (link? k chain)) := by
  have within : chain.findIdx (· = k) ≤ chain.length := findIdx_le_length
  induction left : chain.findIdx (· = k) - i generalizing i with
  | zero =>
    obtain rfl : i = chain.findIdx (· = k) := by omega
    refine ⟨1, ?_⟩
    rw [walk, link?]
    obtain inside | last := Nat.lt_or_eq_of_le within
    · have kept : ¬(verifyFirst && lost chain.length (chain.findIdx (· = k))) := by
        grind [lost_iff inside, Near, bound]
      have hit := findIdx_getElem (w := inside)
      rw [getElem?_eq_getElem inside, findIdx?_eq_some_iff_findIdx_eq.mpr ⟨inside, rfl⟩]
      simp only [if_neg kept, if_pos (of_decide_eq_true hit), Option.map_some]
    · rw [getElem?_eq_none (Nat.le_of_eq last.symm), findIdx?_eq_none_iff_findIdx_eq.mpr last]
      rfl
  | succ left ih =>
    have before : i < chain.findIdx (· = k) := by omega
    have inside := Nat.lt_of_lt_of_le before within
    have miss := not_of_lt_findIdx before
    have gone := lost_iff inside
    obtain ⟨fuel, rest⟩ := ih before (by omega)
    refine ⟨fuel + 1, ?_⟩
    rw [walk, getElem?_eq_getElem inside]
    simp only
    split_ifs with first same last far
    · grind [Near, bound]
    · simp [same] at miss
    · rw [link?, findIdx?_eq_none_iff_findIdx_eq.mpr (by omega)]
      rfl
    · grind [Near, bound]
    · exact rest

/-- Otherwise the walk is sent back to the head for ever. -/
theorem walk_eq_none (far : ¬Near k chain (bound verifyFirst)) {fuel : Nat} (le : i ≤ 64) :
    walk k verifyFirst pin chain fuel i = none := by
  obtain ⟨long, absent⟩ := not_or.mp far
  induction fuel generalizing i with
  | zero => rfl
  | succ fuel ih =>
    have restart := @ih 0 (Nat.zero_le _)
    have inside : i < chain.length := by grind [bound]
    have gone := lost_iff inside
    rw [walk, getElem?_eq_getElem inside]
    simp only
    split_ifs with first same last lost
    · exact restart
    · have before : i < bound verifyFirst := by grind [bound]
      have miss := not_of_lt_findIdx (show i < chain.findIdx (· = k) by omega)
      simp [same] at miss
    · grind [bound]
    · exact restart
    · exact ih (by grind)

theorem exists_walk_iff :
    (∃ fuel, walk k verifyFirst pin chain fuel 0 = some (outcome pin (link? k chain))) ↔
      Near k chain (bound verifyFirst) := by
  constructor
  · rintro ⟨fuel, ended⟩
    by_contra far
    rw [walk_eq_none far (Nat.zero_le _)] at ended
    cases ended
  · intro near
    exact walk_ends near (Nat.zero_le _)

/-- A slot of a chunk at rest: occupied, it has the tag of its key. -/
structure Slot (f14Tag : K → BitVec 8) where
  tag : BitVec 8
  occupied : Bool
  node : Option K
  tagged : occupied → ∀ key, node = some key → tag = f14Tag key

structure Chunk (f14Tag : K → BitVec 8) where
  slots : List (Slot f14Tag)
  chain : List K

variable {f14Tag : K → BitVec 8} (k verifyFirst pin)

def findHazptrEmbedded (chain : List K) (fuel : Nat) : Option Outcome :=
  walk k false (fun _ => true) chain fuel 0

def Chunk.slot? (chunk : Chunk f14Tag) : Option Node :=
  (chunk.slots.findIdx? fun s => s.occupied && s.node = some k).map .slot

/-- A search of a chunk: the inline slots with the tag, then the overflow chain. The version is
even and does not change. -/
def Chunk.search (chunk : Chunk f14Tag) (fuel : Nat) : Option Outcome :=
  match chunk.slots.findIdx? fun s => s.tag = f14Tag k && s.occupied && s.node = some k with
  | some i => some (outcome pin (some (.slot i)))
  | none => walk k verifyFirst pin chunk.chain fuel 0

def findF14HazptrEmbedded : Chunk f14Tag → Nat → Option Outcome :=
  Chunk.search k false fun _ => true

/-- The hazard-pointer branch of `find_and_pin_lockfree_with_hash`. -/
def findAndPinLockfreeWithHash : Chunk f14Tag → Nat → Option Outcome := Chunk.search k true pin

variable {k verifyFirst pin}

theorem Chunk.exists_search_iff (chunk : Chunk f14Tag) :
    (∃ fuel, chunk.search k verifyFirst pin fuel =
        some (outcome pin (chunk.slot? k <|> link? k chunk.chain))) ↔
      chunk.slot? k ≠ none ∨ Near k chunk.chain (bound verifyFirst) := by
  have tags (s : Slot f14Tag) : (s.tag = f14Tag k && s.occupied && s.node = some k) =
      (s.occupied && s.node = some k) := by
    grind [s.tagged]
  simp only [search, slot?, tags]
  cases chunk.slots.findIdx? fun s => s.occupied && s.node = some k with
  | none => simpa using exists_walk_iff
  | some i => simp

/-- While nobody changes the table, a search ends with the node of the key, or without one, just
when it need not pass the nodes that `is_reachable` sees. -/
theorem hazptr_searches_end_iff (chain : List K) (chunk : Chunk f14Tag) :
    ((∃ fuel, findHazptrEmbedded k chain fuel = some (outcome (fun _ => true) (link? k chain))) ↔
      Near k chain 65) ∧
    ((∃ fuel, findF14HazptrEmbedded k chunk fuel =
        some (outcome (fun _ => true) (chunk.slot? k <|> link? k chunk.chain))) ↔
      chunk.slot? k ≠ none ∨ Near k chunk.chain 65) ∧
    ((∃ fuel, findAndPinLockfreeWithHash k pin chunk fuel =
        some (outcome pin (chunk.slot? k <|> link? k chunk.chain))) ↔
      chunk.slot? k ≠ none ∨ Near k chunk.chain 64) :=
  ⟨exists_walk_iff, chunk.exists_search_iff, chunk.exists_search_iff⟩

theorem sixty_sixth_not_found : ¬∃ fuel, findHazptrEmbedded 65 (range 66) fuel ≠ none := by
  rintro ⟨fuel, ended⟩
  exact ended (walk_eq_none (by rw [Near]; decide) (Nat.zero_le _))

end Lru.HashTable
