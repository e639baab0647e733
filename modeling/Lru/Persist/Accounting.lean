import Lru.Mm.Accounts
import Lru.Persist.LoadSteps

/-!
# The memory counter over a load

The flush subtracts what it removes and the loop adds what it links, so the counter
differs from the memory of the lists afterwards by as much as it did before.
-/

namespace Lru.Mm

variable {K V : Type} {c : Settings K V} {memory : Nat}

open State List

def Settings.weigh (env : Env K V) (c : Settings K V) (l : List (K × V)) : Nat :=
  (l.map fun p => c.calcItemMemory env p.1 p.2).sum

section Weight

variable {env : Env K V} {s : State K V}

theorem weigh_append {l m : List (K × V)} :
    c.weigh env (l ++ m) = c.weigh env l + c.weigh env m := by
  simp [Settings.weigh]

theorem weight_eq (s : State K V) :
    s.weight env = s.settings.weigh env (s.sequence 0) + s.settings.weigh env (s.sequence 1) +
      s.settings.weigh env (s.sequence 2) := by
  simp only [State.weight, State.liveItems, Settings.weigh, State.sequence, map_append,
    sum_append, map_map]
  rfl

theorem weigh_pinnedSequence (env : Env K V) (s : State K V) (q : QueueId) :
    s.settings.weigh env (s.pinnedSequence q) +
        (((s.queue q).filter fun i => !(s.heap i).hasActiveHandle).map (s.itemMemory env)).sum =
      s.settings.weigh env (s.sequence q) := by
  rw [State.pinnedSequence, State.sequence]
  induction s.queue q with
  | nil => rfl
  | cons i rest ih =>
    simp only [Settings.weigh] at ih ⊢
    cases pinned : (s.heap i).hasActiveHandle with
    | true =>
      simp only [filter_cons, pinned, if_true, Bool.not_true, Bool.false_eq_true, if_false,
        map_cons, sum_cons, ← ih, Nat.add_assoc]
    | false =>
      simp only [filter_cons, pinned, Bool.false_eq_true, if_false, Bool.not_false,
        if_true, map_cons, sum_cons, ← ih, Nat.add_left_comm]
      rfl

/-- The memory of the items without handles. -/
def State.unpinnedWeight (env : Env K V) (s : State K V) : Nat :=
  ((s.liveItems.filter fun i => !(s.heap i).hasActiveHandle).map (s.itemMemory env)).sum

theorem weight_eq_pinned (env : Env K V) (s : State K V) :
    s.settings.weigh env (s.pinnedSequence 0) + s.settings.weigh env (s.pinnedSequence 1) +
        s.settings.weigh env (s.pinnedSequence 2) + s.unpinnedWeight env = s.weight env := by
  have first := weigh_pinnedSequence env s 0
  have second := weigh_pinnedSequence env s 1
  have third := weigh_pinnedSequence env s 2
  rw [weight_eq, unpinnedWeight, liveItems]
  simp
  omega

theorem subtractAll_modEq :
    subtractAll env s memory (s.liveItems.filter fun i => !(s.heap i).hasActiveHandle) +
      s.unpinnedWeight env ≡ memory [MOD SizeT.range] := by
  rw [subtractAll, ← foldl_map]
  refine SizeT.foldl_fetchSub_modEq memory fun d hd => ?_
  obtain ⟨i, -, rfl⟩ := mem_map.mp hd
  exact itemMemory_lt.le

end Weight

end Lru.Mm

namespace Lru.Persist

open Mm State SizeT

variable {K V : Type} {env : Env K V} {strategy : Strategy} {s t : State K V}
  {items : List (SerializedItem K V)}

/-- The memory estimate of the items of a file. -/
def fileWeight (env : Env K V) (c : Settings K V) (items : List (SerializedItem K V)) : Nat :=
  (items.map fun item => c.calcItemMemory env item.key item.value).sum

theorem addAll_modEq {c : Settings K V} {memory : Nat} :
    addAll env c memory items ≡ memory + fileWeight env c items [MOD range] := by
  rw [addAll, ← List.foldl_map]
  exact foldl_fetchAdd_modEq memory _

/-- Every item of the file goes into one list. -/
theorem weigh_added (env : Env K V) (c : Settings K V) (strategy : Strategy)
    (items : List (SerializedItem K V)) :
    c.weigh env (added strategy items 0) + c.weigh env (added strategy items 1) +
      c.weigh env (added strategy items 2) = fileWeight env c items := by
  induction items with
  | nil => rfl
  | cons item rest ih =>
    have split : ∀ q, added strategy (item :: rest) q =
        (if queueOf strategy item.queueId = q then [(item.key, item.value)] else []) ++
          added strategy rest q := by
      intro q
      by_cases home : queueOf strategy item.queueId = q <;> simp [added, home]
    have whole : fileWeight env c (item :: rest) =
        c.calcItemMemory env item.key item.value + fileWeight env c rest := rfl
    simp only [split, whole, ← ih]
    obtain home | home | home := queueId_cases (queueOf strategy item.queueId)
    · simp [Settings.weigh, home]
      omega
    · simp [Settings.weigh, home]
      omega
    · simp [Settings.weigh, home]
      omega

/-- The lists gain the items of the file and lose what has no handle. -/
theorem weight_of_sequence (settings : t.settings = s.settings)
    (sequence : ∀ q, t.sequence q = s.pinnedSequence q ++ added strategy items q) :
    t.weight env + s.unpinnedWeight env = s.weight env + fileWeight env s.settings items := by
  have kept := weight_eq_pinned env s
  have gained := weigh_added env s.settings strategy items
  rw [weight_eq, settings]
  simp only [sequence, weigh_append]
  omega

theorem Rebuilt.memory_modEq [DecidableEq K] (h : Rebuilt env strategy s items t) :
    t.stats.currentMemory + s.weight env ≡ s.stats.currentMemory + t.weight env
      [MOD range] := by
  have weight : t.weight env + s.unpinnedWeight env =
      s.weight env + fileWeight env s.settings items :=
    weight_of_sequence h.settings_eq h.sequence
  have counter : t.stats.currentMemory = addAll env s.settings (subtractAll env s
      s.stats.currentMemory (s.liveItems.filter fun i => !(s.heap i).hasActiveHandle)) items :=
    congrArg Stats.currentMemory h.stats_eq
  set rest := subtractAll env s s.stats.currentMemory
    (s.liveItems.filter fun i => !(s.heap i).hasActiveHandle) with rest_def
  have gone : rest + s.unpinnedWeight env ≡ s.stats.currentMemory [MOD range] := subtractAll_modEq
  calc t.stats.currentMemory + s.weight env
      ≡ rest + fileWeight env s.settings items + s.weight env [MOD range] := by
        rw [counter]
        exact addAll_modEq.add_right _
    _ = rest + s.unpinnedWeight env + t.weight env := by omega
    _ ≡ s.stats.currentMemory + t.weight env [MOD range] := gone.add_right _

theorem Rebuilt.memory_lt [DecidableEq K] (h : Rebuilt env strategy s items t)
    (small : s.stats.currentMemory < range) : t.stats.currentMemory < range := by
  rw [h.stats_eq]
  simp only [addAll, subtractAll, ← List.foldl_map]
  exact foldl_fetchAdd_lt (foldl_fetchSub_lt small _) _

end Lru.Persist
