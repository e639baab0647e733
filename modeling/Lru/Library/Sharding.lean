import Mathlib.Data.List.Basic
import Mathlib.Logic.Function.Basic

/-!
# Operations on independent parts

A state is split into parts, and every operation touches the one part that its
input belongs to. Then a part sees only its own inputs, so two schedules that
agree on the order of the inputs of each part end in the same state. Grouping the
inputs by part is such a schedule.
-/

namespace Sharding

open List

variable {ι σ α : Type*} [DecidableEq ι] {i : ι} {x : α} {xs : List α}

section Schedules

variable (place : α → ι) (op : σ → α → σ)

/-- Run one operation on the part of its input. -/
def onPart (parts : ι → σ) (x : α) : ι → σ :=
  Function.update parts (place x) (op (parts (place x)) x)

theorem foldl_onPart_apply (parts : ι → σ) :
    xs.foldl (onPart place op) parts i = (xs.filter fun x => place x = i).foldl op (parts i) := by
  induction xs generalizing parts with
  | nil => rfl
  | cons x xs ih =>
    rw [foldl_cons, ih]
    by_cases here : place x = i
    · subst here
      simp [onPart]
    · have elsewhere : onPart place op parts x i = parts i :=
        Function.update_of_ne (Ne.symm here) _ _
      simp [here, elsewhere]

theorem foldl_onPart_congr {ys : List α}
    (same : ∀ i, (xs.filter fun x => place x = i) = ys.filter fun x => place x = i)
    (parts : ι → σ) : xs.foldl (onPart place op) parts = ys.foldl (onPart place op) parts := by
  funext i
  rw [foldl_onPart_apply, foldl_onPart_apply, same i]

end Schedules

/-! ## Grouping -/

/-- Append to the list of a key in a map that keeps the order of insertion. -/
def push (i : ι) (x : α) : List (ι × List α) → List (ι × List α)
  | [] => [(i, [x])]
  | (j, xs) :: rest => if j = i then (j, xs ++ [x]) :: rest else (j, xs) :: push i x rest

/-- The inputs by part, the parts in the order of their first inputs. -/
def group (place : α → ι) (xs : List α) : List (ι × List α) :=
  xs.foldl (fun groups x => push (place x) x groups) []

/-- The inputs in the order of their groups. -/
def scheduled (groups : List (ι × List α)) : List α := groups.flatMap Prod.snd

section Grouping

variable {place : α → ι} {groups : List (ι × List α)}

/-- Every group has its own key and holds inputs of that part. -/
structure Grouped (place : α → ι) (groups : List (ι × List α)) : Prop where
  keys_nodup : (groups.map Prod.fst).Nodup
  placed : ∀ g ∈ groups, ∀ x ∈ g.2, place x = g.1

theorem push_keys {j : ι} :
    j ∈ (push i x groups).map Prod.fst ↔ j = i ∨ j ∈ groups.map Prod.fst := by
  induction groups with
  | nil => simp [push]
  | cons g rest ih =>
    obtain ⟨k, xs⟩ := g
    rw [push]
    split
    case isTrue same =>
      subst same
      simp
    case isFalse =>
      rw [map_cons, mem_cons, map_cons, mem_cons]
      tauto

theorem Grouped.push (grouped : Grouped place groups) :
    Grouped place (push (place x) x groups) := by
  induction groups with
  | nil => constructor <;> simp [Sharding.push]
  | cons g rest ih =>
    obtain ⟨k, xs⟩ := g
    obtain ⟨nodup, placed⟩ := grouped
    rw [map_cons, nodup_cons] at nodup
    have tail := ih ⟨nodup.2, fun g hg => placed g (mem_cons_of_mem _ hg)⟩
    rw [Sharding.push]
    split
    case isTrue same =>
      constructor
      · rw [map_cons, nodup_cons]
        exact nodup
      · intro g hg y hy
        obtain rfl | hg := mem_cons.mp hg
        · obtain hy | hy := mem_append.mp hy
          · exact placed (k, xs) mem_cons_self y hy
          · rw [mem_singleton.mp hy]
            exact same.symm
        · exact placed g (mem_cons_of_mem _ hg) y hy
    case isFalse other =>
      constructor
      · rw [map_cons, nodup_cons, push_keys]
        refine ⟨?_, tail.keys_nodup⟩
        rintro (same | mem)
        · exact other same
        · exact nodup.1 mem
      · intro g hg y hy
        obtain rfl | hg := mem_cons.mp hg
        · exact placed (k, xs) mem_cons_self y hy
        · exact tail.placed g hg y hy

theorem Grouped.filter_eq_nil (grouped : Grouped place groups)
    (missing : i ∉ groups.map Prod.fst) :
    ((scheduled groups).filter fun x => place x = i) = [] := by
  rw [filter_eq_nil_iff]
  intro x hx here
  obtain ⟨g, hg, hx⟩ := mem_flatMap.mp hx
  refine missing (mem_map.mpr ⟨g, hg, ?_⟩)
  rw [← grouped.placed g hg x hx]
  exact of_decide_eq_true here

/-- An input pushed is the last one of its part. -/
theorem Grouped.scheduled_push (grouped : Grouped place groups) :
    ((scheduled (Sharding.push (place x) x groups)).filter fun y => place y = i) =
      ((scheduled groups).filter fun y => place y = i) ++ [x].filter fun y => place y = i := by
  induction groups with
  | nil => simp [Sharding.push, scheduled]
  | cons g rest ih =>
    obtain ⟨k, xs⟩ := g
    obtain ⟨nodup, placed⟩ := grouped
    rw [map_cons, nodup_cons] at nodup
    have tail : Grouped place rest := ⟨nodup.2, fun g hg => placed g (mem_cons_of_mem _ hg)⟩
    rw [Sharding.push]
    split
    case isTrue same =>
      simp only [scheduled, flatMap_cons, filter_append]
      by_cases here : place x = i
      · have none := tail.filter_eq_nil (here ▸ same ▸ nodup.1)
        rw [scheduled] at none
        rw [none]
        simp
      · simp [here]
    case isFalse =>
      have later := ih tail
      simp only [scheduled, flatMap_cons, filter_append, append_assoc] at later ⊢
      rw [later]

/-- Grouping keeps the order within each part. -/
theorem filter_scheduled_group (place : α → ι) (xs : List α) (i : ι) :
    ((scheduled (group place xs)).filter fun x => place x = i) =
      xs.filter fun x => place x = i := by
  have general : ∀ (xs : List α) (groups : List (ι × List α)), Grouped place groups →
      ((scheduled (xs.foldl (fun groups x => push (place x) x groups) groups)).filter
          fun x => place x = i) =
        ((scheduled groups).filter fun x => place x = i) ++ xs.filter fun x => place x = i := by
    intro xs
    induction xs with
    | nil => simp
    | cons x xs ih =>
      intro groups grouped
      rw [foldl_cons, ih _ grouped.push, grouped.scheduled_push,
        append_assoc, ← filter_append, singleton_append]
  exact general xs [] ⟨nodup_nil, by simp⟩

end Grouping

end Sharding
