import Mathlib.Data.Multiset.Filter
import Mathlib.Data.Multiset.Sort

/-!
# Priority queues

A queue of ranked entries of which only the contents are known, and that its top has the
least rank. Entries of one rank may come out in any order.
-/

/-- An implementation of a priority queue, smallest rank first. -/
structure MinQueue (E : Type) (rank : E → Nat) where
  Queue : Type
  empty : Queue
  push : Queue → E → Queue
  top : Queue → Option E
  pop : Queue → Queue
  contents : Queue → Multiset E
  contents_empty : contents empty = 0
  contents_push : ∀ q e, contents (push q e) = e ::ₘ contents q
  contents_of_none : ∀ {q}, top q = none → contents q = 0
  contents_of_some : ∀ {q e}, top q = some e → contents q = e ::ₘ contents (pop q)
  top_le : ∀ {q e}, top q = some e → ∀ f ∈ contents q, rank e ≤ rank f

namespace MinQueue

variable {E : Type} {rank : E → Nat} (queue : MinQueue E rank)

def size (q : queue.Queue) : Nat := (queue.contents q).card

def pushAll (q : queue.Queue) (entries : List E) : queue.Queue := entries.foldl queue.push q

theorem mem_contents_pushAll {q : queue.Queue} {entries : List E} {e : E} :
    e ∈ queue.contents (queue.pushAll q entries) ↔ e ∈ entries ∨ e ∈ queue.contents q := by
  induction entries generalizing q with
  | nil => simp [pushAll]
  | cons f rest ih =>
    rw [pushAll, List.foldl_cons, ← pushAll, ih, queue.contents_push, Multiset.mem_cons,
      List.mem_cons]
    tauto

/-! ## Sorted lists -/

/-- Insertion at the first place that keeps the order. -/
def insertByRank (rank : E → Nat) (e : E) (l : List E) : List E :=
  l.orderedInsert (fun a b => rank a ≤ rank b) e

theorem insertByRank_pairwise (e : E) {l : List E}
    (sorted : l.Pairwise fun a b => rank a ≤ rank b) :
    (insertByRank rank e l).Pairwise fun a b => rank a ≤ rank b := by
  exact sorted.orderedInsert e l

def sorted (rank : E → Nat) : MinQueue E rank where
  Queue := { l : List E // l.Pairwise fun a b => rank a ≤ rank b }
  empty := ⟨[], .nil⟩
  push q e := ⟨insertByRank rank e q.1, insertByRank_pairwise e q.2⟩
  top q := q.1.head?
  pop q := ⟨q.1.tail, q.2.tail⟩
  contents q := (q.1 : Multiset E)
  contents_empty := rfl
  contents_push q e := Multiset.coe_eq_coe.mpr (List.perm_orderedInsert _ e q.1)
  contents_of_none {q} none := by
    rw [List.head?_eq_none_iff.mp none]
    rfl
  contents_of_some {q e} some := by
    obtain ⟨rest, cons⟩ := List.head?_eq_some_iff.mp some
    show (q.1 : Multiset E) = e ::ₘ (q.1.tail : Multiset E)
    rw [cons]
    rfl
  top_le {q e} some f hf := by
    obtain ⟨rest, cons⟩ := List.head?_eq_some_iff.mp some
    have ordered := q.2
    rw [cons] at ordered hf
    obtain rfl | later := List.mem_cons.mp (Multiset.mem_coe.mp hf)
    · exact Nat.le_refl _
    · exact (List.pairwise_cons.mp ordered).1 f later

end MinQueue
