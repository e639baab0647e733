import Lru.Mm.OneList

/-!
# A list as a sequence of pairs

The keys and values of a list from head to tail, and what evictions and insertions do
to them when nothing is pinned.
-/

namespace Lru.Mm

variable {K V : Type} {env : Env K V} {s t u : State K V} {key : K} {expiryNs : Nat} {value : V}

open State

/-- Keys and values of a list from head to tail. -/
def State.sequence (s : State K V) (q : QueueId) : List (K × V) :=
  (s.queue q).map fun i => ((s.heap i).key, (s.heap i).value)

def State.Unpinned (s : State K V) : Prop := ∀ i ∈ s.table, (s.heap i).hasActiveHandle = false

theorem Shrinks.unpinned (h : Shrinks env s t) (unpinned : s.Unpinned) : t.Unpinned := by
  intro i hi
  have ref : (t.heap i).accessRef = (s.heap i).accessRef :=
    congrArg (fun c : K × V × Nat × Nat => c.2.2.2) (h.content i hi)
  have before := unpinned i (h.mem i hi)
  rw [Body.hasActiveHandle] at before ⊢
  rw [ref]
  exact before

theorem Shrinks.sequence_eq (h : Shrinks env s t) (q : QueueId) :
    t.sequence q = (t.queue q).map fun i => ((s.heap i).key, (s.heap i).value) := by
  refine List.map_congr_left fun i hi => ?_
  exact congrArg (fun c : K × V × Nat × Nat => (c.1, c.2.1))
    (h.content i (mem_of_queue h.wf hi))

theorem State.OneList.mem_table_iff (one : s.OneList) (wf : s.WellFormed env) {i : ItemId} :
    i ∈ s.table ↔ i ∈ s.queue 0 := by
  have live : i ∈ s.table ↔ i ∈ s.liveItems := (wf.table_perm).mem_iff
  rw [live, one.liveItems]

/-- A key that the one list does not have is not found. -/
theorem State.OneList.find_eq_none [DecidableEq K] (one : s.OneList) (wf : s.WellFormed env)
    (fresh : ∀ p ∈ s.sequence 0, p.1 ≠ key) : s.find env key = none := by
  refine (find_eq_none_iff wf).mpr fun i hi => ?_
  exact fresh _ (List.mem_map_of_mem ((one.mem_table_iff wf).mp hi))

theorem sequence_keys_nodup (wf : s.WellFormed env) (q : QueueId) :
    ((s.sequence q).map Prod.fst).Nodup := by
  rw [State.sequence, List.map_map]
  refine (wf.queue_nodup q).map_on fun i hi j hj same => ?_
  exact wf.key_inj i (mem_of_queue wf hi) j (mem_of_queue wf hj) same

/-- `t` keeps some of the items of `s`, with their content and in their order. -/
structure Thins (env : Env K V) (s t : State K V) : Prop extends Shrinks env s t where
  sublist : ∀ q, (t.queue q).Sublist (s.queue q)

theorem Thins.refl (wf : s.WellFormed env) : Thins env s s := ⟨.refl wf, fun _ => .refl _⟩

theorem Thins.trans (first : Thins env s t) (second : Thins env t u) : Thins env s u :=
  ⟨first.toShrinks.trans second.toShrinks, fun q => (second.sublist q).trans (first.sublist q)⟩

theorem Thins.sequence (h : Thins env s t) (q : QueueId) :
    (t.sequence q).Sublist (s.sequence q) := by
  rw [h.sequence_eq]
  exact (h.sublist q).map _

theorem Inserts.unpinned (h : Inserts env s t key value expiryNs) (unpinned : s.Unpinned) :
    t.Unpinned := by
  intro i hi
  by_cases new : i = s.next
  · have ref : (t.heap i).accessRef = 0 :=
      congrArg (fun c : K × V × Nat × Nat => c.2.2.2) (new ▸ h.content_new)
    rw [Body.hasActiveHandle, ref]
    rfl
  · have ref : (t.heap i).accessRef = (s.heap i).accessRef :=
      congrArg (fun c : K × V × Nat × Nat => c.2.2.2) (h.content_old i hi new)
    have before := unpinned i (h.mem_old i hi new)
    rw [Body.hasActiveHandle] at before ⊢
    rw [ref]
    exact before

/-- A new item at the head of its list comes before what is left of the others. -/
theorem Inserts.sequence_eq {q : QueueId} {l : List ItemId} (h : Inserts env s t key value expiryNs)
    (queue : t.queue q = s.next :: l) :
    t.sequence q = (key, value) :: l.map fun i => ((s.heap i).key, (s.heap i).value) := by
  have nodup : (s.next :: l).Nodup := queue ▸ h.wf.queue_nodup q
  rw [State.sequence, queue]
  refine congrArg₂ _ ?_ (List.map_congr_left fun i hi => ?_)
  · exact congrArg (fun c : K × V × Nat × Nat => (c.1, c.2.1)) h.content_new
  · have kept : i ∈ t.queue q := queue ▸ List.mem_cons_of_mem _ hi
    have old : i ≠ s.next := by
      rintro rfl
      exact (List.nodup_cons.mp nodup).1 hi
    exact congrArg (fun c : K × V × Nat × Nat => (c.1, c.2.1))
      (h.content_old i (mem_of_queue h.wf kept) old)

end Lru.Mm
