import Lru.Mm.State

/-!
# The linked part of a state

What the hash table, the lists and the readers see of a state, without hooks,
statistics, events and the private fields of the strategies. Most bookkeeping
of the strategies does not touch it. The operations below are the only ways in
which a strategy changes it; each keeps the table and the lists in agreement.
-/

namespace Lru.Mm

open Function List

/-- Table, lists and item bodies of a strategy. -/
structure Core (K V : Type) where
  body : ItemId → Body K V
  next : ItemId
  table : List ItemId
  queue : QueueId → List ItemId
  pendingDeletion : List ItemId
  retired : List ItemId

def State.core {K V : Type} (s : State K V) : Core K V where
  body i := (s.heap i).toBody
  next := s.next
  table := s.table
  queue := s.queue
  pendingDeletion := s.pendingDeletion
  retired := s.retired

namespace Core

variable {K V : Type} {b : Body K V}

/-- Table and lists agree: they link the same items, each once and in the list
its `queue_id` names, no two with the same key, none of them retired. -/
structure WellFormed (env : Env K V) (c : Core K V) : Prop where
  queue_nodup : ∀ q, (c.queue q).Nodup
  queue_id : ∀ q, ∀ i ∈ c.queue q, (c.body i).queueId = q
  table_nodup : c.table.Nodup
  table_iff : ∀ i, i ∈ c.table ↔ i ∈ c.queue (c.body i).queueId
  key_inj : ∀ i ∈ c.table, ∀ j ∈ c.table, (c.body i).key = (c.body j).key → i = j
  hash_eq : ∀ i ∈ c.table, (c.body i).cachedHash = env.hash (c.body i).key
  linked : ∀ i ∈ c.table, (c.body i).linked = true
  table_lt : ∀ i ∈ c.table, i < c.next
  pending_lt : ∀ i ∈ c.pendingDeletion, i < c.next
  retired_lt : ∀ i ∈ c.retired, i < c.next
  pending_not_mem : ∀ i ∈ c.pendingDeletion, i ∉ c.table
  retired_not_mem : ∀ i ∈ c.retired, i ∉ c.table

/-- Unlink item `i` from the table and from its list. -/
def drop (c : Core K V) (i : ItemId) : Core K V :=
  { c with
    table := c.table.erase i
    queue := update c.queue (c.body i).queueId ((c.queue (c.body i).queueId).erase i) }

def setBody (c : Core K V) (i : ItemId) (b : Body K V) : Core K V :=
  { c with body := update c.body i b }

def setQueue (c : Core K V) (q : QueueId) (l : List ItemId) : Core K V :=
  { c with queue := update c.queue q l }

def retire (c : Core K V) (i : ItemId) : Core K V := { c with retired := c.retired ++ [i] }

/-- Keep an item that is still pinned until its last handle goes away. -/
def postpone (c : Core K V) (i : ItemId) : Core K V :=
  { c with pendingDeletion := c.pendingDeletion ++ [i] }

/-- Hand the postponed items without handles to the reclaimer. -/
def cleanup (c : Core K V) : Core K V :=
  { c with
    pendingDeletion := c.pendingDeletion.filter fun i => (c.body i).hasActiveHandle
    retired := c.retired ++ c.pendingDeletion.filter fun i => !(c.body i).hasActiveHandle }

/-- Move item `i` from its list to list `q`, which becomes `l`. -/
def transfer (c : Core K V) (i : ItemId) (q : QueueId) (l : List ItemId) : Core K V :=
  ((c.setQueue (c.body i).queueId ((c.queue (c.body i).queueId).erase i)).setQueue q l).setBody i
    { c.body i with queueId := q }

/-- Allocate an item with body `b` and link it into the table and into the list
`b.queueId`, which becomes `l`. -/
def insert (c : Core K V) (b : Body K V) (l : List ItemId) : Core K V :=
  { c with
    body := update c.body c.next b
    next := c.next + 1
    table := c.next :: c.table
    queue := update c.queue b.queueId l }

section WellFormed

variable {env : Env K V} {c : Core K V} {i j : ItemId}

namespace WellFormed

variable (wf : c.WellFormed env) {q : QueueId} {l : List ItemId}

include wf

theorem mem_queue (h : i ∈ c.table) : i ∈ c.queue (c.body i).queueId := (wf.table_iff i).mp h

theorem mem_table (h : i ∈ c.queue q) : i ∈ c.table := (wf.table_iff i).mpr (wf.queue_id q i h ▸ h)

theorem next_not_mem : c.next ∉ c.table := fun h => Nat.lt_irrefl _ (wf.table_lt _ h)

/-- The three lists together are the table, in some order. -/
theorem table_perm : c.table.Perm (c.queue 0 ++ c.queue 1 ++ c.queue 2) := by
  have apart : ∀ {p q : QueueId}, p ≠ q → ∀ i ∈ c.queue p, i ∉ c.queue q := by
    intro p q different i hp hq
    exact different ((wf.queue_id p i hp).symm.trans (wf.queue_id q i hq))
  refine (perm_ext_iff_of_nodup wf.table_nodup ?_).mpr ?_
  · simp only [nodup_append', disjoint_append_left]
    refine ⟨⟨wf.queue_nodup 0, wf.queue_nodup 1, ?_⟩, wf.queue_nodup 2, ?_, ?_⟩
    · exact apart (by decide)
    · exact apart (by decide)
    · exact apart (by decide)
  · intro i
    simp only [mem_append]
    constructor
    · intro h
      have linked := wf.mem_queue h
      generalize (c.body i).queueId = q at linked
      match q, linked with
      | 0, h => exact .inl (.inl h)
      | 1, h => exact .inl (.inr h)
      | 2, h => exact .inr h
    · rintro ((h | h) | h) <;> exact wf.mem_table h

theorem table_length :
    c.table.length = (c.queue 0).length + (c.queue 1).length + (c.queue 2).length := by
  rw [wf.table_perm.length_eq, length_append, length_append]

/-- Any change of bodies that keeps keys, hashes, lists and link bits. -/
theorem setBody (key : b.key = (c.body i).key)
    (hash : b.cachedHash = (c.body i).cachedHash) (queueId : b.queueId = (c.body i).queueId)
    (linked : i ∈ c.table → b.linked = true) : (c.setBody i b).WellFormed env := by
  have same : ∀ {α : Type} (f : Body K V → α), f b = f (c.body i) →
      ∀ j, f ((c.setBody i b).body j) = f (c.body j) := by
    intro α f h j
    by_cases hj : j = i
    · subst hj; simpa [Core.setBody] using h
    · simp [Core.setBody, hj]
  refine { wf with
    queue_id := fun q j hj => ?_, table_iff := fun j => ?_, key_inj := fun j hj k hk h => ?_
    hash_eq := fun j hj => ?_, linked := fun j hj => ?_ }
  · rw [same Body.queueId queueId]; exact wf.queue_id q j hj
  · rw [same Body.queueId queueId]; exact wf.table_iff j
  · rw [same Body.key key, same Body.key key] at h; exact wf.key_inj j hj k hk h
  · rw [same Body.key key, same Body.cachedHash hash]; exact wf.hash_eq j hj
  · by_cases hji : j = i
    · subst hji; simpa [Core.setBody] using linked hj
    · simpa [Core.setBody, hji] using wf.linked j hj

theorem mem_drop_queue (hi : i ∈ c.table) : j ∈ (c.drop i).queue q ↔ j ≠ i ∧ j ∈ c.queue q := by
  by_cases hq : q = (c.body i).queueId
  · subst hq
    simp only [drop, update_self]
    exact (wf.queue_nodup _).mem_erase_iff
  · simp only [drop, update_of_ne hq]
    refine ⟨fun h => ⟨?_, h⟩, fun h => h.2⟩
    rintro rfl
    exact hq (wf.queue_id q j h).symm

/-- Unlinking a linked item keeps the agreement. -/
theorem drop (hi : i ∈ c.table) : (c.drop i).WellFormed env := by
  have sub : ∀ j ∈ (c.drop i).table, j ∈ c.table := fun j h => (wf.table_nodup.mem_erase_iff.mp h).2
  refine { wf with
    queue_nodup := fun q => ?_, queue_id := fun q j hj => ?_
    table_nodup := wf.table_nodup.erase _, table_iff := fun j => ?_
    key_inj := fun j hj k hk => wf.key_inj j (sub j hj) k (sub k hk)
    hash_eq := fun j hj => wf.hash_eq j (sub j hj)
    linked := fun j hj => wf.linked j (sub j hj)
    table_lt := fun j hj => wf.table_lt j (sub j hj)
    pending_not_mem := fun j hj h => wf.pending_not_mem j hj (sub j h)
    retired_not_mem := fun j hj h => wf.retired_not_mem j hj (sub j h) }
  · by_cases hq : q = (c.body i).queueId
    · subst hq
      simpa [Core.drop] using (wf.queue_nodup _).erase i
    · simpa [Core.drop, hq] using wf.queue_nodup q
  · exact wf.queue_id q j ((wf.mem_drop_queue hi).mp hj).2
  · rw [Core.drop, wf.table_nodup.mem_erase_iff, ← Core.drop, wf.mem_drop_queue hi, wf.table_iff j]
    rfl

/-- The body of an item that is not linked does not matter. -/
theorem setBody_of_not_mem (h : i ∉ c.table) : (c.setBody i b).WellFormed env := by
  have unlinked : ∀ q, i ∉ c.queue q := fun q hq => h (wf.mem_table hq)
  have old : ∀ {j}, j ≠ i → (c.setBody i b).body j = c.body j := fun hj => by
    simp [Core.setBody, hj]
  have ne : ∀ {j}, j ∈ c.table → j ≠ i := fun hj e => h (e ▸ hj)
  refine { wf with
    queue_id := fun q j hj => ?_, table_iff := fun j => ?_, key_inj := fun j hj k hk e => ?_
    hash_eq := fun j hj => ?_, linked := fun j hj => ?_ }
  · rw [old fun e => unlinked q (e ▸ hj)]
    exact wf.queue_id q j hj
  · by_cases hj : j = i
    · subst hj
      exact iff_of_false h (unlinked _)
    · rw [old hj]
      exact wf.table_iff j
  · rw [old (ne hj), old (ne hk)] at e
    exact wf.key_inj j hj k hk e
  · rw [old (ne hj)]
    exact wf.hash_eq j hj
  · rw [old (ne hj)]
    exact wf.linked j hj

theorem retire (lt : i < c.next) (h : i ∉ c.table) : (c.retire i).WellFormed env :=
  { wf with
    retired_lt := forall_mem_append.mpr ⟨wf.retired_lt, forall_mem_singleton.mpr lt⟩
    retired_not_mem := forall_mem_append.mpr ⟨wf.retired_not_mem, forall_mem_singleton.mpr h⟩ }

theorem postpone (lt : i < c.next) (h : i ∉ c.table) : (c.postpone i).WellFormed env :=
  { wf with
    pending_lt := forall_mem_append.mpr ⟨wf.pending_lt, forall_mem_singleton.mpr lt⟩
    pending_not_mem := forall_mem_append.mpr ⟨wf.pending_not_mem, forall_mem_singleton.mpr h⟩ }

theorem cleanup : c.cleanup.WellFormed env := by
  refine { wf with
    pending_lt := fun j hj => wf.pending_lt j (mem_of_mem_filter hj)
    pending_not_mem := fun j hj => wf.pending_not_mem j (mem_of_mem_filter hj)
    retired_lt := fun j hj => ?_, retired_not_mem := fun j hj => ?_ }
  · rcases mem_append.mp hj with old | new
    · exact wf.retired_lt j old
    · exact wf.pending_lt j (mem_of_mem_filter new)
  · rcases mem_append.mp hj with old | new
    · exact wf.retired_not_mem j old
    · exact wf.pending_not_mem j (mem_of_mem_filter new)

theorem reorder (perm : l.Perm (c.queue q)) : (c.setQueue q l).WellFormed env := by
  have mem : ∀ p j, j ∈ (c.setQueue q l).queue p ↔ j ∈ c.queue p := by
    intro p j
    by_cases hp : p = q
    · subst hp; simpa [Core.setQueue] using perm.mem_iff
    · simp [Core.setQueue, hp]
  refine { wf with
    queue_nodup := fun p => ?_, queue_id := fun p j hj => wf.queue_id p j ((mem p j).mp hj)
    table_iff := fun j => (wf.table_iff j).trans (mem _ j).symm }
  by_cases hp : p = q
  · subst hp; simpa [Core.setQueue] using perm.nodup_iff.mpr (wf.queue_nodup p)
  · simpa [Core.setQueue, hp] using wf.queue_nodup p

theorem mem_transfer_queue (hi : i ∈ c.table) {p q : QueueId}
    (perm : l.Perm (i :: (c.queue q).erase i)) :
    j ∈ (c.transfer i q l).queue p ↔ if j = i then p = q else j ∈ c.queue p := by
  have only : ∀ p, i ∈ c.queue p → p = (c.body i).queueId := fun p h => (wf.queue_id p i h).symm
  simp only [Core.transfer, Core.setBody, Core.setQueue]
  by_cases hp : p = q
  · subst hp
    rw [update_self, perm.mem_iff]
    by_cases hj : j = i <;> simp [hj]
  · rw [update_of_ne hp]
    by_cases hq : p = (c.body i).queueId
    · subst hq
      rw [update_self, (wf.queue_nodup _).mem_erase_iff]
      by_cases hj : j = i <;> simp [hp]
    · rw [update_of_ne hq]
      by_cases hj : j = i
      · subst hj
        simp only [if_true, hp, iff_false]
        exact fun h => hq (only p h)
      · simp [hj]

/-- Moving a linked item to another list, or inside its list, keeps the
agreement. -/
theorem transfer (hi : i ∈ c.table) (perm : l.Perm (i :: (c.queue q).erase i)) :
    (c.transfer i q l).WellFormed env := by
  have body : ∀ j, (c.transfer i q l).body j =
      if j = i then { c.body i with queueId := q } else c.body j := fun j => by
    simp only [Core.transfer, Core.setBody, Core.setQueue, update_apply]
  have same : ∀ {α : Type} (f : Body K V → α), f { c.body i with queueId := q } = f (c.body i) →
      ∀ j, f ((c.transfer i q l).body j) = f (c.body j) := by
    intro α f h j
    rw [body]
    split
    case isTrue hj => rw [h, hj]
    case isFalse => rfl
  have table : (c.transfer i q l).table = c.table := rfl
  refine { wf with
    queue_nodup := fun p => ?_, queue_id := fun p j hj => ?_, table_iff := fun j => ?_
    key_inj := fun j hj k hk h => ?_, hash_eq := fun j hj => ?_, linked := fun j hj => ?_ }
  · have erased := (wf.queue_nodup q).erase i
    have cons := nodup_cons.mpr ⟨(wf.queue_nodup q).not_mem_erase, erased⟩
    simp only [Core.transfer, Core.setBody, Core.setQueue]
    by_cases hp : p = q
    · subst hp; simpa using perm.nodup_iff.mpr cons
    · rw [update_of_ne hp]
      by_cases hq : p = (c.body i).queueId
      · subst hq; simpa using (wf.queue_nodup _).erase i
      · simpa [hq] using wf.queue_nodup p
  · rw [wf.mem_transfer_queue hi perm] at hj
    rw [body]
    split at hj
    case isTrue same => simp [same, hj]
    case isFalse different => simpa [different] using wf.queue_id p j hj
  · rw [table, wf.mem_transfer_queue hi perm, body]
    by_cases hj : j = i
    · simp [hj, hi]
    · simpa [hj] using wf.table_iff j
  · rw [same Body.key rfl, same Body.key rfl] at h
    exact wf.key_inj j hj k hk h
  · rw [same Body.key rfl, same Body.cachedHash rfl]
    exact wf.hash_eq j hj
  · rw [same Body.linked rfl]
    exact wf.linked j hj

/-- Linking a new item under an absent key keeps the agreement. -/
theorem insert (absent : ∀ j ∈ c.table, (c.body j).key ≠ b.key)
    (hash : b.cachedHash = env.hash b.key) (linked : b.linked = true)
    (perm : l.Perm (c.next :: c.queue b.queueId)) : (c.insert b l).WellFormed env := by
  have fresh := wf.next_not_mem
  have unlinked : ∀ q, c.next ∉ c.queue q := fun q h => fresh (wf.mem_table h)
  have ne : ∀ {j}, j ∈ c.table → j ≠ c.next := fun h e => fresh (e ▸ h)
  have old : ∀ {j}, j ≠ c.next → (c.insert b l).body j = c.body j := fun h => by
    simp [Core.insert, h]
  have new : (c.insert b l).body c.next = b := by simp [Core.insert]
  have mem : ∀ p j, j ∈ (c.insert b l).queue p ↔ (j = c.next ∧ p = b.queueId) ∨ j ∈ c.queue p := by
    intro p j
    by_cases hp : p = b.queueId
    · subst hp
      simp [Core.insert, perm.mem_iff]
    · simp [Core.insert, hp]
  have cases_table : ∀ {j}, j ∈ (c.insert b l).table → j = c.next ∨ j ∈ c.table := mem_cons.mp
  refine ⟨fun p => ?_, fun p j hj => ?_, nodup_cons.mpr ⟨fresh, wf.table_nodup⟩,
    fun j => ?_, fun j hj k hk h => ?_, fun j hj => ?_, fun j hj => ?_, fun j hj => ?_,
    fun j hj => Nat.lt_succ_of_lt (wf.pending_lt j hj),
    fun j hj => Nat.lt_succ_of_lt (wf.retired_lt j hj), fun j hj h => ?_, fun j hj h => ?_⟩
  · by_cases hp : p = b.queueId
    · subst hp
      simpa [Core.insert] using
        perm.nodup_iff.mpr (nodup_cons.mpr ⟨unlinked _, wf.queue_nodup _⟩)
    · simpa [Core.insert, hp] using wf.queue_nodup p
  · rcases (mem p j).mp hj with ⟨rfl, rfl⟩ | h
    · rw [new]
    · rw [old (ne (wf.mem_table h))]
      exact wf.queue_id p j h
  · rw [mem]
    by_cases hj : j = c.next
    · subst hj
      simp [Core.insert]
    · rw [old hj]
      simpa [Core.insert, hj] using wf.table_iff j
  · rcases cases_table hj with rfl | hj <;> rcases cases_table hk with rfl | hk
    · rfl
    · rw [new, old (ne hk)] at h
      exact absurd h.symm (absent k hk)
    · rw [new, old (ne hj)] at h
      exact absurd h (absent j hj)
    · rw [old (ne hj), old (ne hk)] at h
      exact wf.key_inj j hj k hk h
  · rcases cases_table hj with rfl | hj
    · rw [new, hash]
    · rw [old (ne hj)]
      exact wf.hash_eq j hj
  · rcases cases_table hj with rfl | hj
    · rw [new, linked]
    · rw [old (ne hj)]
      exact wf.linked j hj
  · rcases cases_table hj with rfl | hj
    · exact Nat.lt_succ_self _
    · exact Nat.lt_succ_of_lt (wf.table_lt j hj)
  · rcases cases_table h with rfl | h
    · exact Nat.lt_irrefl _ (wf.pending_lt _ hj)
    · exact wf.pending_not_mem j hj h
  · rcases cases_table h with rfl | h
    · exact Nat.lt_irrefl _ (wf.retired_lt _ hj)
    · exact wf.retired_not_mem j hj h

end WellFormed

end WellFormed

end Core

end Lru.Mm
