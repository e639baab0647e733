import Mathlib.Data.List.Basic

/-!
# Searching a list for its only match

When at most one element of a list satisfies a test, the first match is that
element, and erasing the first match is erasing that element. In a list without
duplicates erasing the last element drops it.
-/

namespace List

variable {α : Type*} {p : α → Bool} {l : List α} {a : α}

theorem find?_eq_some_of_unique (mem : a ∈ l) (holds : p a = true)
    (unique : ∀ b ∈ l, p b = true → b = a) : l.find? p = some a := by
  cases found : l.find? p with
  | none => exact absurd holds (by simpa using find?_eq_none.mp found a mem)
  | some b => rw [unique b (mem_of_find?_eq_some found) (find?_some found)]

theorem eraseP_eq_erase_of_unique [DecidableEq α] (holds : p a = true)
    (unique : ∀ b ∈ l, p b = true → b = a) : l.eraseP p = l.erase a := by
  induction l with
  | nil => rfl
  | cons b rest ih =>
    by_cases hb : p b = true
    · have same : b = a := unique b mem_cons_self hb
      subst same
      rw [eraseP_cons_of_pos hb, erase_cons_head]
    · have different : b ≠ a := fun e => hb (e ▸ holds)
      rw [eraseP_cons_of_neg hb, erase_cons_tail (by simpa using different),
        ih fun c hc => unique c (mem_cons_of_mem _ hc)]

theorem erase_eq_dropLast [DecidableEq α] (nodup : l.Nodup) (isLast : l.getLast? = some a) :
    l.erase a = l.dropLast := by
  obtain ⟨front, rfl⟩ := getLast?_eq_some_iff.mp isLast
  have fresh : a ∉ front := fun h =>
    (nodup_append.mp nodup).2.2 a h a (mem_singleton_self a) rfl
  rw [erase_append_right _ fresh, dropLast_concat, erase_cons_head, append_nil]

end List
