import Lru.Mm.Room

/-!
# What is stored under a key

The record of a key is its value and expiry, without the handles. Pins never
change it; a removal can only clear it; and a write to a resident key that has a
handle replaces its value, since such an item is not evicted.
-/

namespace Lru.Mm

variable {K V : Type} [DecidableEq K] {s : State K V} {env : Env K V} {other : K} {i : ItemId}
  {key : K}

open State

def State.record (env : Env K V) (s : State K V) (key : K) : Option (V × Nat) :=
  (s.find env key).map fun i => ((s.heap i).value, (s.heap i).expiryNs)

section Records

variable {t : State K V}

theorem record_of_find (found : s.find env key = some i) :
    s.record env key = some ((s.heap i).value, (s.heap i).expiryNs) := by
  rw [record, found]
  rfl

theorem record_of_absent (absent : s.find env key = none) : s.record env key = none := by
  rw [record, absent]
  rfl

theorem record_of_shown {nowNs : Nat} {value : V} (shows : s.shown env key nowNs = some value) :
    (s.record env key).map Prod.fst = some value := by
  rw [shown] at shows
  cases found : s.find env key with
  | none => simp [found] at shows
  | some i =>
    rw [found] at shows
    simp only [Option.ite_none_right_eq_some] at shows
    rw [record_of_find found]
    exact shows.2

theorem record_cases_of_content {key : K} (wf : s.WellFormed env) (after : t.WellFormed env)
    (old : ∀ i ∈ t.table, (t.heap i).key = key →
      i ∈ s.table ∧ (t.heap i).content = (s.heap i).content) :
    t.record env key = s.record env key ∨ t.record env key = none := by
  cases found : t.find env key with
  | none => exact .inr (record_of_absent found)
  | some i =>
    obtain ⟨hi, keyed⟩ := (find_eq_some_iff after).mp found
    obtain ⟨mem, content⟩ := old i hi keyed
    have before : s.find env key = some i :=
      (find_eq_some_iff wf).mpr ⟨mem, (congrArg Prod.fst content).symm.trans keyed⟩
    refine .inl ?_
    rw [record_of_find found, record_of_find before]
    exact congrArg (fun x => some (x.2.1, x.2.2.1)) content

/-- Removals and moves keep a record or clear it. -/
theorem Shrinks.record_cases (h : Shrinks env s t) (wf : s.WellFormed env) (key : K) :
    t.record env key = s.record env key ∨ t.record env key = none :=
  record_cases_of_content wf h.wf fun i hi _ => ⟨h.mem i hi, h.content i hi⟩

theorem Rearranges.record_eq (h : Rearranges env s t) (wf : s.WellFormed env) :
    t.record env key = s.record env key := by
  have same : t.entry env key = s.entry env key := h.entry_eq wf
  simpa [record, entry, Body.content, Function.comp_def] using
    congrArg (Option.map fun x : K × V × Nat × Nat => (x.2.1, x.2.2.1)) same

theorem Quiet.record_eq (h : Quiet s t) (wf : s.WellFormed env) (key : K) :
    t.record env key = s.record env key :=
  (Rearranges.of_quiet h wf).record_eq wf

/-- A write to an item does not change what the table finds. -/
theorem find_modify {f : Item K V → Item K V} (write : ContentWrite f) (env : Env K V)
    (s : State K V) (i : ItemId) (key : K) :
    (s.modify i f).find env key = s.find env key := by
  have stops : (s.modify i f).stopsAt env key = s.stopsAt env key := by
    funext j
    by_cases same : j = i
    · subst same
      simp [stopsAt, State.modify, write.key_eq, write.hash_eq]
    · simp [stopsAt, State.modify, same]
  simp only [find, stops]
  rfl

theorem record_count (f : Nat → Nat) :
    (s.modify i fun item => { item with accessRef := f item.accessRef }).record env key =
      s.record env key := by
  rw [record, find_modify (.count f)]
  refine congrArg (s.find env key).map (funext fun j => ?_)
  by_cases same : j = i
  · subst same
    simp [State.modify]
  · simp [State.modify, same]

theorem record_incRef (env : Env K V) (s : State K V) (i : ItemId) :
    (s.incRef i).record env key = s.record env key :=
  record_count (· + 1)

theorem record_decRef (env : Env K V) (s : State K V) (i : ItemId) (key : K) :
    (s.decRef i).record env key = s.record env key :=
  record_count (· - 1)

end Records

section Writes

variable {p : Policy K V} {value : V} {sec : Nat}

/-- `set` on a key that has a handle: the value is replaced and the expiry stays. -/
theorem Policy.Laws.record_set_of_held (laws : p.Laws env) (wf : s.WellFormed env)
    (found : s.find env key = some i) (held : (s.heap i).accessRef ≠ 0) :
    (p.set env s key value sec).record env key = some (value, (s.heap i).expiryNs) := by
  have kept := laws.set_find_of_held wf value sec found held
  have content := laws.set_content wf kept
  rw [stamp, found] at content
  rw [record_of_find kept]
  exact congrArg (fun x => some (x.2.1, x.2.2.1)) content

theorem Policy.Laws.record_set_other (laws : p.Laws env) (wf : s.WellFormed env)
    (found : s.find env key = some i) (different : other ≠ key) :
    (p.set env s key value sec).record env other = s.record env other ∨
      (p.set env s key value sec).record env other = none := by
  obtain ⟨absent, -⟩ | ⟨j, resident, written⟩ := laws.set_cases wf key value sec
  · rw [absent] at found
    cases found
  have valued : (s.modify j fun item => { item with value := value }).record env other =
      s.record env other := by
    rw [record, record, find_modify (.value value)]
    cases at_other : s.find env other with
    | none => rfl
    | some o =>
      have ne : o ≠ j := by
        rintro rfl
        have first := ((find_eq_some_iff wf).mp at_other).2
        exact different (first.symm.trans ((find_eq_some_iff wf).mp resident).2)
      simp [State.modify, ne]
  have cases := written.record_cases (WellFormed.write (.value value) wf) other
  rwa [valued] at cases

end Writes

end Lru.Mm
