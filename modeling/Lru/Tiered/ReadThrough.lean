import Lru.Tiered.LastMutation

/-!
# Reads behind a write

A fetch takes the number of mutations of its key that have begun as its stamp. A `get`
that begins once a mutation has returned must not return what was fetched before that
mutation began. Only the primary is read, so it is enough that no entry of the primary is
older than a mutation that has reached it.
-/

namespace Lru.Tiered

open Function Transition Option State

variable {K V T : Type} {call : Call K V} {key : K} {entry : Entry V}

/-- Fetched entries are not older than this many mutations. -/
def Entry.Since (entry : Entry V) (n : Nat) : Prop :=
  ∀ stamp, entry.origin = .fetched stamp → n ≤ stamp

theorem Entry.Since.mono {m n : Nat} (fresh : entry.Since n) (le : m ≤ n) : entry.Since m := by
  intro stamp origin
  exact le_trans le (fresh stamp origin)

/-- What a `get` reports is not older than this many mutations. -/
def Answer.Since (answer : Answer V) (n : Nat) : Prop :=
  ∀ entry, answer = .value entry → entry.Since n

namespace State

variable [DecidableEq K] [DecidableEq T] {cfg : Config} {s t : State K V T} {l : Label K V T}

/-- The key of a thread's `get`, the number of mutations that had returned when it began,
and the entry that it returns in its next step. -/
def returns (s : State K V T) (i : T) : Option (K × Nat × Entry V) :=
  match (s.threads i).call with
  | .readPrimary key since => (s.primary key).map fun entry => (key, since, entry)
  | .followed key since _ (.value entry) => some (key, since, entry)
  | .fulfil key since _ _ (.value entry) => some (key, since, entry)
  | _ => none

/-- No `get` returns what was fetched before a mutation that had returned when it began. -/
def ReadsFresh (s : State K V T) : Prop :=
  ∀ i key since entry, s.returns i = some (key, since, entry) → entry.Since since

/-- A promotion comes before every mutation of its key that has begun since the fetch, and
the primary refuses no mutation of a key while it holds a fetched value for it. -/
def TimelyCall (s : State K V T) (c : Choice K) : Call K V → Prop
  | .promote key _ _ _ stamp | .push key _ stamp => c.refused = true ∨ s.applied key ≤ stamp
  | .mutatePrimary m _ => c.refused = true → ∀ entry ∈ s.primary m.key, entry.origin = .client
  | _ => True

def Timely (s : State K V T) : Label K V T → Prop
  | .advance i c => s.TimelyCall c (s.threads i).call
  | _ => True

instance (s : State K V T) (c : Choice K) (call : Call K V) : Decidable (s.TimelyCall c call) :=
  match call with
  | .promote key _ _ _ stamp | .push key _ stamp =>
    inferInstanceAs (Decidable (c.refused = true ∨ s.applied key ≤ stamp))
  | .mutatePrimary m _ => inferInstanceAs (Decidable
      (c.refused = true → ∀ entry ∈ s.primary m.key, entry.origin = .client))
  | .idle | .claim .. | .mutateBackend .. | .readPrimary .. | .lookup .. | .race .. | .follow ..
  | .reread .. | .followed .. | .allowRequest .. | .fetch .. | .readBack .. | .leave .. | .fulfil ..
  | .probe _ | .pull _ => .isTrue trivial

instance (s : State K V T) (l : Label K V T) : Decidable (s.Timely l) :=
  match l with
  | .advance i c => inferInstanceAs (Decidable (s.TimelyCall c (s.threads i).call))
  | .call .. | .evict .. | .deliver _ | .worker _ => .isTrue trivial

/-! ## The invariant -/

/-- What a call has to respect: past the primary's operation a mutation is counted, a
`get` has begun before the present, and what it has read is fresh. -/
def CallFresh (applied : K → Nat) : Call K V → Prop
  | .claim m index | .mutateBackend m index => index + 1 ≤ applied m.key
  | .readPrimary key since | .lookup key since | .race key since | .follow key since _
  | .reread key since _ | .allowRequest key since _ | .fetch key since _ | .promote key since _ _ _
  | .readBack key since _ _ => since ≤ applied key
  | .followed _ since _ answer | .leave _ since _ _ answer | .fulfil _ since _ _ answer =>
    answer.Since since
  | .idle | .mutatePrimary _ _ | .probe _ | .pull _ | .push _ _ _ => True

structure Fresh (s : State K V T) : Prop where
  primary : ∀ key, ∀ entry ∈ s.primary key, entry.Since (s.applied key)
  returned : ∀ key, s.returned key ≤ s.applied key
  calls : ∀ i, CallFresh s.applied (s.threads i).call

omit [DecidableEq K] in
theorem CallFresh.mono {a b : K → Nat} (fresh : CallFresh a call)
    (le : ∀ key, a key ≤ b key) : CallFresh b call := by
  cases call with
  | claim m | mutateBackend m => exact le_trans fresh (le m.key)
  | readPrimary key | lookup key | race key | follow key | reread key | allowRequest key | fetch key
  | promote key | readBack key => exact le_trans fresh (le key)
  | followed | leave | fulfil => exact fresh
  | idle | mutatePrimary | probe | pull | push => trivial

/-- What the primary holds after its part of a mutation: the client's value, or what a
refused mutation has left, or less than before. -/
theorem primary_mutatePrimary {i : T} {m : Mutation K V} {index : Nat} {c : Choice K}
    (held : entry ∈ (s.mutatePrimary cfg i m index c).primary key) :
    key ≠ m.key ∧ entry ∈ s.primary key
      ∨ key = m.key ∧ (entry.origin = .client ∨ c.refused = true ∧ entry ∈ s.primary key) := by
  have left {u : State K V T} {c' : Choice K} {e : Entry V}
      (held : e ∈ (u.leavePrimary cfg i c').primary key) :
      e ∈ u.primary key ∧ key ∉ c'.evicted := by
    simp only [leavePrimary] at held
    split at held
    · cases held
    case isFalse stays => exact ⟨held, fun gone => stays (.inl gone)⟩
  simp only [mutatePrimary] at held
  cases value : m.value with
  | some value =>
    simp only [value, primarySet] at held
    have before := (left held).1
    split at before
    case isTrue refused =>
      by_cases same : key = m.key
      · exact .inr ⟨same, .inr ⟨refused, before⟩⟩
      · exact .inl ⟨same, before⟩
    case isFalse =>
      by_cases same : key = m.key
      · subst same
        simp only [update_self, mem_some_iff] at before
        subst before
        exact .inr ⟨rfl, .inl rfl⟩
      · simp only [update_of_ne same] at before
        exact .inl ⟨same, before⟩
  | none =>
    simp only [value, primaryDel] at held
    obtain ⟨before, stays⟩ := left held
    by_cases same : key = m.key
    · by_cases refused : c.refused = true
      · exact .inr ⟨same, .inr ⟨refused, before⟩⟩
      · simp [refused, same] at stays
    · exact .inl ⟨same, before⟩

namespace Fresh

variable (fresh : s.Fresh) {i : T} {c : Choice K} {index : Nat} {m : Mutation K V}
include fresh

omit [DecidableEq K] [DecidableEq T] in
/-- What the primary holds is fresh for every `get` that has begun. -/
theorem answer {since : Nat} (begun : since ≤ s.applied key) : (s.answer key).Since since := by
  intro entry same
  rw [State.answer] at same
  split at same
  · cases same
    exact Entry.Since.mono (fresh.primary key _ ‹_›) begun
  · cases same

omit [DecidableEq K] in
/-- A thread goes on with a call that respects the rules. -/
theorem setCall (ok : CallFresh s.applied call) : (s.setCall i call).Fresh := by
  refine ⟨fresh.primary, fresh.returned, fun j => ?_⟩
  by_cases same : j = i
  · subst same
    simpa [setCall, setThread] using ok
  · simpa [State.setCall, State.setThread, same] using fresh.calls j

theorem leavePrimary : (s.leavePrimary cfg i c).Fresh := by
  refine ⟨?_, fresh.returned, fun j => ?_⟩
  · intro key entry held
    simp only [State.leavePrimary] at held
    split at held
    · cases held
    · exact fresh.primary key entry held
  · by_cases same : j = i
    · subst same
      simpa [leavePrimary] using fresh.calls j
    · simpa [State.leavePrimary, same] using fresh.calls j

theorem promoted {value : V} {stamp : Nat}
    (timely : c.refused = true ∨ s.applied key ≤ stamp) :
    (s.primarySet cfg i key ⟨value, .fetched stamp⟩ c).Fresh := by
  rw [primarySet]
  split
  case isTrue => exact fresh.leavePrimary
  case isFalse accepted =>
    have stored : Fresh
        { s with primary := update s.primary key (some ⟨value, .fetched stamp⟩) } := by
      refine ⟨?_, fresh.returned, fresh.calls⟩
      intro other entry held
      by_cases same : other = key
      · subst same
        simp only [update_self, mem_some_iff] at held
        subst held
        intro stamp' origin
        cases origin
        exact timely.resolve_left accepted
      · simp only [update_of_ne same] at held
        exact fresh.primary other entry held
    exact stored.leavePrimary

/-- The primary's part of a mutation that is not refused while a fetched value is held. -/
theorem mutated (timely : c.refused = true → ∀ entry ∈ s.primary m.key, entry.origin = .client) :
    (s.mutatePrimary cfg i m index c).Fresh
      ∧ index + 1 ≤ (s.mutatePrimary cfg i m index c).applied m.key := by
  have applied : (s.mutatePrimary cfg i m index c).applied =
      update s.applied m.key (max (s.applied m.key) (index + 1)) := rfl
  have grows : ∀ key, s.applied key ≤ (s.mutatePrimary cfg i m index c).applied key := by
    intro key
    rw [applied]
    by_cases same : key = m.key
    · subst same
      rw [update_self]
      exact le_max_left ..
    · rw [update_of_ne same]
  refine ⟨⟨?_, ?_, ?_⟩, ?_⟩
  · intro key entry held
    obtain ⟨other, before⟩ | ⟨rfl, client | ⟨refused, before⟩⟩ := primary_mutatePrimary held
    · rw [applied, update_of_ne other]
      exact fresh.primary key entry before
    · intro stamp fetched
      cases client.symm.trans fetched
    · intro stamp fetched
      cases (timely refused entry before).symm.trans fetched
  · intro key
    rw [(mutatePrimary_changes cfg).returned]
    exact le_trans (fresh.returned key) (grows key)
  · intro j
    rw [(mutatePrimary_changes cfg).calls]
    exact (fresh.calls j).mono grows
  · rw [applied, update_self]
    exact le_max_right ..

/-- A mutation that has reached the primary returns. -/
theorem settle (counted : index + 1 ≤ s.applied m.key) : (s.settle i m index).Fresh := by
  have idle : (s.setCall i .idle).Fresh := fresh.setCall trivial
  refine ⟨idle.primary, fun key => ?_, idle.calls⟩
  show update s.returned m.key _ key ≤ s.applied key
  by_cases same : key = m.key
  · subst same
    rw [update_self]
    exact Nat.max_le.mpr ⟨fresh.returned _, counted⟩
  · rw [update_of_ne same]
    exact fresh.returned key

omit [DecidableEq K] [DecidableEq T] in
theorem nextCall {call' : Call K V} (ok : CallFresh s.applied call)
    (next : s.nextCall cfg c call = some call') : CallFresh s.applied call' := by
  cases call with simp only [nextCall] at next
  | readPrimary key since =>
    split at next <;> cases next
    · trivial
    · exact ok
  | lookup key since =>
    split at next <;> cases next <;> exact ok
  | follow key since query =>
    split at next <;> cases next
    exact ok
  | reread key since query | readBack key since query value =>
    cases next
    exact fresh.answer ok
  | followed key since query answer =>
    cases next
    trivial
  | allowRequest key since query =>
    split at next <;> cases next
    · exact ok
    · rintro _ ⟨⟩
  | fetch key since query =>
    split at next
    · cases next
      rintro _ ⟨⟩
    · split at next <;> cases next
      · exact ok
      · rintro _ ⟨⟩
  | probe key =>
    split at next <;> cases next <;> trivial
  | pull key =>
    split at next
    · cases next
      trivial
    · split at next <;> cases next <;> trivial
  | idle | mutatePrimary | claim | mutateBackend | race | promote | leave | fulfil | push =>
    cases next

theorem proceed (timely : s.Timely (.advance i c))
    (taken : s.proceed cfg i c (s.threads i).call = some t) : t.Fresh := by
  have ok := fresh.calls i
  rw [Timely] at timely
  generalize (s.threads i).call = call at taken ok timely
  cases call with
  | mutatePrimary m index =>
    obtain ⟨mutated, counted⟩ : (s.mutatePrimary cfg i m index c).Fresh
        ∧ index + 1 ≤ (s.mutatePrimary cfg i m index c).applied m.key := fresh.mutated timely
    simp only [State.proceed] at taken
    split at taken <;> cases taken
    · exact mutated.settle counted
    · exact mutated.setCall counted
  | claim m index =>
    obtain ⟨store, -, rfl⟩ := map_eq_some_iff.mp taken
    have next : (s.setCall i (.mutateBackend m index)).Fresh := fresh.setCall ok
    exact ⟨next.primary, next.returned, next.calls⟩
  | mutateBackend m index =>
    cases taken
    have settled : (s.settle i m index).Fresh := fresh.settle ok
    exact ⟨settled.primary, settled.returned, settled.calls⟩
  | race key since =>
    cases taken
    rw [raceForLeader]
    split
    · exact fresh.setCall ok
    · have next : (s.setCall i (.allowRequest key since s.nextQuery)).Fresh := fresh.setCall ok
      exact ⟨next.primary, next.returned, next.calls⟩
  | promote key since query value stamp =>
    cases taken
    have promoted : (s.primarySet cfg i key ⟨value, .fetched stamp⟩ c).Fresh :=
      fresh.promoted timely
    refine promoted.setCall ?_
    rw [primarySet]
    split <;> exact ok
  | push key value stamp =>
    cases taken
    have promoted : (s.primarySet cfg i key ⟨value, .fetched stamp⟩ c).Fresh :=
      fresh.promoted timely
    exact promoted.setCall trivial
  | leave key since query outcome answer =>
    cases taken
    have next : (s.setCall i (.fulfil key since query outcome answer)).Fresh := fresh.setCall ok
    exact ⟨next.primary, next.returned, next.calls⟩
  | fulfil key since query outcome answer =>
    cases taken
    have next : (s.setCall i .idle).Fresh := fresh.setCall trivial
    exact ⟨next.primary, next.returned, next.calls⟩
  | idle | readPrimary | lookup | follow | reread | followed | allowRequest | fetch | readBack
  | probe | pull =>
    simp only [State.proceed, map_eq_some_iff] at taken
    obtain ⟨call', next, rfl⟩ := taken
    exact fresh.setCall (fresh.nextCall ok next)

theorem step (timely : s.Timely l) (taken : s.step cfg l = some t) : t.Fresh := by
  cases l with
  | call i op =>
    obtain ⟨-, rfl⟩ := of_guarded taken
    cases op with
    | mutate m =>
      have next : (s.setCall i (.mutatePrimary m (s.begun m.key))).Fresh := fresh.setCall trivial
      exact ⟨next.primary, next.returned, next.calls⟩
    | get key => exact fresh.setCall (fresh.returned key)
    | promoteFromBackend key => exact fresh.setCall trivial
  | advance i c =>
    exact fresh.proceed timely (ite_none_right_eq_some.mp taken).2
  | evict i c =>
    obtain ⟨-, rfl⟩ := of_guarded taken
    exact fresh.leavePrimary
  | deliver i =>
    simp only [step] at taken
    split at taken
    case h_1 => cases taken
    case h_2 key value rest owed =>
      cases taken
      refine ⟨fresh.primary, fresh.returned, fun j => ?_⟩
      by_cases same : j = i
      · subst same
        simpa [setThread] using fresh.calls j
      · simpa [setThread, same] using fresh.calls j
  | worker throws =>
    cases taken
    exact ⟨fresh.primary, fresh.returned, fresh.calls⟩

omit [DecidableEq K] [DecidableEq T] fresh in
theorem of_initial (initial : s.Initial) : s.Fresh := by
  refine ⟨?_, ?_, ?_⟩
  · intro key entry held stamp fetched
    cases (initial.origin key entry held).symm.trans fetched
  · intro key
    rw [initial.returned]
    exact Nat.zero_le _
  · intro i
    rw [initial.threads]
    trivial

omit [DecidableEq K] [DecidableEq T] in
theorem readsFresh : s.ReadsFresh := by
  intro i key since entry found
  have ok := fresh.calls i
  rw [returns] at found
  split at found
  case h_1 key' since' call =>
    simp only [map_eq_some_iff, Prod.mk.injEq] at found
    obtain ⟨_, held, rfl, rfl, rfl⟩ := found
    rw [call] at ok
    exact Entry.Since.mono (fresh.primary _ _ held) ok
  case h_2 call | h_3 call =>
    cases found
    rw [call] at ok
    exact ok entry rfl
  case h_4 => cases found

end Fresh

end State

/-- In every run whose promotions are timely, no `get` returns a value that was fetched
before a mutation which had returned when the `get` began. -/
theorem get_never_returns_overwritten_fetch [DecidableEq K] [DecidableEq T] {cfg : Config}
    {s t : State K V T} (initial : s.Initial)
    (reached : Transition.Reaches (step cfg) State.Timely s t) : t.ReadsFresh := by
  have fresh : t.Fresh := by
    refine reached.invariant (.of_initial initial) ?_
    intro s l t fresh timely taken
    exact fresh.step timely taken
  exact fresh.readsFresh

/-! ## A fetch and a write -/

section Samples

def storedTiers : State Nat Nat Bool where
  primary := fun _ => none
  store := { backend := fun key => if key = 1 then some 10 else none }

theorem storedTiers_initial : storedTiers.Initial := ⟨rfl, rfl, rfl, rfl, rfl, rfl, rfl, rfl, nofun⟩

/-- A thread's `get` of key 1 up to the end of its fetch. -/
def fetchOne (i : Bool) : List (Label Nat Nat Bool) :=
  .call i (.get 1) :: List.replicate 5 (.advance i {})

def plainSet (i : Bool) (key value : Nat) : List (Label Nat Nat Bool) :=
  [.call i (.mutate ⟨key, some value⟩), .advance i {}]

/-- The fetched value is promoted at once; then key 1 is set, and a `get` returns the new
value. -/
theorem promoted_then_set :
    ∃ t, runWhere (step {}) (fun s l => decide (s.Timely l)) storedTiers
        (fetchOne false ++ List.replicate 4 (.advance false {}) ++ plainSet true 1 11
          ++ [.call true (.get 1)]) = some t
      ∧ t.returns true = some (1, 1, ⟨11, .client⟩) ∧ t.ReadsFresh := by
  have executed : (runWhere (step {}) (fun s l => decide (s.Timely l)) storedTiers
      (fetchOne false ++ List.replicate 4 (.advance false {}) ++ plainSet true 1 11
        ++ [.call true (.get 1)])).map (fun t => t.returns true) =
        some (some (1, 1, ⟨11, .client⟩)) := by
    decide +kernel
  obtain ⟨t, run, shown⟩ := map_eq_some_iff.mp executed
  have reached := Transition.Reaches.of_runWhere run
  refine ⟨t, run, shown, get_never_returns_overwritten_fetch storedTiers_initial
    (reached.weaken ?_)⟩
  intro s l allowed
  exact of_decide_eq_true allowed

/-- Key 1 is set between the fetch and the promotion: the next `get` returns 10, which was
fetched before the `set` began. -/
theorem promotion_overwrites_set :
    ∃ t, run (step {}) storedTiers
        (fetchOne false ++ plainSet true 1 11 ++ [.advance false {}, .call true (.get 1)]) = some t
      ∧ t.returns true = some (1, 1, ⟨10, .fetched 0⟩) ∧ ¬ t.ReadsFresh := by
  have executed : (run (step {}) storedTiers
      (fetchOne false ++ plainSet true 1 11 ++ [.advance false {}, .call true (.get 1)])).map
        (fun t => t.returns true) = some (some (1, 1, ⟨10, .fetched 0⟩)) := by
    decide +kernel
  obtain ⟨t, run, shown⟩ := map_eq_some_iff.mp executed
  refine ⟨t, run, shown, fun fresh => ?_⟩
  exact absurd (fresh true 1 1 _ shown 0 rfl) (by decide)

end Samples

end Lru.Tiered
