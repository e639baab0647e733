import Lru.Tiered.Ownership
import Mathlib.Data.Fintype.Basic

/-!
# The last mutation wins in the backend

What every step of the system does to the backend, the write-back bookkeeping and the
stages of the keys, and from it, over every run: the backend holds the value of the last
mutation of a key once this has returned and until the next one begins.
-/

namespace Lru.Tiered

open Function Transition Option

variable {K V T : Type}

/-- The stage of a key that a thread's call stands for. -/
def Call.staged : Call K V → Option (K × Stage V)
  | .mutatePrimary m _ | .claim m _ => some (m.key, .begun)
  | .mutateBackend m _ => some (m.key, .claimed m.value)
  | _ => none

namespace State

variable [DecidableEq T] {cfg : Config} {s t : State K V T} {l : Label K V T} {c : Choice K}

theorem isIdle_iff {thread : Thread K V} : thread.isIdle = true ↔ thread = {} := by
  obtain ⟨call, owed⟩ := thread
  cases call <;> cases owed <;> simp [Thread.isIdle]

variable [DecidableEq K] {call : Call K V} {i : T} {u : State K V T}

/-- The stage that a thread's call stands for. -/
def staged (s : State K V T) (i : T) : Option (K × Stage V) := (s.threads i).call.staged

/-- What a step does, apart from the primary and the in-flight table. -/
inductive Effect (cfg : Config) (s t : State K V T) : Label K V T → Prop
  | quiet {label : Label K V T} (store : t.store = s.store) (stage : t.stage = s.stage)
      (calls : t.staged = s.staged) : Effect cfg s t label
  | begins {i : T} {m : Mutation K V} (store : t.store = s.store)
      (stage : t.stage = update s.stage m.key .begun)
      (calls : t.staged = update s.staged i (some (m.key, .begun))) :
      Effect cfg s t (.call i (.mutate m))
  | claims {i : T} {c : Choice K} {m : Mutation K V} (was : s.staged i = some (m.key, .begun))
      (store : s.store.claim m.key = some t.store)
      (stage : t.stage = update s.stage m.key (.claimed m.value))
      (calls : t.staged = update s.staged i (some (m.key, .claimed m.value))) :
      Effect cfg s t (.advance i c)
  | settles {i : T} {c : Choice K} {m : Mutation K V}
      (was : s.staged i = some (m.key, .claimed m.value))
      (store : t.store = s.store.put m.key m.value)
      (stage : t.stage = update s.stage m.key (.settled m.value))
      (calls : t.staged = update s.staged i none) :
      Effect cfg s t (.advance i c)
  /-- A `set` without write-back. -/
  | returns {i : T} {c : Choice K} (plain : cfg.writeBackOnEvict = false) :
      Effect cfg s t (.advance i c)
  | calls {i : T} {key : K} {value : V} (owed : (s.threads i).owed.head? = some (key, value))
      (store : t.store = s.store.onEvict cfg key value) (stage : t.stage = s.stage)
      (calls : t.staged = s.staged) : Effect cfg s t (.deliver i)
  | works {throws : Bool} (store : t.store = s.store.workerStep throws) (stage : t.stage = s.stage)
      (calls : t.staged = s.staged) : Effect cfg s t (.worker throws)

omit [DecidableEq K] in
theorem staged_setCall : (s.setCall i call).staged = update s.staged i call.staged := by
  funext j
  by_cases same : j = i
  · subst same
    simp [staged, setCall, setThread]
  · simp [staged, setCall, setThread, same]

omit [DecidableEq K] in
/-- A call that stands for the same stage as before. -/
theorem staged_setCall_of_eq (same : call.staged = s.staged i) :
    (s.setCall i call).staged = s.staged := by
  rw [staged_setCall, same, update_eq_self]

omit [DecidableEq K] [DecidableEq T] in
theorem ChangesPrimary.staged_eq (h : ChangesPrimary s u) : u.staged = s.staged :=
  funext fun i => congrArg Call.staged (h.calls i)

/-- A step inside a call that is not one of a mutation. -/
theorem Effect.of_setCall (changed : ChangesPrimary s u) (same : call.staged = s.staged i) :
    Effect cfg s (u.setCall i call) (.advance i c) := by
  refine .quiet changed.store changed.stage ?_
  rw [staged_setCall_of_eq (same.trans (congrFun changed.staged_eq i).symm), changed.staged_eq]

omit [DecidableEq K] [DecidableEq T] in
theorem staged_nextCall {call call' : Call K V} (next : s.nextCall cfg c call = some call') :
    call'.staged = call.staged := by
  cases call with
  | readPrimary | lookup | follow | allowRequest | probe =>
    simp only [nextCall] at next
    split at next <;> cases next <;> rfl
  | fetch | pull =>
    simp only [nextCall] at next
    split at next
    · cases next
      rfl
    · split at next <;> cases next <;> rfl
  | reread | followed | readBack =>
    cases next
    rfl
  | idle | mutatePrimary | claim | mutateBackend | race | promote | leave | fulfil | push =>
    cases next

theorem proceed_effect (taken : s.proceed cfg i c (s.threads i).call = some t) :
    Effect cfg s t (.advance i c) := by
  have here : s.staged i = (s.threads i).call.staged := rfl
  generalize (s.threads i).call = call at taken here
  cases call with
  | mutatePrimary m index =>
    simp only [proceed] at taken
    split at taken
    case isTrue plain =>
      refine .returns ?_
      simpa using (Bool.and_eq_true_iff.mp plain).2
    case isFalse =>
      cases taken
      exact .of_setCall (mutatePrimary_changes cfg) here.symm
  | claim m index =>
    obtain ⟨store, claimed, rfl⟩ := map_eq_some_iff.mp taken
    exact .claims here claimed rfl staged_setCall
  | mutateBackend m index =>
    cases taken
    exact .settles here rfl rfl staged_setCall
  | race key since =>
    cases taken
    rw [raceForLeader]
    split
    · exact .of_setCall ⟨rfl, rfl, rfl, rfl, rfl, rfl, fun _ => rfl⟩ here.symm
    · exact .quiet rfl rfl (staged_setCall_of_eq here.symm)
  | promote key since query value stamp | push key value stamp =>
    cases taken
    exact .of_setCall (primarySet_changes cfg s i key _ c) here.symm
  | leave key since query outcome answer | fulfil key since query outcome answer =>
    cases taken
    exact .quiet rfl rfl (staged_setCall_of_eq here.symm)
  | idle | readPrimary | lookup | follow | reread | followed | allowRequest | fetch | readBack
  | probe | pull =>
    simp only [proceed, map_eq_some_iff] at taken
    obtain ⟨call', next, rfl⟩ := taken
    exact .of_setCall ⟨rfl, rfl, rfl, rfl, rfl, rfl, fun _ => rfl⟩
      ((staged_nextCall next).trans here.symm)

theorem step_effect (taken : s.step cfg l = some t) : Effect cfg s t l := by
  cases l with
  | call i op =>
    obtain ⟨idle, rfl⟩ := of_guarded taken
    have free : s.staged i = none := by
      rw [staged, isIdle_iff.mp idle]
      rfl
    cases op with
    | mutate m => exact .begins rfl rfl staged_setCall
    | get | promoteFromBackend => exact .quiet rfl rfl (staged_setCall_of_eq free.symm)
  | advance i c =>
    exact proceed_effect (ite_none_right_eq_some.mp taken).2
  | evict i c =>
    obtain ⟨-, rfl⟩ := of_guarded taken
    exact .quiet rfl rfl (leavePrimary_changes cfg s i c).staged_eq
  | deliver i =>
    simp only [step] at taken
    split at taken
    case h_1 => cases taken
    case h_2 key value rest owed =>
      cases taken
      refine .calls (by rw [owed]; rfl) rfl rfl (funext fun j => ?_)
      by_cases same : j = i
      · subst same
        simp [staged, setThread]
      · simp [staged, setThread, same]
  | worker throws =>
    cases taken
    exact .works rfl rfl rfl

/-! ## Runs -/

def Apart (s : State K V T) : Label K V T → Prop
  | .call _ (.mutate m) => ∀ j, (s.staged j).map (·.1) ≠ some m.key
  | _ => True

/-- A callback carries the value of the last mutation of its key, unless a mutation of the
key is still before its claim, and a full queue drops no record of a put under way. -/
def Orderly (cfg : Config) (s : State K V T) : Label K V T → Prop
  | .deliver i => ∀ owed ∈ (s.threads i).owed.head?,
      (s.stage owed.1).Meets owed.2 ∧ s.store.DropsSafely cfg
  | _ => True

instance [Fintype T] (s : State K V T) (l : Label K V T) : Decidable (s.Apart l) :=
  match l with
  | .call _ (.mutate m) => inferInstanceAs (Decidable (∀ j, (s.staged j).map (·.1) ≠ some m.key))
  | .call _ (.get _) | .call _ (.promoteFromBackend _) | .advance .. | .evict .. | .deliver _
  | .worker _ => .isTrue trivial

instance [DecidableEq V] (s : State K V T) (l : Label K V T) : Decidable (s.Orderly cfg l) :=
  match l with
  | .deliver i => inferInstanceAs (Decidable (∀ owed ∈ (s.threads i).owed.head?,
      (s.stage owed.1).Meets owed.2 ∧ s.store.DropsSafely cfg))
  | .call .. | .advance .. | .evict .. | .worker _ => .isTrue trivial

/-- Each mutating thread is alone with its key and knows its stage. -/
structure Staged (s : State K V T) : Prop where
  stage : ∀ i key g, s.staged i = some (key, g) → s.stage key = g
  alone : ∀ i j key g g', s.staged i = some (key, g) → s.staged j = some (key, g') → i = j

namespace Staged

variable {i : T} {key : K} {g : Stage V}

/-- The thread that is alone with a key moves on, and the stage of the key with it. -/
theorem update (staged : s.Staged) {call : Option (K × Stage V)}
    (alone : ∀ j g', s.staged j = some (key, g') → j = i)
    (stages : t.stage = update s.stage key g) (known : ∀ x ∈ call, x = (key, g))
    (calls : t.staged = update s.staged i call) : t.Staged := by
  have other {j : T} {key' : K} {g' : Stage V} (ne : j ≠ i) (found : t.staged j = some (key', g')) :
      s.staged j = some (key', g') ∧ key' ≠ key := by
    rw [calls, update_of_ne ne] at found
    refine ⟨found, fun same => ne (alone j g' ?_)⟩
    rw [found, same]
  have own {key' : K} {g' : Stage V} (found : t.staged i = some (key', g')) :
      key' = key ∧ g' = g := by
    rw [calls, update_self] at found
    exact Prod.mk.inj (known _ found)
  constructor
  · intro j key' g' found
    by_cases same : j = i
    · subst same
      obtain ⟨rfl, rfl⟩ := own found
      rw [stages, update_self]
    · obtain ⟨before, ne⟩ := other same found
      rw [stages, update_of_ne ne]
      exact staged.stage j key' g' before
  · intro j j' key' g' g'' found found'
    by_cases same : j = i <;> by_cases same' : j' = i
    · rw [same, same']
    · subst same
      exact absurd (own found).1 (other same' found').2
    · subst same'
      exact absurd (own found').1 (other same found).2
    · exact staged.alone j j' key' g' g'' (other same found).1 (other same' found').1

omit [DecidableEq K] [DecidableEq T] in
theorem of_quiet (staged : s.Staged) (stages : t.stage = s.stage) (calls : t.staged = s.staged) :
    t.Staged := by
  constructor
  · rw [stages, calls]
    exact staged.stage
  · rw [calls]
    exact staged.alone

end Staged

structure LastWins (s : State K V T) : Prop where
  owned : s.store.Owned s.stage
  staged : s.Staged

namespace LastWins

omit [DecidableEq K] [DecidableEq T] in
theorem of_initial (initial : s.Initial) : s.LastWins := by
  have none : s.store.entries = [] := by
    rw [Store.entries, initial.queue, initial.worker]
    rfl
  have idle : ∀ i, s.staged i = Option.none := by
    intro i
    rw [State.staged, initial.threads]
    rfl
  refine ⟨⟨?_, ?_, ?_, ?_⟩, ?_, ?_⟩
  · rw [none]
    exact List.forall_mem_nil _
  · rw [none]
    exact List.forall_mem_nil _
  · rw [initial.worker]
    rintro _ _ ⟨⟩
  · rw [initial.stage]
    rintro _ _ ⟨⟩
  · intro i key g found
    cases (idle i).symm.trans found
  · intro i j key g g' found
    cases (idle i).symm.trans found

theorem step (writeBack : cfg.writeBackOnEvict = true)
    (async : 1 ≤ cfg.asyncWritebackQueueCapacity) (wins : s.LastWins) (apart : s.Apart l)
    (orderly : s.Orderly cfg l) (taken : s.step cfg l = some t) : t.LastWins := by
  obtain ⟨owned, staged⟩ := wins
  cases step_effect taken with
  | quiet store stage calls =>
    refine ⟨?_, staged.of_quiet stage calls⟩
    rw [store, stage]
    exact owned
  | @begins i m store stage calls =>
    refine ⟨?_, ?_⟩
    · rw [store, stage]
      exact owned.begin
    · refine staged.update ?_ stage ?_ calls
      · intro j g found
        exact absurd (congrArg (Option.map (·.1)) found) (apart j)
      · intro x same
        exact (some.inj same).symm
  | @claims i c m was store stage calls =>
    refine ⟨?_, ?_⟩
    · rw [stage]
      exact owned.claim store
    · refine staged.update ?_ stage ?_ calls
      · intro j g found
        exact staged.alone j i m.key g .begun found was
      · intro x same
        exact (some.inj same).symm
  | @settles i c m was store stage calls =>
    refine ⟨?_, ?_⟩
    · rw [store, stage]
      exact owned.settle (staged.stage i m.key _ was)
    · refine staged.update ?_ stage ?_ calls
      · intro j g found
        exact staged.alone j i m.key g _ found was
      · intro x none
        cases none
  | returns plain => cases plain.symm.trans writeBack
  | @calls i key value owed store stage calls =>
    obtain ⟨meets, safe⟩ := orderly (key, value) owed
    refine ⟨?_, staged.of_quiet stage calls⟩
    rw [store, stage]
    exact owned.onEvict async safe meets
  | @works throws store stage calls =>
    refine ⟨?_, staged.of_quiet stage calls⟩
    rw [store, stage]
    exact owned.workerStep

end LastWins

end State

/-- In every run whose callbacks are orderly, the backend holds the value of the last
mutation of a key from its return until the next mutation of the key begins. -/
theorem backend_holds_last_mutation [DecidableEq K] [DecidableEq T] {cfg : Config}
    (writeBack : cfg.writeBackOnEvict = true) (async : 1 ≤ cfg.asyncWritebackQueueCapacity)
    {s t : State K V T} (initial : s.Initial)
    (reached : Transition.Reaches (State.step cfg) (fun s l => s.Apart l ∧ s.Orderly cfg l) s t)
    (key : K) (x : Option V) (settled : t.stage key = .settled x) : t.store.backend key = x := by
  have wins : t.LastWins := by
    refine reached.invariant (.of_initial initial) ?_
    intro s l t wins allowed taken
    exact wins.step writeBack async allowed.1 allowed.2 taken
  exact wins.owned.settled key x settled

/-! ## Runs of two threads -/

section Samples

def emptyTiers : State Nat Nat Bool where
  primary := fun _ => none
  store := { backend := fun _ => none }

theorem emptyTiers_initial : emptyTiers.Initial := ⟨rfl, rfl, rfl, rfl, rfl, rfl, rfl, rfl, nofun⟩

def writeBackConfig : Config := { writeBackOnEvict := true, asyncWritebackQueueCapacity := 4 }

/-- A whole `set`; the primary evicts these keys, and their callbacks run. -/
def wholeSet (i : Bool) (key value : Nat) (evicted : List Nat) : List (Label Nat Nat Bool) :=
  [.call i (.mutate ⟨key, some value⟩), .advance i { evicted := evicted }]
    ++ evicted.map (fun _ => .deliver i) ++ [.advance i {}, .advance i {}]

def works (n : Nat) : List (Label Nat Nat Bool) := List.replicate n (.worker false)

/-- A key is evicted for another one and written back. -/
theorem evicted_key_written_back :
    ∃ t, runWhere (State.step writeBackConfig)
        (fun s l => decide (s.Apart l ∧ s.Orderly writeBackConfig l)) emptyTiers
        (wholeSet false 1 10 [] ++ wholeSet false 2 20 [1] ++ works 4) = some t
      ∧ t.stage 1 = .settled (some 10) ∧ t.store.worker = .draining []
      ∧ t.store.backend 1 = some 10 := by
  have executed : (runWhere (State.step writeBackConfig)
      (fun s l => decide (s.Apart l ∧ s.Orderly writeBackConfig l)) emptyTiers
      (wholeSet false 1 10 [] ++ wholeSet false 2 20 [1] ++ works 4)).map
        (fun t => (t.stage 1, t.store.worker)) = some (.settled (some 10), .draining []) := by
    decide +kernel
  obtain ⟨t, run, shown⟩ := map_eq_some_iff.mp executed
  have reached := Transition.Reaches.of_runWhere run
  have settled : t.stage 1 = .settled (some 10) := congrArg Prod.fst shown
  refine ⟨t, run, settled, congrArg Prod.snd shown, ?_⟩
  refine backend_holds_last_mutation rfl (by decide) emptyTiers_initial (reached.weaken ?_) 1 _
    settled
  intro s l allowed
  exact of_decide_eq_true allowed

/-- One thread evicts key 1 and has not run the callback yet; the other sets key 1 to 11;
then the callback runs, and the worker writes 10 back. -/
def lateCallback : List (Label Nat Nat Bool) :=
  wholeSet false 1 10 []
    ++ [.call false (.mutate ⟨2, some 20⟩), .advance false { evicted := [1] }]
    ++ wholeSet true 1 11 [2] ++ [.deliver false] ++ works 6

theorem late_callback_reverts_key :
    ∃ t, runWhere (State.step writeBackConfig) (fun s l => decide (s.Apart l)) emptyTiers
        lateCallback = some t
      ∧ t.stage 1 = .settled (some 11) ∧ t.store.backend 1 = some 10 := by
  have executed : (runWhere (State.step writeBackConfig) (fun s l => decide (s.Apart l))
      emptyTiers lateCallback).map (fun t => (t.stage 1, t.store.backend 1)) =
        some (.settled (some 11), some 10) := by
    decide +kernel
  obtain ⟨t, run, shown⟩ := map_eq_some_iff.mp executed
  exact ⟨t, run, congrArg Prod.fst shown, congrArg Prod.snd shown⟩

end Samples

end Lru.Tiered
