import Lru.Cache.Admission
import Lru.Cache.Cas
import Lru.Cache.ReadOnly
import Lru.Library.Swaps

/-!
# Interleavings of `cas`

Threads that call `cas` on one cache while others set, delete and read. A critical
section, a lookup outside the lock and a `pre_write_check` are one step each. Every
step at which a call of `cas` returns is the point at which it takes effect: the
call succeeds there exactly if the expected value is shown and nothing turned the
call away, and otherwise it has changed no record. So the swaps of a key form a
chain as long as nobody else writes.
-/

namespace Lru.HandleCache

open Mm State Option Cache

variable {K V ι : Type} {n : Nat}

/-- Where a thread is inside a call of `cas`. -/
inductive CasPhase (K V : Type) where
  | idle
  /-- The overload that compares under the lock, past `pre_write_check`. -/
  | locked (key : K) (expected desired : V)
  /-- The other one at the head of its loop, with the attempts left after this one. -/
  | attempt (key : K) (expected desired : V) (left : Nat)
  /-- The copied value was the expected one; the handle of the lookup is still there. -/
  | matched (key : K) (expected desired : V) (left : Nat) (item : ItemId)

structure CasReturn (K V : Type) where
  key : K
  expected : V
  desired : V
  result : Bool

structure CasSystem (K V ι : Type) (n : Nat) where
  cache : HandleCache K V n
  phase : ι → CasPhase K V
  /-- The calls that have returned, the oldest first. -/
  returns : List (CasReturn K V) := []

inductive CasLabel (K V ι : Type) where
  /-- A thread calls `cas`: without a number of retries the overload that compares under
  the lock, otherwise the other one. -/
  | call (i : ι) (key : K) (expected desired : V) (maxRetries : Option Nat) (a : Ambient K)
  /-- A thread takes the next step of its call. -/
  | advance (i : ι) (a : Ambient K)
  | set (key : K) (value : V) (a : Ambient K)
  | del (key : K) (a : Ambient K)
  | get (key : K) (a : Ambient K)

def CasLabel.nowNs : CasLabel K V ι → Nat
  | .call _ _ _ _ _ a | .advance _ a | .set _ _ a | .del _ a | .get _ a => a.nowNs

def CasLabel.isSet : CasLabel K V ι → Bool
  | .set .. => true
  | _ => false

/-! ## Records of a cache -/

section Calls

variable [NeZero n] [DecidableEq K] {env : Env K V} {u : HandleCache K V n} {key other : K}
  {s t : State K V} {m : Memory.Monitor}

def record (env : Env K V) (u : HandleCache K V n) (key : K) : Option (V × Nat) :=
  (u.shard env key).record env key

def visible (env : Env K V) (u : HandleCache K V n) (key : K) (nowNs : Nat) : Option V :=
  (u.shard env key).shown env key nowNs

/-- Some records are gone, and no other has changed. -/
def Forgets (env : Env K V) (u v : HandleCache K V n) : Prop :=
  ∀ key, v.record env key = u.record env key ∨ v.record env key = none

theorem record_setShard :
    (u.setShard env key t).record env other =
      if u.home env other = u.home env key then t.record env other else u.record env other := by
  rw [record, shard_setShard]
  split <;> rfl

/-- A step of one shard keeps all records if it keeps those of the shard. -/
theorem record_of_shard (same : ∀ other, t.record env other = (u.shard env key).record env other)
    (other : K) : (u.setShard env key t).record env other = u.record env other := by
  rw [record_setShard]
  split
  case isTrue together => rw [same, record, shard_of_home together]
  case isFalse => rfl

theorem Forgets.of_shard
    (less : ∀ other, t.record env other = (u.shard env key).record env other ∨
      t.record env other = none) : Forgets env u (u.setShard env key t) := by
  intro other
  rw [record_setShard]
  split
  case isTrue together =>
    rw [record, shard_of_home together]
    exact less other
  case isFalse => exact .inl rfl

@[simp]
theorem record_setMonitor : (u.setMonitor m).record env key = u.record env key := by
  rw [record, record, shard_setMonitor]

@[simp]
theorem record_release {i : ItemId} : (u.release env key i).record env other = u.record env other :=
  record_of_shard (record_decRef env _ i) other

omit [DecidableEq K] in
theorem Agrees.release (agrees : u.Agrees env) (key : K) (i : ItemId) :
    (u.release env key i).Agrees env :=
  agrees.setShard (WellFormed.write (.count (· - 1)) (agrees.shard key))

variable {expected desired : V} {a : Ambient K}

/-- A critical section that does not swap keeps the shard as it is. -/
theorem Commits.quiet {c : Commit} (h : Commits env u key expected desired a c t)
    (kept : c ≠ .swapped) : Quiet (u.shard env key) t := by
  cases h with
  | failed _ quiet => exact quiet
  | refused _ _ quiet => exact quiet
  | swapped => exact absurd rfl kept

structure SwapsRecord (env : Env K V) (s t : State K V) (key : K) (desired : V) : Prop where
  wf : t.WellFormed env
  written : t.record env key = (s.record env key).map fun r => (desired, r.2)
  others : ∀ other, other ≠ key →
    t.record env other = s.record env other ∨ t.record env other = none

/-- The strategy's `set` on a pinned item, and the release of the pin. -/
theorem swapsRecord_of_pinned {p : Policy K V} {s m : State K V} {i : ItemId} {sec : Nat}
    (laws : p.Laws env) (wf : s.WellFormed env) (found : s.find env key = some i)
    (pinned : Quiet (s.incRef i) m) :
    SwapsRecord env s ((p.set env m key desired sec).decRef i) key desired := by
  have counted : (s.incRef i).WellFormed env := WellFormed.write (.count (· + 1)) wf
  have after := pinned.wf counted
  have resident : m.find env key = some i := by
    rw [(Rearranges.of_quiet pinned counted).find_eq counted]
    exact (find_modify (.count (· + 1)) env s i key).trans found
  have held : (m.heap i).accessRef ≠ 0 := by
    rw [congrArg Body.accessRef (pinned.body_eq i)]
    simp [State.incRef, State.modify]
  have expiry : (m.heap i).expiryNs = (s.heap i).expiryNs := by
    rw [congrArg Body.expiryNs (pinned.body_eq i)]
    simp [State.incRef, State.modify]
  constructor
  · exact WellFormed.write (.count (· - 1)) (laws.set_wf after key desired sec)
  · rw [record_decRef, laws.record_set_of_held after resident held, record_of_find found, expiry]
    rfl
  · intro other different
    rw [record_decRef, ← record_incRef env s i, ← pinned.record_eq counted other]
    exact laws.record_set_other after resident different

theorem Commits.swapsRecord (h : Commits env u key expected desired a .swapped t)
    (agrees : u.Agrees env) : SwapsRecord env (u.shard env key) t key desired := by
  cases h with
  | swapped _ _ found pinned =>
    exact swapsRecord_of_pinned (u.laws env) (agrees.shard key) found pinned

/-- A critical section that does not swap has a cause and changes no record. -/
theorem casCommit_kept [DecidableEq V] (agrees : u.Agrees env)
    (kept : (u.casCommit env key expected desired a).1 ≠ .swapped) :
    (u.visible env key a.nowNs ≠ some expected ∨
        (u.checkMemoryAdmission env key desired a).1 = false) ∧
      ∀ other, (u.casCommit env key expected desired a).2.record env other =
        u.record env other := by
  obtain ⟨t, m, after, commits⟩ := casCommit_spec agrees
  constructor
  · generalize (u.casCommit env key expected desired a).1 = c at *
    cases commits with
    | failed differs _ => exact .inl differs
    | refused _ verdict _ => exact .inr verdict
    | swapped => exact absurd rfl kept
  · intro other
    rw [after, record_setMonitor]
    exact record_of_shard ((commits.quiet kept).record_eq (agrees.shard key))
      other

/-- One that swaps has seen the expected value and writes the record of its key. -/
theorem casCommit_swapped [DecidableEq V] (agrees : u.Agrees env)
    (swapped : (u.casCommit env key expected desired a).1 = .swapped) :
    (u.visible env key a.nowNs = some expected ∧
        (u.checkMemoryAdmission env key desired a).1 = true) ∧
      (u.casCommit env key expected desired a).2.record env key =
        (u.record env key).map (fun r => (desired, r.2)) ∧
      ∀ other, other ≠ key →
        (u.casCommit env key expected desired a).2.record env other = u.record env other ∨
          (u.casCommit env key expected desired a).2.record env other = none := by
  obtain ⟨t, m, after, commits⟩ := casCommit_spec agrees
  rw [swapped] at commits
  have swaps := commits.swapsRecord agrees
  rw [after]
  refine ⟨?_, ?_, ?_⟩
  · cases commits with
    | swapped shows verdict _ _ => exact ⟨shows, verdict⟩
  · rw [record_setMonitor, record_setShard, if_pos rfl, swaps.written]
    rfl
  · intro other different
    rw [record_setMonitor, record_setShard]
    split
    case isTrue together =>
      rw [record, shard_of_home together]
      exact swaps.others other different
    case isFalse => exact .inl rfl

theorem casCommit_agrees [DecidableEq V] (agrees : u.Agrees env) (key : K) (expected desired : V)
    (a : Ambient K) : (u.casCommit env key expected desired a).2.Agrees env := by
  obtain ⟨t, m, after, commits⟩ := casCommit_spec agrees
  rw [after]
  refine (agrees.setShard ?_).setMonitor
  cases ends : (u.casCommit env key expected desired a).1 with
  | swapped =>
    rw [ends] at commits
    exact (commits.swapsRecord agrees).wf
  | failed | refused => exact (commits.quiet (by simp [ends])).wf (agrees.shard key)

/-! ## The other calls -/

theorem record_collect (env : Env K V) (s : State K V) (e : Event K V) (key : K) :
    (s.collect e).record env key = s.record env key := by
  rw [collect]
  split <;> rfl

omit [DecidableEq K] in
theorem collect_wf {e : Event K V} (wf : s.WellFormed env) : (s.collect e).WellFormed env := by
  rw [State.WellFormed, core_collect]
  exact wf

theorem setBody_agrees {key : K} {value : V} {a : Ambient K} (agrees : u.Agrees env) :
    (u.setBody env key value a).Agrees env := by
  cases u with
  | plain strategy c => exact setBody_wf strategy key value a agrees
  | striped c => exact Striped.setBody_wf agrees

theorem delBody_forgets {key : K} {a : Ambient K} (agrees : u.Agrees env) :
    Forgets env u (u.delBody env key a) ∧ (u.delBody env key a).Agrees env := by
  have shrunk := (u.laws env).del_shrinks (agrees.shard key) key
  obtain ⟨m, reported⟩ := reportMemory_eq
  rw [delBody, reported]
  refine ⟨fun other => ?_, (agrees.setShard shrunk.wf).setMonitor⟩
  rw [record_setMonitor]
  exact Forgets.of_shard (shrunk.record_cases (agrees.shard key)) other

theorem getBody_records {key : K} {a : Ambient K} (agrees : u.Agrees env) :
    (∀ other, (u.getBody env key a).record env other = u.record env other) ∧
      (u.getBody env key a).Agrees env := by
  have wf := agrees.shard key
  have read : (∀ other, ((u.shard env key).peekForGet env key a.nowNs).2.record env other =
        (u.shard env key).record env other) ∧
      ((u.shard env key).peekForGet env key a.nowNs).2.WellFormed env := by
    refine ⟨fun other => ?_, peekForGet_wf key a.nowNs wf⟩
    obtain ⟨-, -, quiet⟩ | ⟨i, -, -, -, quiet⟩ := peekForGet_cases env (u.shard env key) key a.nowNs
    · exact quiet.record_eq wf other
    · rw [quiet.record_eq (WellFormed.write (.count (· + 1)) wf), record_incRef]
  rw [getBody]
  cases looked : (u.shard env key).peekForGet env key a.nowNs with
  | mk item t =>
    rw [looked] at read
    obtain ⟨records, after⟩ := read
    -- Statistics and events are noted in a state with the same records.
    have noted {v : State K V} (count : Stats → Stats) (e : Event K V)
        (same : ∀ other, v.record env other = (u.shard env key).record env other)
        (wf : v.WellFormed env) :
        (∀ other, (u.setShard env key ((v.modifyStats count).collect e)).record env other =
            u.record env other) ∧
          (u.setShard env key ((v.modifyStats count).collect e)).Agrees env :=
      ⟨record_of_shard fun other => (record_collect ..).trans (same other),
        agrees.setShard (collect_wf wf)⟩
    cases item with
    | none => exact noted _ _ records after
    | some i =>
      have moved := (u.laws env).promote_moves after key a.sec
      simp only
      split
      · exact noted _ _ records after
      · refine noted _ _ (fun other => ?_) moved.wf
        exact (moved.toRearranges.record_eq after).trans (records other)

end Calls

namespace CasSystem

section Model

variable [NeZero n] [DecidableEq K] [DecidableEq V] [DecidableEq ι] (env : Env K V)
  (s : CasSystem K V ι n)

def goto (i : ι) (phase : CasPhase K V) (cache : HandleCache K V n) : CasSystem K V ι n :=
  { s with cache := cache, phase := Function.update s.phase i phase }

def finish (i : ι) (r : CasReturn K V) (cache : HandleCache K V n) : CasSystem K V ι n :=
  { cache := cache, phase := Function.update s.phase i .idle, returns := s.returns ++ [r] }

/-- `pre_write_check` and the beginning of `cas`. -/
def begin (i : ι) (key : K) (expected desired : V) (maxRetries : Option Nat) : CasSystem K V ι n :=
  match s.cache.layer.preWriteCheck "cas" with
  | .error _ => s
  | .ok .kRejectInsert =>
    s.finish i { key, expected, desired, result := false }
      (s.cache.setShard env key ((s.cache.shard env key).collect (.reject key desired)))
  | .ok .kProceed =>
    match maxRetries with
    | none => s.goto i (.locked key expected desired) s.cache
    | some 0 => s.finish i { key, expected, desired, result := false } s.cache
    | some (left + 1) => s.goto i (.attempt key expected desired left) s.cache

/-- The lookup and the comparison outside the lock. -/
def compare (i : ι) (key : K) (expected desired : V) (left : Nat) (a : Ambient K) :
    CasSystem K V ι n :=
  match (s.cache.shard env key).peekForGet env key a.nowNs with
  | (none, t) =>
    s.finish i { key, expected, desired, result := false } (s.cache.setShard env key t)
  | (some item, t) =>
    let cache := s.cache.setShard env key t
    if (t.heap item).value = expected then
      s.goto i (.matched key expected desired left item) cache
    else
      s.finish i { key, expected, desired, result := false } (cache.release env key item)

/-- The critical section after a successful comparison. -/
def validate (i : ι) (key : K) (expected desired : V) (left : Nat) (item : ItemId)
    (a : Ambient K) : CasSystem K V ι n :=
  match s.cache.casCommit env key expected desired a with
  | (.failed, cache) =>
    match left with
    | 0 => s.finish i { key, expected, desired, result := false } (cache.release env key item)
    | left + 1 => s.goto i (.attempt key expected desired left) (cache.release env key item)
  | (.refused, cache) =>
    s.finish i { key, expected, desired, result := false } (cache.release env key item)
  | (.swapped, cache) =>
    s.finish i { key, expected, desired, result := true } (cache.release env key item)

def step : CasLabel K V ι → Option (CasSystem K V ι n)
  | .call i key expected desired maxRetries _ =>
    match s.phase i with
    | .idle => some (s.begin env i key expected desired maxRetries)
    | _ => none
  | .advance i a =>
    match s.phase i with
    | .idle => none
    | .locked key expected desired =>
      let r := s.cache.casCommit env key expected desired a
      some (s.finish i { key, expected, desired, result := r.1 == .swapped } r.2)
    | .attempt key expected desired left => some (s.compare env i key expected desired left a)
    | .matched key expected desired left item =>
      some (s.validate env i key expected desired left item a)
  | .set key value a => some { s with cache := s.cache.setBody env key value a }
  | .del key a => some { s with cache := s.cache.delBody env key a }
  | .get key a => some { s with cache := s.cache.getBody env key a }

/-- The call of this step is turned away: by the critical mode, by a number of retries
that allows no attempt, or by the memory monitor. -/
def TurnedAway : CasLabel K V ι → Prop
  | .call _ _ _ _ maxRetries _ =>
    s.cache.layer.preWriteCheck "cas" = .ok .kRejectInsert ∨ maxRetries = some 0
  | .advance i a =>
    match s.phase i with
    | .locked key _ desired | .matched key _ desired _ _ =>
      (s.cache.checkMemoryAdmission env key desired a).1 = false
    | _ => False
  | _ => False

end Model

/-! ## What one step does -/

section Runs

variable [NeZero n] [DecidableEq K] [DecidableEq V] [DecidableEq ι] {env : Env K V}
  {s t : CasSystem K V ι n} {label : CasLabel K V ι}

/-- What a step can do: go on, write as a `set` does, or let a call return. -/
inductive Effect (env : Env K V) (s : CasSystem K V ι n) (label : CasLabel K V ι)
    (t : CasSystem K V ι n) : Prop where
  | silent (same : t.returns = s.returns) (records : Forgets env s.cache t.cache)
  | wrote (same : t.returns = s.returns) (isSet : label.isSet = true)
  | failed (r : CasReturn K V) (result : r.result = false)
      (appended : t.returns = s.returns ++ [r])
      (cause : s.cache.visible env r.key label.nowNs ≠ some r.expected ∨ s.TurnedAway env label)
      (records : ∀ key, t.cache.record env key = s.cache.record env key)
  | swapped (r : CasReturn K V) (result : r.result = true)
      (appended : t.returns = s.returns ++ [r])
      (shows : s.cache.visible env r.key label.nowNs = some r.expected)
      (passed : ¬ s.TurnedAway env label)
      (written : t.cache.record env r.key =
        (s.cache.record env r.key).map fun x => (r.desired, x.2))
      (others : ∀ other, other ≠ r.key → t.cache.record env other = s.cache.record env other ∨
        t.cache.record env other = none)

variable {i : ι} {key : K} {expected desired : V} {left : Nat} {item : ItemId} {a : Ambient K}

omit [DecidableEq V] in
theorem begin_effect {maxRetries : Option Nat} (agrees : s.cache.Agrees env) :
    Effect env s (.call i key expected desired maxRetries a)
        (s.begin env i key expected desired maxRetries) ∧
      (s.begin env i key expected desired maxRetries).cache.Agrees env := by
  have same : Forgets env s.cache s.cache := fun _ => .inl rfl
  simp only [begin]
  split
  · exact ⟨.silent rfl same, agrees⟩
  case h_2 rejects =>
    refine ⟨.failed _ rfl rfl (.inr (.inl rejects)) (record_of_shard fun other => ?_), ?_⟩
    · exact record_collect ..
    · exact agrees.setShard (collect_wf (agrees.shard key))
  · cases maxRetries with
    | none => exact ⟨.silent rfl same, agrees⟩
    | some retries =>
      cases retries with
      | zero => exact ⟨.failed _ rfl rfl (.inr (.inr rfl)) fun _ => rfl, agrees⟩
      | succ left => exact ⟨.silent rfl same, agrees⟩

theorem compare_effect (agrees : s.cache.Agrees env) :
    Effect env s (.advance i a) (s.compare env i key expected desired left a) ∧
      (s.compare env i key expected desired left a).cache.Agrees env := by
  have wf := agrees.shard key
  have after := peekForGet_wf key a.nowNs wf
  rw [compare]
  obtain ⟨hidden, missed, quiet⟩ | ⟨j, found, shows, pinned, quiet⟩ :=
    peekForGet_cases env (s.cache.shard env key) key a.nowNs
  · cases read : (s.cache.shard env key).peekForGet env key a.nowNs with
    | mk item t =>
      rw [read] at missed quiet after
      obtain rfl : item = none := missed
      refine ⟨.failed _ rfl rfl (.inl ?_) (record_of_shard (quiet.record_eq wf)),
        agrees.setShard after⟩
      exact fun shows => by simp [visible, CasLabel.nowNs, hidden] at shows
  · cases read : (s.cache.shard env key).peekForGet env key a.nowNs with
    | mk item t =>
      rw [read] at pinned quiet after
      obtain rfl : item = some j := pinned
      have records (other : K) :=
        (quiet.record_eq (WellFormed.write (.count (· + 1)) wf) other).trans (record_incRef ..)
      have value_eq : (t.heap j).value = ((s.cache.shard env key).heap j).value := by
        rw [congrArg Body.value (quiet.body_eq j)]
        simp [State.incRef, State.modify]
      simp only
      split
      · exact ⟨.silent rfl fun other => .inl (record_of_shard records other), agrees.setShard after⟩
      case isFalse differs =>
        refine ⟨.failed _ rfl rfl (.inl ?_) fun other => ?_, (agrees.setShard after).release key j⟩
        · intro shown
          rw [visible, CasLabel.nowNs, shows] at shown
          exact differs (value_eq.trans (some.inj shown))
        · exact record_release.trans (record_of_shard records other)

theorem locked_effect (agrees : s.cache.Agrees env)
    (phase : s.phase i = .locked key expected desired) :
    Effect env s (.advance i a)
      (s.finish i
        { key, expected, desired,
          result := (s.cache.casCommit env key expected desired a).1 == .swapped }
        (s.cache.casCommit env key expected desired a).2) := by
  by_cases swapped : (s.cache.casCommit env key expected desired a).1 = .swapped
  · obtain ⟨⟨shows, verdict⟩, written, others⟩ := casCommit_swapped agrees swapped
    refine .swapped _ (by simp [swapped]) rfl shows ?_ written others
    simp [TurnedAway, phase, verdict]
  · obtain ⟨cause, records⟩ := casCommit_kept agrees swapped
    refine .failed _ (by simp [swapped]) rfl ?_ records
    simpa [TurnedAway, phase, CasLabel.nowNs] using cause

theorem validate_effect (agrees : s.cache.Agrees env)
    (phase : s.phase i = .matched key expected desired left item) :
    Effect env s (.advance i a) (s.validate env i key expected desired left item a) ∧
      (s.validate env i key expected desired left item a).cache.Agrees env := by
  have after := casCommit_agrees agrees key expected desired a
  have kept (ends : (s.cache.casCommit env key expected desired a).1 ≠ .swapped) :=
    casCommit_kept agrees ends
  have swapped (ends : (s.cache.casCommit env key expected desired a).1 = .swapped) :=
    casCommit_swapped agrees ends
  rw [validate]
  cases commit : s.cache.casCommit env key expected desired a with
  | mk outcome cache =>
    rw [commit] at after kept swapped
    have released := after.release key item
    have gaveUp (ends : outcome ≠ .swapped) : Effect env s (.advance i a)
        (s.finish i { key, expected, desired, result := false } (cache.release env key item)) := by
      obtain ⟨cause, records⟩ := kept ends
      refine .failed _ rfl rfl ?_ fun other => record_release.trans (records other)
      simpa [TurnedAway, phase, CasLabel.nowNs] using cause
    cases outcome with
    | failed =>
      cases left with
      | zero => exact ⟨gaveUp (by simp), released⟩
      | succ left =>
        refine ⟨.silent rfl fun other => .inl ?_, released⟩
        exact record_release.trans ((kept (by simp)).2 other)
    | refused => exact ⟨gaveUp (by simp), released⟩
    | swapped =>
      obtain ⟨⟨shows, verdict⟩, written, others⟩ := swapped rfl
      refine ⟨.swapped _ rfl rfl shows ?_ ?_ fun other different => ?_, released⟩
      · simp [TurnedAway, phase, verdict]
      · exact record_release.trans written
      · have same : (cache.release env key item).record env other = cache.record env other :=
          record_release
        exact same ▸ others other different

/-- What every step does; table and lists stay in agreement. -/
theorem step_effect (agrees : s.cache.Agrees env) (taken : s.step env label = some t) :
    Effect env s label t ∧ t.cache.Agrees env := by
  cases label with
  | call i key expected desired maxRetries a =>
    simp only [step] at taken
    split at taken
    · cases taken
      exact begin_effect agrees
    · cases taken
  | advance i a =>
    simp only [step] at taken
    split at taken
    · cases taken
    case h_2 key expected desired phase =>
      cases taken
      exact ⟨locked_effect agrees phase, casCommit_agrees agrees key expected desired a⟩
    · cases taken
      exact compare_effect agrees
    case h_4 key expected desired left item phase =>
      cases taken
      exact validate_effect agrees phase
  | set key value a =>
    cases taken
    exact ⟨.wrote rfl rfl, setBody_agrees agrees⟩
  | del key a =>
    cases taken
    obtain ⟨forgets, after⟩ := delBody_forgets agrees
    exact ⟨.silent rfl forgets, after⟩
  | get key a =>
    cases taken
    obtain ⟨records, after⟩ := getBody_records agrees
    exact ⟨.silent rfl fun other => .inl (records other), after⟩

/-! ## Returns and chains -/

/-- The call that returns in this step succeeds iff the expected value is visible and
the call is not turned away; then the new value is stored, with the old expiry, and
otherwise nothing has changed. -/
structure Exact (env : Env K V) (s : CasSystem K V ι n) (label : CasLabel K V ι)
    (t : CasSystem K V ι n) (r : CasReturn K V) : Prop where
  result_iff : r.result = true ↔
    s.cache.visible env r.key label.nowNs = some r.expected ∧ ¬ s.TurnedAway env label
  swapped : r.result = true →
    t.cache.record env r.key = (s.cache.record env r.key).map fun x => (r.desired, x.2)
  unchanged : r.result = false → ∀ key, t.cache.record env key = s.cache.record env key

omit [DecidableEq V] [DecidableEq ι] in
theorem Effect.exact (effect : Effect env s label t) {r : CasReturn K V}
    (returned : t.returns = s.returns ++ [r]) : s.Exact env label t r := by
  cases effect with
  | silent same | wrote same => simp [same] at returned
  | failed q result appended cause records =>
    obtain rfl : q = r := by simpa [appended] using returned
    refine ⟨?_, fun success => ?_, fun _ => records⟩
    · rw [result]
      refine iff_of_false (by decide) ?_
      rintro ⟨shows, passed⟩
      exact cause.elim (fun differs => differs shows) passed
    · rw [result] at success
      cases success
  | swapped q result appended shows passed written others =>
    obtain rfl : q = r := by simpa [appended] using returned
    refine ⟨iff_of_true result ⟨shows, passed⟩, fun _ => written, fun failure => ?_⟩
    rw [result] at failure
    cases failure

/-- The swaps of a key so far: what each expected and what it installed. -/
def swapsOf (key : K) (s : CasSystem K V ι n) : List (V × V) :=
  (s.returns.filter fun r => r.result && r.key = key).map fun r => (r.expected, r.desired)

def stored (env : Env K V) (key : K) (s : CasSystem K V ι n) : Option V :=
  (s.cache.record env key).map Prod.fst

section

omit [DecidableEq V] [DecidableEq ι]

theorem stored_of_forgets (forgets : Forgets env s.cache t.cache) {key : K} :
    t.stored env key = s.stored env key ∨ t.stored env key = none := by
  obtain same | gone := forgets key
  · exact .inl (congrArg (Option.map Prod.fst) same)
  · exact .inr (by rw [stored, gone]; rfl)

/-- Without a `set`, a step keeps or clears the value of a key or swaps it. -/
theorem Effect.swaps (effect : Effect env s label t) (unset : label.isSet = false) {key : K} :
    Swaps.Effect (stored env key) (swapsOf key) s t := by
  cases effect with
  | silent same forgets =>
    have log : swapsOf key t = swapsOf key s := by rw [swapsOf, same, swapsOf]
    obtain kept | gone := stored_of_forgets forgets
    · exact .kept log kept
    · exact .cleared log gone
  | wrote same isSet =>
    rw [unset] at isSet
    cases isSet
  | failed r result appended cause records =>
    refine .kept ?_ (congrArg (Option.map Prod.fst) (records key))
    simp [swapsOf, appended, result]
  | swapped r result appended shows passed written others =>
    by_cases mine : r.key = key
    · subst mine
      have before : s.stored env r.key = some r.expected := record_of_shown shows
      refine .swapped r.expected r.desired (by simp [swapsOf, appended, result]) before ?_
      rw [stored] at before ⊢
      obtain ⟨x, recorded, -⟩ := map_eq_some_iff.mp before
      rw [written, recorded]
      rfl
    · have log : swapsOf key t = swapsOf key s := by simp [swapsOf, appended, mine]
      obtain same | gone := others key (Ne.symm mine)
      · exact .kept log (congrArg (Option.map Prod.fst) same)
      · exact .cleared log (by rw [stored, gone]; rfl)

end

/-- In every interleaving, each call of `cas` that returns is exact at the step at which
it does. Without other writers, the successful calls on a key form a chain: each
expected what its predecessor installed. -/
theorem cas_exact_and_chained {s₀ : CasSystem K V ι n} (agrees : s₀.cache.Agrees env)
    (reached : Transition.Reaches (fun s : CasSystem K V ι n => s.step env) (fun _ _ => True)
      s₀ s) :
    (∀ label t r, s.step env label = some t → t.returns = s.returns ++ [r] →
        s.Exact env label t r) ∧
      ∀ key t, s.returns = [] →
        Transition.Reaches (fun s : CasSystem K V ι n => s.step env)
          (fun _ label => label.isSet = false) s t →
        (swapsOf key t).IsChain fun x y => y.1 = x.2 := by
  have holds : s.cache.Agrees env :=
    reached.invariant agrees
      fun _ _ _ agrees _ taken => (step_effect agrees taken).2
  constructor
  · intro label t r taken returned
    exact (step_effect holds taken).1.exact returned
  · intro key t start run
    refine Swaps.isChain_of_reaches (P := fun s => s.cache.Agrees env) (stored env key) run
      ?_ holds ?_ ?_
    · rw [swapsOf, start]
      rfl
    · exact fun _ _ _ agrees _ taken => (step_effect agrees taken).2
    · exact fun _ _ _ agrees unset taken => (step_effect agrees taken).1.swaps unset

end Runs

section Samples

open Mm.Strategy (intEnv)

/-- Key 1 holds 10, and two threads are about to call `cas`. -/
def idleSystem : CasSystem Nat Nat Bool 1 where
  cache := plain .mmLru (occupiedCache 1000)
  phase _ := .idle

/-- One thread swaps 10 for 20 with the comparison outside the lock, then the other one
20 for 30 under it. -/
def twoSwaps : List (CasLabel Nat Nat Bool) :=
  [.call false 1 10 20 (some 1) {}, .advance false {}, .advance false {},
    .call true 1 20 30 none {}, .advance true {}]

theorem two_swaps_chained :
    ∃ t, Transition.runWhere (fun s : CasSystem Nat Nat Bool 1 => s.step intEnv)
        (fun _ label => !label.isSet) idleSystem twoSwaps = some t ∧
      swapsOf 1 t = [(10, 20), (20, 30)] ∧ (swapsOf 1 t).IsChain fun x y => y.1 = x.2 := by
  have agrees : idleSystem.cache.Agrees intEnv := occupiedCache_reachable.wf
  have executed : (Transition.runWhere (fun s : CasSystem Nat Nat Bool 1 => s.step intEnv)
      (fun _ label => !label.isSet) idleSystem twoSwaps).map (swapsOf 1) =
        some [(10, 20), (20, 30)] := by
    decide +kernel
  obtain ⟨t, run, log⟩ := map_eq_some_iff.mp executed
  have reached : Transition.Reaches (fun s : CasSystem Nat Nat Bool 1 => s.step intEnv)
      (fun _ label => (!label.isSet) = true) idleSystem t := .of_runWhere run
  refine ⟨t, run, log, (cas_exact_and_chained agrees .refl).2 1 t rfl (reached.weaken ?_)⟩
  simp

/-- The monitor refuses the new value although the expected one is visible: a call of
`cas` fails without a conflict. In critical mode it does not even compare. -/
theorem cas_fails_without_conflict :
    (occupiedCache 190).Reachable intEnv .mmLru ∧
      (occupiedCache 190).mm.shown intEnv 1 0 = some 10 ∧
      ((occupiedCache 190).cas intEnv .mmLru 1 10 20 {}).1 = .ok false ∧
      criticalCache.Reachable intEnv .mmLru ∧
      criticalCache.mm.shown intEnv 1 0 = some 10 ∧
      (criticalCache.cas intEnv .mmLru 1 10 20 {}).1 = .ok false := by
  refine ⟨occupiedCache_reachable, ?_, ?_, criticalCache_reachable, ?_, ?_⟩
  all_goals decide +kernel

end Samples

end CasSystem

end Lru.HandleCache
