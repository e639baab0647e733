import Lru.Tiered.ReadThrough

/-!
# The outcome of a shared fetch

Followers wait for the leader's promise but never look at its value: they read the
primary again, and so does the leader. They report the outcome of the query as long as the
primary takes the promoted value and nothing changes the key until the last of them has
looked. A follower cannot report an exception.
-/

namespace Lru.Tiered

open Function Transition Option State

variable {K V T : Type} {call : Call K V} {outcome : Query V} {c : Choice K} {u : State K V T}
  {key : K} {query : Nat} {w : K × Nat}

def Answer.Reports (answer : Answer V) : Query V → Prop
  | .found v => ∃ entry, answer = .value entry ∧ entry.value = v
  | .missing | .rejected => answer = .miss
  | .threw => answer = .exception

namespace Call

/-- The key and the query of a leader that has not fulfilled its promise yet. -/
def leads : Call K V → Option (K × Nat)
  | .allowRequest key _ query | .fetch key _ query | .promote key _ query _ _
  | .readBack key _ query _ | .leave key _ query _ _ | .fulfil key _ query _ _ => some (key, query)
  | _ => none

/-- The query of a leader and its outcome, once it is decided. -/
def decides : Call K V → Option (Nat × Query V)
  | .readBack _ _ query value => some (query, .found value)
  | .leave _ _ query outcome _ | .fulfil _ _ query outcome _ => some (query, outcome)
  | _ => none

/-- The key and the query of a participant that still has to look at the primary: the
leader behind its promotion, or a follower. -/
def looks : Call K V → Option (K × Nat)
  | .readBack key _ query _ | .follow key _ query | .reread key _ query => some (key, query)
  | _ => none

/-- The query that a follower has waited for. -/
def awaited : Call K V → Option Nat
  | .reread _ _ query | .followed _ _ query _ => some query
  | _ => none

/-- A participant that has read the primary for the last time reports the outcome. -/
def Agrees (futures : Nat → Option (Query V)) : Call K V → Prop
  | .leave _ _ _ outcome answer | .fulfil _ _ _ outcome answer => answer.Reports outcome
  | .followed _ _ query answer => ∀ outcome ∈ futures query, answer.Reports outcome
  | _ => True

theorem leads_of_decides (decides : call.decides = some (query, outcome)) :
    ∃ key, call.leads = some (key, query) := by
  cases call <;> cases decides <;> exact ⟨_, rfl⟩

end Call

namespace State

variable {cfg : Config} {s t : State K V T} {l : Label K V T} {i : T}

/-- Every participant of a query reports its outcome. -/
def SharesOutcome (s : State K V T) : Prop := ∀ i, (s.threads i).call.Agrees s.futures

/-! ## Undisturbed steps -/

/-- The primary shows how a query ended. -/
def Shows (s : State K V T) (key : K) : Query V → Prop
  | .found value => ∃ entry ∈ s.primary key, entry.value = value
  | .missing | .rejected => s.primary key = none
  | .threw => False

/-- The property holds of the outcome of the query if that is decided. -/
def IfDecided (s : State K V T) (query : Nat) (p : Query V → Prop) : Prop :=
  (∀ outcome ∈ s.futures query, p outcome) ∧
    ∀ j, ∀ d ∈ (s.threads j).call.decides, d.1 = query → p d.2

/-- The participants that look for the key would find this outcome. -/
def Expects (s : State K V T) (key : K) (query : Nat) (outcome : Query V) : Prop :=
  ∀ i, (s.threads i).call.looks = some (key, query) → s.Shows key outcome

/-- The step leaves the value that the primary has for the key. -/
def Spares [DecidableEq K] [DecidableEq T] (cfg : Config) (s : State K V T) (l : Label K V T)
    (key : K) : Prop :=
  ∀ t ∈ s.step cfg l, (t.primary key).map Entry.value = (s.primary key).map Entry.value

/-- The primary takes a promotion; a query without a value ends, and a decided query is
joined, only while the primary shows as much; nobody waits for a query that throws. -/
def UndisturbedCall (s : State K V T) (c : Choice K) : Call K V → Prop
  | .lookup key _ | .race key _ => ∀ query ∈ s.inflight key, s.IfDecided query (s.Shows key)
  | .allowRequest key _ query => c.allowed = false → s.Expects key query .rejected
  | .fetch key _ query =>
    (c.throws = true → s.Expects key query .threw) ∧
      (c.throws = false → s.store.backend key = none → s.Expects key query .missing)
  | .promote key _ _ value _ =>
    key ∉ c.evicted ∧ key ∉ c.dropped ∧ (c.refused = true → s.Shows key (.found value))
  | _ => True

/-- While a participant of a decided query has not looked yet, nothing evicts or rewrites
its key. -/
structure Undisturbed [DecidableEq K] [DecidableEq T] (cfg : Config) (s : State K V T)
    (l : Label K V T) : Prop where
  spares : ∀ i, ∀ w ∈ (s.threads i).call.looks, s.IfDecided w.2 fun _ => s.Spares cfg l w.1
  call : ∀ i c, l = .advance i c → s.UndisturbedCall c (s.threads i).call

theorem reports_answer_iff : (s.answer key).Reports outcome ↔ s.Shows key outcome := by
  rw [answer]
  cases held : s.primary key with
  | none | some => cases outcome <;> simp [Answer.Reports, Shows, held]

theorem shows_congr
    (same : (t.primary key).map Entry.value = (s.primary key).map Entry.value) :
    t.Shows key outcome ↔ s.Shows key outcome := by
  cases outcome with
  | found value =>
    have shown : ∀ v : State K V T,
        v.Shows key (.found value) ↔ (v.primary key).map Entry.value = some value := by
      simp [Shows]
    rw [shown, shown, same]
  | missing | rejected =>
    have empty : ∀ o : Option (Entry V), o = none ↔ o.map Entry.value = none := by simp
    exact (empty _).trans ((Eq.congr_left same).trans (empty _).symm)
  | threw => rfl

/-! ## Queries and their leaders -/

/-- A query has one leader until its promise is fulfilled, for the key under which the
others find it; a follower goes on only after that. Whoever still has to look finds the
outcome, if it is decided. -/
structure Led (s : State K V T) : Prop where
  fresh : ∀ query, s.nextQuery ≤ query → s.futures query = none
  pending : ∀ {i w}, (s.threads i).call.leads = some w →
    s.futures w.2 = none ∧ w.2 < s.nextQuery
  alone : ∀ {i j w w'}, (s.threads i).call.leads = some w → (s.threads j).call.leads = some w' →
    w.2 = w'.2 → i = j
  known : ∀ {key query}, s.inflight key = some query → query < s.nextQuery ∧
    ∀ j w, (s.threads j).call.leads = some w → w.2 = query → w.1 = key
  joined : ∀ {i w}, (s.threads i).call.looks = some w → w.2 < s.nextQuery ∧
    ∀ j w', (s.threads j).call.leads = some w' → w'.2 = w.2 → w'.1 = w.1
  ready : ∀ {i query}, (s.threads i).call.awaited = some query → (s.futures query).isSome
  shown : ∀ {i w}, (s.threads i).call.looks = some w → s.IfDecided w.2 (s.Shows w.1)
  agrees : s.SharesOutcome

/-- Everything that the queries are made of. -/
structure SameQueries (s t : State K V T) : Prop where
  futures : t.futures = s.futures
  nextQuery : t.nextQuery = s.nextQuery
  inflight : t.inflight = s.inflight
  calls : ∀ i, (t.threads i).call = (s.threads i).call

theorem ChangesPrimary.sameQueries (h : ChangesPrimary s t) : SameQueries s t :=
  ⟨h.futures, h.nextQuery, h.inflight, h.calls⟩

namespace Led

theorem of_initial (initial : s.Initial) : s.Led := by
  have idle : ∀ i, (s.threads i).call = .idle := by
    intro i
    rw [initial.threads]
  refine ⟨fun query _ => by rw [initial.futures], ?_, ?_, ?_, ?_, ?_, ?_, ?_⟩
  · simp [idle, Call.leads]
  · simp [idle, Call.leads]
  · simp [initial.inflight]
  · simp [idle, Call.looks]
  · simp [idle, Call.awaited]
  · simp [idle, Call.looks]
  · intro i
    rw [idle]
    trivial

/-- Changes of the primary that spare the keys somebody still has to look at. -/
theorem of_same (led : s.Led) (same : SameQueries s t)
    (spared : ∀ i w, (s.threads i).call.looks = some w → s.IfDecided w.2 fun _ =>
      (t.primary w.1).map Entry.value = (s.primary w.1).map Entry.value) : t.Led := by
  obtain ⟨futures, nextQuery, inflight, calls⟩ := same
  refine ⟨?_, ?_, ?_, ?_, ?_, ?_, fun {i w} looks => ⟨?_, ?_⟩, ?_⟩
  · rw [futures, nextQuery]
    exact led.fresh
  · simp only [futures, nextQuery, calls]
    exact led.pending
  · simp only [calls]
    exact led.alone
  · simp only [inflight, nextQuery, calls]
    exact led.known
  · simp only [nextQuery, calls]
    exact led.joined
  · simp only [futures, calls]
    exact led.ready
  · rw [calls] at looks
    rw [futures]
    intro outcome known
    exact (shows_congr ((spared i w looks).1 outcome known)).mpr
      ((led.shown looks).1 outcome known)
  · rw [calls] at looks
    intro j d decides here
    rw [calls] at decides
    exact (shows_congr ((spared i w looks).2 j d decides here)).mpr
      ((led.shown looks).2 j d decides here)
  · intro j
    rw [futures, calls]
    exact led.agrees j

theorem unchanged (led : s.Led) (same : SameQueries s t) (primary : t.primary = s.primary) :
    t.Led := by
  refine led.of_same same ?_
  rw [primary]
  exact fun _ _ _ => ⟨fun _ _ => rfl, fun _ _ _ _ => rfl⟩

/-- A query that is decided now is looked for under its own key only. -/
theorem decide (led : s.Led) {d : Nat × Query V}
    (leads : (s.threads i).call.leads = some (key, d.1))
    (expects : s.Expects key d.1 d.2) {k : K}
    (looks : ∃ j, (s.threads j).call.looks = some (k, d.1)) : s.Shows k d.2 := by
  obtain ⟨j, looks⟩ := looks
  obtain rfl : key = k := (led.joined looks).2 i _ leads rfl
  exact expects j looks

theorem of_none {α : Type} {o : Option α} {P : α → Prop} (none : o = Option.none) :
    ∀ w, o = some w → P w := by
  rintro w rfl
  cases none

end Led

variable [DecidableEq T]

theorem calls_setCall {j : T} :
    ((s.setCall i call).threads j).call = if j = i then call else (s.threads j).call := by
  by_cases same : j = i
  · subst same
    simp [setCall, setThread]
  · simp [setCall, setThread, same]

/-- What only other calls have belongs to another thread. -/
theorem others_of_setCall {j : T} {α : Type} {o : Call K V → Option α} {a : α}
    (none : o call = none) (now : o ((s.setCall i call).threads j).call = some a) :
    j ≠ i ∧ o (s.threads j).call = some a := by
  rw [calls_setCall] at now
  split at now
  · rw [none] at now
    cases now
  case isFalse ne => exact ⟨ne, now⟩

namespace Led

/-- A thread goes on with a call. If this decides its query, the others find the outcome. -/
theorem setCall (led : s.Led)
    (leads : ∀ w, call.leads = some w → (s.threads i).call.leads = some w)
    (looks : ∀ w, call.looks = some w → (s.threads i).call.looks = some w ∨
      (s.threads i).call.leads = some w ∨ s.inflight w.1 = some w.2)
    (shown : ∀ w, call.looks = some w → s.IfDecided w.2 (s.Shows w.1))
    (decides : ∀ d, call.decides = some d → (s.threads i).call.decides = some d ∨
      ∀ key, (∃ j, (s.threads j).call.looks = some (key, d.1)) ∨ call.looks = some (key, d.1) →
        s.Shows key d.2)
    (ready : ∀ query, call.awaited = some query → (s.futures query).isSome)
    (agrees : call.Agrees s.futures) : (s.setCall i call).Led := by
  have led_before {j w} (now : ((s.setCall i call).threads j).call.leads = some w) :
      (s.threads j).call.leads = some w := by
    rw [calls_setCall] at now
    split at now
    case isTrue same => exact same ▸ leads w now
    case isFalse => exact now
  have own {w} (old : (s.threads i).call.leads = some w) {j w'}
      (now : (s.threads j).call.leads = some w') (same : w'.2 = w.2) : w'.1 = w.1 := by
    obtain rfl := led.alone now old same
    exact congrArg Prod.fst (some.inj (now.symm.trans old))
  refine ⟨led.fresh, fun now => led.pending (led_before now),
    fun now now' same => led.alone (led_before now) (led_before now') same,
    fun here => ⟨(led.known here).1, fun j w now => (led.known here).2 j w (led_before now)⟩,
    ?_, ?_, ?_, ?_⟩
  · intro j w now
    suffices w.2 < s.nextQuery ∧
        ∀ j w', (s.threads j).call.leads = some w' → w'.2 = w.2 → w'.1 = w.1 from
      ⟨this.1, fun j w' now => this.2 j w' (led_before now)⟩
    rw [calls_setCall] at now
    split at now
    case isTrue =>
      obtain old | old | old := looks w now
      · exact led.joined old
      · exact ⟨(led.pending old).2, fun j w' => own old⟩
      · exact led.known old
    case isFalse => exact led.joined now
  · intro j query awaited
    rw [calls_setCall] at awaited
    split at awaited
    · exact ready query awaited
    · exact led.ready awaited
  · intro j w now
    have before : s.IfDecided w.2 (s.Shows w.1) ∧
        ((∃ j, (s.threads j).call.looks = some w) ∨ call.looks = some w) := by
      rw [calls_setCall] at now
      split at now
      · exact ⟨shown w now, .inr now⟩
      · exact ⟨led.shown now, .inl ⟨j, now⟩⟩
    refine ⟨before.1.1, fun j' d decided here => ?_⟩
    rw [calls_setCall] at decided
    split at decided
    case isTrue =>
      obtain old | new := decides d decided
      · exact before.1.2 i d old here
      · obtain ⟨k, q⟩ := w
        obtain rfl : d.1 = q := here
        exact new k before.2
    case isFalse => exact before.1.2 j' d decided here
  · intro j
    rw [calls_setCall]
    split
    · exact agrees
    · exact led.agrees j

/-- A thread goes on with a call that takes no part in a query. -/
theorem setAside (led : s.Led) (call : Call K V) (leads : call.leads = none)
    (looks : call.looks = none) (decides : call.decides = none) (awaited : call.awaited = none)
    (agrees : call.Agrees s.futures) : (s.setCall i call).Led := by
  refine led.setCall ?_ ?_ ?_ ?_ ?_ agrees
  · simp [leads]
  · simp [looks]
  · simp [looks]
  · simp [decides]
  · simp [awaited]

/-- A leader fulfils its promise: the outcome was decided before. -/
theorem fulfilled (led : s.Led) {since : Nat} {answer : Answer V}
    (called : (s.threads i).call = .fulfil key since query outcome answer) :
    State.Led { s.setCall i .idle with futures := update s.futures query (some outcome) } := by
  have leads : (s.threads i).call.leads = some (key, query) := by
    rw [called]
    rfl
  obtain ⟨pending, small⟩ := led.pending leads
  have other {query' : Nat} (ready : (s.futures query').isSome) : query' ≠ query := by
    rintro rfl
    rw [pending] at ready
    cases ready
  refine ⟨?_, ?_, ?_, ?_, ?_, ?_, ?_, ?_⟩
  · intro query' later
    have ne : query' ≠ query := by
      rintro rfl
      exact absurd small (Nat.not_lt.mpr later)
    exact (update_of_ne ne ..).trans (led.fresh query' later)
  · intro j w now
    obtain ⟨ne, before⟩ := others_of_setCall (o := Call.leads) rfl now
    have beside : w.2 ≠ query := fun same => ne (led.alone before leads same)
    exact ⟨(update_of_ne beside ..).trans (led.pending before).1, (led.pending before).2⟩
  · exact fun now now' => led.alone (others_of_setCall (o := Call.leads) rfl now).2
      (others_of_setCall (o := Call.leads) rfl now').2
  · exact fun known => ⟨(led.known known).1, fun j w now =>
      (led.known known).2 j w (others_of_setCall (o := Call.leads) rfl now).2⟩
  · intro j w now
    have old := led.joined (others_of_setCall (o := Call.looks) rfl now).2
    exact ⟨old.1, fun j' w' now => old.2 j' w' (others_of_setCall (o := Call.leads) rfl now).2⟩
  · intro j query' awaited
    have ready := led.ready (others_of_setCall (o := Call.awaited) rfl awaited).2
    show (update s.futures query (some outcome) query').isSome
    rwa [update_of_ne (other ready)]
  · intro j w now
    have old := led.shown (others_of_setCall (o := Call.looks) rfl now).2
    refine ⟨fun outcome' known => ?_, fun j' d decided =>
      old.2 j' d (others_of_setCall (o := Call.decides) rfl decided).2⟩
    by_cases here : w.2 = query
    · change update s.futures query (some outcome) w.2 = some outcome' at known
      rw [here, update_self, some.injEq] at known
      subst known
      exact old.2 i (query, outcome) (by rw [called]; rfl) here.symm
    · exact old.1 outcome' ((update_of_ne here ..).symm.trans known)
  · intro j
    show Call.Agrees (update s.futures query (some outcome)) _
    rw [calls_setCall]
    split
    · trivial
    · have before := led.agrees j
      have ready {query} : (s.threads j).call.awaited = some query → _ := led.ready
      generalize (s.threads j).call = call at before ready
      cases call with
      | followed key since query' answer =>
        intro outcome' known
        rw [update_of_ne (other (ready rfl))] at known
        exact before outcome' known
      | leave | fulfil => exact before
      | idle | mutatePrimary | claim | mutateBackend | readPrimary | lookup | race | follow
      | reread | allowRequest | fetch | promote | readBack | probe | pull | push => trivial

/-! ## Steps -/

/-- A follower finds a query under its key. -/
theorem follow (led : s.Led) {since : Nat} (here : s.inflight key = some query)
    (undisturbed : s.IfDecided query (s.Shows key)) :
    (s.setCall i (.follow key since query)).Led := by
  refine led.setCall (of_none rfl) ?_ ?_ (of_none rfl) (of_none rfl) trivial
  · rintro w ⟨⟩
    exact .inr (.inr here)
  · rintro w ⟨⟩
    exact undisturbed

/-- The leader ends its query without a value. -/
theorem leave (led : s.Led) {since : Nat} {answer : Answer V}
    (leads : (s.threads i).call.leads = some (key, query)) (expects : s.Expects key query outcome)
    (reports : answer.Reports outcome) :
    (s.setCall i (.leave key since query outcome answer)).Led := by
  refine led.setCall ?_ (of_none rfl) (of_none rfl) ?_ (of_none rfl) reports
  · rintro w ⟨⟩
    exact leads
  · rintro d ⟨⟩
    refine .inr fun k looks => led.decide leads expects (looks.resolve_right ?_)
    rintro ⟨⟩

/-- The lookups, the verdict of the circuit breaker and the query itself. -/
theorem nextCall (led : s.Led) {call' : Call K V} (called : (s.threads i).call = call)
    (undisturbed : s.UndisturbedCall c call) (next : s.nextCall cfg c call = some call') :
    (s.setCall i call').Led := by
  have aside := led.setAside (i := i)
  cases call with simp only [State.nextCall] at next
  | readPrimary | probe =>
    split at next <;> cases next
    · exact aside .idle rfl rfl rfl rfl trivial
    · exact aside _ rfl rfl rfl rfl trivial
  | lookup key since =>
    split at next <;> cases next
    case h_1 query here => exact led.follow here (undisturbed query here)
    case h_2 => exact aside (.race key since) rfl rfl rfl rfl trivial
  | follow key since query =>
    split at next
    case isFalse => cases next
    case isTrue fulfilled =>
      cases next
      have looks : (s.threads i).call.looks = some (key, query) := by rw [called]; rfl
      refine led.setCall (of_none rfl) ?_ ?_ (of_none rfl) ?_ trivial
      · rintro w ⟨⟩
        exact .inl looks
      · rintro w ⟨⟩
        exact led.shown looks
      · rintro q ⟨⟩
        exact fulfilled
  | reread key since query =>
    cases next
    have shown := led.shown (i := i) (w := (key, query)) (by rw [called]; rfl)
    refine led.setCall (of_none rfl) (of_none rfl) (of_none rfl) (of_none rfl) ?_ ?_
    · rintro q ⟨⟩
      exact led.ready (i := i) (by rw [called]; rfl)
    · exact fun outcome known => reports_answer_iff.mpr (shown.1 outcome known)
  | followed =>
    cases next
    exact aside .idle rfl rfl rfl rfl trivial
  | allowRequest key since query =>
    have leads : (s.threads i).call.leads = some (key, query) := by rw [called]; rfl
    split at next
    case isTrue =>
      cases next
      refine led.setCall ?_ (of_none rfl) (of_none rfl) (of_none rfl) (of_none rfl) trivial
      rintro w ⟨⟩
      exact leads
    case isFalse rejected =>
      cases next
      exact led.leave leads (undisturbed (by simpa using rejected)) rfl
  | fetch key since query =>
    have leads : (s.threads i).call.leads = some (key, query) := by rw [called]; rfl
    split at next
    case isTrue threw =>
      cases next
      exact led.leave leads (undisturbed.1 threw) rfl
    case isFalse returned =>
      split at next <;> cases next
      · refine led.setCall ?_ (of_none rfl) (of_none rfl) (of_none rfl) (of_none rfl) trivial
        rintro w ⟨⟩
        exact leads
      case h_2 nothing =>
        exact led.leave leads (undisturbed.2 (by simpa using returned) nothing) rfl
  | readBack key since query value =>
    cases next
    have shown := led.shown (i := i) (w := (key, query)) (by rw [called]; rfl)
    have decides : (s.threads i).call.decides = some (query, .found value) := by rw [called]; rfl
    refine led.setCall ?_ (of_none rfl) (of_none rfl) ?_ (of_none rfl) ?_
    · rintro w ⟨⟩
      rw [called]
      rfl
    · rintro d ⟨⟩
      exact .inl decides
    · exact reports_answer_iff.mpr (shown.2 i _ decides rfl)
  | pull key =>
    split at next
    · cases next
      exact aside .idle rfl rfl rfl rfl trivial
    · split at next <;> cases next <;> exact aside _ rfl rfl rfl rfl trivial
  | idle | mutatePrimary | claim | mutateBackend | race | promote | leave | fulfil | push =>
    cases next

/-- A promotion that the primary takes decides the query. -/
theorem promoted (led : s.Led) {since : Nat} {value : V}
    (leads : (s.threads i).call.leads = some (key, query))
    (undecided : (s.threads i).call.decides = none) (shows : s.Shows key (.found value)) :
    (s.setCall i (.readBack key since query value)).Led := by
  have unknown : s.IfDecided query (s.Shows key) := by
    refine ⟨fun outcome known => ?_, fun j d decided here => ?_⟩
    · rw [(led.pending leads).1] at known
      cases known
    · obtain ⟨k, other⟩ := Call.leads_of_decides decided
      obtain rfl := led.alone other leads here
      rw [undecided] at decided
      cases decided
  refine led.setCall ?_ ?_ ?_ ?_ (of_none rfl) trivial
  · rintro w ⟨⟩
    exact leads
  · rintro w ⟨⟩
    exact .inr (.inl leads)
  · rintro w ⟨⟩
    exact unknown
  · rintro d ⟨⟩
    refine .inr fun k looks => ?_
    obtain others | own := looks
    · exact led.decide (d := (query, .found value)) leads (fun _ _ => shows) others
    · cases own
      exact shows

end Led

variable [DecidableEq K]

/-- A thread wins the race for a key: the new query has no leader and no future yet. -/
theorem Led.newLeader (led : s.Led) {since : Nat} :
    State.Led { s.setCall i (.allowRequest key since s.nextQuery) with
      inflight := update s.inflight key (some s.nextQuery)
      nextQuery := s.nextQuery + 1 } := by
  have leads {j w}
      (now : ((s.setCall i (.allowRequest key since s.nextQuery)).threads j).call.leads = some w) :
      j = i ∧ w = (key, s.nextQuery) ∨ j ≠ i ∧ (s.threads j).call.leads = some w := by
    rw [calls_setCall] at now
    split at now
    case isTrue same => exact .inl ⟨same, (some.inj now).symm⟩
    case isFalse other => exact .inr ⟨other, now⟩
  refine ⟨fun query later => led.fresh query (Nat.le_of_succ_le later), ?_, ?_, ?_, ?_, ?_, ?_, ?_⟩
  · intro j w now
    obtain ⟨-, rfl⟩ | ⟨-, before⟩ := leads now
    · exact ⟨led.fresh _ (Nat.le_refl _), Nat.lt_succ_self _⟩
    · exact ⟨(led.pending before).1, Nat.lt_succ_of_lt (led.pending before).2⟩
  · intro j j' w w' now now' same
    obtain ⟨here, rfl⟩ | ⟨-, before⟩ := leads now <;>
      obtain ⟨here', rfl⟩ | ⟨-, before'⟩ := leads now'
    · exact here.trans here'.symm
    · exact absurd (led.pending before').2 (same ▸ Nat.lt_irrefl _)
    · exact absurd (led.pending before).2 (same ▸ Nat.lt_irrefl _)
    · exact led.alone before before' same
  · intro k query known
    by_cases here : k = key
    · subst here
      change update s.inflight k (some s.nextQuery) k = some query at known
      rw [update_self, some.injEq] at known
      subst known
      refine ⟨Nat.lt_succ_self _, fun j w now same => ?_⟩
      obtain ⟨-, rfl⟩ | ⟨-, before⟩ := leads now
      · rfl
      · exact absurd (led.pending before).2 (same ▸ Nat.lt_irrefl _)
    · have old := led.known ((update_of_ne here ..).symm.trans known)
      refine ⟨Nat.lt_succ_of_lt old.1, fun j w now same => ?_⟩
      obtain ⟨-, rfl⟩ | ⟨-, before⟩ := leads now
      · exact absurd old.1 (same ▸ Nat.lt_irrefl _)
      · exact old.2 j w before same
  · intro j w now
    have old := led.joined (others_of_setCall (o := Call.looks) rfl now).2
    refine ⟨Nat.lt_succ_of_lt old.1, fun j' w' now same => ?_⟩
    obtain ⟨-, rfl⟩ | ⟨-, before⟩ := leads now
    · exact absurd old.1 (same ▸ Nat.lt_irrefl _)
    · exact old.2 j' w' before same
  · exact fun awaited => led.ready (others_of_setCall (o := Call.awaited) rfl awaited).2
  · intro j w now
    have old := led.shown (others_of_setCall (o := Call.looks) rfl now).2
    exact ⟨old.1, fun j' d decided =>
      old.2 j' d (others_of_setCall (o := Call.decides) rfl decided).2⟩
  · intro j
    show Call.Agrees s.futures _
    rw [calls_setCall]
    split
    · trivial
    · exact led.agrees j

theorem shows_primarySet {value : V} {origin : Origin}
    (taken : key ∉ c.evicted ∧ key ∉ c.dropped ∧ (c.refused = true → s.Shows key (.found value))) :
    (s.primarySet cfg i key ⟨value, origin⟩ c).Shows key (.found value) := by
  obtain ⟨kept, held, refused⟩ := taken
  have stays : ∀ u : State K V T, (u.leavePrimary cfg i c).primary key = u.primary key := by
    intro u
    simp [leavePrimary, kept, held]
  simp only [Shows, primarySet, stays]
  split
  case isTrue no => exact refused no
  case isFalse => simp

/-- One step of a call. `spared` is what the step does to the primary. -/
theorem Led.proceed (led : s.Led) (undisturbed : s.UndisturbedCall c (s.threads i).call)
    (spared : ∀ j w, (s.threads j).call.looks = some w → s.IfDecided w.2 fun _ =>
      (t.primary w.1).map Entry.value = (s.primary w.1).map Entry.value)
    (taken : s.proceed cfg i c (s.threads i).call = some t) : t.Led := by
  generalize called : (s.threads i).call = call at taken undisturbed
  cases call with
  | mutatePrimary m index =>
    have mutated : SameQueries s (s.mutatePrimary cfg i m index c) :=
      (mutatePrimary_changes cfg).sameQueries
    simp only [State.proceed] at taken
    split at taken <;> cases taken
    · exact ((led.of_same mutated spared).setAside .idle rfl rfl rfl rfl trivial).unchanged
        ⟨rfl, rfl, rfl, fun _ => rfl⟩ rfl
    · exact (led.of_same mutated spared).setAside (.claim m index) rfl rfl rfl rfl trivial
  | claim m index =>
    obtain ⟨store, -, rfl⟩ := map_eq_some_iff.mp taken
    exact (led.setAside (.mutateBackend m index) rfl rfl rfl rfl trivial).unchanged
      ⟨rfl, rfl, rfl, fun _ => rfl⟩ rfl
  | mutateBackend m index =>
    cases taken
    exact (led.setAside .idle rfl rfl rfl rfl trivial).unchanged ⟨rfl, rfl, rfl, fun _ => rfl⟩ rfl
  | race key since =>
    cases taken
    rw [raceForLeader]
    split
    case h_1 query here => exact led.follow here (undisturbed query here)
    case h_2 => exact led.newLeader
  | promote key since query value stamp =>
    cases taken
    have same := (primarySet_changes cfg s i key ⟨value, .fetched stamp⟩ c).sameQueries
    refine (led.of_same same spared).promoted ?_ ?_ (shows_primarySet undisturbed)
    · rw [same.calls, called]
      rfl
    · rw [same.calls, called]
      rfl
  | push key value stamp =>
    cases taken
    exact (led.of_same (primarySet_changes cfg s i key _ c).sameQueries spared).setAside .idle
      rfl rfl rfl rfl trivial
  | leave key since query outcome answer =>
    cases taken
    have own := led.agrees i
    rw [called] at own
    have next : (s.setCall i (.fulfil key since query outcome answer)).Led := by
      refine led.setCall ?_ (of_none rfl) (of_none rfl) ?_ (of_none rfl) own
      · rintro w ⟨⟩
        rw [called]
        rfl
      · rintro d ⟨⟩
        exact .inl (by rw [called]; rfl)
    refine ⟨next.fresh, next.pending, next.alone, fun {k q} known => ?_, next.joined, next.ready,
      next.shown, next.agrees⟩
    by_cases here : k = key
    · subst here
      change update s.inflight k none k = some q at known
      rw [update_self] at known
      cases known
    · exact next.known ((update_of_ne here ..).symm.trans known)
  | fulfil key since query outcome answer =>
    cases taken
    exact led.fulfilled called
  | idle | readPrimary | lookup | follow | reread | followed | allowRequest | fetch | readBack
  | probe | pull =>
    simp only [State.proceed, map_eq_some_iff] at taken
    obtain ⟨call', next, rfl⟩ := taken
    exact led.nextCall called undisturbed next

theorem Led.step (led : s.Led) (undisturbed : s.Undisturbed cfg l)
    (taken : s.step cfg l = some t) : t.Led := by
  have spared : ∀ j w, (s.threads j).call.looks = some w → s.IfDecided w.2 fun _ =>
      (t.primary w.1).map Entry.value = (s.primary w.1).map Entry.value := by
    intro j w looks
    have spares := undisturbed.spares j w looks
    exact ⟨fun o known => spares.1 o known t taken,
      fun j' d decided here => spares.2 j' d decided here t taken⟩
  cases l with
  | call i op =>
    obtain ⟨-, rfl⟩ := of_guarded taken
    cases op with
    | mutate m =>
      exact (led.setAside (.mutatePrimary m (s.begun m.key)) rfl rfl rfl rfl trivial).unchanged
        ⟨rfl, rfl, rfl, fun _ => rfl⟩ rfl
    | get key => exact led.setAside (.readPrimary key (s.returned key)) rfl rfl rfl rfl trivial
    | promoteFromBackend key => exact led.setAside (.probe key) rfl rfl rfl rfl trivial
  | advance i c =>
    exact led.proceed (undisturbed.call i c rfl) spared (ite_none_right_eq_some.mp taken).2
  | evict i c =>
    obtain ⟨-, rfl⟩ := of_guarded taken
    exact led.of_same (leavePrimary_changes cfg s i c).sameQueries spared
  | deliver i =>
    simp only [State.step] at taken
    split at taken
    case h_1 => cases taken
    case h_2 key value rest owed =>
      cases taken
      refine led.unchanged ⟨rfl, rfl, rfl, fun j => ?_⟩ rfl
      by_cases same : j = i
      · subst same
        simp [setThread]
      · simp [setThread, same]
  | worker throws =>
    cases taken
    exact led.unchanged ⟨rfl, rfl, rfl, fun _ => rfl⟩ rfl

end State

/-- In every run of undisturbed steps the leaders and the followers report the outcomes of
their queries. -/
theorem participants_report_outcome [DecidableEq K] [DecidableEq T] {cfg : Config}
    {s t : State K V T} (initial : s.Initial)
    (reached : Transition.Reaches (step cfg) (State.Undisturbed cfg) s t) : t.SharesOutcome := by
  have led : t.Led := by
    refine reached.invariant (.of_initial initial) ?_
    intro s l t led undisturbed taken
    exact led.step undisturbed taken
  exact led.agrees

/-! ## A follower -/

section Samples

section Decidable

variable [DecidableEq K] [DecidableEq V] [DecidableEq T] [Fintype T] (s : State K V T)

instance (key : K) (outcome : Query V) : Decidable (s.Shows key outcome) :=
  match outcome with
  | .found value => inferInstanceAs (Decidable (∃ entry ∈ s.primary key, entry.value = value))
  | .missing | .rejected => decidable_of_iff ((s.primary key).isNone) Option.isNone_iff_eq_none
  | .threw => inferInstanceAs (Decidable False)

instance (query : Nat) (p : Query V → Prop) [DecidablePred p] : Decidable (s.IfDecided query p) :=
  inferInstanceAs (Decidable (_ ∧ _))

instance (key : K) (query : Nat) (outcome : Query V) : Decidable (s.Expects key query outcome) :=
  inferInstanceAs (Decidable (∀ _, _))

instance (cfg : Config) (l : Label K V T) (key : K) : Decidable (s.Spares cfg l key) :=
  inferInstanceAs (Decidable (∀ t ∈ s.step cfg l, _))

instance (c : Choice K) (call : Call K V) : Decidable (s.UndisturbedCall c call) :=
  match call with
  | .lookup key _ | .race key _ =>
    inferInstanceAs (Decidable (∀ query ∈ s.inflight key, s.IfDecided query (s.Shows key)))
  | .allowRequest key _ query =>
    inferInstanceAs (Decidable (c.allowed = false → s.Expects key query .rejected))
  | .fetch .. | .promote .. => inferInstanceAs (Decidable (_ ∧ _))
  | .idle | .mutatePrimary .. | .claim .. | .mutateBackend .. | .readPrimary .. | .follow ..
  | .reread .. | .followed .. | .readBack .. | .leave .. | .fulfil .. | .probe .. | .pull ..
  | .push .. => .isTrue trivial

/-- Whether a step is undisturbed. -/
def undisturbed (cfg : Config) (l : Label K V T) : Bool :=
  decide (∀ i, ∀ w ∈ (s.threads i).call.looks, s.IfDecided w.2 fun _ => s.Spares cfg l w.1) &&
    match l with
    | .advance i c => decide (s.UndisturbedCall c (s.threads i).call)
    | _ => true

variable {s} in
theorem Undisturbed.of_check {cfg : Config} {l : Label K V T}
    (checked : undisturbed s cfg l = true) : s.Undisturbed cfg l := by
  obtain ⟨spares, call⟩ := Bool.and_eq_true_iff.mp checked
  refine ⟨of_decide_eq_true spares, ?_⟩
  rintro i c rfl
  exact of_decide_eq_true call

end Decidable

/-- Two threads get key 1: the first one leads the query and has fetched, the second one
waits for it. -/
def sharedFetch : List (Label Nat Nat Bool) :=
  fetchOne false ++ [.call true (.get 1), .advance true {}, .advance true {}]

def leaderEnds : List (Label Nat Nat Bool) := List.replicate 4 (.advance false {})

/-- The follower waits for the future and reads the primary again. -/
def followOn : List (Label Nat Nat Bool) := [.advance true {}, .advance true {}]

theorem follower_reports_fetched :
    ∃ t, runWhere (step {}) (fun s l => undisturbed s {} l) storedTiers
        (sharedFetch ++ leaderEnds ++ followOn) = some t
      ∧ (t.threads true).call = .followed 1 0 0 (.value ⟨10, .fetched 0⟩)
      ∧ t.SharesOutcome := by
  have executed : (runWhere (step {}) (fun s l => undisturbed s {} l)
      storedTiers (sharedFetch ++ leaderEnds ++ followOn)).map (fun t => (t.threads true).call) =
        some (.followed 1 0 0 (.value ⟨10, .fetched 0⟩)) := by
    decide +kernel
  obtain ⟨t, run, shown⟩ := map_eq_some_iff.mp executed
  have reached := Transition.Reaches.of_runWhere run
  exact ⟨t, run, shown, participants_report_outcome storedTiers_initial
    (reached.weaken fun _ _ => Undisturbed.of_check)⟩

/-- The promoted value is evicted before the follower reads: it reports a miss although the
query has found 10. -/
theorem follower_misses_evicted :
    ∃ t, run (step {}) storedTiers
        (sharedFetch ++ leaderEnds ++ [.evict false { evicted := [1] }] ++ followOn) = some t
      ∧ (t.threads true).call = .followed 1 0 0 .miss
      ∧ t.futures 0 = some (.found 10)
      ∧ ¬ t.SharesOutcome := by
  have executed : (run (step {}) storedTiers
      (sharedFetch ++ leaderEnds ++ [.evict false { evicted := [1] }] ++ followOn)).map
        (fun t => ((t.threads true).call, t.futures 0)) =
        some (.followed 1 0 0 .miss, some (.found 10)) := by
    decide +kernel
  obtain ⟨t, run, shown⟩ := map_eq_some_iff.mp executed
  obtain ⟨followed, future⟩ := Prod.mk.inj shown
  refine ⟨t, run, followed, future, fun shares => ?_⟩
  have reports := shares true
  rw [followed] at reports
  obtain ⟨entry, impossible, -⟩ := reports (.found 10) future
  cases impossible

end Samples

end Lru.Tiered
