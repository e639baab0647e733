import Lru.Cache.Visibility

/-!
# The size limit over every write

`mm_lru` refuses a key for which it finds no room. The other strategies link it
first and leave the rest to `enforce_capacity_after_insert`, which `set` and the
writes with an expiry call and `add` and `set_prehashed` do not.
-/

namespace Lru.Cache

open Mm State Strategy Policy

variable {K V α : Type} {s : State K V} {cap expiryNs sec : Nat} {env : Env K V} {t : State K V}
  {strategy : Strategy} {key : K} {i : ItemId} {fnName : String}

/-- Table and lists agree and the size is within the limit `cap`. -/
structure Within (env : Env K V) (cap : Nat) (s : State K V) : Prop where
  wf : s.WellFormed env
  limit : s.settings.maxSize = cap
  length : s.table.length ≤ cap

section Within

section Kept

variable (within : Within env cap s)

include within

theorem Within.limit_of (settings : t.settings = s.settings) : t.settings.maxSize = cap :=
  (congrArg Settings.maxSize settings).trans within.limit

theorem Within.shrinks (h : Shrinks env s t) : Within env cap t :=
  ⟨h.wf, within.limit_of h.settings_eq, h.length_le.trans within.length⟩

theorem Within.collect (e : Event K V) : Within env cap (s.collect e) := by
  have core := core_collect s e
  refine ⟨?_, ?_, ?_⟩
  · unfold State.WellFormed
    rw [core]
    exact within.wf
  · rw [State.collect]
    split <;> exact within.limit
  · have table : (s.collect e).table = s.table := congrArg Core.table core
    rw [table]
    exact within.length

theorem Within.noteEvictionRejected {value : V} :
    Within env cap (s.noteEvictionRejected key value) :=
  Within.collect (s := s.noteEvictionFailed) ⟨within.wf, within.limit, within.length⟩ _

theorem Within.decRef (i : ItemId) : Within env cap (s.decRef i) :=
  ⟨WellFormed.write (.count (· - 1)) within.wf, within.limit, within.length⟩

/-- Writing the value of a resident key evicts at most. -/
theorem Within.of_written {f : Item K V → Item K V}
    (h : Shrinks env (s.modify i f) t) : Within env cap t :=
  ⟨h.wf, within.limit_of h.settings_eq, h.length_le.trans within.length⟩

/-- What the gate is given: a state within the limit, or one new key more. -/
theorem admits_within_or_inserts {value : V}
    (admitted : Admits env s t key value expiryNs) :
    Within env cap t ∨ ∃ value expiryNs, Inserts env s t key value expiryNs := by
  cases admitted with
  | inserted linked => exact .inr ⟨value, expiryNs, linked⟩
  | dropped shrunk => exact .inl (within.shrinks shrunk)
  | failed u shrunk noted =>
    have small := within.shrinks shrunk
    subst noted
    exact .inl ⟨small.wf, small.limit, small.length⟩

end Kept

end Within

/-! ## What the strategies insert -/

section Insert

variable [DecidableEq K]

/-- A strategy other than `mm_lru` is full and its search finds nothing to evict for
a new key. -/
def Overfull (env : Env K V) (strategy : Strategy) (s : State K V) (key : K) : Prop :=
  strategy ≠ .mmLru ∧ (strategy.policy env).noCapacity s = false ∧
    (strategy.policy env).size s = s.settings.maxSize ∧
    (strategy.policy env).victim ((strategy.policy env).prepare s key) = none

/-- Otherwise `insert_new` keeps to the limit. -/
theorem insertNew_within (value : V) (expiryNs sec : Nat) (finite : cap ≠ unlimited)
    (within : Within env cap s) (absent : s.find env key = none)
    (free : ¬ Overfull env strategy s key) :
    Within env cap ((strategy.policy env).insertNew s key value expiryNs sec) := by
  have laws := strategy.laws env
  by_cases strict : strategy = .mmLru
  · subst strict
    change Within env cap (MmLru.insertNew env s key value expiryNs sec)
    cases MmLru.insertNew_ends value expiryNs sec within.wf absent with
    | blocked _ unchanged =>
      rw [unchanged]
      exact within
    | failed _ _ counted =>
      have shrunk := within.shrinks (MmLru.findCapacity_shrinks within.wf)
      rw [counted]
      exact ⟨shrunk.wf, shrunk.limit, shrunk.length⟩
    | dropped _ _ _ shrunk => exact within.shrinks shrunk
    | inserted _ _ _ linked fits =>
      have small := fits (within.limit ▸ finite)
      rw [MmLru.eviction.size_eq linked.wf, within.limit] at small
      exact ⟨linked.wf, within.limit_of linked.settings_eq, small⟩
  · have always := insertsAlways env strict
    cases capacity : (strategy.policy env).noCapacity s with
    | true =>
      rw [always.blocked capacity]
      exact within
    | false =>
      have linked := always.inserts value expiryNs sec within.wf absent capacity
      have le : (strategy.policy env).size s ≤ s.settings.maxSize := by
        rw [laws.eviction.size_eq within.wf, within.limit]
        exact within.length
      have room : (strategy.policy env).size s < s.settings.maxSize ∨
          (strategy.policy env).victim ((strategy.policy env).prepare s key) ≠ none := by
        by_contra none
        push Not at none
        exact free ⟨strict, capacity, Nat.le_antisymm le none.1, none.2⟩
      have small := always.fits value expiryNs sec within.wf absent capacity
        (within.limit ▸ finite) le room
      rw [laws.eviction.size_eq linked.wf, within.limit] at small
      exact ⟨linked.wf, within.limit_of linked.settings_eq, small⟩

/-- In an overfull strategy the new key is one too many. -/
theorem insertNew_exceeds {value : V} (wf : s.WellFormed env)
    (absent : s.find env key = none) (full : Overfull env strategy s key) :
    (strategy.policy env).size ((strategy.policy env).insertNew s key value expiryNs sec) =
      s.settings.maxSize + 1 := by
  obtain ⟨lax, capacity, size, stuck⟩ := full
  rw [(insertsAlways env lax).overflows value expiryNs sec wf absent capacity stuck, size]

/-- The gate restores the limit after any such write. -/
theorem enforceCapacity_within {c : Cache K V} (finite : cap ≠ unlimited)
    (within : Within env cap s)
    (written : Within env cap c.mm ∨ ∃ value expiryNs, Inserts env s c.mm key value expiryNs) :
    Within env cap (c.enforceCapacityAfterInsert env strategy key
      ((strategy.policy env).size s)).mm := by
  have laws := strategy.laws env
  obtain small | ⟨value, expiryNs, linked⟩ := written
  · rw [enforceCapacity_of_le]
    · exact small
    · refine .inr ?_
      rw [laws.eviction.size_eq small.wf, small.limit]
      exact small.length
  · have limit := within.limit_of linked.settings_eq
    have grown := linked.length_le
    by_cases fits : c.mm.table.length ≤ cap
    · rw [enforceCapacity_of_le]
      · exact ⟨linked.wf, limit, fits⟩
      · refine .inr ?_
        rw [laws.eviction.size_eq linked.wf, limit]
        exact fits
    · have size : (strategy.policy env).size s ≤ c.mm.settings.maxSize := by
        rw [laws.eviction.size_eq within.wf, limit]
        exact within.length
      have tooMany : (strategy.policy env).size c.mm = c.mm.settings.maxSize + 1 := by
        rw [laws.eviction.size_eq linked.wf]
        have length := within.length
        omega
      have removed : ∀ {mm : State K V} {v : ItemId}, Removes env c.mm mm v →
          Within env cap mm := by
        intro mm v removed
        have fewer := removed.length_eq
        have length := within.length
        exact ⟨removed.wf, (congrArg Settings.maxSize removed.settings_eq).trans limit, by omega⟩
      obtain ⟨v, mm, -, evicted, gated⟩ | ⟨mm, -, rolledBack, gated⟩ :=
        enforceCapacity_of_succ linked (limit ▸ finite) size tooMany
      · rw [gated]
        exact removed evicted
      · rw [gated]
        exact (removed rolledBack).noteEvictionRejected

end Insert

/-! ## The entry points -/

section Calls

variable [DecidableEq K] {c d : Cache K V} {value : V} {a : Ambient K}

theorem admitWrite_within (strategy : Strategy) (reportsAdmission reportsOverflow : Bool) (key : K)
    (value : V) (a : Ambient K) (within : Within env cap c.mm) :
    Within env cap
      (c.admitWrite env strategy reportsAdmission reportsOverflow key value a).2.mm :=
  admitWrite_keeps strategy reportsAdmission reportsOverflow
    key value a within.wf (fun prepared => within.shrinks prepared.mm) fun kept => kept.collect _

omit [DecidableEq K] in
theorem guarded_within {rejected proceed : α × Cache K V}
    (within : Within env cap c.mm) (afterReject : Within env cap rejected.2.mm)
    (afterProceed : Within env cap proceed.2.mm) :
    Within env cap (c.guarded fnName rejected proceed).2.mm :=
  guarded_keeps (P := fun c => Within env cap c.mm) within afterReject fun _ => afterProceed

/-- `set` keeps to the limit, whatever is pinned. -/
theorem set_within
    (finite : cap ≠ unlimited) (within : Within env cap c.mm) :
    Within env cap (c.set env strategy key value a).2.mm := by
  refine guarded_within within (within.collect _) (checked_keeps (P := (Within env cap ·.mm))
    (admitWrite_within strategy true true key value a within)
    (fun d verdict => by rw [setBody, verdict]) fun d verdict checked => ?_)
  rw [setBody_mm verdict]
  obtain ⟨-, admitted⟩ | ⟨i, -, written⟩ := (strategy.laws env).set_cases checked.wf key value a.sec
  · exact enforceCapacity_within finite checked (admits_within_or_inserts checked admitted)
  · exact enforceCapacity_within finite checked (.inl (checked.of_written written))

theorem setWithExpiryNsImpl_within
    (finite : cap ≠ unlimited) (within : Within env cap c.mm) :
    Within env cap (c.setWithExpiryNsImpl env strategy key value expiryNs a).mm := by
  refine checked_keeps (P := (Within env cap ·.mm))
    (admitWrite_within strategy true false key value a within)
    (fun d verdict => by rw [setWithExpiryNsImpl, verdict]) fun d verdict checked => ?_
  rw [setWithExpiryNsImpl, verdict]
  obtain ⟨-, admitted⟩ | ⟨i, -, written⟩ := (strategy.laws env).setWithExpiry_cases checked.wf
  · exact enforceCapacity_within finite checked (admits_within_or_inserts checked admitted)
  · have valued : Within env cap (d.mm.modify i fun item => { item with value := value }) :=
      ⟨WellFormed.write (.value value) checked.wf, checked.limit, checked.length⟩
    exact enforceCapacity_within finite checked (.inl (valued.of_written written))

theorem peekForGet_within (key : K) (nowNs : Nat) (within : Within env cap s) :
    Within env cap (s.peekForGet env key nowNs).2 := by
  refine ⟨peekForGet_wf key nowNs within.wf, ?_, ?_⟩
  all_goals
    obtain ⟨-, saturated⟩ | ⟨i, found, pins, -⟩ := findAndPin_cases env s key
  · rw [peekForGet_of_unpinned saturated]
    exact within.limit
  · rw [(peekForGet_of_pinned nowNs found pins).2.settings_eq]
    split <;> exact within.limit
  · rw [peekForGet_of_unpinned saturated]
    exact within.length
  · rw [(peekForGet_of_pinned nowNs found pins).2.table_eq]
    split <;> exact within.length

/-- An item that `peek_for_get` returns is the one under the key, before and after. -/
theorem find_of_peekForGet {s mm : State K V} {nowNs : Nat}
    (wf : s.WellFormed env) (read : s.peekForGet env key nowNs = (some i, mm)) :
    mm.find env key = some i := by
  have after : mm.WellFormed env := by
    have kept := peekForGet_wf key nowNs wf
    rw [read] at kept
    exact kept
  obtain ⟨-, saturated⟩ | ⟨j, found, pins, -⟩ := findAndPin_cases env s key
  · rw [peekForGet_of_unpinned saturated] at read
    cases read
  · obtain ⟨result, quiet⟩ := peekForGet_of_pinned nowNs found pins
    rw [read] at result quiet
    split at result
    · cases result
    case isFalse early =>
      obtain rfl : i = j := Option.some.inj result
      rw [if_neg early] at quiet
      obtain ⟨hi, hk⟩ := (find_eq_some_iff wf).mp found
      have same : (mm.heap i).key = (s.heap i).key := by
        have kept := congrArg Body.key (quiet.body_eq i)
        simpa [State.incRef, State.modify] using kept
      refine (find_eq_some_iff after).mpr ⟨?_, same.trans hk⟩
      rw [quiet.table_eq]
      exact hi

theorem casBody_within [DecidableEq V] {expected desired : V}
    (within : Within env cap c.mm) :
    Within env cap (c.casBody env strategy key expected desired a).2.mm := by
  have read := peekForGet_within key a.nowNs within
  rw [casBody]
  split
  case h_1 mm missed =>
    rw [missed] at read
    exact read
  case h_2 i mm pinned =>
    rw [pinned] at read
    have found := find_of_peekForGet within.wf pinned
    simp only
    split
    · exact read.decRef i
    · have asked := (checkMemoryAdmission_quiet env { c with mm := mm } key desired a).2
      split
      case h_1 d refused =>
        rw [refused] at asked
        exact (read.shrinks (asked.shrinks read.wf)).decRef i
      case h_2 d admitted =>
        rw [admitted] at asked
        have ready := read.shrinks (asked.shrinks read.wf)
        have still : d.mm.find env key = some i :=
          ((Rearranges.of_quiet asked read.wf).find_eq read.wf).trans found
        refine Within.decRef ?_ i
        obtain ⟨absent, -⟩ | ⟨j, -, written⟩ :=
          (strategy.laws env).set_cases ready.wf key desired a.sec
        · rw [still] at absent
          cases absent
        · exact ready.of_written written

/-- The strategy is asked to insert a new key while it is overfull. -/
def InsertsOverfull (env : Env K V) (strategy : Strategy) (c : Cache K V) (key : K) (value : V)
    (a : Ambient K) : Prop :=
  ∃ d, c.admitWrite env strategy true false key value a = (true, d) ∧
    d.mm.find env key = none ∧
    Overfull env strategy (Policy.cleanupIf (strategy.policy env).cleanupOnSet d.mm) key

/-- The write calls that go past the gate, and when they overfill the cache. -/
def Overfills (env : Env K V) (strategy : Strategy) (c : Cache K V) : Call K V → Prop
  | .add key value a =>
    c.preWriteCheck "add" = .ok .kProceed ∧ InsertsOverfull env strategy c key value a
  | .setPrehashed key _ value a =>
    c.preWriteCheck "set_prehashed" = .ok .kProceed ∧ InsertsOverfull env strategy c key value a
  | _ => False

theorem size_le_of_within (strategy : Strategy) (within : Within env cap s) :
    (strategy.policy env).size s ≤ cap := by
  rw [(strategy.laws env).eviction.size_eq within.wf]
  exact within.length

/-- An absent key is inserted by `set` and by `add` in the same way. -/
theorem set_add_of_absent {p : Policy K V} (wf : s.WellFormed env)
    (absent : s.find env key = none) : p.set env s key value sec =
        p.insertNew (cleanupIf p.cleanupOnSet s) key value 0 sec ∧
      (p.add env s key value sec).2 = p.insertNew (cleanupIf p.cleanupOnSet s) key value 0 sec := by
  have clean := Policy.Laws.cleanupIf_rearranges p.cleanupOnSet wf
  have still := (clean.find_eq wf).trans absent
  simp only [Policy.set, Policy.add, still, and_self]

/-- For a key that is there neither adds an item. -/
theorem set_add_of_resident (sec : Nat) (within : Within env cap s)
    (found : s.find env key = some i) :
    Within env cap ((strategy.policy env).set env s key value sec) ∧
      Within env cap ((strategy.policy env).add env s key value sec).2 := by
  constructor
  · obtain ⟨absent, -⟩ | ⟨j, -, written⟩ := (strategy.laws env).set_cases within.wf key value sec
    · rw [found] at absent
      cases absent
    · exact within.of_written written
  · obtain ⟨absent, -⟩ | ⟨j, -, -, accessed⟩ :=
      (strategy.laws env).add_cases within.wf key value sec
    · rw [found] at absent
      cases absent
    · exact within.shrinks accessed.toShrinks

/-- A body that leaves a refused write alone and otherwise does what the strategy's
own `write` does, without the gate. -/
theorem ungated_iff (write : State K V → State K V) {after : State K V} (finite : cap ≠ unlimited)
    (within : Within env cap c.mm)
    (refused : ∀ d, c.admitWrite env strategy true false key value a = (false, d) → after = d.mm)
    (ran : ∀ d, c.admitWrite env strategy true false key value a = (true, d) → after = write d.mm)
    (resident : ∀ {s : State K V} {i : ItemId}, Within env cap s → s.find env key = some i →
      Within env cap (write s))
    (inserts : ∀ {s : State K V}, s.WellFormed env → s.find env key = none →
      write s = (strategy.policy env).insertNew (cleanupIf (strategy.policy env).cleanupOnSet s)
        key value 0 a.sec) :
    (strategy.policy env).size after ≤ cap ↔ ¬ InsertsOverfull env strategy c key value a := by
  have checked := admitWrite_within strategy true false key value a within
  unfold InsertsOverfull
  cases verdict : c.admitWrite env strategy true false key value a with
  | mk admitted d =>
    rw [verdict] at checked
    cases admitted with
    | false =>
      refine iff_of_true ?_ (by rintro ⟨e, ⟨⟩, -⟩)
      exact size_le_of_within strategy (refused d verdict ▸ checked)
    | true =>
      cases found : d.mm.find env key with
      | some i =>
        refine iff_of_true (size_le_of_within strategy ?_) ?_
        · exact ran d verdict ▸ resident checked found
        rintro ⟨e, ⟨⟩, absent, -⟩
        rw [found] at absent
        cases absent
      | none =>
        have clean := Policy.Laws.cleanupIf_rearranges (strategy.policy env).cleanupOnSet checked.wf
        have absent := (clean.find_eq checked.wf).trans found
        have ready := checked.shrinks clean.toShrinks
        rw [ran d verdict, inserts checked.wf found]
        constructor
        · rintro small ⟨e, ⟨⟩, -, full⟩
          rw [insertNew_exceeds ready.wf absent full, ready.limit] at small
          omega
        · intro free
          refine size_le_of_within strategy
            (insertNew_within value 0 a.sec finite ready absent ?_)
          exact fun full => free ⟨d, rfl, found, full⟩

/-- `pre_write_check` in front of such a body. -/
theorem guarded_size_le_iff {rejected proceed : α × Cache K V}
    {exceeds : Prop} (within : Within env cap c.mm) (afterReject : rejected.2.mm = c.mm)
    (body : (strategy.policy env).size proceed.2.mm ≤ cap ↔ ¬ exceeds) :
    (strategy.policy env).size (c.guarded fnName rejected proceed).2.mm ≤ cap ↔
      ¬ (c.preWriteCheck fnName = .ok .kProceed ∧ exceeds) := by
  have small := size_le_of_within strategy within
  rw [guarded]
  cases c.preWriteCheck fnName with
  | error e => exact iff_of_true small (by rintro ⟨proceeds, -⟩; cases proceeds)
  | ok result =>
    cases result with
    | kRejectInsert =>
      refine iff_of_true ?_ (by rintro ⟨proceeds, -⟩; cases proceeds)
      exact afterReject ▸ small
    | kProceed => simpa using body

def Call.isWrite : Call K V → Bool
  | .set .. | .setWithTtl .. | .setWithAbsoluteExpiry .. | .add .. | .setPrehashed .. | .setMulti ..
  | .cas .. => true
  | _ => false

/-- Over every run: a write that starts within a finite limit ends within it
exactly when it is not one of the two that insert into an overfull strategy. -/
theorem write_within_limit_iff [DecidableEq V] (call : Call K V)
    (reachable : c.Reachable env strategy) (finite : c.mm.settings.maxSize ≠ unlimited)
    (start : (strategy.policy env).size c.mm ≤ c.mm.settings.maxSize)
    (isWrite : call.isWrite = true) (taken : c.step env strategy call = some d) :
    (strategy.policy env).size d.mm ≤ c.mm.settings.maxSize ↔ ¬ Overfills env strategy c call := by
  have wf := reachable.wf
  have within : Within env c.mm.settings.maxSize c.mm := by
    refine ⟨wf, rfl, ?_⟩
    rw [← (strategy.laws env).eviction.size_eq wf]
    exact start
  have gated : ∀ {d : Cache K V}, Within env c.mm.settings.maxSize d.mm →
      ((strategy.policy env).size d.mm ≤ c.mm.settings.maxSize ↔ ¬ False) := by
    intro d after
    exact iff_of_true (size_le_of_within strategy after) id
  cases call with try cases taken
  | set key value a => exact gated (set_within finite within)
  | setWithTtl key value ttlNs effectiveNs a =>
    exact gated (guarded_within within within
      (setWithExpiryNsImpl_within finite within))
  | setWithAbsoluteExpiry key value expiryNs a =>
    exact gated (guarded_within within within
      (setWithExpiryNsImpl_within finite within))
  | add key value a =>
    exact guarded_size_le_iff within rfl (ungated_iff
      (fun s => ((strategy.policy env).add env s key value a.sec).2) finite within
      (fun d verdict => by rw [addBody, verdict]) (fun d verdict => by rw [addBody, verdict]; rfl)
      (fun inside found => (set_add_of_resident a.sec inside found).2)
      fun wf absent => (set_add_of_absent wf absent).2)
  | setPrehashed key hash value a =>
    exact guarded_size_le_iff within rfl (ungated_iff
      (fun s => (strategy.policy env).set env s key value a.sec) finite within
      (fun d verdict => by rw [setPrehashedBody, verdict])
      (fun d verdict => by
        simp only [setPrehashedBody, verdict, reportMemory_mm, applyMemoryPressure_mm.1])
      (fun inside found => (set_add_of_resident a.sec inside found).1)
      fun wf absent => (set_add_of_absent wf absent).1)
  | setMulti pairs =>
    exact gated (setMulti_keeps (P := fun c => Within env _ c.mm) pairs
      (fun key value a => set_within finite) within)
  | cas key expected desired a =>
    exact gated (guarded_within within (within.collect _)
      (casBody_within within))
  | _ => cases isWrite

end Calls

section Samples

open Mm.Strategy (intEnv)

/-- A cache for one item, with a callback for rejections. -/
def singleCache : Cache Nat Nat :=
  { mm := State.empty (fun _ => default) { maxSize := 1, callbacks := { reject := true } } {} 0 }

/-- It is full, and a reader holds its only item. -/
def pinnedCache : Cache Nat Nat :=
  ((singleCache.set intEnv .mmFifo 1 10 {}).2.get intEnv .mmFifo 1 {}).2

theorem pinnedCache_reachable : pinnedCache.Reachable intEnv .mmFifo := by
  have start : singleCache.Reachable intEnv .mmFifo :=
    ⟨singleCache, ⟨fun _ => default, { maxSize := 1, callbacks := { reject := true } }, {}, 0, rfl⟩,
      .refl⟩
  exact (start.step (.set 1 10 {}) trivial rfl).step (.get 1 {}) trivial rfl

theorem set_within_limit_when_pinned :
    (mmFifo.policy intEnv).size (pinnedCache.set intEnv .mmFifo 2 20 {}).2.mm ≤ 1 :=
  (write_within_limit_iff (.set 2 20 {}) pinnedCache_reachable (by decide) (by decide)
    rfl rfl).mpr id

/-- `add` and `set_prehashed` leave two items in it. -/
theorem add_exceeds_limit_when_pinned :
    pinnedCache.Reachable intEnv .mmFifo ∧ pinnedCache.mm.settings.maxSize = 1 ∧
      (mmFifo.policy intEnv).size pinnedCache.mm = 1 ∧
      (pinnedCache.add intEnv .mmFifo 2 20 {}).1 = .ok true ∧
      (mmFifo.policy intEnv).size (pinnedCache.add intEnv .mmFifo 2 20 {}).2.mm = 2 ∧
      (mmFifo.policy intEnv).size
        (pinnedCache.setPrehashed intEnv .mmFifo 2 2 20 {}).2.mm = 2 :=
  ⟨pinnedCache_reachable, rfl, rfl, rfl, rfl, rfl⟩

end Samples

end Lru.Cache
