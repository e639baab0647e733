import Lru.Mm.Flush

/-!
# Invariants of a strategy

A property of states that the parts of a strategy keep is kept by every operation and
holds in every reachable state. `Policy.Keeps` lists what there is to show of the parts.
For a property of the lists and the search cursor alone the list is shorter,
`Policy.KeepsLists`.
-/

namespace Lru.Mm

variable {K V : Type} {s t u : State K V} {env : Env K V} {I : State K V → Prop}
  {expiryNs sec fuel liveCount : Nat} {p : Policy K V}

open State Policy

/-- Only events, counters other than the memory and the items outside the lists differ. -/
def Noted (s t : State K V) : Prop :=
  ∃ hashTable stats events pendingDeletion retired,
    t = { s with
      hashTable := hashTable
      stats := stats
      events := events
      pendingDeletion := pendingDeletion
      retired := retired } ∧ stats.currentMemory = s.stats.currentMemory

namespace Noted

theorem refl : Noted s s := ⟨_, _, _, _, _, rfl, rfl⟩

theorem trans (first : Noted s t) (second : Noted t u) : Noted s u := by
  obtain ⟨_, _, _, _, _, rfl, memory⟩ := first
  obtain ⟨_, _, _, _, _, rfl, memory'⟩ := second
  exact ⟨_, _, _, _, _, rfl, memory'.trans memory⟩

theorem modifyStats {f : Stats → Stats}
    (keeps : ∀ x, (f x).currentMemory = x.currentMemory := by intro; rfl) :
    Noted s (s.modifyStats f) :=
  ⟨_, _, _, _, _, rfl, keeps _⟩

theorem storeSize {n : Nat} : Noted s (s.storeSize n) := .modifyStats

theorem collect (e : Event K V) : Noted s (s.collect e) := by
  rw [State.collect]
  split
  · exact ⟨_, _, _, _, _, rfl, rfl⟩
  · exact .refl

theorem retire {i : ItemId} : Noted s (s.retire i) := ⟨_, _, _, _, _, rfl, rfl⟩

theorem cleanup (s : State K V) : Noted s s.cleanupPendingDeletion := by
  obtain ⟨events, clean⟩ := cleanup_eq
  rw [clean]
  exact ⟨_, _, _, _, _, rfl, rfl⟩

theorem cleanupIf (b : Bool) (s : State K V) : Noted s (cleanupIf b s) := by
  rw [Policy.cleanupIf]
  split
  · exact .cleanup s
  · exact .refl

end Noted

theorem ttlIndexPush_eq {key : K} :
    ∃ l, s.ttlIndexPush liveCount key expiryNs = { s with ttlIndex := l } := by
  rw [ttlIndexPush]
  split <;> split <;> exact ⟨_, rfl⟩

theorem collect_eq (s : State K V) (e : Event K V) :
    ∃ events, s.collect e = { s with events := events } := by
  rw [collect]
  split <;> exact ⟨_, rfl⟩

theorem noteInsertion_eq (s : State K V) (n mem : Nat) (key : K) (value : V) :
    ∃ stats events, s.noteInsertion n mem key value = { s with stats := stats, events := events } ∧
      stats.currentMemory = SizeT.fetchAdd s.stats.currentMemory mem := by
  obtain ⟨events, collected⟩ := collect_eq (((s.storeSize n).addMemory mem).modifyStats fun x =>
    { x with insertions := x.insertions + 1 }) (.insert key value)
  exact ⟨_, events, collected, rfl⟩

theorem MmFifo.makeRoom_keeps [DecidableEq K]
    (evicts : ∀ {s : State K V}, s.WellFormed env → I s → I (evict env s)) (mem : Nat)
    (wf : s.WellFormed env) (h : I s) : I (makeRoom env s mem) :=
  (makeRoom_induct (I := fun t => t.WellFormed env ∧ I t) (eviction.joint evicts) mem ⟨wf, h⟩).2

/-- `insert_new` of the strategies that always insert keeps what its parts keep. -/
theorem Policy.InsertParts.insertNew_keeps [DecidableEq K] {room : State K V → Nat → State K V}
    {link : State K V → State K V → K → V → Nat → Nat → Nat → State K V}
    (parts : p.InsertParts env room link) {key : K} {value : V}
    (prepares : ∀ {s : State K V}, s.WellFormed env → I s → I (p.prepare s key))
    (rooms : ∀ {s : State K V} mem, s.WellFormed env → I s → I (room s mem))
    (links : ∀ (o : State K V) {s : State K V}, s.WellFormed env → s.find env key = none → I s →
      I (link o s key value expiryNs sec (s.settings.calcItemMemory env key value)))
    (wf : s.WellFormed env) (absent : s.find env key = none) (holds : I s) :
    I (p.insertNew s key value expiryNs sec) := by
  rw [parts.insertNew_eq]
  split
  · exact holds
  · have prepared := (parts.prepare key wf).toShrinks
    have roomy := prepared.trans
      (parts.room_shrinks (s.settings.calcItemMemory env key value) prepared.wf)
    have kept := rooms (s.settings.calcItemMemory env key value) prepared.wf (prepares wf holds)
    have linked := links s roomy.wf (roomy.find_eq_none wf absent) kept
    rw [roomy.settings_eq] at linked
    exact linked

section Insertion

variable [DecidableEq K] {key : K} {value : V}
  (evicts : ∀ {s : State K V}, s.WellFormed env → I s → I (MmLru.evictLru env s))
  (links : ∀ {s : State K V}, s.WellFormed env → s.find env key = none → I s →
    I (MmLru.link env s key value expiryNs sec (s.settings.calcItemMemory env key value)))
  (wf : s.WellFormed env) (absent : s.find env key = none) (holds : I s)

include evicts links wf absent holds

/-- `insert_new` of `mm_lru` keeps what its parts keep. -/
theorem MmLru.insertNew_keepsParts (cleans : ∀ {s : State K V}, I s → I s.cleanupPendingDeletion)
    (fails : ∀ {s : State K V}, I s → I s.noteEvictionFailed) :
    I (insertNew env s key value expiryNs sec) := by
  have clean := (Rearranges.cleanup wf).toShrinks
  have evicted := clean.trans (eviction.evictAtCapacity_shrinks clean.wf)
  have found := findCapacity_shrinks wf
  have capacity : I (findCapacity env s).1 := by
    have kept : I (s.cleanupPendingDeletion.evictAtCapacity (evictLru env) size) :=
      evictAtCapacity_induct (evicts clean.wf) (cleans holds)
    simp only [findCapacity]
    split
    · exact kept
    · exact eviction.evictWhile_keeps evicts _ evicted.wf kept
  have memory : I (findMemory env (findCapacity env s).1 key value).1 :=
    eviction.fitLoop_keeps evicts _ _ found.wf capacity
  have fitted := found.trans (findMemory_shrinks key value found.wf)
  rw [insertNew]
  split
  · exact holds
  split
  case h_1 u stopped =>
    rw [stopped] at capacity
    exact fails capacity
  case h_2 u ready =>
    rw [ready] at memory fitted
    split
    case h_1 v stopped =>
      rw [stopped] at memory
      exact memory
    case h_2 v enough =>
      rw [enough] at memory fitted
      exact links fitted.wf (fitted.find_eq_none wf absent) memory

/-- What does not depend on counters is kept if evictions and the linking keep it. -/
theorem MmLru.insertNew_keeps (noted : ∀ {s t : State K V}, Noted s t → I s → I t) :
    I (insertNew env s key value expiryNs sec) :=
  insertNew_keepsParts evicts links wf absent holds (fun {s} => noted (.cleanup s))
    fun {s} => noted .modifyStats

end Insertion

section Windows

variable
  (moves : ∀ {s : State K V} {i}, s.WellFormed env → i ∈ s.table → I s →
    I (s.moveToQueue i Window.kNextQueue false))

include moves

/-- Draining the window keeps what a move out of it keeps. -/
theorem Window.drainTiny_keeps (expected : State K V → Nat) (wf : s.WellFormed env)
    (holds : I s) : I (drainTiny expected fuel s) := by
  induction fuel generalizing s with
  | zero => exact holds
  | succ fuel ih =>
    rw [drainTiny]
    split
    · split
      · exact holds
      case h_2 i isTail =>
        have hi := (unpinnedTailOf_spec wf isTail).1
        exact ih (moveToQueue_moves wf hi kNextQueue false).wf (moves wf hi holds)
    · exact holds

variable [DecidableEq K]
  (evicts : ∀ {s : State K V} {i}, s.WellFormed env → i ∈ s.table → (s.heap i).accessRef = 0 →
    I s → I (s.evictGeneric env i).2)

include evicts

/-- The promotions of `mm_tiny_lfu` keep what a move and an eviction keep. -/
theorem MmTinyLfu.promoteLoop_keeps {expectedTiny mainCapacity : Nat}
    (wf : s.WellFormed env) (holds : I s) :
    I (promoteLoop env expectedTiny mainCapacity fuel s) := by
  induction fuel generalizing s with
  | zero => exact holds
  | succ fuel ih =>
    rw [promoteLoop]
    split
    · exact holds
    case h_2 t step =>
      obtain ⟨-, candidate, isTail, round⟩ := promoteStep_cases step
      obtain ⟨mem, free⟩ := unpinnedTailOf_spec wf isTail
      refine ih (round.spec wf isTail).1.wf ?_
      cases round with
      | promoted => exact moves wf mem holds
      | displaced _ mainTail found =>
        obtain ⟨memMain, freeMain⟩ := searchQueue_spec wf found
        have removed := (evictGeneric_removes wf memMain freeMain).2
        have inMain : mainTail ∈ s.queue kMainQueue :=
          List.mem_reverse.mp (searchVictim_spec found).1
        have other : candidate ≠ mainTail := by
          rintro rfl
          exact not_mem_other_queue wf inMain (show kMainQueue ≠ Window.kTinyQueue by decide)
            (List.mem_of_getLast? (tail_of_unpinnedTailOf isTail).1)
        refine moves removed.wf ?_ (evicts wf memMain freeMain holds)
        rw [removed.table_eq]
        exact (List.mem_erase_of_ne other).mpr mem
      | evicted => exact evicts wf mem free holds

end Windows

/-- `flush` keeps what its visits of the items, the reset at its end and the notes keep. -/
theorem Policy.Laws.flush_keeps [DecidableEq K] (laws : p.Laws env)
    (noted : ∀ {s t : State K V}, Noted s t → I s → I t)
    (flushOne : ∀ {s : State K V} {i} toRetire, s.WellFormed env → i ∈ s.table → I s →
      I (p.flushOne env (s, toRetire) i).1)
    (afterFlush : ∀ {s : State K V}, I s → I (p.afterFlush s)) (wf : s.WellFormed env)
    (holds : I s) :
    I (p.flush env s) := by
  have perm := wf.table_perm
  have start : Flushing env s s.liveItems (s, []) :=
    ⟨.refl wf, perm.nodup_iff.mp (wf.table_nodup), fun i hi => perm.mem_iff.mpr hi,
      by simp, by simp⟩
  have passed : ∀ (l : List ItemId) (acc : State K V × List ItemId),
      Flushing env s l acc → I acc.1 → I (l.foldl (p.flushOne env) acc).1 := by
    intro l
    induction l with
    | nil => exact fun _ _ kept => kept
    | cons i rest ih =>
      intro acc flushing kept
      exact ih _ (laws.flushOne_flushing flushing)
        (flushOne acc.2 flushing.shrinks.wf (flushing.rest_mem i List.mem_cons_self) kept)
  have retired : ∀ acc : State K V × List ItemId,
      Noted acc.1 (acc.2.foldl retire acc.1.refreshHashStats) := by
    intro acc
    rw [foldl_retire_eq]
    exact ⟨_, _, _, _, _, rfl, rfl⟩
  have kept := noted (retired _) (passed s.liveItems (s, []) start holds)
  exact noted (.trans .storeSize (.cleanup _)) (afterFlush kept)

/-! ## The parts of a strategy -/

/-- The parts of a strategy that neither remove items on request nor make room keep `I`,
together with the bookkeeping around them. -/
structure Policy.KeepsCalm [DecidableEq K] (env : Env K V) (p : Policy K V)
    (I : State K V → Prop) : Prop where
  noted : ∀ {s t : State K V}, Noted s t → I s → I t
  configured : ∀ (s : State K V) callbacks pred bucketOf, I s → I { s with
    bucketOf := bucketOf
    settings := { s.settings with callbacks := callbacks, evictionPredicate := pred } }
  counted : ∀ (s : State K V) i (f : Nat → Nat), I s →
    I (s.modify i fun item => { item with accessRef := f item.accessRef })
  accessed : ∀ {s : State K V} {i} mode sec, s.WellFormed env → i ∈ s.table → I s →
    I (p.recordAccess s i mode sec).2
  afterGet : ∀ {s : State K V} i, s.WellFormed env → I s → I (p.afterGet s i)
  setConfig : ∀ {s : State K V} config sec, s.WellFormed env → I s → I (p.setConfig s config sec)

/-- So do the removals and what writes the TTL index. -/
structure Policy.KeepsAside [DecidableEq K] (env : Env K V) (p : Policy K V)
    (I : State K V → Prop) : Prop extends p.KeepsCalm env I where
  indexed : ∀ (s : State K V) ttlIndex, I s → I { s with ttlIndex := ttlIndex }
  erase : ∀ {s : State K V} {count : Stats → Stats} (event : K → V → Event K V) (key : K),
    s.WellFormed env → (∀ x, (count x).currentMemory = x.currentMemory) → I s →
    I (p.erase env s count event key)
  takeOut : ∀ {s : State K V} {key i}, s.WellFormed env → s.find env key = some i → I s →
    I (p.takeOut env s key i)
  popItem : ∀ {s : State K V} {i}, s.WellFormed env → i ∈ s.table →
    env.movedKey (s.heap i).key = (s.heap i).key → I s → I (p.popItem env s i)
  flush : ∀ {s : State K V}, s.WellFormed env → I s → I (p.flush env s)

/-- The parts that make room and those that never remove items on request keep `I`. -/
structure Policy.KeepsRoom [DecidableEq K] (env : Env K V) (p : Policy K V)
    (I : State K V → Prop) : Prop extends p.KeepsCalm env I where
  stored : ∀ {s : State K V} {i} value sec, s.WellFormed env → i ∈ s.table → I s →
    I (p.storeValue env s i value sec)
  evict : ∀ {s : State K V}, s.WellFormed env → I s → I (p.evict s)
  insertNew : ∀ {s : State K V} {key} value expiryNs sec, s.WellFormed env →
    s.find env key = none → I s → I (p.insertNew s key value expiryNs sec)
  maxSize : ∀ {s : State K V} n, s.WellFormed env → I s → I (p.maxSize s n)
  maxMemory : ∀ (s : State K V) n, I s → I { s with settings := { s.settings with maxMemory := n } }

structure Policy.Keeps [DecidableEq K] (env : Env K V) (p : Policy K V)
    (I : State K V → Prop) : Prop extends p.KeepsAside env I, p.KeepsRoom env I where
  stamped : ∀ (s : State K V) i expiryNs, I s →
    I (s.modify i fun item => { item with expiryNs := expiryNs })

namespace Policy.KeepsCalm

variable [DecidableEq K]

section Operations

variable (h : p.KeepsCalm env I) (laws : p.Laws env) (wf : s.WellFormed env) (holds : I s)

include h holds

theorem cleanup : I s.cleanupPendingDeletion := h.noted (.cleanup s) holds

theorem cleanupIf (b : Bool) : I (cleanupIf b s) := h.noted (.cleanupIf b s) holds

theorem findAndPin (key : K) : I (s.findAndPin env key).2 := by
  rw [State.findAndPin]
  split
  · exact holds
  · split
    · exact h.counted s _ _ holds
    · exact holds

theorem checkExpiry (i : ItemId) (key : K) (nowNs : Nat) (held : Bool) :
    I (s.checkExpiry i key nowNs held).2 := by
  rw [State.checkExpiry]
  split
  · exact holds
  · have released : ∀ u, Noted s u → I (if held then u.decRef i else u) := by
      intro u note
      split
      · exact h.counted u i (· - 1) (h.noted note holds)
      · exact h.noted note holds
    simp only
    split
    · exact h.noted ⟨_, _, _, _, _, rfl, rfl⟩ holds
    · exact h.noted (.collect _) (h.noted .modifyStats (released _ ⟨_, _, _, _, _, rfl, rfl⟩))

theorem peekForGet (key : K) (nowNs : Nat) : I (s.peekForGet env key nowNs).2 := by
  have pinned := h.findAndPin holds key
  rw [State.peekForGet]
  split
  case h_1 found => exact found ▸ pinned
  case h_2 i u found =>
    rw [found] at pinned
    have checked := h.checkExpiry pinned i key nowNs true
    split
    case h_1 v expired =>
      rw [expired] at checked
      exact checked
    case h_2 v alive =>
      rw [alive] at checked
      exact checked

theorem contains {key : K} {nowNs : Nat} : I (s.contains env key nowNs).2 := by
  rw [State.contains]
  split
  · exact holds
  · exact h.checkExpiry holds _ key nowNs false

include wf

theorem promote {key : K} : I (p.promote env s key sec).2 := by
  rw [Policy.promote]
  split
  · exact holds
  case h_2 i found => exact h.accessed .read sec wf ((find_eq_some_iff wf).mp found).1 holds

include laws in
theorem get {key : K} : I (p.get env s key sec).2 := by
  rw [Policy.get]
  split
  · exact h.noted (.collect _) (h.noted .modifyStats holds)
  case h_2 i found =>
    have hi := ((find_eq_some_iff wf).mp found).1
    have accessed := laws.recordAccess .read sec wf hi
    have looked := h.afterGet i accessed.wf (h.accessed .read sec wf hi holds)
    simp only
    split
    · exact h.counted _ _ _ (h.noted (.collect _) (h.noted .modifyStats looked))
    · exact h.noted (.collect _) (h.noted .modifyStats looked)

end Operations

section Erasures

variable (h : p.KeepsCalm env I)
  (erases : ∀ {s : State K V} {count : Stats → Stats} (event : K → V → Event K V) (key : K),
    s.WellFormed env → (∀ x, (count x).currentMemory = x.currentMemory) → I s →
    I (p.erase env s count event key))
  (indexed : ∀ (s : State K V) ttlIndex, I s → I { s with ttlIndex := ttlIndex })
  (laws : p.Laws env) (wf : s.WellFormed env) (holds : I s)

include h holds

include erases wf in
theorem del (key : K) : I (p.del env s key).2 := by
  have clean := Rearranges.cleanup wf
  have kept := h.cleanup holds
  rw [Policy.del]
  split
  · exact kept
  · split
    · exact kept
    · exact erases .evict key clean.wf (fun _ => rfl) kept

omit h [DecidableEq K] in
include indexed in
theorem ttlIndexPush {key : K} : I (s.ttlIndexPush liveCount key expiryNs) := by
  obtain ⟨l, pushed⟩ := ttlIndexPush_eq
  rw [pushed]
  exact indexed s l holds

include erases indexed laws wf

omit h in
theorem sweepLoop (nowNs budget fuel evicted : Nat) (deferred : List (Nat × K)) :
    I (p.sweepLoop env nowNs budget fuel s evicted deferred).1 := by
  induction fuel generalizing s evicted deferred with
  | zero => exact holds
  | succ fuel ih =>
    rw [sweepLoop]
    split
    · exact holds
    split
    · exact holds
    case h_2 expiryNs key rest _ =>
      split
      · exact holds
      · have popped := indexed s rest holds
        have same : State.WellFormed env { s with ttlIndex := rest } := wf
        simp only
        split
        · exact ih same popped _ _
        · exact ih same popped _ _
        · exact ih same popped _ _
        · have erased : Shrinks env { s with ttlIndex := rest }
              (p.eraseExpiredImpl env { s with ttlIndex := rest } key) :=
            laws.erase_shrinks same (fun _ => rfl) fun _ _ => rfl
          exact ih erased.wf (erases .expire key same (fun _ => rfl) popped) _ _

theorem evictExpiredN (nowNs batchSize : Nat) : I (p.evictExpiredN env s nowNs batchSize).2 := by
  have clean := Laws.cleanupIf_rearranges p.cleanupOnSweep wf
  exact indexed _ _ (sweepLoop erases indexed laws clean.wf (h.cleanupIf holds _) _ _ _ _ _)

end Erasures

section Taking

variable (h : p.KeepsCalm env I) (laws : p.Laws env) (wf : s.WellFormed env) (holds : I s)

include h wf holds

section

variable (takes : ∀ {s : State K V} {key i}, s.WellFormed env → s.find env key = some i → I s →
    I (p.takeOut env s key i))

include takes

theorem forceDel {key : K} : I (p.forceDel env s key).2 := by
  have clean := Rearranges.cleanup wf
  have kept := h.cleanup holds
  rw [Policy.forceDel]
  split
  · exact kept
  case h_2 i found =>
    have taken := takes clean.wf found kept
    split
    · split
      · exact h.noted ⟨_, _, _, _, _, rfl, rfl⟩ kept
      · exact h.noted ⟨_, _, _, _, _, rfl, rfl⟩ taken
    · exact h.noted (.trans (.collect _) .retire) taken

theorem pop {key : K} : I (p.pop env s key).2 := by
  have clean := Laws.cleanupIf_rearranges p.cleanupOnPop wf
  have kept := h.cleanupIf holds p.cleanupOnPop
  rw [Policy.pop]
  split
  · exact kept
  case h_2 i found =>
    split
    · exact kept
    · exact h.noted .retire (takes clean.wf found kept)

end

include laws in
theorem popLru (pops : ∀ {s : State K V} {i}, s.WellFormed env → i ∈ s.table →
    env.movedKey (s.heap i).key = (s.heap i).key → I s → I (p.popItem env s i))
    (stable : ∀ i, p.popTail s = some i →
    env.movedKey (s.heap i).key = (s.heap i).key) : I (p.popLru env s).2 := by
  have clean := Rearranges.cleanup wf
  have kept := h.cleanup holds
  rw [Policy.popLru]
  split
  · exact kept
  case h_2 i isTail =>
    have key := stable i ((laws.popTail_cleanup s).symm.trans isTail)
    rw [← cleanup_heap s] at key
    split
    · exact kept
    · exact pops clean.wf (laws.popTail clean.wf isTail).1 key kept

end Taking

end Policy.KeepsCalm

namespace Policy.KeepsRoom

variable [DecidableEq K] {key : K} {i : ItemId}

section Operations

variable (h : p.KeepsRoom env I) (laws : p.Laws env) (wf : s.WellFormed env) (holds : I s)

include h holds wf

theorem add {value : V} : I (p.add env s key value sec).2 := by
  have clean := Laws.cleanupIf_rearranges p.cleanupOnSet wf
  have kept := h.cleanupIf holds p.cleanupOnSet
  rw [Policy.add]
  split
  case h_1 absent => exact h.insertNew value 0 sec clean.wf absent kept
  case h_2 i found =>
    exact h.accessed .read sec clean.wf ((find_eq_some_iff clean.wf).mp found).1 kept

include laws

theorem shrinkToFit : I (p.shrinkToFit s) := laws.eviction.evictWhile_keeps h.evict _ wf holds

theorem updateExisting (hi : i ∈ s.table) (value : V) (sec : Nat) :
    I (p.updateExisting env s i value sec) := by
  have stored := h.stored value sec wf hi holds
  have after := laws.storeValue_rearranges wf value sec hi
  rw [Policy.updateExisting]
  split
  · have quiet := Policy.Laws.collectUpdate_quiet (p.storeValue env s i value sec) i
    exact h.shrinkToFit laws (quiet.wf after.wf) (h.noted (.collect _) stored)
  · exact h.noted (.collect _) (h.shrinkToFit laws after.wf stored)

theorem set {value : V} : I (p.set env s key value sec) := by
  have clean := Laws.cleanupIf_rearranges p.cleanupOnSet wf
  have kept := h.cleanupIf holds p.cleanupOnSet
  rw [Policy.set]
  split
  case h_1 absent => exact h.insertNew value 0 sec clean.wf absent kept
  case h_2 i found =>
    exact h.updateExisting laws clean.wf kept ((find_eq_some_iff clean.wf).mp found).1 value sec

theorem replace {value : V} : I (p.replace env s key value sec).2 := by
  have clean := Laws.cleanupIf_rearranges p.cleanupOnReplace wf
  have kept := h.cleanupIf holds p.cleanupOnReplace
  rw [Policy.replace]
  split
  · exact kept
  case h_2 i found =>
    exact h.updateExisting laws clean.wf kept ((find_eq_some_iff clean.wf).mp found).1 value sec

end Operations

end Policy.KeepsRoom

theorem Policy.Keeps.setWithExpiry [DecidableEq K] (h : p.Keeps env I) (laws : p.Laws env)
    (wf : s.WellFormed env) (holds : I s) {key : K} {value : V} :
    I (p.setWithExpiry env s key value expiryNs sec) := by
  rw [Policy.setWithExpiry]
  split
  case h_1 absent => exact h.insertNew value expiryNs sec wf absent holds
  case h_2 i found =>
    have updated := h.updateExisting laws wf holds ((find_eq_some_iff wf).mp found).1 value sec
    have stamped := h.stamped _ i expiryNs updated
    split
    · exact stamped
    · exact KeepsCalm.ttlIndexPush h.indexed stamped

/-! ## Properties of the lists -/

/-- The parts of a strategy keep a property of the lists and the cursor. -/
structure Policy.KeepsLists [DecidableEq K] (env : Env K V) (p : Policy K V)
    (I : State K V → Prop) : Prop where
  framed : ∀ {s t : State K V}, I s → t.queue = s.queue → t.unpinnedTail = s.unpinnedTail → I t
  accessed : ∀ {s : State K V} {i} mode sec, s.WellFormed env → i ∈ s.table → I s →
    I (p.recordAccess s i mode sec).2
  afterGet : ∀ {s : State K V} i, s.WellFormed env → I s → I (p.afterGet s i)
  evict : ∀ {s : State K V}, s.WellFormed env → I s → I (p.evict s)
  insertNew : ∀ {s : State K V} {key} value expiryNs sec, s.WellFormed env →
    s.find env key = none → I s → I (p.insertNew s key value expiryNs sec)
  removeErased : ∀ {s : State K V} {i}, (s.heap i).linked = true → I s → I (p.removeErased s i)
  removeForced : ∀ {s : State K V} {i}, (s.heap i).linked = true → I s → I (p.removeForced s i)
  flush : ∀ {s : State K V}, s.WellFormed env → I s → I (p.flush env s)
  beforeResize : ∀ {s : State K V} n, I s → I (p.beforeResize s n)
  afterResize : ∀ {s : State K V}, I s → I (p.afterResize s)
  reconfigure : ∀ {s : State K V} sec, s.WellFormed env → I s → I (p.reconfigure s sec)

namespace Policy.KeepsLists

variable [DecidableEq K]

theorem noted (h : p.KeepsLists env I) (note : Noted s t) (holds : I s) : I t := by
  obtain ⟨_, _, _, _, _, rfl, -⟩ := note
  exact h.framed holds rfl rfl

theorem stored (h : p.KeepsLists env I) {i : ItemId} (value : V) (sec : Nat)
    (wf : s.WellFormed env) (hi : i ∈ s.table) (holds : I s) :
    I (p.storeValue env s i value sec) := by
  have written : I (s.modify i fun item => { item with value := value }) := h.framed holds rfl rfl
  have accessed := h.accessed .write sec (WellFormed.write (.value value) wf) hi written
  rw [storeValue, adjustMemory]
  split
  · exact h.framed accessed rfl rfl
  · split
    · exact h.framed accessed rfl rfl
    · exact accessed

theorem erase (h : p.KeepsLists env I) (count : Stats → Stats) (event : K → V → Event K V) (key : K)
    (wf : s.WellFormed env) (holds : I s) : I (p.erase env s count event key) := by
  rw [Policy.erase]
  split
  · exact holds
  · split
    · exact holds
    case h_2 i found _ =>
      have linked := linked_of_mem wf ((find_eq_some_iff wf).mp found).1
      have counted : I ((s.subMemory (s.itemMemory env i)).modifyStats count) :=
        h.framed holds rfl rfl
      have collected := h.noted (.collect (event (s.heap i).key (s.heap i).value)) counted
      refine h.noted (.trans .retire .storeSize) (h.removeErased ?_ ?_)
      · rw [eraseKey, collect_heap]
        exact linked
      · exact h.framed collected rfl rfl

theorem keeps (h : p.KeepsLists env I) (laws : p.Laws env) : p.Keeps env I where
  noted note := h.noted note
  configured _ _ _ _ holds := h.framed holds rfl rfl
  indexed _ _ holds := h.framed holds rfl rfl
  counted _ _ _ holds := h.framed holds rfl rfl
  stamped _ _ _ holds := h.framed holds rfl rfl
  stored := h.stored
  accessed := h.accessed
  afterGet := h.afterGet
  evict := h.evict
  insertNew := h.insertNew
  erase event key wf _ := h.erase _ event key wf
  takeOut {s key i} wf found holds := by
    have linked : ((s.eraseKey env key).heap i).linked = true :=
      wf.linked i ((find_eq_some_iff wf).mp found).1
    have erased : I (s.eraseKey env key) := h.framed holds rfl rfl
    exact h.framed (h.removeForced linked erased) rfl rfl
  popItem {s i} wf hi _ holds := by
    refine h.noted (.trans .retire .storeSize) (h.removeForced ?_ ?_)
    · simpa [State.eraseKey, State.subMemory, State.modifyStats, State.modify] using
        linked_of_mem wf hi
    · exact h.framed holds rfl rfl
  flush := h.flush
  maxSize {s} n wf holds := by
    refine h.afterResize ?_
    have limited : I { s with settings := { s.settings with maxSize := n } } :=
      h.framed holds rfl rfl
    split
    · exact limited
    · have quiet := laws.beforeResize { s with settings := { s.settings with maxSize := n } } n
      exact laws.eviction.evictWhile_keeps h.evict _ (quiet.wf wf) (h.beforeResize n limited)
  maxMemory _ _ holds := h.framed holds rfl rfl
  setConfig {s} config sec wf holds := by
    have configured : I { s with settings := { s.settings with config := config } } :=
      h.framed holds rfl rfl
    exact h.reconfigure sec wf configured

end Policy.KeepsLists

/-! ## Steps and runs -/

def Op.setsSizes : Op K V → Bool
  | .setSizeCalculators .. => true
  | _ => false

def Op.makesRoom : Op K V → Bool
  | .set .. | .setWithExpiry .. | .add .. | .replace .. | .evict | .maxSize _ | .maxMemory _ => true
  | _ => false

/-- The call removes items on request or by their age. -/
def Op.removes : Op K V → Bool
  | .del _ | .forceDel _ | .pop _ | .popLru | .flush | .evictExpiredN .. => true
  | _ => false

def Op.stamps : Op K V → Bool
  | .setWithExpiry .. => true
  | _ => false

namespace Strategy

variable [DecidableEq K] {strategy : Strategy} {op : Op K V}

/-- An operation that neither removes items nor makes room, but a change of the size
calculators, keeps what the other parts keep. -/
theorem step_keepsCalm (h : (strategy.policy env).KeepsCalm env I) (wf : s.WellFormed env)
    (fixed : op.setsSizes = false) (aside : op.makesRoom = false) (stays : op.removes = false)
    (taken : strategy.step env s op = some t) (holds : I s) : I t := by
  have laws := strategy.laws env
  cases op with try cases taken
  | set _ _ _ | setWithExpiry _ _ _ _ | add _ _ _ | replace _ _ _ | evict | maxSize _
  | maxMemory _ => cases aside
  | setSizeCalculators _ _ => cases fixed
  | del _ | forceDel _ | pop _ | popLru | flush | evictExpiredN _ _ => cases stays
  | get key sec => exact h.get laws wf holds
  | peek key => exact h.findAndPin holds key
  | peekForGet key nowNs => exact h.peekForGet holds key nowNs
  | contains key nowNs => exact h.contains holds
  | promote key sec => exact h.promote wf holds
  | release i =>
    obtain ⟨-, rfl⟩ := Transition.of_guarded taken
    exact h.counted s i (· - 1) holds
  | setConfig config sec => exact h.setConfig config sec wf holds
  | setCallbacks callbacks => exact h.configured s callbacks _ _ holds
  | setEvictionPredicate pred => exact h.configured s _ pred _ holds
  | noteEvictionRejected key value => exact h.noted (.collect _) (h.noted .modifyStats holds)
  | rehash bucketOf hashTable =>
    have counted : Noted s { s with hashTable := hashTable } := ⟨_, _, _, _, _, rfl, rfl⟩
    exact h.configured _ _ _ bucketOf (h.noted counted holds)

/-- Every operation that makes no room, but a change of the size calculators, keeps what
the other parts keep. -/
theorem step_keepsAside (h : (strategy.policy env).KeepsAside env I) (wf : s.WellFormed env)
    (allowed : strategy.PopsStable env s op) (fixed : op.setsSizes = false)
    (aside : op.makesRoom = false) (taken : strategy.step env s op = some t) (holds : I s) :
    I t := by
  have laws := strategy.laws env
  cases stays : op.removes with
  | false => exact step_keepsCalm h.toKeepsCalm wf fixed aside stays taken holds
  | true =>
    cases op with try cases taken
    | del key => exact h.del h.erase wf holds key
    | forceDel key => exact h.forceDel wf holds h.takeOut
    | pop key => exact h.pop wf holds h.takeOut
    | popLru =>
      obtain ⟨-, rfl⟩ := Transition.of_guarded taken
      exact h.popLru laws wf holds h.popItem (allowed rfl)
    | flush => exact h.flush wf holds
    | evictExpiredN nowNs batchSize =>
      exact h.evictExpiredN h.erase h.indexed laws wf holds nowNs batchSize
    | _ => cases stays

/-- An operation that makes room, but for a write with an expiry, keeps what the parts
that make room keep. -/
theorem step_keepsRoom (h : (strategy.policy env).KeepsRoom env I) (wf : s.WellFormed env)
    (room : op.makesRoom = true) (plain : op.stamps = false)
    (taken : strategy.step env s op = some t) (holds : I s) : I t := by
  have laws := strategy.laws env
  cases op with try cases taken
  | set key value sec => exact h.set laws wf holds
  | setWithExpiry _ _ _ _ => cases plain
  | add key value sec => exact h.add wf holds
  | replace key value sec => exact h.replace laws wf holds
  | evict => exact h.evict wf holds
  | maxSize newMax => exact h.maxSize newMax wf holds
  | maxMemory newMax =>
    have limited := h.maxMemory s newMax holds
    rw [maxMemory]
    split
    · exact limited
    · exact h.shrinkToFit laws wf limited
  | _ => cases room

/-- Every operation but a change of the size calculators keeps what the parts keep. -/
theorem step_keeps (h : (strategy.policy env).Keeps env I) (wf : s.WellFormed env)
    (allowed : strategy.PopsStable env s op) (fixed : op.setsSizes = false)
    (taken : strategy.step env s op = some t) (holds : I s) : I t := by
  cases room : op.makesRoom with
  | false => exact step_keepsAside h.toKeepsAside wf allowed fixed room taken holds
  | true =>
    cases plain : op.stamps with
    | false => exact step_keepsRoom h.toKeepsRoom wf room plain taken holds
    | true =>
      cases op with
      | setWithExpiry key value expiryNs sec =>
        cases taken
        exact h.setWithExpiry (strategy.laws env) wf holds
      | _ => cases plain

/-- An invariant that does not depend on the size calculators holds in every reachable
state. -/
theorem Reachable.keeps (h : (strategy.policy env).Keeps env I)
    (sized : ∀ (s : State K V) keySizeFn valueSizeFn, I s → I { s with settings :=
      { s.settings with keySizeFn := keySizeFn, valueSizeFn := valueSizeFn } })
    (start : ∀ memory settings sketch sec, I (State.empty memory settings sketch sec))
    (reachable : strategy.Reachable env s) : I s := by
  obtain ⟨memory, settings, sketch, sec, reached⟩ := reachable
  have both := reached.invariant (P := fun s => s.WellFormed env ∧ I s)
    ⟨empty_wf memory settings sketch sec, start memory settings sketch sec⟩ ?_
  · exact both.2
  rintro s op t ⟨wf, holds⟩ allowed taken
  refine ⟨step_wf wf allowed taken, ?_⟩
  cases fixed : op.setsSizes with
  | false => exact step_keeps h wf allowed fixed taken holds
  | true =>
    cases op with
    | setSizeCalculators keySizeFn valueSizeFn =>
      cases taken
      exact sized s keySizeFn valueSizeFn holds
    | _ => cases fixed

/-- A property of the lists that holds at the start holds in every reachable state. -/
theorem Reachable.keepsLists (h : (strategy.policy env).KeepsLists env I)
    (start : ∀ memory settings sketch sec, I (State.empty memory settings sketch sec))
    (reachable : strategy.Reachable env s) : I s :=
  reachable.keeps (h.keeps (strategy.laws env)) (fun _ _ _ holds => h.framed holds rfl rfl) start

end Strategy

end Lru.Mm
