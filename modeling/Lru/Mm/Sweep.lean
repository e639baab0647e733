import Lru.Mm.ExpiryIndex
import Lru.Mm.PopLru

/-!
# The expiry sweep

The loop takes the earliest entry of the index, drops it if it is stale, puts it aside if its
item is pinned and erases the item otherwise. What carries the induction is `Sweeping`: each
item with an expiry has its entry in the index or, if it is pinned, among those put aside.
-/

namespace Lru.Mm

variable {K V : Type} {env : Env K V} {s t u : State K V} {i : ItemId} {nowNs budget evicted : Nat}
  {removed : List ItemId} {before : List (Event K V)} {l : List (Nat × K)}

open State Policy List

namespace State

/-- The linked items without a handle whose expiry has come. -/
def dueItems (s : State K V) (nowNs : Nat) : List ItemId :=
  s.table.filter fun i => !(s.heap i).hasActiveHandle &&
    (decide (0 < (s.heap i).expiryNs) && decide ((s.heap i).expiryNs ≤ nowNs))

/-- What the sweep collects for the items that it removes. -/
def expireEvents (s : State K V) (removed : List ItemId) : List (Event K V) :=
  if s.settings.callbacks.expire then
    removed.map fun i => .expire (s.heap i).key (s.heap i).value
  else []

theorem mem_dueItems : i ∈ s.dueItems nowNs ↔ i ∈ s.table ∧ (s.heap i).hasActiveHandle = false ∧
    0 < (s.heap i).expiryNs ∧ (s.heap i).expiryNs ≤ nowNs := by
  simp [dueItems]

end State

/-- The items `removed`, in this order, left the cache because they expired. The events are
those that follow `before`. -/
structure Expires (env : Env K V) (nowNs : Nat) (before : List (Event K V)) (s t : State K V)
    (removed : List ItemId) : Prop extends Shrinks env s t where
  nodup : removed.Nodup
  due : ∀ i ∈ removed, i ∈ s.dueItems nowNs
  kept : ∀ i ∈ s.table, i ∈ t.table ↔ i ∉ removed
  ordered : removed.Pairwise fun i j => (s.heap i).expiryNs ≤ (s.heap j).expiryNs
  earliest : ∀ i ∈ removed, ∀ j ∈ t.dueItems nowNs, (s.heap i).expiryNs ≤ (s.heap j).expiryNs
  events_eq : t.events = before ++ s.expireEvents removed
  evictions_eq : t.stats.evictions = s.stats.evictions
  capacity_eq : t.stats.evictionsCapacity = s.stats.evictionsCapacity
  ttl_eq : t.stats.evictionsTtl = s.stats.evictionsTtl + removed.length
  expired_eq : t.stats.ttlExpiredCount = s.stats.ttlExpiredCount + removed.length

theorem Shrinks.dueItems (h : Shrinks env s t) (hi : i ∈ t.table) :
    i ∈ t.dueItems nowNs ↔ i ∈ s.dueItems nowNs := by
  obtain ⟨-, -, expiry, count⟩ := Body.content_eq_iff.mp (h.content i hi)
  simp [mem_dueItems, Body.hasActiveHandle, hi, h.mem i hi, expiry, count]

namespace Expires

theorem refl (wf : s.WellFormed env) : Expires env nowNs s.events s s [] where
  toShrinks := .refl wf
  nodup := nodup_nil
  due _ hi := absurd hi not_mem_nil
  kept _ hi := by simp [hi]
  ordered := List.Pairwise.nil
  earliest _ hi := absurd hi not_mem_nil
  events_eq := by simp [expireEvents]
  evictions_eq := rfl
  capacity_eq := rfl
  ttl_eq := rfl
  expired_eq := rfl

/-- The due items are those removed and those still due. -/
theorem length_eq (wf : s.WellFormed env)
    (h : Expires env nowNs before s t removed) :
    (s.dueItems nowNs).length = removed.length + (t.dueItems nowNs).length := by
  rw [← length_append]
  refine List.Perm.length_eq ((perm_ext_iff_of_nodup ?_ ?_).mpr fun i => ?_)
  · exact (wf.table_nodup).filter _
  · refine h.nodup.append ((h.wf.table_nodup).filter _) fun i gone still => ?_
    have hi := (mem_dueItems.mp still).1
    exact (h.kept i (h.mem i hi)).mp hi gone
  · rw [mem_append]
    constructor
    · intro dueBefore
      by_cases gone : i ∈ removed
      · exact .inl gone
      · have hi := (h.kept i (mem_dueItems.mp dueBefore).1).mpr gone
        exact .inr ((h.toShrinks.dueItems hi).mpr dueBefore)
    · rintro (gone | still)
      · exact h.due i gone
      · exact (h.toShrinks.dueItems (mem_dueItems.mp still).1).mp still

/-- Only the items, the settings and the counters of the first state matter. -/
theorem rebase
    (h : Expires env nowNs before u t removed) (shrinks : Shrinks env s u) (heap : u.heap = s.heap)
    (table : u.table = s.table) (stats : u.stats = s.stats) :
    Expires env nowNs before s t removed := by
  have sameDue : u.dueItems nowNs = s.dueItems nowNs := by rw [dueItems, heap, table]; rfl
  have sameEvents : u.expireEvents removed = s.expireEvents removed := by
    rw [expireEvents, heap, shrinks.settings_eq]
    rfl
  refine ⟨shrinks.trans h.toShrinks, h.nodup, sameDue ▸ h.due, table ▸ h.kept, heap ▸ h.ordered,
    heap ▸ h.earliest, sameEvents ▸ h.events_eq, stats ▸ h.evictions_eq, stats ▸ h.capacity_eq,
    stats ▸ h.ttl_eq, stats ▸ h.expired_eq⟩

/-- The index of the last state does not matter either. -/
theorem reindex
    (h : Expires env nowNs before s t removed) :
    Expires env nowNs before s { t with ttlIndex := l } removed :=
  ⟨⟨h.wf, h.mem, h.content, h.next_eq, h.settings_eq, h.failed_eq, h.rejects_eq⟩, h.nodup, h.due,
    h.kept, h.ordered, h.earliest, h.events_eq, h.evictions_eq, h.capacity_eq, h.ttl_eq,
    h.expired_eq⟩

end Expires

/-! ## One item -/

/-- Item `i` left and was counted and reported as expired. -/
structure ExpiresOne (env : Env K V) (s t : State K V) (i : ItemId) : Prop extends
    Removes env s t i where
  index_eq : t.ttlIndex = s.ttlIndex
  events_eq : t.events = s.events ++ s.expireEvents [i]
  evictions_eq : t.stats.evictions = s.stats.evictions
  capacity_eq : t.stats.evictionsCapacity = s.stats.evictionsCapacity
  ttl_eq : t.stats.evictionsTtl = s.stats.evictionsTtl + 1
  expired_eq : t.stats.ttlExpiredCount = s.stats.ttlExpiredCount + 1

theorem Policy.Frames.eraseExpired [DecidableEq K] {p : Policy K V} {erased forced flushed : Bool}
    {key : K} (frames : p.Frames env erased forced flushed) (laws : p.Laws env)
    (wf : s.WellFormed env) (found : s.find env key = some i)
    (free : (s.heap i).hasActiveHandle = false) :
    ExpiresOne env s (p.eraseExpiredImpl env s key) i := by
  have unheld : ¬ (p.rechecksHandle && (s.heap i).hasActiveHandle) = true := by simp [free]
  have removed : Removes env s (p.eraseExpiredImpl env s key) i :=
    laws.erase_removes wf (fun _ => rfl) (fun _ _ => rfl) found unheld
  have hi := ((find_eq_some_iff wf).mp found).1
  let counted := (s.subMemory (s.itemMemory env i)).modifyStats fun x =>
    { x with ttlExpiredCount := x.ttlExpiredCount + 1, evictionsTtl := x.evictionsTtl + 1 }
  let collected := counted.collect (.expire (s.heap i).key (s.heap i).value)
  let left := p.removeErased (collected.eraseKey env key) i
  have freed : Frees erased (collected.eraseKey env key) left i := by
    refine frames.removeErased ?_
    simpa [collected, counted, eraseKey, subMemory, modifyStats] using
      linked_of_mem wf hi
  have result : p.eraseExpiredImpl env s key =
      (left.retire i).storeSize (p.size (left.retire i)) := by
    simp only [Policy.eraseExpiredImpl, Policy.erase, found]
    rw [if_neg unheld]
  have stats : left.stats = counted.stats := freed.stats_eq.trans collect_stats
  refine ⟨removed, (frames.erase .expire wf).index_eq, ?_, ?_, ?_, ?_, ?_⟩
  · rw [result]
    refine freed.events_eq.trans ?_
    simp only [collected, eraseKey, collect, expireEvents]
    split <;> simp_all [counted, Callbacks.has, subMemory, modifyStats]
  all_goals
    rw [result]
    simp [storeSize, retire, modifyStats, stats, counted, subMemory]

/-- An item goes before those that expire later. -/
theorem Expires.cons (wf : s.WellFormed env) (first : ExpiresOne env s t i)
    (due : i ∈ s.dueItems nowNs)
    (least : ∀ j ∈ s.dueItems nowNs, (s.heap i).expiryNs ≤ (s.heap j).expiryNs)
    (rest : Expires env nowNs t.events t u removed) :
    Expires env nowNs s.events s u (i :: removed) := by
  have gone : i ∉ t.table := first.not_mem wf
  have dueBefore : ∀ j ∈ removed, j ∈ s.dueItems nowNs := fun j hj => by
    have later := rest.due j hj
    exact (first.toShrinks.dueItems (mem_dueItems.mp later).1).mp later
  have content := fun j hj => Body.content_eq_iff.mp (first.content j hj)
  have inTable : ∀ j ∈ removed, j ∈ t.table := fun j hj => (mem_dueItems.mp (rest.due j hj)).1
  have expiry : ∀ j ∈ removed, (t.heap j).expiryNs = (s.heap j).expiryNs := fun j hj =>
    (content j (inTable j hj)).2.2.1
  refine ⟨first.toShrinks.trans rest.toShrinks, ?_, ?_, ?_, ?_, ?_, ?_,
    rest.evictions_eq.trans first.evictions_eq, rest.capacity_eq.trans first.capacity_eq, ?_, ?_⟩
  · exact nodup_cons.mpr ⟨fun hi => gone (inTable i hi), rest.nodup⟩
  · rintro j (_ | ⟨_, hj⟩)
    · exact due
    · exact dueBefore j hj
  · intro j hj
    by_cases same : j = i
    · subst same
      exact iff_of_false (fun still => gone (rest.mem j still)) (by simp)
    · have hjt : j ∈ t.table := by
        rw [first.table_eq]
        exact (mem_erase_of_ne same).mpr hj
      rw [rest.kept j hjt, mem_cons, not_or, and_iff_right same]
  · refine pairwise_cons.mpr ⟨fun j hj => least j (dueBefore j hj), ?_⟩
    refine rest.ordered.imp_of_mem fun hj hk le => ?_
    rwa [expiry _ hj, expiry _ hk] at le
  · have later : ∀ j ∈ u.dueItems nowNs, j ∈ t.table := fun j hj =>
      rest.mem j (mem_dueItems.mp hj).1
    rintro j (_ | ⟨_, hj⟩) k hk
    · have stays := (mem_dueItems.mp hk).1
      exact least k (((first.toShrinks.trans rest.toShrinks).dueItems stays).mp hk)
    · rw [← expiry j hj, ← (content k (later k hk)).2.2.1]
      exact rest.earliest j hj k hk
  · rw [rest.events_eq, first.events_eq, append_assoc]
    congr 1
    simp only [expireEvents, first.settings_eq]
    split
    · refine congrArg _ (map_congr_left fun j hj => ?_)
      rw [(content j (inTable j hj)).1, (content j (inTable j hj)).2.1]
    · rfl
  · rw [rest.ttl_eq, first.ttl_eq, length_cons]
    omega
  · rw [rest.expired_eq, first.expired_eq, length_cons]
    omega

/-! ## The loop -/

theorem popEarliest_spec {rest : List (Nat × K)} {e : Nat × K}
    (popped : popEarliest l = some (e, rest)) : l.Perm (e :: rest) ∧ ∀ x ∈ l, e.1 ≤ x.1 := by
  rw [popEarliest] at popped
  split at popped
  · cases popped
  case h_2 least isLeast =>
    obtain ⟨x, found, taken⟩ := Option.map_eq_some_iff.mp popped
    obtain ⟨rfl, rfl⟩ := Prod.ext_iff.mp taken
    obtain ⟨same, front, back, rfl, others⟩ := find?_eq_some_iff_append.mp found
    obtain rfl : x.1 = least := by simpa using same
    refine ⟨?_, fun y hy => ?_⟩
    · rw [eraseP_append_right _ fun y hy => by simpa using others y hy,
        eraseP_cons_of_pos (by simp)]
      exact perm_middle
    · exact (min?_eq_some_iff.mp isLeast).2 _ (mem_map_of_mem hy)

theorem popEarliest_eq_none (empty : popEarliest l = none) : l = [] := by
  rw [popEarliest] at empty
  split at empty
  case h_1 none => simpa using none
  case h_2 least isLeast =>
    obtain ⟨x, hx, same⟩ := mem_map.mp (min?_eq_some_iff.mp isLeast).1
    have missing := find?_eq_none.mp (Option.map_eq_none_iff.mp empty) x hx
    simp [same] at missing

/-- The index in the middle of a sweep that put the entries `deferred` aside. -/
structure Sweeping (s : State K V) (deferred : List (Nat × K)) : Prop where
  complete : ∀ i ∈ s.table, 0 < (s.heap i).expiryNs →
    ((s.heap i).expiryNs, (s.heap i).key) ∈ s.ttlIndex ++ deferred
  positive : ∀ e ∈ s.ttlIndex ++ deferred, e.1 ≠ 0
  held : ∀ e ∈ deferred, ∀ i ∈ s.table, (s.heap i).key = e.2 → (s.heap i).hasActiveHandle = true

namespace Sweeping

variable {deferred rest : List (Nat × K)} {e : Nat × K}

theorem of_indexed (h : Indexed s) : Sweeping s [] where
  complete i hi timed := by
    rw [append_nil]
    exact h.complete i hi (Nat.ne_of_gt timed)
  positive e he := h.positive e (by rwa [append_nil] at he)
  held _ he := absurd he not_mem_nil

/-- The entry of an item that is due has not been put aside. -/
theorem mem_index (h : Sweeping s deferred) (due : i ∈ s.dueItems nowNs) :
    ((s.heap i).expiryNs, (s.heap i).key) ∈ s.ttlIndex := by
  obtain ⟨hi, free, timed, -⟩ := mem_dueItems.mp due
  refine (mem_append.mp (h.complete i hi timed)).resolve_right fun aside => ?_
  have held := h.held _ aside i hi rfl
  rw [free] at held
  cases held

/-- Nothing is due when the earliest entry is not. -/
theorem dueItems_eq_nil (h : Sweeping s deferred) (later : ∀ x ∈ s.ttlIndex, nowNs < x.1) :
    s.dueItems nowNs = [] := by
  refine eq_nil_iff_forall_not_mem.mpr fun i due => ?_
  have after := later _ (h.mem_index due)
  have notAfter := (mem_dueItems.mp due).2.2.2
  omega

/-- One round takes an entry, puts it aside if its item is pinned, and leaves no item with
this entry otherwise. -/
theorem round (later : List (Nat × K)) (h : Sweeping s deferred)
    (popped : s.ttlIndex.Perm (e :: rest)) (shrinks : Shrinks env s t) (index : t.ttlIndex = rest)
    (aside : ∀ x ∈ later, x = e)
    (caught : ∀ i ∈ t.table, ((s.heap i).expiryNs, (s.heap i).key) = e → e ∈ later)
    (held : ∀ i ∈ t.table, (s.heap i).key = e.2 → later = [] ∨ (s.heap i).hasActiveHandle = true) :
    Sweeping t (deferred ++ later) := by
  have content := fun i hi => Body.content_eq_iff.mp (shrinks.content i hi)
  refine ⟨fun i hi timed => ?_, fun x hx => ?_, fun x hx i hi hk => ?_⟩
  · obtain ⟨key, -, expiry, -⟩ := content i hi
    rw [key, expiry, index]
    rw [expiry] at timed
    by_cases same : ((s.heap i).expiryNs, (s.heap i).key) = e
    · have put := caught i hi same
      simp [same, put]
    · have listed := h.complete i (shrinks.mem i hi) timed
      simp only [mem_append, popped.mem_iff, mem_cons] at listed ⊢
      tauto
  · refine h.positive x ?_
    simp only [index, mem_append, popped.mem_iff, mem_cons] at hx ⊢
    have := aside x
    tauto
  · obtain ⟨key, -, -, count⟩ := content i hi
    rw [Body.hasActiveHandle, count]
    rw [key] at hk
    obtain old | new := mem_append.mp hx
    · exact h.held x old i (shrinks.mem i hi) hk
    · rw [aside x new] at hk
      exact (held i hi hk).resolve_left (ne_nil_of_mem new)

end Sweeping

/-- What the loop leaves: it went on until nothing was due or the budget was used up. -/
structure Swept (env : Env K V) (nowNs budget : Nat) (s : State K V) (evicted : Nat)
    (result : State K V × Nat × List (Nat × K)) (removed : List ItemId) : Prop where
  expires : Expires env nowNs s.events s result.1 removed
  count_eq : result.2.1 = evicted + removed.length
  sweeping : Sweeping result.1 result.2.2
  done : result.1.dueItems nowNs = [] ∨ budget ≠ 0 ∧ budget ≤ result.2.1
  bounded : budget ≠ 0 → evicted ≤ budget → result.2.1 ≤ budget

theorem Swept.stop {deferred : List (Nat × K)} (wf : s.WellFormed env)
    (sweeping : Sweeping s deferred)
    (done : s.dueItems nowNs = [] ∨ budget ≠ 0 ∧ budget ≤ evicted) :
    Swept env nowNs budget s evicted (s, evicted, deferred) [] :=
  ⟨.refl wf, rfl, sweeping, done, fun _ le => le⟩

theorem Swept.of_popped {rest : List (Nat × K)}
    {result : State K V × Nat × List (Nat × K)} (wf : s.WellFormed env)
    (h : Swept env nowNs budget { s with ttlIndex := rest } evicted result removed) :
    Swept env nowNs budget s evicted result removed :=
  ⟨h.expires.rebase ⟨wf, fun _ hi => hi, fun _ _ => rfl, rfl, rfl, rfl, rfl⟩ rfl rfl rfl,
    h.count_eq, h.sweeping, h.done, h.bounded⟩

variable [DecidableEq K] {p : Policy K V} {erased forced flushed : Bool}

/-- What each answer of the probe says about the items of the table. -/
structure Probed (env : Env K V) (s : State K V) (key : K) (expiryNs : Nat)
    (answer : Policy.ProbeResult) : Prop where
  dropped : answer = .absent ∨ answer = .stale →
    ∀ i ∈ s.table, ((s.heap i).expiryNs, (s.heap i).key) ≠ (expiryNs, key)
  pinned : answer = .pinned →
    ∀ i ∈ s.table, (s.heap i).key = key → (s.heap i).hasActiveHandle = true
  ready : answer = .ready →
    ∃ i, s.find env key = some i ∧ (s.heap i).expiryNs = expiryNs ∧
      (s.heap i).hasActiveHandle = false

theorem ttlProbeEntry_probed (key : K) (expiryNs : Nat) (wf : s.WellFormed env) :
    Probed env s key expiryNs (ttlProbeEntry env s key expiryNs) := by
  rw [ttlProbeEntry]
  cases found : s.find env key with
  | none =>
    refine ⟨fun _ i hi same => ?_, by simp, by simp⟩
    exact (find_eq_none_iff wf).mp found i hi (congrArg Prod.snd same)
  | some i =>
    obtain ⟨hi, hk⟩ := (find_eq_some_iff wf).mp found
    have only : ∀ j ∈ s.table, (s.heap j).key = key → j = i := fun j hj hkj =>
      wf.key_inj j hj i hi (hkj.trans hk.symm)
    simp only
    split
    case isTrue old =>
      refine ⟨fun _ j hj same => ?_, by simp, by simp⟩
      rw [only j hj (congrArg Prod.snd same)] at same
      exact (bne_iff_ne.mp old) (congrArg Prod.fst same)
    case isFalse current =>
    split
    case isTrue held =>
      refine ⟨by simp, fun _ j hj hkj => ?_, by simp⟩
      rw [only j hj hkj, held]
    case isFalse free =>
      exact ⟨by simp, by simp, fun _ => ⟨i, found, by simpa using current, by simpa using free⟩⟩

theorem sweepLoop_swept (frames : p.Frames env erased forced flushed) (laws : p.Laws env)
    (budget fuel evicted : Nat) (deferred : List (Nat × K)) (wf : s.WellFormed env)
    (sweeping : Sweeping s deferred) (enough : s.ttlIndex.length ≤ fuel) :
    ∃ removed, Swept env nowNs budget s evicted
      (p.sweepLoop env nowNs budget fuel s evicted deferred) removed := by
  induction fuel generalizing s evicted deferred with
  | zero =>
    have empty : s.ttlIndex = [] := eq_nil_of_length_eq_zero (Nat.le_zero.mp enough)
    exact ⟨[], .stop wf sweeping (.inl (sweeping.dueItems_eq_nil (by simp [empty])))⟩
  | succ fuel ih =>
    rw [sweepLoop]
    split
    case isTrue spent => exact ⟨[], .stop wf sweeping (.inr spent)⟩
    case isFalse unspent =>
    split
    case h_1 none =>
      have empty := popEarliest_eq_none none
      exact ⟨[], .stop wf sweeping (.inl (sweeping.dueItems_eq_nil (by simp [empty])))⟩
    case h_2 expiryNs key rest popped =>
    obtain ⟨perm, least⟩ := popEarliest_spec popped
    split
    case isTrue later =>
      refine ⟨[], .stop wf sweeping (.inl (sweeping.dueItems_eq_nil fun x hx => ?_))⟩
      exact Nat.lt_of_lt_of_le later (least x hx)
    case isFalse passed =>
    have shorter : rest.length ≤ fuel := by
      have := perm.length_eq
      simp only [length_cons] at this
      omega
    set u : State K V := { s with ttlIndex := rest }
    have same : u.WellFormed env := wf
    have unchanged : Shrinks env s u := ⟨wf, fun _ hi => hi, fun _ _ => rfl, rfl, rfl, rfl, rfl⟩
    have dropped : (∀ i ∈ s.table, ((s.heap i).expiryNs, (s.heap i).key) ≠ (expiryNs, key)) →
        Sweeping u deferred := fun none => by
      have kept := sweeping.round [] perm unchanged rfl (by simp)
        (fun i hi same => absurd same (none i hi)) fun _ _ _ => .inl rfl
      rwa [append_nil] at kept
    have goesOn : ∀ later, Sweeping u later → ∃ removed, Swept env nowNs budget s evicted
        (p.sweepLoop env nowNs budget fuel u evicted later) removed :=
      fun later kept => (ih evicted later same kept shorter).imp fun _ swept => swept.of_popped wf
    have probe := ttlProbeEntry_probed key expiryNs same
    simp only
    split
    case h_1 absent => exact goesOn _ (dropped (probe.dropped (.inl absent)))
    case h_2 stale => exact goesOn _ (dropped (probe.dropped (.inr stale)))
    case h_3 pinned =>
      have aside : Sweeping u (deferred ++ [(expiryNs, key)]) :=
        sweeping.round _ perm unchanged rfl (by simp) (fun _ _ _ => by simp) fun i hi hk =>
          .inr (probe.pinned pinned i hi hk)
      exact goesOn _ aside
    case h_4 ready =>
      obtain ⟨i, found, current, free⟩ := probe.ready ready
      obtain ⟨hi, hk⟩ := (find_eq_some_iff same).mp found
      have one := frames.eraseExpired laws same found free
      have positive : expiryNs ≠ 0 := sweeping.positive _
        (mem_append_left _ (perm.mem_iff.mpr mem_cons_self))
      have due : i ∈ u.dueItems nowNs := by
        refine mem_dueItems.mpr ⟨hi, free, ?_, ?_⟩ <;> rw [current] <;> omega
      have kept : Sweeping (p.eraseExpiredImpl env u key) deferred := by
        have round := sweeping.round [] perm (unchanged.trans one.toShrinks)
          one.index_eq (by simp) (fun j hj same => ?_) fun _ _ _ => .inl rfl
        · rwa [append_nil] at round
        · obtain rfl := wf.key_inj j (one.mem j hj) i hi
            ((congrArg Prod.snd same).trans hk.symm)
          exact absurd hj (one.not_mem wf)
      obtain ⟨removed, swept⟩ := ih (evicted + 1) deferred one.wf kept
        (by rw [one.index_eq]; exact shorter)
      have first : ∀ j ∈ s.dueItems nowNs, (s.heap i).expiryNs ≤ (s.heap j).expiryNs :=
        fun j hj => current.le.trans (least _ (sweeping.mem_index hj))
      have whole : Swept env nowNs budget u evicted
          (p.sweepLoop env nowNs budget fuel (p.eraseExpiredImpl env u key) (evicted + 1) deferred)
          (i :: removed) := by
        refine ⟨.cons same one due first swept.expires, ?_, swept.sweeping, swept.done, ?_⟩
        · rw [swept.count_eq, length_cons]
          omega
        · intro bounded le
          refine swept.bounded bounded ?_
          omega
      exact ⟨i :: removed, whole.of_popped wf⟩

/-! ## Runs -/

omit [DecidableEq K] in
theorem cleanupIf_same (b : Bool) (s : State K V) :
    (cleanupIf b s).heap = s.heap ∧ (cleanupIf b s).table = s.table ∧
      (cleanupIf b s).stats = s.stats := by
  rw [cleanupIf]
  split
  · exact ⟨cleanup_heap s, cleanup_table, cleanup_stats s⟩
  · exact ⟨rfl, rfl, rfl⟩

/-- The sweep of a strategy: it begins with the items that wait for their handles. -/
theorem evictExpiredN_swept (frames : p.Frames env erased forced flushed) (laws : p.Laws env)
    (nowNs batchSize : Nat) (wf : s.WellFormed env) (h : Indexed s) :
    ∃ removed, Swept env nowNs batchSize (cleanupIf p.cleanupOnSweep s) 0
      (p.sweepLoop env nowNs batchSize (cleanupIf p.cleanupOnSweep s).ttlIndex.length
        (cleanupIf p.cleanupOnSweep s) 0 []) removed := by
  have clean := Policy.Laws.cleanupIf_rearranges p.cleanupOnSweep wf
  have cleaned : Sheds true s _ := .cleanupIf p.cleanupOnSweep s
  exact sweepLoop_swept frames laws batchSize _ 0 [] clean.wf (.of_indexed (h.sheds cleaned))
    (Nat.le_refl _)

theorem evictExpiredN_indexed (frames : p.Frames env erased forced flushed) (laws : p.Laws env)
    {nowNs batchSize : Nat} (wf : s.WellFormed env) (h : Indexed s) :
    Indexed (p.evictExpiredN env s nowNs batchSize).2 := by
  obtain ⟨removed, swept⟩ := evictExpiredN_swept frames laws nowNs batchSize wf h
  exact ⟨fun i hi timed => swept.sweeping.complete i hi (Nat.pos_of_ne_zero timed),
    swept.sweeping.positive⟩

namespace Strategy

variable {strategy : Strategy}

theorem step_indexed {op : Op K V} (wf : s.WellFormed env)
    (allowed : strategy.PopsStable env s op) (taken : strategy.step env s op = some t)
    (h : Indexed s) : Indexed t := by
  have laws := strategy.laws env
  have frames := strategy.frames env
  have calm := ((indexed_closed env).keepsRoom strategy).toKeepsCalm
  cases op with
  | setSizeCalculators keySizeFn valueSizeFn => cases taken; exact ⟨h.complete, h.positive⟩
  | setWithExpiry key value expiryNs sec =>
    cases taken
    exact setWithExpiry_indexed wf h
  | del key =>
    cases taken
    exact calm.del (fun event _ wf _ h => h.sheds (frames.erase event wf)) wf h key
  | forceDel key =>
    cases taken
    exact calm.forceDel wf h (fun wf found h => h.sheds (frames.takeOut wf found))
  | pop key =>
    cases taken
    exact calm.pop wf h (fun wf found h => h.sheds (frames.takeOut wf found))
  | popLru =>
    obtain ⟨-, rfl⟩ := Transition.of_guarded taken
    exact calm.popLru laws wf h (fun wf hi key h => h.sheds (frames.popItem laws wf hi key))
      (allowed rfl)
  | flush => cases taken; exact h.sheds (frames.flush laws wf)
  | evictExpiredN nowNs batchSize =>
    cases taken
    exact evictExpiredN_indexed frames laws wf h
  | _ => exact (indexed_closed env).step wf rfl rfl rfl taken h

theorem Reachable.indexed (reachable : strategy.Reachable env s) : Indexed s := by
  obtain ⟨memory, settings, sketch, sec, reached⟩ := reachable
  have both := reached.invariant (P := fun s => s.WellFormed env ∧ Indexed s)
    ⟨empty_wf memory settings sketch sec, by simp [empty], by simp [empty]⟩ ?_
  · exact both.2
  rintro s op t ⟨wf, h⟩ allowed taken
  exact ⟨step_wf wf allowed taken, step_indexed wf allowed taken h⟩

/-- `evict_expired_n` removes the due items in the order of their expiry, up to the batch
size. The events of the items that it finds waiting for their handles come before. -/
structure SweepsDue (env : Env K V) (strategy : Strategy) (nowNs batchSize : Nat) (s : State K V)
    (removed : List ItemId) : Prop extends
    Expires env nowNs (Policy.cleanupIf (strategy.policy env).cleanupOnSweep s).events s
      ((strategy.policy env).evictExpiredN env s nowNs batchSize).2 removed where
  returned : ((strategy.policy env).evictExpiredN env s nowNs batchSize).1 = removed.length
  many : removed.length = if batchSize = 0 then (s.dueItems nowNs).length
    else min batchSize (s.dueItems nowNs).length

theorem exists_sweepsDue (nowNs batchSize : Nat) (wf : s.WellFormed env) (h : Indexed s) :
    ∃ removed, strategy.SweepsDue env nowNs batchSize s removed := by
  have clean := Policy.Laws.cleanupIf_rearranges (strategy.policy env).cleanupOnSweep wf
  obtain ⟨removed, swept⟩ :=
    evictExpiredN_swept (strategy.frames env) (strategy.laws env) nowNs batchSize wf h
  obtain ⟨heap, table, stats⟩ : _ ∧ _ ∧ _ := cleanupIf_same (strategy.policy env).cleanupOnSweep s
  have expires := swept.expires.rebase clean.toShrinks heap table stats
  have total := expires.length_eq wf
  have returned : ((strategy.policy env).evictExpiredN env s nowNs batchSize).1 =
      removed.length := swept.count_eq.trans (Nat.zero_add _)
  refine ⟨removed, ⟨expires.reindex, returned, ?_⟩⟩
  have atMost : batchSize ≠ 0 → removed.length ≤ batchSize := fun limited => by
    rw [← returned]
    exact swept.bounded limited (Nat.zero_le _)
  obtain none | ⟨limited, enough⟩ := swept.done
  · rw [none, length_nil] at total
    split
    · omega
    · have := atMost (by assumption)
      omega
  · have all : batchSize ≤ removed.length := returned ▸ enough
    have := atMost limited
    rw [if_neg limited]
    omega

/-- With room for all of them no due item is left. -/
theorem SweepsDue.not_mem {batchSize : Nat}
    (h : strategy.SweepsDue env nowNs batchSize s removed) (wf : s.WellFormed env)
    (enough : batchSize = 0 ∨ (s.dueItems nowNs).length ≤ batchSize)
    (due : i ∈ s.dueItems nowNs) :
    i ∉ ((strategy.policy env).evictExpiredN env s nowNs batchSize).2.table := by
  intro stays
  have still := length_pos_of_mem ((h.toShrinks.dueItems stays).mpr due)
  have total := h.length_eq wf
  have many := h.many
  split at many <;> omega

/-- The sweep over every run whose `pop_lru` calls met tails with stable keys: it removes
exactly the due items, the earliest first, and a later sweep removes those that were pinned. -/
theorem sweep_removes_due (reachable : strategy.Reachable env s) (nowNs batchSize : Nat) :
    (∃ removed, strategy.SweepsDue env nowNs batchSize s removed) ∧
      ∀ i ∈ s.table, (s.heap i).hasActiveHandle = true →
        i ∈ ((strategy.policy env).evictExpiredN env s nowNs batchSize).2.table ∧
          ∀ later nowNs' batchSize',
            Transition.Reaches (strategy.step env) (strategy.PopsStable env)
              ((strategy.policy env).evictExpiredN env s nowNs batchSize).2 later →
            i ∈ later.dueItems nowNs' →
            batchSize' = 0 ∨ (later.dueItems nowNs').length ≤ batchSize' →
            i ∉ ((strategy.policy env).evictExpiredN env later nowNs' batchSize').2.table := by
  have swept : ∃ removed, strategy.SweepsDue env nowNs batchSize s removed :=
    exists_sweepsDue nowNs batchSize reachable.wf reachable.indexed
  refine ⟨swept, fun i hi held => ⟨?_, ?_⟩⟩
  · obtain ⟨removed, sweeps⟩ := swept
    refine (sweeps.kept i hi).mpr fun gone => ?_
    have free := (mem_dueItems.mp (sweeps.due i gone)).2.1
    rw [held] at free
    cases free
  · intro later nowNs' batchSize' reached due enough
    have next : strategy.Reachable env later := by
      obtain ⟨memory, settings, sketch, sec, before⟩ := reachable
      refine ⟨memory, settings, sketch, sec, (before.tail ?_).trans reached⟩
      exact ⟨.evictExpiredN nowNs batchSize, by rintro ⟨⟩, rfl⟩
    obtain ⟨removed, sweeps⟩ : ∃ removed, strategy.SweepsDue env nowNs' batchSize' later removed :=
      exists_sweepsDue nowNs' batchSize' next.wf next.indexed
    exact sweeps.not_mem next.wf enough due

/-- `mm_lru` with two items that have expired at time 7, the earlier one pinned. -/
def expiringState : State Nat Nat :=
  (Transition.runWhere (mmLru.step intEnv) (fun _ op => !op.isPopLru)
    (empty (fun _ => default) {} {} 0)
    [.setWithExpiry 1 10 3 0, .setWithExpiry 2 20 5 0, .set 3 30 0, .peek 1]).getD
    (empty (fun _ => default) {} {} 0)

theorem expiringState_swept :
    expiringState.dueItems 7 = [1] ∧ (expiringState.heap 0).hasActiveHandle = true ∧
      ∃ removed, mmLru.SweepsDue intEnv 7 0 expiringState removed := by
  have reachable : mmLru.Reachable intEnv expiringState := Reachable.getD (by decide +kernel)
  exact ⟨by decide +kernel, by decide +kernel, (sweep_removes_due reachable 7 0).1⟩

/-- `mm_lru` with byte strings as keys and one bucket: an item with the empty key and an expiry,
moved to the head by a `get`, and a popped key whose node stays in the chain before it. -/
def shadowedState : State (List Nat) Nat :=
  (Transition.run (mmLru.step stringEnv) (empty (fun _ => default) {} {} 0)
    [.rehash fun _ => 0, .setWithExpiry [] 10 5 0, .set [71] 70 0, .get [] 1, .release 0,
      .popLru]).getD (empty (fun _ => default) {} {} 0)

/-- The probe of the expired item finds the node of the popped one and drops the entry. -/
theorem shadowed_item_not_swept :
    (Transition.run (mmLru.step stringEnv) (empty (fun _ => default) {} {} 0)
      [.rehash fun _ => 0, .setWithExpiry [] 10 5 0, .set [71] 70 0, .get [] 1, .release 0,
        .popLru]).isSome = true ∧
      shadowedState.queue 0 = [0] ∧ shadowedState.dueItems 7 = [0] ∧
      ((mmLru.policy stringEnv).evictExpiredN stringEnv shadowedState 7 0).1 = 0 ∧
      ¬ ∃ removed, mmLru.SweepsDue stringEnv 7 0 shadowedState removed := by
  have due : shadowedState.dueItems 7 = [0] := by decide +kernel
  have none : ((mmLru.policy stringEnv).evictExpiredN stringEnv shadowedState 7 0).1 = 0 := by
    decide +kernel
  refine ⟨by decide +kernel, by decide +kernel, due, none, ?_⟩
  rintro ⟨removed, sweeps⟩
  have many := sweeps.returned.trans sweeps.many
  cases many

end Strategy

end Lru.Mm
