import Lru.Mm.Billing
import Mathlib.Algebra.Order.BigOperators.Group.List
import Mathlib.Algebra.Order.Group.Nat

/-!
# The memory budget

`insert_new` evicts until the new item fits next to the others or nothing is left, and an
update evicts until the budget holds. Both loops stop on emptiness, so an item larger than
the budget is still admitted. Where nothing is pinned or vetoed an eviction always finds a
victim, and then the loops end because the budget holds.
-/

namespace Lru.Mm

variable {K V : Type} {env : Env K V} {s t : State K V} {key : K} {value : V} {L : State K V → Prop}
  {p : Policy K V} {strategy : Strategy} {sec expiryNs : Nat} {i : ItemId}

open State SizeT Policy Policy.Laws

/-! ## Weights -/

theorem sum_map_le_of_subset {α : Type*} {l l' : List α} (f : α → Nat) (nodup : l.Nodup)
    (subset : l ⊆ l') : (l.map f).sum ≤ (l'.map f).sum := by
  obtain ⟨m, perm, sublist⟩ := List.subperm_of_subset nodup subset
  rw [← (perm.map f).sum_eq]
  exact (sublist.map f).sum_le_sum fun _ _ => Nat.zero_le _

theorem weight_of_empty (wf : s.WellFormed env) (empty : s.table = []) : s.weight env = 0 := by
  rw [weight_eq_table wf, empty]
  rfl

theorem Shrinks.weight_le (h : Shrinks env s t) (wf : s.WellFormed env) :
    t.weight env ≤ s.weight env := by
  have same : t.table.map (t.itemMemory env) = t.table.map (s.itemMemory env) :=
    List.map_congr_left fun i hi => itemMemory_of_content h.settings_eq (h.content i hi)
  rw [weight_eq_table wf, weight_eq_table h.wf, same]
  exact sum_map_le_of_subset _ (h.wf.table_nodup) h.mem

theorem Inserts.itemMemory_new (h : Inserts env s t key value expiryNs) :
    t.itemMemory env s.next = s.settings.calcItemMemory env key value := by
  rw [itemMemory, h.settings_eq]
  exact congrArg (fun c => s.settings.calcItemMemory env c.1 c.2.1) h.content_new

theorem Inserts.calc_le (h : Inserts env s t key value expiryNs) :
    s.settings.calcItemMemory env key value ≤ t.weight env := by
  rw [weight_eq_table h.wf, ← h.itemMemory_new]
  exact List.single_le_sum (by simp) _ (List.mem_map_of_mem h.mem_new)

theorem Inserts.weight_le (h : Inserts env s t key value expiryNs)
    (wf : s.WellFormed env) :
    t.weight env ≤ s.weight env + s.settings.calcItemMemory env key value := by
  have nodup : t.table.Nodup := h.wf.table_nodup
  have new := h.itemMemory_new
  have old : ∀ i ∈ t.table.erase s.next, i ≠ s.next ∧ i ∈ t.table := fun i hi =>
    nodup.mem_erase_iff.mp hi
  have same : (t.table.erase s.next).map (t.itemMemory env) =
      (t.table.erase s.next).map (s.itemMemory env) :=
    List.map_congr_left fun i hi =>
      itemMemory_of_content h.settings_eq (h.content_old i (old i hi).2 (old i hi).1)
  have fewer := sum_map_le_of_subset (s.itemMemory env) (nodup.erase s.next) fun i hi =>
    h.mem_old i (old i hi).2 (old i hi).1
  rw [weight_eq_table wf, weight_eq_table h.wf, ← List.sum_map_erase _ h.mem_new, same]
  omega

/-! ## Loops that end because their condition fails -/

/-- No handle and no veto keeps an item from being evicted. -/
structure Idle (s : State K V) : Prop where
  unheld : ∀ i ∈ s.table, s.Unheld i
  unvetoed : s.Unvetoed

theorem Idle.shrinks (h : Idle s) (shrunk : Shrinks env s t) : Idle t where
  unheld i hi := (congrArg (fun c : K × V × Nat × Nat => c.2.2.2) (shrunk.content i hi)).trans
    (h.unheld i (shrunk.mem i hi))
  unvetoed i hi := (vetoed_congr shrunk.settings_eq (shrunk.content i hi)).trans
    (h.unvetoed i (shrunk.mem i hi))

theorem Idle.store (h : Idle s) (allowed : s.settings.vetoes ((s.heap i).key, value) = false) :
    Idle (s.modify i fun item => { item with value := value }) where
  unheld j hj := by
    have unheld : s.Unheld j := h.unheld j hj
    by_cases same : j = i
    · subst same
      simpa [Unheld, State.modify] using unheld
    · simpa [Unheld, State.modify, same] using unheld
  unvetoed j hj := by
    by_cases same : j = i
    · subst same
      simpa [vetoed, State.modify] using allowed
    · simpa [vetoed, State.modify, same] using h.unvetoed j hj

section Loops

variable {I : State K V → Prop} {size : State K V → Nat} {victim : State K V → Option ItemId}
  {evict : State K V → State K V} {cond : State K V → Bool}

/-- Where a victim is found whenever something is linked, a loop that stops on emptiness
ends with its condition false. -/
theorem Eviction.evictWhile_exits (e : Eviction env size victim evict)
    (step : ∀ {s : State K V}, s.WellFormed env → I s → I (evict s))
    (finds : ∀ {s : State K V}, s.WellFormed env → I s → victim s = none → s.table = [])
    (stops : ∀ {s : State K V}, s.WellFormed env → I s → s.table = [] → cond s = false)
    {fuel : Nat} (enough : s.table.length < fuel) (wf : s.WellFormed env) (h : I s) :
    (evictWhile evict size cond fuel s).2 = true ∧
      cond (evictWhile evict size cond fuel s).1 = false := by
  induction fuel generalizing s with
  | zero => omega
  | succ fuel ih =>
    rw [evictWhile]
    split
    case isFalse ended => exact ⟨rfl, by simpa using ended⟩
    case isTrue goes =>
      cases found : victim s with
      | none =>
        rw [stops wf h (finds wf h found)] at goes
        cases goes
      | some v =>
        have removed := e.removes wf found
        have fewer := removed.length_eq
        have progress : size (evict s) ≠ size s := by
          rw [e.size_eq removed.wf, e.size_eq wf]
          omega
        simp only [if_neg progress]
        exact ih (by omega) removed.wf (step wf h)

end Loops

/-! ## Making room -/

/-- Everything linked can be evicted and the counter tells its weight. `L` is what the
strategy knows of its lists. -/
structure Evictable (env : Env K V) (L : State K V → Prop) (s : State K V) : Prop where
  lists : L s
  idle : Idle s
  billed : Billed env s

theorem Evictable.shrinks (h : Evictable env L s) (shrunk : Shrinks env s t) (lists : L t)
    (billed : Billed env t) : Evictable env L t :=
  ⟨lists, h.idle.shrinks shrunk, billed⟩

theorem Billed.memory_eq (h : Billed env s) (bounded : s.weight env < range) :
    s.stats.currentMemory = s.weight env := by
  rw [h, Nat.mod_eq_of_lt bounded]

/-- `mem` more bytes fit into a finite budget, and no sum wraps. -/
structure FitsBudget (env : Env K V) (s : State K V) (mem : Nat) : Prop where
  finite : s.settings.maxMemory < unlimited
  small : s.weight env + mem < SizeT.range
  fits : mem ≤ s.settings.maxMemory

theorem FitsBudget.shrinks {mem : Nat} (h : FitsBudget env s mem) (wf : s.WellFormed env)
    (shrunk : Shrinks env s t) : FitsBudget env t mem where
  finite := shrunk.settings_eq ▸ h.finite
  small := Nat.lt_of_le_of_lt (Nat.add_le_add_right (shrunk.weight_le wf) mem) h.small
  fits := shrunk.settings_eq ▸ h.fits

/-- The victim search sees everything that is linked. -/
structure Policy.SeesAll [DecidableEq K] (env : Env K V) (p : Policy K V)
    (L : State K V → Prop) : Prop where
  keeps : p.KeepsLists env L
  bills : p.Bills env
  sees : ∀ {s : State K V}, s.WellFormed env → L s → Idle s → p.victim s = none → s.table = []

theorem Policy.Laws.size_eq_zero_iff [DecidableEq K] (laws : p.Laws env) (wf : s.WellFormed env) :
    p.size s = 0 ↔ s.table = [] := by
  rw [laws.eviction.size_eq wf, List.length_eq_zero_iff]

namespace Policy.SeesAll

variable [DecidableEq K]

section Loops

variable {mem : Nat} (all : p.SeesAll env L) (laws : p.Laws env) (wf : s.WellFormed env)
  (h : Evictable env L s)

include all laws wf h

theorem evict : Evictable env L (p.evict s) :=
  h.shrinks (laws.eviction.shrinks wf) (all.keeps.evict wf h.lists)
    (all.bills.evict laws wf h.billed)

omit laws in
theorem cleanup : Evictable env L s.cleanupPendingDeletion :=
  h.shrinks (Rearranges.cleanup wf).toShrinks (all.keeps.noted (.cleanup s) h.lists)
    (h.billed.noted (.cleanup s))

theorem evictAtCapacity : Evictable env L (s.evictAtCapacity p.evict p.size) :=
  evictAtCapacity_induct (all.evict laws wf) h

/-- `while (should_evict())` ends because nothing has to be evicted any more. -/
theorem shrinkLoop_exits : (s.shrinkLoop p.evict p.size).2 = true ∧
      Evictable env L (s.shrinkLoop p.evict p.size).1 ∧
      (s.shrinkLoop p.evict p.size).1.shouldEvict (p.size (s.shrinkLoop p.evict p.size).1) =
        false := by
  have kept : Evictable env L (s.shrinkLoop p.evict p.size).1 :=
    laws.eviction.evictWhile_keeps (all.evict laws) _ wf h
  obtain ⟨ended, exit⟩ : (s.shrinkLoop p.evict p.size).2 = true ∧
      ((s.shrinkLoop p.evict p.size).1.shouldEvict (p.size (s.shrinkLoop p.evict p.size).1)) =
        false := by
    refine laws.eviction.evictWhile_exits (all.evict laws)
      (fun wf h none => all.sees wf h.lists h.idle none) (fun {u} wf h empty => ?_) ?_ wf h
    · have size : p.size u = 0 := by rw [laws.eviction.size_eq wf, empty]; rfl
      have memory : u.stats.currentMemory = 0 := by rw [h.billed, weight_of_empty wf empty]; rfl
      simp [shouldEvict, size, memory]
    · rw [laws.eviction.size_eq wf]
      omega
  exact ⟨ended, kept, exit⟩

theorem shrinkLoop_fits (bounded : s.weight env < range)
    (finite : s.settings.maxMemory ≠ unlimited) :
    (s.shrinkLoop p.evict p.size).1.weight env ≤ s.settings.maxMemory := by
  have shrunk := laws.eviction.shrinkLoop_shrinks wf
  obtain ⟨-, kept, exit⟩ := all.shrinkLoop_exits laws wf h
  have memory := kept.billed.memory_eq (Nat.lt_of_le_of_lt (shrunk.weight_le wf) bounded)
  simp only [shouldEvict, Bool.or_eq_false_iff, shrunk.settings_eq, memory] at exit
  simpa [finite] using exit.2

/-- The loop before an insertion ends with room for the new item or with an empty list. -/
theorem fitLoop_exits {count : State K V → Nat}
    (counted : ∀ {s : State K V}, s.WellFormed env → L s → (count s = 0 ↔ s.table = []))
    (finite : s.settings.maxMemory ≠ unlimited) :
    (s.fitLoop p.evict p.size count mem).2 = true ∧
      Evictable env L (s.fitLoop p.evict p.size count mem).1 ∧
      ((s.fitLoop p.evict p.size count mem).1.table = [] ∨
        (s.fitLoop p.evict p.size count mem).1.exceedsMemory mem = false) := by
  have kept := laws.eviction.fitLoop_keeps (all.evict laws) count mem wf h
  have shrunk := laws.eviction.fitLoop_shrinks count mem wf
  rw [fitLoop, if_neg finite] at kept shrunk ⊢
  set cond : State K V → Bool := fun s => 0 < count s && s.exceedsMemory mem with cond_def
  obtain ⟨ended, exit⟩ : (evictWhile p.evict p.size cond (p.size s + 1) s).2 = true ∧
      cond (evictWhile p.evict p.size cond (p.size s + 1) s).1 = false := by
    refine laws.eviction.evictWhile_exits (all.evict laws)
      (fun wf h none => all.sees wf h.lists h.idle none)
      (fun wf h empty => by simp [cond_def, (counted wf h.lists).mpr empty]) ?_ wf h
    rw [laws.eviction.size_eq wf]
    omega
  refine ⟨ended, kept, (Bool.and_eq_false_iff.mp exit).imp_left fun empty => ?_⟩
  exact (counted shrunk.wf kept.lists).mp (by simpa using empty)

/-- An item that is not larger than the budget then has room. -/
theorem fitLoop_fits {count : State K V → Nat}
    (counted : ∀ {s : State K V}, s.WellFormed env → L s → (count s = 0 ↔ s.table = []))
    (fits : FitsBudget env s mem) :
    (s.fitLoop p.evict p.size count mem).1.weight env + mem ≤ s.settings.maxMemory := by
  have shrunk := laws.eviction.fitLoop_shrinks count mem wf
  obtain ⟨-, kept, empty | room⟩ := all.fitLoop_exits laws wf h counted fits.finite.ne
  · rw [weight_of_empty shrunk.wf empty, Nat.zero_add]
    exact fits.fits
  · have small := (fits.shrinks wf shrunk).small
    rw [exceedsMemory, fetchAdd, kept.billed.memory_eq (by omega), shrunk.settings_eq,
      Nat.mod_eq_of_lt small] at room
    simpa using room

/-- How `mm_2q`, `mm_tiny_lfu` and `mm_wtiny_lfu` make room. -/
theorem makeRoom_fits (fits : FitsBudget env s mem) :
    (s.makeRoom p.evict p.size mem).weight env + mem ≤ s.settings.maxMemory := by
  have shrunk := laws.eviction.shrinkLoop_shrinks wf
  have evicted := shrunk.trans (laws.eviction.evictAtCapacity_shrinks shrunk.wf)
  obtain ⟨-, kept, -⟩ := all.shrinkLoop_exits laws wf h
  have room := all.fitLoop_fits laws evicted.wf (all.evictAtCapacity laws shrunk.wf kept)
    (fun wf _ => laws.size_eq_zero_iff wf) (fits.shrinks wf evicted)
  rw [evicted.settings_eq] at room
  exact room

end Loops

end Policy.SeesAll

variable [DecidableEq K]

/-- `insert_new` of the strategies that always insert. -/
theorem Policy.InsertParts.insertNew_fits {room : State K V → Nat → State K V}
    {link : State K V → State K V → K → V → Nat → Nat → Nat → State K V}
    (parts : p.InsertParts env room link)
    (prepares : ∀ {s : State K V}, s.WellFormed env → Evictable env L s →
      Evictable env L (p.prepare s key))
    (rooms : ∀ {s : State K V} {mem}, s.WellFormed env → Evictable env L s →
      FitsBudget env s mem → (room s mem).weight env + mem ≤ s.settings.maxMemory)
    (expiryNs sec : Nat) (wf : s.WellFormed env) (absent : s.find env key = none)
    (h : Evictable env L s) (fits : FitsBudget env s (s.settings.calcItemMemory env key value))
    (capacity : p.noCapacity s = false) :
    (p.insertNew s key value expiryNs sec).weight env ≤ s.settings.maxMemory := by
  have prepared := (parts.prepare key wf).toShrinks
  have roomy := rooms prepared.wf (prepares wf h) (fits.shrinks wf prepared)
  have ready := prepared.trans
    (parts.room_shrinks (s.settings.calcItemMemory env key value) prepared.wf)
  rw [parts.insertNew_eq, if_neg (by simp [capacity])]
  have linked := (parts.link_inserts s value expiryNs sec
    (s.settings.calcItemMemory env key value) ready.wf (ready.find_eq_none wf absent)).weight_le
    ready.wf
  rw [ready.settings_eq] at linked
  rw [prepared.settings_eq] at roomy
  exact linked.trans roomy

/-! ## The strategies -/

namespace MmFifo

omit [DecidableEq K] in
theorem liveCount_eq_zero_iff (wf : s.WellFormed env) (one : s.OneList) :
    liveCount s = 0 ↔ s.table = [] := by
  rw [liveCount, List.length_eq_zero_iff, List.eq_nil_iff_forall_not_mem,
    List.eq_nil_iff_forall_not_mem]
  exact forall_congr' fun i => not_congr (one.mem_table_iff wf).symm

theorem seesAll (env : Env K V) : (policy env).SeesAll env State.OneList where
  keeps := keepsOneList env
  bills := bills env
  sees {s} wf one idle none := by
    have pinned := (searchQueue_unheld_iff wf one idle.unvetoed).mp none
    exact List.eq_nil_iff_forall_not_mem.mpr fun i hi => pinned i hi (idle.unheld i hi)

theorem makeRoom_fits {mem : Nat} (wf : s.WellFormed env) (h : Evictable env State.OneList s)
    (fits : FitsBudget env s mem) :
    (makeRoom env s mem).weight env + mem ≤ s.settings.maxMemory := by
  have evicted := eviction.evictAtCapacity_shrinks wf
  have shrunk := evicted.trans (eviction.shrinkLoop_shrinks evicted.wf)
  obtain ⟨-, kept, -⟩ := (seesAll env).shrinkLoop_exits (laws env) evicted.wf
    ((seesAll env).evictAtCapacity (laws env) wf h)
  have room := (seesAll env).fitLoop_fits (laws env) shrunk.wf kept liveCount_eq_zero_iff
    (fits.shrinks wf shrunk)
  rw [shrunk.settings_eq] at room
  exact room

end MmFifo

namespace MmLru

theorem seesAll (env : Env K V) : (policy env).SeesAll env Steady where
  keeps := keepsSteady env
  bills := bills env
  sees {s} wf steady idle none := by
    refine List.eq_nil_iff_forall_not_mem.mpr fun i hi => ?_
    have inList : i ∈ s.queue 0 := (steady.oneList.mem_table_iff wf).mp hi
    cases cursor : s.unpinnedTail with
    | some c =>
      have resident : c ∈ s.table := mem_of_queue wf (steady.cursor c cursor)
      have found := victim_of_cursor wf idle.unvetoed steady cursor (idle.unheld c resident)
      exact Option.some_ne_none c (found.symm.trans none)
    | none =>
      have start : searchStart s = s.tail 0 := by rw [searchStart, cursor]
      have searched := (victim_of_tail_start wf idle.unvetoed start).symm.trans none
      exact List.find?_eq_none.mp searched i (List.mem_reverse.mpr inList)
        (unheld_iff.mpr (idle.unheld i hi))

/-- With no more items than the limit allows the first steps of `insert_new` succeed. -/
theorem findCapacity_fits (wf : s.WellFormed env) (h : Evictable env Steady s)
    (capacity : noCapacity s = false)
    (full : s.settings.maxSize ≠ unlimited → s.table.length ≤ s.settings.maxSize) :
    (findCapacity env s).2 = true ∧ Evictable env Steady (findCapacity env s).1 := by
  have all := seesAll env
  have clean := (Rearranges.cleanup wf).toShrinks
  have evicted := clean.trans (eviction.evictAtCapacity_shrinks clean.wf)
  have kept := all.evictAtCapacity (laws env) clean.wf (all.cleanup wf h)
  have below : (s.cleanupPendingDeletion.evictAtCapacity (evictLru env) size).isAtCapacity
      (size (s.cleanupPendingDeletion.evictAtCapacity (evictLru env) size)) = false := by
    by_cases limited : s.settings.maxSize = unlimited
    · simp [isAtCapacity, evicted.settings_eq, limited]
    · have length : size s.cleanupPendingDeletion = s.table.length := by
        rw [size, linkedCount_eq clean.wf, (Rearranges.cleanup wf).table_eq]
      have lt := eviction.evictAtCapacity_lt clean.wf (clean.settings_eq ▸ limited)
        (by rw [length, clean.settings_eq]; exact full limited) ?_
      · rw [clean.settings_eq] at lt
        simpa [isAtCapacity, evicted.settings_eq, limited] using lt
      -- At the limit something is linked, so the search finds a victim.
      · by_cases empty : s.cleanupPendingDeletion.table = []
        · have positive : s.settings.maxSize ≠ 0 := by
            simp only [noCapacity, Bool.or_eq_false_iff, beq_eq_false_iff_ne] at capacity
            exact capacity.1
          refine .inl ?_
          rw [eviction.size_eq clean.wf, empty, clean.settings_eq]
          exact Nat.pos_of_ne_zero positive
        · exact .inr fun none => empty
            (all.sees clean.wf (all.cleanup wf h).lists (all.cleanup wf h).idle none)
  simp only [findCapacity]
  rw [if_neg (by simp [below])]
  obtain ⟨ended, fitted, -⟩ := all.shrinkLoop_exits (laws env) evicted.wf kept
  exact ⟨ended, fitted⟩

theorem findMemory_exits (wf : s.WellFormed env) (h : Evictable env Steady s)
    (finite : s.settings.maxMemory ≠ unlimited) : (findMemory env s key value).2 = true :=
  ((seesAll env).fitLoop_exits (laws env) wf h (fun wf _ => (laws env).size_eq_zero_iff wf)
    finite).1

theorem findMemory_fits (wf : s.WellFormed env) (h : Evictable env Steady s)
    (fits : FitsBudget env s (s.settings.calcItemMemory env key value)) :
    (findMemory env s key value).1.weight env + s.settings.calcItemMemory env key value ≤
      s.settings.maxMemory :=
  (seesAll env).fitLoop_fits (laws env) wf h (fun wf _ => (laws env).size_eq_zero_iff wf) fits

section Insertion

variable (wf : s.WellFormed env) (absent : s.find env key = none) (h : Evictable env Steady s)
  (capacity : noCapacity s = false)
  (full : s.settings.maxSize ≠ unlimited → s.table.length ≤ s.settings.maxSize)

include wf absent h capacity full

/-- With no more items than the limit allows the new key is linked. -/
theorem insertNew_inserts (value : V) (expiryNs sec : Nat)
    (finite : s.settings.maxMemory ≠ unlimited) :
    Inserts env s (insertNew env s key value expiryNs sec) key value expiryNs := by
  obtain ⟨enough, kept⟩ := findCapacity_fits wf h capacity full
  have shrunk := findCapacity_shrinks wf
  cases insertNew_ends value expiryNs sec wf absent with
  | blocked none => exact absurd none (by simp [capacity])
  | failed _ stopped => exact absurd enough (by simp [stopped])
  | dropped _ _ stuck =>
    have room : (findMemory env (findCapacity env s).1 key value).2 = true :=
      findMemory_exits shrunk.wf kept (shrunk.settings_eq ▸ finite)
    exact absurd room (by simp [stuck])
  | inserted _ _ _ linked => exact linked

theorem insertNew_fits (expiryNs sec : Nat)
    (fits : FitsBudget env s (s.settings.calcItemMemory env key value)) :
    (insertNew env s key value expiryNs sec).weight env ≤ s.settings.maxMemory := by
  have ready := findCapacity_fits wf h capacity full
  have shrunk := findCapacity_shrinks wf
  rw [insertNew, if_neg (by simp [capacity])]
  cases found : findCapacity env s with
  | mk u enough =>
    rw [found] at ready shrunk
    obtain ⟨rfl, kept⟩ := ready
    have settings : u.settings = s.settings := shrunk.settings_eq
    have roomy : (findMemory env u key value).1.weight env + _ ≤ _ :=
      findMemory_fits shrunk.wf kept (by rw [settings]; exact fits.shrinks wf shrunk)
    have room : (findMemory env u key value).2 = true :=
      findMemory_exits shrunk.wf kept (settings ▸ fits.finite.ne)
    have fitted := findMemory_shrinks key value shrunk.wf
    simp only
    cases memory : findMemory env u key value with
    | mk v enough =>
      rw [memory] at room roomy fitted
      obtain rfl : enough = true := room
      have whole := shrunk.trans fitted
      have linked : Inserts env v (link env v key value expiryNs sec
          (v.settings.calcItemMemory env key value)) key value expiryNs :=
        link_inserts whole.wf (whole.find_eq_none wf absent)
      refine (linked.weight_le whole.wf).trans ?_
      rw [settings] at roomy
      rw [whole.settings_eq]
      exact roomy

end Insertion

section Crowded

variable (wf : s.WellFormed env) (finite : s.settings.maxSize ≠ unlimited)
  (full : s.settings.maxSize < s.table.length)

include wf finite full

/-- With more items than the limit allows one eviction is not enough. -/
theorem findCapacity_of_full :
    findCapacity env s = (evictLru env s.cleanupPendingDeletion, false) := by
  have clean := Rearranges.cleanup wf
  set u := s.cleanupPendingDeletion with u_def
  have settings : u.settings = s.settings := clean.settings_eq
  have evicted := eviction.shrinks clean.wf
  have atCapacity {t : State K V} (same : t.settings = s.settings) (wf : t.WellFormed env)
      (enough : s.table.length ≤ t.table.length + 1) : t.isAtCapacity (size t) = true := by
    rw [eviction.size_eq wf, isAtCapacity, same]
    simp only [bne_iff_ne, ne_eq, finite, not_false_eq_true, Bool.and_eq_true, decide_eq_true_eq,
      true_and]
    omega
  have left : u.table.length ≤ (evictLru env u).table.length + 1 := by
    cases found : (findEvictionVictim u).1 with
    | none => rw [(eviction.rearranges clean.wf found).table_eq]; omega
    | some v => exact (eviction.removes clean.wf found).length_eq.ge
  rw [clean.table_eq] at left
  have taken : u.evictAtCapacity (evictLru env) size = evictLru env u :=
    if_pos (atCapacity settings clean.wf (by rw [clean.table_eq]; omega))
  simp only [findCapacity, ← u_def, taken]
  rw [if_pos (atCapacity (evicted.settings_eq.trans settings) evicted.wf left)]

theorem insertNew_weight_of_full {v : ItemId} (absent : s.find env key = none)
    (capacity : noCapacity s = false) (found : (findEvictionVictim s).1 = some v) :
    (insertNew env s key value expiryNs sec).weight env + s.itemMemory env v = s.weight env := by
  have clean := Rearranges.cleanup wf
  have stopped := findCapacity_of_full wf finite full
  cases insertNew_ends value expiryNs sec wf absent with
  | blocked none => exact absurd none (by simp [capacity])
  | failed _ _ counted =>
    have removed : Removes env s.cleanupPendingDeletion (evictLru env s.cleanupPendingDeletion) v :=
      eviction.removes clean.wf (by rw [findEvictionVictim_cleanup, found])
    have weight := removed.weight_eq clean.wf
    rw [clean.weight_eq wf, itemMemory_cleanup] at weight
    rw [counted, stopped]
    exact weight
  | dropped _ enough | inserted _ enough => exact absurd enough (by simp [stopped])

end Crowded

end MmLru

omit [DecidableEq K] in
theorem MmWTinyLfu.reclaimable (wf : s.WellFormed env) (idle : Idle s) : Reclaimable s := by
  rintro ⟨i, hi, -⟩
  obtain ⟨tail, isTail⟩ : ∃ tail, s.tail kProtectionQueue = some tail :=
    Option.ne_none_iff_exists'.mp fun none =>
      List.ne_nil_of_mem hi (List.getLast?_eq_none_iff.mp none)
  exact .inr (.inr ⟨tail, isTail, idle.unheld tail (mem_of_queue wf (List.mem_of_getLast? isTail))⟩)

/-- What is known of the lists of a strategy. -/
def Strategy.lists : Strategy → State K V → Prop
  | .mmLru => MmLru.Steady
  | .mmFifo => State.OneList
  | .mmTinyLfu => State.Confined MmTinyLfu.inUse
  | .mm2q | .mmWTinyLfu => fun _ => True

theorem Policy.KeepsLists.top : p.KeepsLists env fun _ => True := by
  constructor <;> intros <;> trivial

/-- Where nothing is pinned or vetoed every strategy finds a victim. -/
theorem Strategy.seesAll (env : Env K V) (strategy : Strategy) :
    (strategy.policy env).SeesAll env strategy.lists := by
  have all : ∀ {s : State K V}, Idle s → (∀ i ∈ s.table, ¬ s.Unheld i) → s.table = [] :=
    fun idle pinned =>
      List.eq_nil_iff_forall_not_mem.mpr fun i hi => pinned i hi (idle.unheld i hi)
  cases strategy with
  | mmLru => exact MmLru.seesAll env
  | mmFifo => exact MmFifo.seesAll env
  | mm2q =>
    refine ⟨.top, Mm2q.bills env, fun wf _ idle none => all idle ?_⟩
    exact (Mm2q.findVictim_eq_none_iff wf idle.unvetoed).mp (Option.map_eq_none_iff.mp none)
  | mmTinyLfu =>
    refine ⟨MmTinyLfu.keepsTwoLists, MmTinyLfu.bills env, fun wf lists idle none =>
      all idle ?_⟩
    exact (MmTinyLfu.findVictim_eq_none_iff wf lists idle.unvetoed).mp none
  | mmWTinyLfu =>
    refine ⟨.top, MmWTinyLfu.bills env, fun {s} wf _ idle none =>
      all idle ?_⟩
    exact (MmWTinyLfu.reclaimable_iff wf idle.unvetoed).mp (MmWTinyLfu.reclaimable wf idle) none

/-- `mm_lru` holds more items than its limit allows. -/
def Strategy.Crowded (strategy : Strategy) (s : State K V) : Prop :=
  strategy = .mmLru ∧ s.settings.maxSize ≠ unlimited ∧ s.settings.maxSize < s.table.length

namespace Strategy

section Insertion

variable (wf : s.WellFormed env) (absent : s.find env key = none)
  (h : Evictable env strategy.lists s) (capacity : (strategy.policy env).noCapacity s = false)
  (room : ¬ strategy.Crowded s)

include wf absent h capacity room

theorem insertNew_inserts (value : V) (expiryNs sec : Nat)
    (finite : s.settings.maxMemory ≠ unlimited) :
    Inserts env s ((strategy.policy env).insertNew s key value expiryNs sec) key value
      expiryNs := by
  by_cases strict : strategy = .mmLru
  · subst strict
    refine MmLru.insertNew_inserts wf absent h capacity (fun limited => ?_) value expiryNs sec
      finite
    exact Nat.le_of_not_lt fun full => room ⟨rfl, limited, full⟩
  · exact (insertsAlways env strict).inserts value expiryNs sec wf absent capacity

theorem insertNew_fits (expiryNs sec : Nat)
    (fits : FitsBudget env s (s.settings.calcItemMemory env key value)) :
    ((strategy.policy env).insertNew s key value expiryNs sec).weight env ≤
      s.settings.maxMemory := by
  have all := strategy.seesAll env
  have laws := strategy.laws env
  cases strategy with
  | mmLru =>
    refine MmLru.insertNew_fits wf absent h capacity (fun limited => ?_) expiryNs sec fits
    exact Nat.le_of_not_lt fun full => room ⟨rfl, limited, full⟩
  | mmFifo =>
    exact (MmFifo.insertParts env).insertNew_fits (all.cleanup) MmFifo.makeRoom_fits expiryNs sec
      wf absent h fits capacity
  | mm2q =>
    refine Mm2q.insertParts.insertNew_fits (fun wf h => ?_) (all.makeRoom_fits laws)
      expiryNs sec wf absent h fits capacity
    have prepared := Moves.of_unseen (Mm2q.prepare_unseen env key) wf
    exact h.shrinks prepared.toShrinks trivial (h.billed.moves wf prepared)
  | mmTinyLfu =>
    refine MmTinyLfu.insertParts.insertNew_fits (fun wf h => ?_) (all.makeRoom_fits laws)
      expiryNs sec wf absent h fits capacity
    have prepared := Window.prepare_moves key wf
    refine h.shrinks prepared.toShrinks ?_ (h.billed.moves wf prepared)
    exact Window.drainTiny_keeps (fun _ _ lists => lists.moveToQueue (.inr rfl) _ _) _ wf
      h.lists
  | mmWTinyLfu =>
    refine MmWTinyLfu.insertParts.insertNew_fits (fun wf h => ?_) (all.makeRoom_fits laws)
      expiryNs sec wf absent h fits capacity
    have prepared := Window.prepare_moves key wf
    exact h.shrinks prepared.toShrinks trivial (h.billed.moves wf prepared)

end Insertion

theorem insertNew_of_noCapacity (blocked : (strategy.policy env).noCapacity s = true) :
    (strategy.policy env).insertNew s key value expiryNs sec = s := by
  by_cases strict : strategy = .mmLru
  · subst strict
    exact if_pos blocked
  · exact (insertsAlways env strict).blocked blocked

end Strategy

/-! ## Writes -/

/-- The estimate of the linked items is within the budget, and the counter tells it. -/
structure InBudget (env : Env K V) (s : State K V) : Prop where
  weight_le : s.weight env ≤ s.settings.maxMemory
  memory_eq : s.stats.currentMemory = s.weight env

omit [DecidableEq K] in
theorem Billed.inBudget_iff (h : Billed env s) (finite : s.settings.maxMemory < unlimited) :
    InBudget env s ↔ s.weight env ≤ s.settings.maxMemory := by
  refine ⟨InBudget.weight_le, fun within => ⟨within, ?_⟩⟩
  have bound : unlimited < range := by decide
  rw [h, Nat.mod_eq_of_lt (by omega)]

theorem Policy.SeesAll.updateExisting_fits (all : p.SeesAll env L)
    (laws : p.Laws env) (wf : s.WellFormed env) (hi : i ∈ s.table)
    (h : Evictable env L s) (allowed : s.settings.vetoes ((s.heap i).key, value) = false)
    (finite : s.settings.maxMemory ≠ unlimited)
    (small : s.weight env + s.settings.calcItemMemory env (s.heap i).key value < range) :
    (p.updateExisting env s i value sec).weight env ≤ s.settings.maxMemory := by
  set u := p.storeValue env s i value sec with u_def
  have written := WellFormed.write (i := i) (.value value) wf
  have stored := laws.storeValue_rearranges wf value sec hi
  have settings : u.settings = s.settings := stored.settings_eq
  have kept : Evictable env L u :=
    ⟨all.keeps.stored value sec wf hi h.lists, (h.idle.store allowed).shrinks stored.toShrinks,
      Policy.Bills.storeValue laws value sec wf hi h.billed⟩
  have bounded : u.weight env < range := by
    have change := weight_modify_value wf hi value
    rw [stored.weight_eq written]
    omega
  have collected := collectUpdate_quiet u i
  rw [updateExisting, ← settings]
  split
  · have stats : (collectUpdate u i).stats = u.stats := collect_stats
    have still : Evictable env L (collectUpdate u i) := by
      refine kept.shrinks (collected.shrinks stored.wf) ?_
        (kept.billed.quiet collected (by rw [stats]))
      exact all.keeps.noted (.collect _) kept.lists
    have fits := all.shrinkLoop_fits laws (collected.wf stored.wf) still
      (by rw [collected.weight_eq]; exact bounded)
      (by rw [collected.settings_eq, settings]; exact finite)
    rw [collected.settings_eq] at fits
    exact fits
  · rw [(collectUpdate_quiet _ i).weight_eq]
    exact all.shrinkLoop_fits laws stored.wf kept bounded (settings ▸ finite)

namespace Strategy

/-- A new key needs an item that fits. Where it is turned away the budget has to hold
without it: at once, or after the one eviction that a crowded `mm_lru` makes. -/
structure AffordsNew (env : Env K V) (strategy : Strategy) (s : State K V) (key : K) (value : V) :
    Prop where
  blocked : (strategy.policy env).noCapacity s = true → s.weight env ≤ s.settings.maxMemory
  crowded : (strategy.policy env).noCapacity s = false → strategy.Crowded s →
    ∀ v ∈ (strategy.policy env).victim s,
      s.weight env ≤ s.settings.maxMemory + s.itemMemory env v
  fits : (strategy.policy env).noCapacity s = false → ¬ strategy.Crowded s →
    s.settings.calcItemMemory env key value ≤ s.settings.maxMemory

theorem insertNew_within_iff (wf : s.WellFormed env) (absent : s.find env key = none)
    (h : Evictable env strategy.lists s) (finite : s.settings.maxMemory < unlimited)
    (small : s.weight env + s.settings.calcItemMemory env key value < range) :
    ((strategy.policy env).insertNew s key value 0 sec).weight env ≤ s.settings.maxMemory ↔
      strategy.AffordsNew env s key value := by
  have all := strategy.seesAll env
  cases capacity : (strategy.policy env).noCapacity s with
  | true =>
    rw [insertNew_of_noCapacity capacity]
    exact ⟨fun within => ⟨fun _ => within, by simp [capacity], by simp [capacity]⟩,
      fun affords => affords.blocked capacity⟩
  | false =>
    by_cases crowded : strategy.Crowded s
    · obtain ⟨rfl, limited, full⟩ := crowded
      obtain ⟨v, found⟩ : ∃ v, (MmLru.findEvictionVictim s).1 = some v :=
        Option.ne_none_iff_exists'.mp fun none => by
          rw [all.sees wf h.lists h.idle none] at full
          exact Nat.not_lt_zero _ full
      have weight : ((mmLru.policy env).insertNew s key value 0 sec).weight env + _ = _ :=
        MmLru.insertNew_weight_of_full wf limited full absent capacity found
      refine ⟨fun within => ⟨by simp [capacity], fun _ _ w hw => ?_, ?_⟩, fun affords => ?_⟩
      · obtain rfl : w = v := Option.some.inj (hw.symm.trans found)
        omega
      · exact fun _ room => absurd ⟨rfl, limited, full⟩ room
      · have left := affords.crowded capacity ⟨rfl, limited, full⟩ v found
        omega
    · refine ⟨fun within => ⟨by simp [capacity], fun _ crowd => absurd crowd crowded,
        fun _ _ => ?_⟩, fun affords => ?_⟩
      · exact (insertNew_inserts wf absent h capacity crowded value 0 sec finite.ne).calc_le.trans
          within
      · exact insertNew_fits wf absent h capacity crowded 0 sec
          ⟨finite, small, affords.fits capacity crowded⟩

/-- The cleanup before a write does not matter for that; `mm_lru` makes none. -/
theorem affordsNew_cleanupIf (wf : s.WellFormed env) :
    strategy.AffordsNew env (cleanupIf (strategy.policy env).cleanupOnSet s) key value ↔
      strategy.AffordsNew env s key value := by
  by_cases strict : strategy = .mmLru
  · subst strict
    rfl
  · have same := cleanupIf_rearranges (strategy.policy env).cleanupOnSet wf
    have capacity := (strategy.laws env).noCapacity_eq same.settings_eq
    have roomy {u : State K V} : ¬ strategy.Crowded u := fun crowded => strict crowded.1
    constructor <;> rintro ⟨blocked, -, fits⟩
    · refine ⟨fun none => ?_, fun _ crowd => absurd crowd roomy, fun some _ => ?_⟩
      · rw [← same.settings_eq, ← same.weight_eq wf]
        exact blocked (capacity.trans none)
      · rw [← same.settings_eq]
        exact fits (capacity.trans some) roomy
    · refine ⟨fun none => ?_, fun _ crowd => absurd crowd roomy, fun some _ => ?_⟩
      · rw [same.settings_eq, same.weight_eq wf]
        exact blocked (capacity.symm.trans none)
      · rw [same.settings_eq]
        exact fits (capacity.symm.trans some) roomy

theorem set_within_iff (wf : s.WellFormed env) (h : Evictable env strategy.lists s)
    (allowed : s.find env key ≠ none → s.settings.vetoes (key, value) = false)
    (finite : s.settings.maxMemory < unlimited)
    (small : s.weight env + s.settings.calcItemMemory env key value < range) :
    ((strategy.policy env).set env s key value sec).weight env ≤ s.settings.maxMemory ↔
      (s.find env key = none → strategy.AffordsNew env s key value) := by
  have all := strategy.seesAll env
  have laws := strategy.laws env
  have clean := cleanupIf_rearranges (strategy.policy env).cleanupOnSet wf
  have same : _ = s.find env key := clean.find_eq wf
  have noted : Noted s (Policy.cleanupIf (strategy.policy env).cleanupOnSet s) := .cleanupIf _ s
  rw [← affordsNew_cleanupIf wf, Policy.set]
  set u := Policy.cleanupIf (strategy.policy env).cleanupOnSet s with u_def
  have kept : Evictable env strategy.lists u :=
    h.shrinks clean.toShrinks (all.keeps.noted noted h.lists) (h.billed.noted noted)
  rw [← clean.settings_eq] at allowed finite small ⊢
  rw [← clean.weight_eq wf] at small
  rw [← same] at allowed ⊢
  cases found : u.find env key with
  | none => simpa using insertNew_within_iff clean.wf found kept finite small
  | some i =>
    obtain ⟨hi, hk⟩ := (find_eq_some_iff clean.wf).mp found
    refine iff_of_true ?_ (by simp)
    exact all.updateExisting_fits laws clean.wf hi kept
      (by rw [hk]; exact allowed (by simp [found])) finite.ne (by rw [hk]; exact small)

theorem add_of_absent (wf : s.WellFormed env) (absent : s.find env key = none) :
    ((strategy.policy env).add env s key value sec).2 =
      (strategy.policy env).set env s key value sec := by
  have clean := cleanupIf_rearranges (strategy.policy env).cleanupOnSet wf
  simp only [Policy.add, Policy.set, clean.find_eq wf, absent]

section Runs

/-- A state reached without a change of the size calculators. -/
def SizedReachable (env : Env K V) (strategy : Strategy) (s : State K V) : Prop :=
  ∃ memory settings sketch sec, Transition.Reaches (strategy.step env)
    (fun s op => strategy.PopsStable env s op ∧ op.setsSizes = false)
    (State.empty memory settings sketch sec) s

theorem SizedReachable.reachable (reachable : strategy.SizedReachable env s) :
    strategy.Reachable env s := by
  obtain ⟨memory, settings, sketch, sec, reached⟩ := reachable
  exact ⟨memory, settings, sketch, sec, reached.weaken fun _ _ allowed => allowed.1⟩

/-- The state after a list of calls that can all be made. -/
theorem SizedReachable.getD {memory : ItemId → Item K V} {settings : Settings K V}
    {sketch : Sketch} {ops : List (Op K V)}
    (made : (Transition.runWhere (strategy.step env)
      (fun _ op => !op.isPopLru && !op.setsSizes) (State.empty memory settings sketch sec)
      ops).isSome = true) {other : State K V} :
    strategy.SizedReachable env ((Transition.runWhere (strategy.step env)
      (fun _ op => !op.isPopLru && !op.setsSizes) (State.empty memory settings sketch sec)
      ops).getD other) := by
  obtain ⟨t, executed⟩ := Option.isSome_iff_exists.mp made
  rw [executed]
  refine ⟨memory, settings, sketch, sec, (Transition.Reaches.of_runWhere executed).weaken ?_⟩
  intro u op allowed
  simp only [Bool.and_eq_true, Bool.not_eq_true'] at allowed
  refine ⟨?_, allowed.2⟩
  rintro rfl
  cases allowed.1

/-- The counter is right as long as the size calculators stay the same. -/
theorem SizedReachable.billed (reachable : strategy.SizedReachable env s) : Billed env s := by
  have laws := strategy.laws env
  have keeps := (strategy.seesAll env).bills.keeps laws
  obtain ⟨memory, settings, sketch, sec, reached⟩ := reachable
  have both := reached.invariant (P := fun s => s.WellFormed env ∧ Billed env s)
    ⟨empty_wf memory settings sketch sec, rfl⟩ ?_
  · exact both.2
  rintro s op t ⟨wf, billed⟩ ⟨stable, fixed⟩ taken
  exact ⟨step_wf wf stable taken, step_keeps keeps wf stable fixed taken billed⟩

theorem Reachable.lists (reachable : strategy.Reachable env s) : strategy.lists s := by
  refine reachable.keepsLists (strategy.seesAll env).keeps fun _ _ _ _ => ?_
  cases strategy with
  | mmLru => exact ⟨fun _ _ => rfl, by rintro _ ⟨⟩⟩
  | mmFifo | mmTinyLfu => exact fun _ _ => rfl
  | mm2q | mmWTinyLfu => trivial

/-- In a reachable state without handles and vetoes `set` and `add` end within a finite
budget exactly if a new item fits into it; where they neither insert nor update, the budget
has to hold before. -/
theorem writes_within_budget_iff (reachable : strategy.SizedReachable env s) (idle : Idle s)
    (allowed : s.find env key ≠ none → s.settings.vetoes (key, value) = false)
    (finite : s.settings.maxMemory < unlimited)
    (small : s.weight env + s.settings.calcItemMemory env key value < range) :
    (InBudget env ((strategy.policy env).set env s key value sec) ↔
      (s.find env key = none → strategy.AffordsNew env s key value)) ∧
    (InBudget env ((strategy.policy env).add env s key value sec).2 ↔
      (s.find env key = none → strategy.AffordsNew env s key value) ∧
        (s.find env key ≠ none → s.weight env ≤ s.settings.maxMemory)) := by
  have wf := reachable.reachable.wf
  have all := strategy.seesAll env
  have laws := strategy.laws env
  have keeps := all.bills.keeps laws
  have billed := reachable.billed
  have h : Evictable env strategy.lists s := ⟨reachable.reachable.lists, idle, billed⟩
  have stored : InBudget env ((strategy.policy env).set env s key value sec) ↔
      (s.find env key = none → strategy.AffordsNew env s key value) := by
    have settings := laws.set_settings wf key value sec
    rw [← set_within_iff wf h allowed finite small,
      (keeps.set laws wf billed).inBudget_iff (settings ▸ finite), settings]
  refine ⟨stored, ?_⟩
  obtain ⟨absent, -⟩ | ⟨i, found, -, same⟩ := laws.add_cases wf key value sec
  · rw [add_of_absent wf absent, stored]
    simp [absent]
  · -- `add` of a resident key records an access.
    rw [(keeps.add wf billed).inBudget_iff (same.settings_eq ▸ finite), same.settings_eq,
      same.weight_eq wf]
    simp [found]

end Runs

end Strategy

end Lru.Mm
