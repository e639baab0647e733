import Lru.Mm.EvictionOrder
import Lru.Mm.Record

/-!
# Insertions that find room

`insert_new` drops the item if a limit of zero leaves no room for new keys; `mm_lru` also
gives up when items that cannot be evicted stand in the way. So `add`, which decides its
result before it inserts, by the absence of the key, does not always tell the truth.
-/

namespace Lru.Mm

variable {K V : Type} {t s : State K V} {env : Env K V} {value : V} {key : K} {sec : Nat}

open State Strategy List

namespace MmLru

variable [DecidableEq K]

/-- After evictions of the first `n` items the list is below `max_size` and within
`max_memory`. At the limit there is at least one eviction, and above it one is not enough. -/
structure WithinAfter (env : Env K V) (s : State K V) (n : Nat) : Prop where
  enough : n ≤ (mmLru.evictionOrder env s).length
  below : s.isAtCapacity (size s) = true → size s = s.settings.maxSize ∧ 0 < n
  memory : s.settings.maxMemory = unlimited ∨
    s.memoryWithout env ((mmLru.evictionOrder env s).take n) ≤ s.settings.maxMemory

/-- Enough items can be evicted to insert a new key: the first of them bring the list within
its limits, and without `m` of them there is space for the bytes of the new item. -/
def EvictionsMakeRoom (env : Env K V) (s : State K V) (key : K) (value : V) : Prop :=
  ∃ n m, WithinAfter env s n ∧ n ≤ m ∧ m ≤ (mmLru.evictionOrder env s).length ∧
    (s.settings.maxMemory = unlimited ∨ m = size s ∨
      SizeT.fetchAdd (s.memoryWithout env ((mmLru.evictionOrder env s).take m))
        (s.settings.calcItemMemory env key value) ≤ s.settings.maxMemory)

theorem ordered (env : Env K V) : (policy env).Ordered env (mmLru.evictionOrder env) :=
  mmLru.ordered env

/-- Below the size limit the loop of the first steps only has to bring the memory down. It
starts from the state after the first `k` evictions. -/
theorem needsAfter_iff {c : State K V} {k j : Nat} (wf : c.WellFormed env)
    (le : k + j ≤ (mmLru.evictionOrder env c).length)
    (free : ((evictLru env)^[k] c).isAtCapacity (size ((evictLru env)^[k] c)) = false)
    (start : c.isAtCapacity (size c) = true → size c = c.settings.maxSize ∧ 0 < k) :
    needsAfter env (mmLru.evictionOrder env) c.settings.exceeded ((evictLru env)^[k] c) j = false ↔
      WithinAfter env c (k + j) := by
  have took : Took env (mmLru.evictionOrder env) k c ((evictLru env)^[k] c) :=
    (ordered env).took wf (by omega)
  have shifted : needsAfter env (mmLru.evictionOrder env) c.settings.exceeded
      ((evictLru env)^[k] c) j = _ := (ordered env).needsAfter_iterate wf le _
  have length := took.length_eq
  rw [isAtCapacity, took.settings_eq, eviction.size_eq took.wf] at free
  have small : (c.settings.maxSize != unlimited &&
      decide (c.settings.maxSize < c.table.length - (k + j))) = false := by
    simp only [Bool.and_eq_false_imp, decide_eq_false_iff_not] at free ⊢
    intro finite
    have := free finite
    omega
  rw [shifted, needsAfter, Settings.exceeded, small, Bool.false_or]
  refine ⟨fun met => ⟨le, fun full => ⟨(start full).1, ?_⟩, ?_⟩, fun h => ?_⟩
  · exact Nat.add_pos_left (start full).2 j
  · by_cases endless : c.settings.maxMemory = unlimited
    · exact .inl endless
    · simpa [endless] using met
  · obtain endless | fits := h.memory
    · simp [endless]
    · simp [fits]

theorem shrinkLoop_ends {c : State K V} {k : Nat} (wf : c.WellFormed env)
    (enough : k ≤ (mmLru.evictionOrder env c).length)
    (free : ((evictLru env)^[k] c).isAtCapacity (size ((evictLru env)^[k] c)) = false)
    (start : c.isAtCapacity (size c) = true → size c = c.settings.maxSize ∧ 0 < k)
    (least : ∀ j, WithinAfter env c j → k ≤ j) :
    (∃ n, WithinAfter env c n ∧ (∀ j, WithinAfter env c j → n ≤ j) ∧
      ((evictLru env)^[k] c).shrinkLoop (evictLru env) size = ((evictLru env)^[n] c, true)) ∨
    (((evictLru env)^[k] c).shrinkLoop (evictLru env) size).2 = false ∧
      ∀ n, ¬ WithinAfter env c n := by
  have took : Took env (mmLru.evictionOrder env) k c ((evictLru env)^[k] c) :=
    (ordered env).took wf enough
  have ends : LoopEnds env (policy env) (mmLru.evictionOrder env) c.settings.exceeded
      ((evictLru env)^[k] c) (((evictLru env)^[k] c).shrinkLoop (evictLru env) size) :=
    (ordered env).evictWhile_ends took.wf fun {t} wft same => by
      rw [shouldEvict, same.trans took.settings_eq, eviction.size_eq wft, Settings.exceeded]
  have rest : (mmLru.evictionOrder env ((evictLru env)^[k] c)).length =
      (mmLru.evictionOrder env c).length - k := by rw [took.order_eq, length_drop]
  -- Evictions that are enough were not asked for any more.
  have ended : ∀ {j}, WithinAfter env c j → needsAfter env (mmLru.evictionOrder env)
      c.settings.exceeded ((evictLru env)^[k] c) (j - k) = false := fun {j} within =>
    (needsAfter_iff wf (by have := within.enough; have := least j within; omega) free start).mpr
      (by rwa [Nat.add_sub_cancel' (least j within)])
  cases ends with
  | stops n le before met eq =>
    refine .inl ⟨k + n, (needsAfter_iff wf (by omega) free start).mp met, fun j within => ?_, ?_⟩
    · by_contra! earlier
      have asked := before (j - k) (by have := least j within; omega)
      rw [ended within] at asked
      cases asked
    · rw [Nat.add_comm, Function.iterate_add_apply]
      exact eq
  | runsOut before eq =>
    refine .inr ⟨congrArg Prod.snd eq, fun j within => ?_⟩
    have asked := before (j - k) (by have := within.enough; omega)
    rw [ended within] at asked
    cases asked

omit [DecidableEq K] in
theorem cleanup_memoryWithout {l : List ItemId} :
    s.cleanupPendingDeletion.memoryWithout env l = s.memoryWithout env l :=
  cleanup_frame s (·.memoryWithout env l) fun _ _ _ => rfl

theorem cleanup_order : mmLru.evictionOrder env s.cleanupPendingDeletion =
    mmLru.evictionOrder env s := by
  refine evictionOrder_eq ?_ ⟨cleanup_queue s, cleanup_settings s, fun i => by rw [cleanup_heap],
    fun q i _ => by rw [cleanup_heap], ?_⟩
  · exact cleanup_frame s State.table fun _ _ _ => rfl
  · exact cleanup_frame s (fun u => (u.sketch, u.unpinnedTail)) fun _ _ _ => rfl

theorem withinAfter_cleanup {n : Nat} :
    WithinAfter env s.cleanupPendingDeletion n ↔ WithinAfter env s n := by
  have same : size s.cleanupPendingDeletion = size s := by simp [size, linkedCount]
  constructor
  · rintro ⟨enough, below, memory⟩
    simp only [cleanup_order, cleanup_memoryWithout, isAtCapacity, same, cleanup_settings]
      at enough below memory
    exact ⟨enough, below, memory⟩
  · rintro ⟨enough, below, memory⟩
    refine ⟨?_, ?_, ?_⟩ <;>
      simpa only [cleanup_order, cleanup_memoryWithout, isAtCapacity, same, cleanup_settings]

/-- `findCapacity` makes the fewest evictions that are enough, if any are. -/
theorem findCapacity_ends (wf : s.WellFormed env) :
    (∃ n, WithinAfter env s n ∧ (∀ j, WithinAfter env s j → n ≤ j) ∧
      findCapacity env s = ((evictLru env)^[n] s.cleanupPendingDeletion, true)) ∨
    (findCapacity env s).2 = false ∧ ∀ n, ¬ WithinAfter env s n := by
  have clean := (Rearranges.cleanup wf).wf
  simp only [← withinAfter_cleanup (s := s), findCapacity]
  generalize s.cleanupPendingDeletion = c at clean
  by_cases full : c.isAtCapacity (size c) = true
  · have first : c.evictAtCapacity (evictLru env) size = evictLru env c := if_pos full
    rw [first]
    have finite : c.settings.maxSize ≠ unlimited ∧ c.settings.maxSize ≤ size c := by
      simpa [isAtCapacity] using full
    have settings : (evictLru env c).settings = c.settings := (eviction.shrinks clean).settings_eq
    have head : (mmLru.evictionOrder env c).head? = (findEvictionVictim c).1 :=
      (ordered env).head clean
    by_cases met : size c = c.settings.maxSize ∧ (findEvictionVictim c).1 ≠ none
    · obtain ⟨v, found⟩ := Option.ne_none_iff_exists'.mp met.2
      have fewer := eviction.size_of_some clean found
      have free : (evictLru env c).isAtCapacity (size (evictLru env c)) = false := by
        simp only [isAtCapacity, settings, Bool.and_eq_false_imp, decide_eq_false_iff_not]
        omega
      have enough : 1 ≤ (mmLru.evictionOrder env c).length := by
        rw [found] at head
        exact length_pos_iff.mpr (ne_nil_of_mem (mem_of_head? head))
      rw [if_neg (by rw [free]; exact Bool.false_ne_true)]
      exact shrinkLoop_ends (k := 1) clean enough free (fun _ => ⟨met.1, Nat.one_pos⟩)
        fun j within => (within.below full).2
    · have still : (evictLru env c).isAtCapacity (size (evictLru env c)) = true := by
        simp only [isAtCapacity, settings, Bool.and_eq_true, bne_iff_ne, ne_eq, finite.1,
          not_false_iff, decide_eq_true_iff, true_and]
        cases found : (findEvictionVictim c).1 with
        | none =>
          have same := eviction.size_of_none clean found
          omega
        | some v =>
          have fewer := eviction.size_of_some clean found
          have above : size c ≠ c.settings.maxSize := fun same => met ⟨same, by simp [found]⟩
          omega
      rw [if_pos still]
      refine .inr ⟨rfl, fun n within => met ⟨(within.below full).1, fun none => ?_⟩⟩
      rw [none, head?_eq_none_iff] at head
      have some := within.enough
      rw [head] at some
      exact absurd (within.below full).2 (by simpa using some)
  · have first : c.evictAtCapacity (evictLru env) size = c := if_neg full
    rw [first, if_neg full]
    exact shrinkLoop_ends (k := 0) clean (Nat.zero_le _) (by simpa using full)
      (fun h => absurd h full) fun _ _ => Nat.zero_le _

/-- Both parts of `insert_new` that look for room succeed. -/
theorem evictionsMakeRoom_iff (wf : s.WellFormed env) :
    EvictionsMakeRoom env s key value ↔ (findCapacity env s).2 = true ∧
      (findMemory env (findCapacity env s).1 key value).2 = true := by
  obtain ⟨n, within, least, found⟩ | ⟨failed, none⟩ := findCapacity_ends wf
  · have clean := Rearranges.cleanup wf
    have enough : n ≤ (mmLru.evictionOrder env s.cleanupPendingDeletion).length := by
      rw [cleanup_order]
      exact within.enough
    have took : Took env (mmLru.evictionOrder env) n s.cleanupPendingDeletion
        ((evictLru env)^[n] s.cleanupPendingDeletion) := (ordered env).took clean.wf enough
    have settings : _ = s.settings := took.settings_eq.trans clean.settings_eq
    rw [found]
    simp only [true_and, findMemory, fitLoop, settings]
    split
    case isTrue endless =>
      exact iff_of_true ⟨n, n, within, Nat.le_refl n, within.enough, .inl endless⟩ rfl
    case isFalse finite =>
      have enough := within.enough
      have total : s.table.length = size s := (eviction.size_eq wf).symm
      set mem := s.settings.calcItemMemory env key value
      set needs : Nat → Nat → Bool := fun count memory =>
        0 < count && s.settings.maxMemory < SizeT.fetchAdd memory mem
      have ends : LoopEnds env (policy env) (mmLru.evictionOrder env) needs
          ((evictLru env)^[n] s.cleanupPendingDeletion)
          (evictWhile (evictLru env) size (fun t => 0 < size t && t.exceedsMemory mem) _ _) :=
        (ordered env).evictWhile_ends took.wf fun {t} wft same => by
          rw [exceedsMemory, same.trans settings, eviction.size_eq wft]
      have all := ((ordered env).took wf (Nat.le_refl _)).length_eq
      have rest : (mmLru.evictionOrder env ((evictLru env)^[n] s.cleanupPendingDeletion)).length =
          (mmLru.evictionOrder env s).length - n := by
        rw [took.order_eq, cleanup_order, length_drop]
      have fits : ∀ k, n + k ≤ (mmLru.evictionOrder env s).length →
          (needsAfter env (mmLru.evictionOrder env) needs
              ((evictLru env)^[n] s.cleanupPendingDeletion) k = false ↔
            n + k = size s ∨ SizeT.fetchAdd (s.memoryWithout env
              ((mmLru.evictionOrder env s).take (n + k))) mem ≤ s.settings.maxMemory) := by
        intro k le
        have shifted : needsAfter env (mmLru.evictionOrder env) needs
            ((evictLru env)^[n] s.cleanupPendingDeletion) k = _ :=
          (ordered env).needsAfter_iterate clean.wf (by rwa [cleanup_order]) needs
        rw [shifted, needsAfter, cleanup_order, cleanup_memoryWithout, clean.table_eq]
        simp only [needs, Bool.and_eq_false_iff, decide_eq_false_iff_not, not_lt]
        refine or_congr_left ?_
        omega
      refine Iff.trans ?_ ends.success_iff.symm
      constructor
      · rintro ⟨a, m, earlier, le, last, room⟩
        have first := least a earlier
        refine ⟨m - n, by omega, (fits (m - n) (by omega)).mpr ?_⟩
        rw [Nat.add_sub_cancel' (by omega)]
        exact room.resolve_left finite
      · rintro ⟨k, le, met⟩
        exact ⟨n, n + k, within, Nat.le_add_right n k, by omega,
          .inr ((fits k (by omega)).mp met)⟩
  · refine iff_of_false ?_ (by simp [failed])
    rintro ⟨n, m, within, -⟩
    exact none n within

end MmLru

/-! ## The result of `add` -/

section Additions

variable [DecidableEq K] {strategy : Strategy}

/-- `insert_new` links the key: no limit is zero, and `mm_lru` finds enough victims. -/
def Strategy.CanInsert (env : Env K V) (strategy : Strategy) (s : State K V) (key : K)
    (value : V) : Prop :=
  (strategy.policy env).noCapacity s = false ∧
    (strategy = .mmLru → MmLru.EvictionsMakeRoom env s key value)

theorem record_insertNew_iff {expiryNs : Nat} (wf : s.WellFormed env)
    (absent : s.find env key = none) :
    (((strategy.policy env).insertNew s key value expiryNs sec).record env key).map Prod.fst =
      some value ↔ strategy.CanInsert env s key value := by
  have kept : ∀ {t : State K V}, Inserts env s t key value expiryNs →
      (t.record env key).map Prod.fst = some value := by
    intro t linked
    rw [record_of_find linked.find_eq]
    exact congrArg (fun x => some x.2.1) linked.content_new
  have dropped : ∀ {t : State K V}, t.find env key = none →
      ¬ (t.record env key).map Prod.fst = some value := by
    intro t missing
    simp [record_of_absent missing]
  by_cases strict : strategy = .mmLru
  · subst strict
    rw [Strategy.CanInsert, MmLru.evictionsMakeRoom_iff wf]
    change ((MmLru.insertNew env s key value expiryNs sec).record env key).map Prod.fst =
      some value ↔ MmLru.noCapacity s = false ∧ _
    cases MmLru.insertNew_ends value expiryNs sec wf absent with
    | blocked capacity unchanged =>
      rw [unchanged]
      exact iff_of_false (dropped absent) (by simp [capacity])
    | failed capacity full counted =>
      have shrunk := MmLru.findCapacity_shrinks wf
      rw [counted]
      exact iff_of_false (dropped (shrunk.find_eq_none wf absent :)) (by simp [full])
    | dropped capacity found stuck shrunk =>
      exact iff_of_false (dropped (shrunk.find_eq_none wf absent)) (by simp [stuck])
    | inserted capacity found room linked fits =>
      exact iff_of_true (kept linked) ⟨capacity, fun _ => ⟨found, room⟩⟩
  · have always := Strategy.insertsAlways env strict
    cases capacity : (strategy.policy env).noCapacity s with
    | true =>
      rw [always.blocked capacity]
      exact iff_of_false (dropped absent) (by simp [Strategy.CanInsert, capacity])
    | false =>
      exact iff_of_true (kept (always.inserts value expiryNs sec wf absent capacity))
        ⟨capacity, fun same => absurd same strict⟩

/-- `add` returns `true` iff the key was absent and now has the value, and `false` only
if nothing changed. -/
structure AddExact (env : Env K V) (p : Policy K V) (s : State K V) (key : K) (value : V)
    (sec : Nat) : Prop where
  added : (p.add env s key value sec).1 = true ↔ s.record env key = none ∧
    ((p.add env s key value sec).2.record env key).map Prod.fst = some value
  unchanged : (p.add env s key value sec).1 = false →
    ∀ other, (p.add env s key value sec).2.record env other = s.record env other

/-- The cleanup at the start of `add` does not matter for that. -/
theorem Strategy.canInsert_cleanupIf (wf : s.WellFormed env) :
    strategy.CanInsert env (Policy.cleanupIf (strategy.policy env).cleanupOnSet s) key value ↔
      strategy.CanInsert env s key value := by
  by_cases strict : strategy = .mmLru
  · subst strict
    rfl
  · have clean := Policy.Laws.cleanupIf_rearranges (strategy.policy env).cleanupOnSet wf
    simp [CanInsert, strict, (strategy.laws env).noCapacity_eq clean.settings_eq]

theorem Strategy.addExact_iff (sec : Nat) (wf : s.WellFormed env) :
    AddExact env (strategy.policy env) s key value sec ↔
      s.record env key ≠ none ∨ strategy.CanInsert env s key value := by
  have laws := strategy.laws env
  obtain ⟨absent, added, -⟩ | ⟨i, resident, refused, moved⟩ := laws.add_cases wf key value sec
  · have clean := Policy.Laws.cleanupIf_rearranges (strategy.policy env).cleanupOnSet wf
    have missing := (clean.find_eq wf).trans absent
    have ends : ((strategy.policy env).add env s key value sec).2 = (strategy.policy env).insertNew
        (Policy.cleanupIf (strategy.policy env).cleanupOnSet s) key value 0 sec := by
      simp only [Policy.add, missing]
    have record := record_of_absent absent
    rw [← canInsert_cleanupIf wf, ← record_insertNew_iff clean.wf missing, ← ends]
    simp only [record, ne_eq, not_true, false_or]
    constructor
    · exact fun exact => (exact.added.mp added).2
    · intro stored
      exact ⟨iff_of_true added ⟨record, stored⟩, fun refused => by simp [added] at refused⟩
  · have record := record_of_find resident
    refine iff_of_true ⟨iff_of_false (by simp [refused]) (by simp [record]), fun _ other => ?_⟩
      (.inl (by simp [record]))
    exact moved.record_eq wf

end Additions

end Lru.Mm
