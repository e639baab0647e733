import Lru.Mm.Strategy

/-!
# Writes that find room

When neither limit is reached a write evicts nothing: a new key is linked, and a
resident key keeps its place with the new value.
-/

namespace Lru.Mm

variable {K V : Type} {s : State K V} {env : Env K V} {value : V} {key : K} {sec : Nat}

open State Policy Policy.Laws

namespace State

/-- Expiry and handle count of the item that a key refers to; a new item starts
with neither. -/
def stamp [DecidableEq K] (env : Env K V) (s : State K V) (key : K) : Nat × Nat :=
  match s.find env key with
  | none => (0, 0)
  | some i => ((s.heap i).expiryNs, (s.heap i).accessRef)

end State

/-- After `set` the item under the key has the new value, and expiry and handles
of the item that was there before. -/
theorem Policy.Laws.set_content [DecidableEq K] {p : Policy K V} {i : ItemId}
    (laws : p.Laws env) (wf : s.WellFormed env)
    (found : (p.set env s key value sec).find env key = some i) :
    ((p.set env s key value sec).heap i).content = (key, value, s.stamp env key) := by
  obtain ⟨absent, admitted⟩ | ⟨j, resident, written⟩ := laws.set_cases wf key value sec
  · rw [State.stamp, absent]
    cases admitted with
    | inserted linked =>
      obtain rfl : s.next = i := Option.some.inj (linked.find_eq.symm.trans found)
      exact linked.content_new
    | dropped shrunk =>
      rw [shrunk.find_eq_none wf absent] at found
      cases found
    | failed u shrunk noted =>
      rw [noted] at found
      have missing := shrunk.find_eq_none wf absent
      cases missing.symm.trans found
  · obtain ⟨hj, hk⟩ := (find_eq_some_iff wf).mp resident
    obtain ⟨hi, keyed⟩ := (find_eq_some_iff written.wf).mp found
    have content := written.content i hi
    have same : (s.heap i).key = key := by
      have moved := congrArg Prod.fst content
      by_cases other : i = j
      · exact other ▸ hk
      · simpa [Body.content, State.modify, other, keyed] using moved.symm
    obtain rfl : i = j := wf.key_inj i (written.mem i hi) j hj (same.trans hk.symm)
    rw [content, State.stamp, resident]
    simp [Body.content, State.modify, hk]

/-- There is room for `value` under `key` without any eviction, by the tests that
the strategy itself makes. -/
def Policy.hasRoom [DecidableEq K] (env : Env K V) (p : Policy K V) (s : State K V) (key : K)
    (value : V) : Bool :=
  let mem := s.settings.calcItemMemory env key value
  match s.find env key with
  | none => !p.noCapacity s && !s.isAtCapacity (p.size s) && !s.shouldEvict (p.size s) &&
      (s.settings.maxMemory == unlimited || !s.exceedsMemory mem)
  | some i => !(Policy.adjustMemory s (s.itemMemory env i) mem).shouldEvict (p.size s)

section Insert

variable [DecidableEq K] {strategy : Strategy}

theorem Strategy.insertNew_of_room {expiryNs : Nat} (wf : s.WellFormed env)
    (absent : s.find env key = none)
    (room : (strategy.policy env).hasRoom env s key value = true) :
    Inserts env s ((strategy.policy env).insertNew s key value expiryNs sec) key value
      expiryNs := by
  simp only [hasRoom, absent, Bool.and_eq_true, Bool.not_eq_true', Bool.or_eq_true,
    beq_iff_eq] at room
  obtain ⟨⟨⟨capacity, free⟩, calm⟩, memory⟩ := room
  by_cases strict : strategy = .mmLru
  · subst strict
    have found : MmLru.findCapacity env s = (s.cleanupPendingDeletion, true) :=
      MmLru.findCapacity_of_room free calm
    cases MmLru.insertNew_ends value expiryNs sec wf absent with
    | blocked blocked => exact absurd (capacity.symm.trans blocked) (by simp)
    | failed _ full => simp [found] at full
    | dropped _ _ stuck =>
      have fits : MmLru.findMemory env s.cleanupPendingDeletion key value =
          (s.cleanupPendingDeletion, true) := by
        apply MmLru.findMemory_of_room
        simpa [exceedsMemory] using memory
      simp [found, fits] at stuck
    | inserted _ _ _ linked => exact linked
  · exact (Strategy.insertsAlways env strict).inserts value expiryNs sec wf absent capacity

theorem hasRoom_cleanupIf {b : Bool} (wf : s.WellFormed env) (absent : s.find env key = none) :
    (strategy.policy env).hasRoom env (cleanupIf b s) key value =
      (strategy.policy env).hasRoom env s key value := by
  have laws := strategy.laws env
  have clean := cleanupIf_rearranges b wf
  have size : (strategy.policy env).size (cleanupIf b s) = (strategy.policy env).size s := by
    rw [laws.eviction.size_eq wf, laws.eviction.size_eq clean.wf, clean.table_eq]
  have still := (clean.find_eq wf).trans absent
  simp only [hasRoom, absent, still, laws.noCapacity_eq clean.settings_eq, isAtCapacity,
    shouldEvict, exceedsMemory, clean.settings_eq, cleanupIf_stats, size]

theorem Strategy.set_of_room (sec : Nat) (wf : s.WellFormed env) (absent : s.find env key = none)
    (room : (strategy.policy env).hasRoom env s key value = true) :
    Inserts env s ((strategy.policy env).set env s key value sec) key value 0 := by
  have clean := cleanupIf_rearranges (strategy.policy env).cleanupOnSet wf
  have still := (clean.find_eq wf).trans absent
  rw [← hasRoom_cleanupIf wf absent] at room
  rw [Policy.set]
  simp only [still]
  exact .after clean.toShrinks (Strategy.insertNew_of_room clean.wf still room)

end Insert

section Update

theorem adjustMemory_stats {t : State K V} {before after : Nat} (stats : t.stats = s.stats) :
    (adjustMemory t before after).stats = (adjustMemory s before after).stats := by
  simp only [adjustMemory]
  split
  · simp [addMemory, modifyStats, stats]
  · split
    · simp [subMemory, modifyStats, stats]
    · exact stats

variable [DecidableEq K] {p : Policy K V} {i : ItemId}

/-- The memory that `update_existing` accounts for. -/
theorem storeValue_stats (laws : p.Laws env) (value : V) (sec : Nat) (wf : s.WellFormed env)
    (found : s.find env key = some i) :
    (p.storeValue env s i value sec).stats =
      (adjustMemory s (s.itemMemory env i)
        (s.settings.calcItemMemory env key value)).stats := by
  obtain ⟨hi, hk⟩ := (find_eq_some_iff wf).mp found
  have written := WellFormed.write (i := i) (.value value) wf
  have moved := laws.recordAccess .write sec written hi
  have content := moved.content i (moved.mem_iff.mpr hi)
  simp only [Body.content, State.modify, Function.update_self, Prod.mk.injEq] at content
  have mem : itemMemory env (p.recordAccess
      (s.modify i fun item => { item with value := value }) i .write sec).2 i =
      s.settings.calcItemMemory env key value := by
    rw [itemMemory, moved.settings_eq]
    simp only [State.modify] at content ⊢
    rw [content.1, content.2.1, hk]
  rw [storeValue, mem]
  exact adjustMemory_stats moved.stats_eq

/-- An update within the limits evicts nothing. -/
theorem updateExisting_table (laws : p.Laws env) (sec : Nat) (wf : s.WellFormed env)
    (found : s.find env key = some i)
    (fits : (adjustMemory s (s.itemMemory env i)
      (s.settings.calcItemMemory env key value)).shouldEvict (p.size s) = false) :
    (p.updateExisting env s i value sec).table = s.table := by
  have hi := ((find_eq_some_iff wf).mp found).1
  have stored := laws.storeValue_rearranges wf value sec hi
  have stats := storeValue_stats laws value sec wf found
  have size : p.size (p.storeValue env s i value sec) = p.size s := by
    rw [laws.eviction.size_eq wf, laws.eviction.size_eq stored.wf, stored.table_eq]
    rfl
  have adjusted := adjustMemory_quiet (s := s) (s.itemMemory env i)
    (s.settings.calcItemMemory env key value)
  have calm : ∀ u : State K V, Quiet (p.storeValue env s i value sec) u →
      u.stats = (p.storeValue env s i value sec).stats → (p.shrinkToFit u) = u := by
    intro u quiet same
    have wf := quiet.wf stored.wf
    have count : p.size u = p.size s := by
      rw [← size, laws.eviction.size_eq wf, laws.eviction.size_eq stored.wf, quiet.table_eq]
    have settings : u.settings = s.settings := quiet.settings_eq.trans stored.settings_eq
    have done : u.shouldEvict (p.size u) = false := by
      rw [← fits, shouldEvict, shouldEvict, count, same, stats, settings, adjusted.settings_eq]
    rw [shrinkToFit, shrinkLoop, evictWhile_of_false done]
  have collected := collectUpdate_quiet (p.storeValue env s i value sec) i
  rw [updateExisting]
  split
  · rw [calm _ collected collect_stats, collected.table_eq]
    exact stored.table_eq
  · rw [calm _ .refl rfl, collected.table_eq]
    exact stored.table_eq

/-- An update within the limits keeps the item. -/
theorem set_of_fits (laws : p.Laws env) (sec : Nat) (wf : s.WellFormed env)
    (found : s.find env key = some i) (room : p.hasRoom env s key value = true) :
    i ∈ (p.set env s key value sec).table := by
  have clean := cleanupIf_rearranges p.cleanupOnSet wf
  have still := (clean.find_eq wf).trans found
  have stats := cleanupIf_stats p.cleanupOnSet s
  have heap := cleanupIf_heap p.cleanupOnSet s
  have size : p.size (Policy.cleanupIf p.cleanupOnSet s) = p.size s := by
    rw [laws.eviction.size_eq wf, laws.eviction.size_eq clean.wf, clean.table_eq]
  simp only [Policy.hasRoom, found, Bool.not_eq_true'] at room
  rw [Policy.set]
  simp only [still]
  rw [updateExisting_table laws sec clean.wf still, clean.table_eq]
  · exact ((find_eq_some_iff wf).mp found).1
  · rw [← room, shouldEvict, shouldEvict, itemMemory, itemMemory, heap, clean.settings_eq, size,
      adjustMemory_stats stats, (adjustMemory_quiet _ _).settings_eq,
      (adjustMemory_quiet _ _).settings_eq, clean.settings_eq]

end Update

end Lru.Mm
