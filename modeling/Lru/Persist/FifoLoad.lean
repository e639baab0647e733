import Lru.Persist.Lifetime

/-!
# How many items a load leaves in `mm_fifo`

`mm_fifo` sets the items of the file one by one, and each `set` makes room first. It
links the item even if no room was made, which happens when the eviction predicate
vetoes as many of the oldest items as the search looks at. So the size stays within the
limit and the pinned items exactly if no file can hold that many vetoed pairs.
-/

namespace Lru.Mm

variable {K V : Type} {env : Env K V} {s t : State K V} {p : K × V}

open State List

/-! ## Items without a handle -/

/-- Keys and values of the items without a handle, oldest first. -/
def State.freePairs (s : State K V) : List (K × V) :=
  ((s.queue 0).reverse.filter fun i => !(s.heap i).hasActiveHandle).map
    fun i => ((s.heap i).key, (s.heap i).value)

/-- The number of items without a handle that the search looks at. -/
def Settings.patience (c : Settings K V) : Nat := max c.config.evictionSearchTries 1

theorem searchPairs_eq_none_iff {c : Settings K V} {tries : Nat} {l : List (K × V)} :
    searchPairs c tries l = none ↔
      ∀ p ∈ l.take (max (c.config.evictionSearchTries - tries) 1), c.vetoes p = true := by
  induction l generalizing tries with
  | nil => simp [searchPairs]
  | cons p rest ih =>
    obtain ⟨n, hn⟩ : ∃ n, max (c.config.evictionSearchTries - tries) 1 = n + 1 :=
      ⟨max (c.config.evictionSearchTries - tries) 1 - 1, by omega⟩
    rw [hn, take_succ_cons, searchPairs, forall_mem_cons]
    cases veto : c.vetoes p with
    | false => simp
    | true =>
      by_cases last : c.config.evictionSearchTries ≤ tries + 1
      · obtain rfl : n = 0 := by omega
        simp [last]
      · have more : max (c.config.evictionSearchTries - (tries + 1)) 1 = n := by omega
        simp [last, ih, more]

/-- The search fails iff all the items it looks at are vetoed. -/
theorem searchQueue_eq_none_iff :
    s.searchQueue 0 = none ↔
      ∀ p ∈ s.freePairs.take s.settings.patience, s.settings.vetoes p = true := by
  have searched := searchVictim_pairs s 0 (s.queue 0).reverse
  rw [searchQueue, ← Option.map_eq_none_iff, searched]
  exact searchPairs_eq_none_iff

theorem mem_freePairs : p ∈ s.freePairs ↔
    ∃ i ∈ s.queue 0, (s.heap i).hasActiveHandle = false ∧
      ((s.heap i).key, (s.heap i).value) = p := by
  simp [freePairs, and_assoc]

theorem freePairs_keys_nodup (wf : s.WellFormed env) : (s.freePairs.map Prod.fst).Nodup := by
  have keys := nodup_reverse.mpr (sequence_keys_nodup wf 0)
  rw [State.sequence, ← map_reverse, ← map_reverse] at keys
  exact keys.sublist ((filter_sublist.map _).map _)

theorem State.OneList.table_perm (one : s.OneList) (wf : s.WellFormed env) :
    s.table.Perm (s.queue 0) := by
  rw [← one.liveItems]
  exact wf.table_perm

/-- An item has a handle or is one of the others. -/
theorem length_freePairs (wf : s.WellFormed env) (one : s.OneList) :
    s.pinnedCount + s.freePairs.length = s.table.length := by
  have perm := (one.table_perm wf).trans (s.queue 0).reverse_perm.symm
  rw [freePairs, length_map, ← (perm.filter _).length_eq]
  exact (length_eq_length_filter_add _).symm

/-! ## What `set` does to both kinds -/

/-- The same items have handles, under the same keys. -/
structure KeepsPinned (s t : State K V) : Prop where
  mem_iff : ∀ i, i ∈ t.table ∧ (t.heap i).hasActiveHandle = true ↔
    i ∈ s.table ∧ (s.heap i).hasActiveHandle = true
  key_eq : ∀ i ∈ s.table, (s.heap i).hasActiveHandle = true → (t.heap i).key = (s.heap i).key

theorem KeepsPinned.refl : KeepsPinned s s := ⟨fun _ => .rfl, fun _ _ _ => rfl⟩

theorem KeepsPinned.trans {u : State K V} (first : KeepsPinned s t) (second : KeepsPinned t u) :
    KeepsPinned s u where
  mem_iff i := (second.mem_iff i).trans (first.mem_iff i)
  key_eq i hi pinned := by
    obtain ⟨mem, still⟩ := (first.mem_iff i).mpr ⟨hi, pinned⟩
    exact (second.key_eq i mem still).trans (first.key_eq i hi pinned)

theorem KeepsPinned.pinnedCount_eq (h : KeepsPinned s t) (before : s.WellFormed env)
    (after : t.WellFormed env) : t.pinnedCount = s.pinnedCount := by
  refine List.Perm.length_eq ((perm_ext_iff_of_nodup
    ((after.table_nodup).filter _)
    ((before.table_nodup).filter _)).mpr fun i => ?_)
  rw [mem_filter, mem_filter]
  exact h.mem_iff i

/-- A new item at the head is the youngest of them. -/
theorem Inserts.freePairs_eq {key : K} {value : V} {expiryNs : Nat}
    (h : Inserts env s t key value expiryNs) (queue : t.queue 0 = s.next :: s.queue 0) :
    t.freePairs = s.freePairs ++ [(key, value)] := by
  have nodup : (s.next :: s.queue 0).Nodup := queue ▸ h.wf.queue_nodup 0
  have content : ∀ i ∈ (s.queue 0).reverse, (t.heap i).content = (s.heap i).content := by
    intro i hi
    rw [mem_reverse] at hi
    refine h.content_old i (mem_of_queue h.wf (q := 0) (queue ▸ .tail _ hi)) ?_
    rintro rfl
    exact (nodup_cons.mp nodup).1 hi
  have filter : (s.queue 0).reverse.filter (fun i => !(t.heap i).hasActiveHandle) =
      (s.queue 0).reverse.filter fun i => !(s.heap i).hasActiveHandle :=
    filter_congr fun i hi =>
      congrArg (fun c : K × V × Nat × Nat => !decide (0 < c.2.2.2)) (content i hi)
  have free : (!(t.heap s.next).hasActiveHandle) = true :=
    congrArg (fun c : K × V × Nat × Nat => !decide (0 < c.2.2.2)) h.content_new
  have new : ((t.heap s.next).key, (t.heap s.next).value) = (key, value) :=
    congrArg (fun c : K × V × Nat × Nat => (c.1, c.2.1)) h.content_new
  rw [freePairs, queue, reverse_cons, filter_append, map_append, filter,
    filter_cons_of_pos (by exact free), filter_nil,
    map_singleton, new]
  refine congrArg (· ++ [(key, value)]) (map_congr_left fun i hi => ?_)
  exact congrArg (fun c : K × V × Nat × Nat => (c.1, c.2.1))
    (content i (mem_filter.mp hi).1)

namespace MmFifo

variable [DecidableEq K] {key : K} {value : V} {sec : Nat} {i : ItemId}

theorem makeRoom_mem_of_held (mem : Nat) (wf : s.WellFormed env) (hi : i ∈ s.table)
    (held : (s.heap i).accessRef ≠ 0) : i ∈ (makeRoom env s mem).table := by
  refine (makeRoom_keeps (I := fun t => i ∈ t.table ∧ (t.heap i).accessRef ≠ 0) (fun wf h => ?_)
    mem wf ⟨hi, held⟩).1
  have still := eviction.mem_of_held wf h.1 h.2
  exact ⟨still, ((eviction.shrinks wf).accessRef still).trans_ne h.2⟩

theorem set_mem_of_held (wf : s.WellFormed env) (hi : i ∈ s.table)
    (held : (s.heap i).accessRef ≠ 0) : i ∈ ((policy env).set env s key value sec).table := by
  cases found : s.find env key with
  | none =>
    cases full : noCapacity s with
    | true =>
      rw [set_of_noCapacity found full]
      exact hi
    | false =>
      have clean := Rearranges.cleanup wf
      have mem := clean.mem_iff.mpr hi
      have made := makeRoom_shrinks (s.settings.calcItemMemory env key value) clean.wf
      have still := made.find_eq_none clean.wf (clean.find_eq_none wf found)
      rw [set_of_absent found, insertNew, if_neg (by rw [full]; decide)]
      rw [link, linkAtHead_table made.wf still]
      exact .tail _ (makeRoom_mem_of_held _ clean.wf mem ((clean.accessRef hi).trans_ne held))
  | some j =>
    have same : (policy env).set env s key value sec =
        (policy env).updateExisting env s j value sec := by
      have clean : Policy.cleanupIf (policy env).cleanupOnSet s = s := rfl
      rw [Policy.set, clean, found]
    rw [same]
    exact (laws env).updateExisting_mem_of_held wf ((find_eq_some_iff wf).mp found).1 hi held

/-- `set` is refused, inserts a new key or writes the value of a resident one. -/
theorem set_cases (wf : s.WellFormed env) :
    (policy env).set env s key value sec = s ∨
      Inserts env s ((policy env).set env s key value sec) key value 0 ∨
      ∃ i, s.find env key = some i ∧
        Shrinks env (s.modify i fun item => { item with value := value })
          ((policy env).set env s key value sec) := by
  obtain ⟨absent, -⟩ | resident := (laws env).set_cases wf key value sec
  · cases full : noCapacity s with
    | true => exact .inl (set_of_noCapacity absent full)
    | false => exact .inr (.inl (set_inserts value sec wf absent full))
  · exact .inr (.inr resident)

/-- An item keeps its key and its handles and at most gets the new value, or it is new. -/
theorem set_content (wf : s.WellFormed env) (is : (policy env).set env s key value sec = t)
    (hi : i ∈ t.table) :
    (i ∈ s.table ∧ (t.heap i).key = (s.heap i).key ∧ (t.heap i).accessRef = (s.heap i).accessRef ∧
        ((t.heap i).value = (s.heap i).value ∨ (s.heap i).key = key ∧ (t.heap i).value = value)) ∨
      (i = s.next ∧ (t.heap i).content = (key, value, 0, 0)) := by
  subst is
  obtain refused | inserted | ⟨j, found, written⟩ := set_cases wf
  · rw [refused] at hi ⊢
    exact .inl ⟨hi, rfl, rfl, .inl rfl⟩
  · by_cases new : i = s.next
    · exact .inr ⟨new, new ▸ inserted.content_new⟩
    · have content := inserted.content_old i hi new
      simp only [Body.content, Prod.mk.injEq] at content
      exact .inl ⟨inserted.mem_old i hi new, content.1, content.2.2.2, .inl content.2.1⟩
  · have content := written.content i hi
    refine .inl ⟨written.mem i hi, ?_⟩
    by_cases same : i = j
    · subst same
      simp only [State.modify, Function.update_self, Body.content, Prod.mk.injEq] at content
      exact ⟨content.1, content.2.2.2, .inr ⟨((find_eq_some_iff wf).mp found).2, content.2.1⟩⟩
    · simp only [State.modify, Function.update_of_ne same, Body.content, Prod.mk.injEq] at content
      exact ⟨content.1, content.2.2.2, .inl content.2.1⟩

theorem set_keepsPinned (wf : s.WellFormed env) :
    KeepsPinned s ((policy env).set env s key value sec) := by
  have kept : ∀ i ∈ s.table, (s.heap i).hasActiveHandle = true →
      i ∈ ((policy env).set env s key value sec).table := fun i hi pinned =>
    set_mem_of_held wf hi (Nat.pos_iff_ne_zero.mp (of_decide_eq_true pinned))
  generalize is : (policy env).set env s key value sec = t at kept ⊢
  -- An old item keeps its key and its handles.
  have same : ∀ i ∈ s.table, i ∈ t.table →
      (t.heap i).key = (s.heap i).key ∧ (t.heap i).accessRef = (s.heap i).accessRef := by
    intro i before hi
    obtain ⟨-, key_eq, count, -⟩ | ⟨rfl, -⟩ := set_content wf is hi
    · exact ⟨key_eq, count⟩
    · exact absurd before (wf.next_not_mem)
  refine ⟨fun i => ⟨?_, ?_⟩, fun i hi pinned => (same i hi (kept i hi pinned)).1⟩
  · rintro ⟨hi, pinned⟩
    rw [Body.hasActiveHandle] at pinned
    obtain ⟨before, -, count, -⟩ | ⟨-, content⟩ := set_content wf is hi
    · rw [count] at pinned
      exact ⟨before, pinned⟩
    · simp only [Body.content, Prod.mk.injEq] at content
      rw [content.2.2.2] at pinned
      cases pinned
  · rintro ⟨hi, pinned⟩
    have mem := kept i hi pinned
    refine ⟨mem, ?_⟩
    rw [Body.hasActiveHandle, (same i hi mem).2]
    exact pinned

/-- A pair without a handle was there before or is the one that was set. -/
theorem set_freePairs (wf : s.WellFormed env) (one : s.OneList)
    (hp : p ∈ ((policy env).set env s key value sec).freePairs) :
    p ∈ s.freePairs ∨ p = (key, value) := by
  obtain ⟨i, queued, free, rfl⟩ := mem_freePairs.mp hp
  have after := (laws env).set_wf wf key value sec
  rw [Body.hasActiveHandle] at free
  obtain ⟨before, key_eq, count, same | ⟨rfl, new⟩⟩ | ⟨-, content⟩ :=
    set_content wf rfl (mem_of_queue after queued)
  · rw [count] at free
    refine .inl (mem_freePairs.mpr ⟨i, (one.mem_table_iff wf).mp before, free, ?_⟩)
    rw [key_eq, same]
  · exact .inr (by rw [key_eq, new])
  · simp only [Body.content, Prod.mk.injEq] at content
    exact .inr (by rw [content.1, content.2.1])

theorem set_length_le (key : K) (value : V) (sec : Nat) (wf : s.WellFormed env) :
    ((policy env).set env s key value sec).table.length ≤ s.table.length + 1 := by
  obtain refused | inserted | ⟨j, -, written⟩ := set_cases wf
  · rw [refused]
    exact Nat.le_succ _
  · exact inserted.length_le
  · exact Nat.le_succ_of_le written.length_le

/-- A full strategy that can evict does not grow. -/
theorem set_length_le_of_victim (key : K) (value : V) (sec : Nat) (wf : s.WellFormed env)
    (full : s.isAtCapacity s.table.length = true) (victim : s.searchQueue 0 ≠ none) :
    ((policy env).set env s key value sec).table.length ≤ s.table.length := by
  obtain ⟨absent, -⟩ | ⟨j, -, written⟩ := (laws env).set_cases wf key value sec
  · cases blocked : noCapacity s with
    | true => rw [set_of_noCapacity absent blocked]
    | false =>
      have clean := Rearranges.cleanup wf
      obtain ⟨v, found⟩ := Option.ne_none_iff_exists'.mp victim
      rw [← searchQueue_cleanup] at found
      have capacity : s.cleanupPendingDeletion.isAtCapacity
          (size s.cleanupPendingDeletion) = true := by
        rw [isAtCapacity, clean.settings_eq, size, clean.table_eq]
        exact full
      have removed := eviction.removes clean.wf found
      have shrunk := eviction.shrinkLoop_shrinks removed.wf
      have fitted := shrunk.trans (eviction.fitLoop_shrinks liveCount
        (s.settings.calcItemMemory env key value) shrunk.wf)
      have made := removed.toShrinks.trans fitted
      have still := made.find_eq_none clean.wf (clean.find_eq_none wf absent)
      have shorter := removed.length_eq
      have later := fitted.length_le
      rw [clean.table_eq] at shorter
      rw [set_of_absent absent, insertNew, if_neg (by rw [blocked]; decide)]
      simp only [makeRoom, evictAtCapacity]
      rw [if_pos capacity, link, linkAtHead_table fitted.wf still, length_cons]
      omega
  · exact written.length_le

/-- Without a victim the new item is linked in front of all the others. -/
theorem set_queue_of_stuck (wf : s.WellFormed env) (one : s.OneList)
    (absent : s.find env key = none) (room : noCapacity s = false)
    (stuck : s.searchQueue 0 = none) :
    ((policy env).set env s key value sec).queue 0 = s.next :: s.queue 0 := by
  have clean := Rearranges.cleanup wf
  have queue : s.cleanupPendingDeletion.queue = s.queue := cleanup_queue s
  have found : s.cleanupPendingDeletion.searchQueue 0 = none := by
    rw [searchQueue_cleanup]
    exact stuck
  obtain ⟨made, -⟩ := makeRoom_stuck (s.settings.calcItemMemory env key value) clean.wf found
  have thinned := makeRoom_thins (s.settings.calcItemMemory env key value) clean.wf
  have still := made.find_eq_none clean.wf (clean.find_eq_none wf absent)
  set roomy := makeRoom env s.cleanupPendingDeletion (s.settings.calcItemMemory env key value)
  have rest : roomy.OneList := by
    intro q other
    have sublist := thinned.sublist q
    rw [queue, one q other, sublist_nil] at sublist
    exact sublist
  -- A part of the list with as many items as the table is the whole list.
  have same : roomy.queue 0 = s.queue 0 := by
    have sublist := thinned.sublist 0
    rw [queue] at sublist
    refine sublist.eq_of_length ?_
    have length := (one.table_perm wf).length_eq
    rw [← clean.table_eq, ← made.table_eq, (rest.table_perm made.wf).length_eq] at length
    exact length
  rw [set_of_absent absent, insertNew, if_neg (by rw [room]; decide)]
  rw [link, linkAtHead_queue made.wf still, Function.update_self, same, made.next_eq, clean.next_eq]

end MmFifo

end Lru.Mm

namespace Lru.Persist

open Mm State Binary Serde List MmFifo

variable {K V : Type} [DecidableEq K] {env : Env K V} {keys : Codec K} {values : Codec V}
  {s t f target : State K V} {sec : Nat} {items : List (SerializedItem K V)}

/-! ## Files that fill a target past its limit -/

/-- The items go into a file, and the oldest ones are vetoed for as long as the search
looks. -/
structure Overfills (keys : Codec K) (values : Codec V) (target : State K V)
    (items : List (SerializedItem K V)) : Prop where
  length : items.length = target.settings.maxSize + 1
  count : items.length ≤ 10000000
  fits : ∀ item ∈ items, keys.Fits item.key ∧ values.Fits item.value
  fresh : FreshKeys target items
  vetoed : ∀ item ∈ items.take (min target.settings.patience target.settings.maxSize),
    target.settings.vetoes (item.key, item.value) = true

/-- No file fills the target past its limit. -/
def NeverOverfilled (keys : Codec K) (values : Codec V) (target : State K V) : Prop :=
  MmFifo.noCapacity target = true ∨ ¬ ∃ items, Overfills keys values target items

omit [DecidableEq K] in
theorem overfills_congr (same : SamePins s t) (settings : t.settings = s.settings) :
    Overfills keys values t items ↔ Overfills keys values s items := by
  have fresh : FreshKeys t items ↔ FreshKeys s items := freshKeys_of_samePins same
  constructor <;> rintro ⟨length, count, fits, keys, vetoed⟩
  · exact ⟨settings ▸ length, count, fits, fresh.mp keys, settings ▸ vetoed⟩
  · exact ⟨settings ▸ length, count, fits, fresh.mpr keys, settings ▸ vetoed⟩

/-! ## The loop -/

/-- What holds during the loop over the items, which began in `f`. -/
structure Filling (env : Env K V) (keys : Codec K) (values : Codec V) (f s : State K V) : Prop where
  wf : s.WellFormed env
  one : s.OneList
  settings_eq : s.settings = f.settings
  pinned : KeepsPinned f s
  fits : ∀ p ∈ s.freePairs, keys.Fits p.1 ∧ values.Fits p.2

theorem Filling.set (h : Filling env keys values f s) {item : SerializedItem K V}
    (fits : keys.Fits item.key ∧ values.Fits item.value) :
    Filling env keys values f ((policy env).set env s item.key item.value sec) where
  wf := (laws env).set_wf h.wf item.key item.value sec
  one := set_oneList h.wf h.one item.key item.value sec
  settings_eq := ((laws env).set_settings h.wf item.key item.value sec).trans h.settings_eq
  pinned := h.pinned.trans (set_keepsPinned h.wf)
  fits p hp := by
    obtain old | rfl := set_freePairs h.wf h.one hp
    · exact h.fits p old
    · exact fits

/-- An item of the file with this key and value. -/
def itemOf (p : K × V) : SerializedItem K V := { key := p.1, value := p.2 }

section Fill

variable (h : Filling env keys values f s) (start : f.WellFormed env) {item : SerializedItem K V}

include h start

/-- A full strategy without a victim shows how to overfill it. -/
theorem Filling.overfills (fits : keys.Fits item.key ∧ values.Fits item.value)
    (absent : s.find env item.key = none) (stuck : s.searchQueue 0 = none)
    (full : s.table.length = f.settings.maxSize + f.pinnedCount)
    (few : f.settings.maxSize < 10000000) :
    Overfills keys values f ((s.freePairs ++ [(item.key, item.value)]).map itemOf) := by
  have free : s.freePairs.length = f.settings.maxSize := by
    have total := length_freePairs h.wf h.one
    rw [h.pinned.pinnedCount_eq start h.wf] at total
    omega
  have length : ((s.freePairs ++ [(item.key, item.value)]).map itemOf).length =
      f.settings.maxSize + 1 := by
    rw [length_map, length_append, free, length_singleton]
  have other : ∀ p ∈ s.freePairs, p.1 ≠ item.key := by
    intro p hp
    obtain ⟨i, hi, -, rfl⟩ := mem_freePairs.mp hp
    exact (find_eq_none_iff h.wf).mp absent i (mem_of_queue h.wf hi)
  have mapped : ∀ l : List (K × V), (l.map itemOf).map SerializedItem.key = l.map Prod.fst := by
    intro l
    rw [map_map]
    rfl
  refine ⟨length, length.trans_le few, fun x hx => ?_, ⟨?_, fun x hx i hi pinned => ?_⟩, ?_⟩
  · obtain ⟨p, hp, rfl⟩ := mem_map.mp hx
    obtain old | new := mem_append.mp hp
    · exact h.fits p old
    · obtain rfl := mem_singleton.mp new
      exact fits
  · rw [mapped, map_append]
    refine List.Nodup.append (freePairs_keys_nodup h.wf) (nodup_singleton _) ?_
    intro key hkey new
    obtain ⟨p, hp, rfl⟩ := mem_map.mp hkey
    exact other p hp (mem_singleton.mp new)
  · obtain ⟨p, hp, rfl⟩ := mem_map.mp hx
    obtain ⟨linked, held⟩ := (h.pinned.mem_iff i).mpr ⟨hi, pinned⟩
    intro same
    have key : (s.heap i).key = p.1 := (h.pinned.key_eq i hi pinned).trans same
    obtain old | new := mem_append.mp hp
    · -- Two items with one key are the same, but only one of them has a handle.
      obtain ⟨j, hj, free, rfl⟩ := mem_freePairs.mp old
      obtain rfl := h.wf.key_inj i linked j (mem_of_queue h.wf hj) key
      rw [held] at free
      cases free
    · obtain rfl := mem_singleton.mp new
      exact (find_eq_none_iff h.wf).mp absent i linked key
  · intro x hx
    rw [← map_take, take_append_of_le_length (by omega)] at hx
    obtain ⟨p, hp, rfl⟩ := mem_map.mp hx
    rw [← h.settings_eq]
    refine searchQueue_eq_none_iff.mp stuck p ?_
    rw [h.settings_eq]
    exact take_subset_take_left _ (Nat.min_le_left _ _) hp

theorem Filling.set_length_le (sec : Nat) (fits : keys.Fits item.key ∧ values.Fits item.value)
    (safe : NeverOverfilled keys values f) (few : s.table.length < f.pinnedCount + 10000000)
    (bound : s.table.length ≤ f.settings.maxSize + f.pinnedCount) :
    ((policy env).set env s item.key item.value sec).table.length ≤
      f.settings.maxSize + f.pinnedCount := by
  have grows := MmFifo.set_length_le item.key item.value sec h.wf
  by_cases room : s.table.length < f.settings.maxSize + f.pinnedCount
  · omega
  have full : s.table.length = f.settings.maxSize + f.pinnedCount := by omega
  have limited : f.settings.maxSize < 10000000 := by omega
  obtain ⟨absent, -⟩ | ⟨i, -, written⟩ := (laws env).set_cases h.wf item.key item.value sec
  · cases stuck : s.searchQueue 0 with
    | none =>
      obtain blocked | safe := safe
      · have same : noCapacity s = true := by
          rw [noCapacity, h.settings_eq]
          exact blocked
        rw [set_of_noCapacity absent same]
        exact bound
      · exact absurd ⟨_, h.overfills start fits absent stuck full limited⟩ safe
    | some v =>
      have capacity : s.isAtCapacity s.table.length = true := by
        have finite : f.settings.maxSize ≠ unlimited := Nat.ne_of_lt (limited.trans (by decide))
        rw [isAtCapacity, h.settings_eq, full]
        simp [finite]
      have kept := set_length_le_of_victim item.key item.value sec h.wf capacity
        (by rw [stuck]; exact Option.some_ne_none v)
      exact kept.trans bound
  · exact written.length_le.trans bound

theorem Filling.setAll_length_le (sec : Nat)
    (fits : ∀ item ∈ items, keys.Fits item.key ∧ values.Fits item.value)
    (safe : NeverOverfilled keys values f)
    (few : s.table.length + items.length ≤ f.pinnedCount + 10000000)
    (bound : s.table.length ≤ f.settings.maxSize + f.pinnedCount) :
    (setAll env sec s items).table.length ≤ f.settings.maxSize + f.pinnedCount := by
  induction items generalizing s with
  | nil => exact bound
  | cons item rest ih =>
    rw [length_cons] at few
    have grows := MmFifo.set_length_le item.key item.value sec h.wf
    have fewer : ((policy env).set env s item.key item.value sec).table.length +
        rest.length ≤ f.pinnedCount + 10000000 := by omega
    refine ih (h.set (fits item (.head _))) (fun x hx => fits x (.tail _ hx)) fewer ?_
    exact h.set_length_le start sec (fits item (.head _)) safe (by omega) bound

end Fill

/-- Items that are set one by one all stay if the oldest ones are vetoed. -/
theorem setAll_of_vetoed {pairs : List (K × V)} (wf : s.WellFormed env)
    (one : s.OneList) (room : noCapacity s = false) (fresh : Fresh s items)
    (whole : s.freePairs ++ items.map (fun item => (item.key, item.value)) = pairs)
    (vetoed : ∀ p ∈ pairs.take (min s.settings.patience (pairs.length - 1)),
      s.settings.vetoes p = true) :
    (setAll env sec s items).table.length = s.table.length + items.length := by
  induction items generalizing s with
  | nil => rfl
  | cons item rest ih =>
    have absent := (find_eq_none_iff wf).mpr (fresh.absent item (.head _))
    have inserted := set_inserts item.value sec wf absent room
    have stuck : s.searchQueue 0 = none := by
      refine searchQueue_eq_none_iff.mpr fun p hp => vetoed p ?_
      have shorter : s.freePairs.length ≤ pairs.length - 1 := by
        rw [← whole, length_append, map_cons, length_cons]
        omega
      rw [take_eq_take_min] at hp
      rw [← whole] at shorter ⊢
      refine take_subset_take_left _ (min_le_min_left _ shorter) ?_
      rw [take_append_of_le_length (Nat.min_le_right _ _)]
      exact hp
    have grown : ((policy env).set env s item.key item.value sec).table.length =
        s.table.length + 1 := by
      rw [set_of_absent absent]
      refine (insertParts env).insertsAlways.overflows item.value 0 sec wf absent room ?_
      exact searchQueue_cleanup.trans stuck
    have pairs := inserted.freePairs_eq
      (set_queue_of_stuck wf one absent room stuck)
    have settings := inserted.settings_eq
    have later := ih inserted.wf (set_oneList wf one item.key item.value sec)
      (by rw [noCapacity, settings]; exact room)
      (fresh.tail fun c held => inserted.holds_cases held)
      (by rw [pairs, append_assoc]; exact whole) (by rw [settings]; exact vetoed)
    refine later.trans ?_
    rw [length_cons]
    omega

/-! ## The load -/

section Load

variable {data : List UInt8}

omit [DecidableEq K] in
/-- Every item that the parser accepts can be written. -/
theorem fits_of_parsed {type : MmTypeId} {parsed : ParsedData K V} (keysClosed : keys.Closed)
    (valuesClosed : values.Closed)
    (accepted : parseSerializedData keys values type data = .ok parsed) :
    ∀ item ∈ parsed.items, keys.Fits item.key ∧ values.Fits item.value := by
  obtain ⟨h, payload, left, -, ran⟩ := parseSerializedData_eq_ok_iff.mp accepted
  obtain ⟨config, _, -, ran⟩ := run_bind_eq_ok_iff.mp ran
  obtain ⟨extra, _, -, ran⟩ := run_bind_eq_ok_iff.mp ran
  obtain ⟨items, _, read, last⟩ := run_bind_eq_ok_iff.mp ran
  obtain ⟨rfl, -⟩ := run_pure_eq_ok_iff.mp last
  intro item hitem
  obtain ⟨before, after, one⟩ := (of_many read).2 _ hitem
  obtain ⟨key, _, first, one⟩ := run_bind_eq_ok_iff.mp one
  obtain ⟨value, _, second, one⟩ := run_bind_eq_ok_iff.mp one
  obtain ⟨_, _, -, one⟩ := run_bind_eq_ok_iff.mp one
  obtain ⟨_, _, -, one⟩ := run_bind_eq_ok_iff.mp one
  obtain ⟨_, _, -, one⟩ := run_bind_eq_ok_iff.mp one
  obtain ⟨rfl, -⟩ := run_pure_eq_ok_iff.mp one
  exact ⟨keysClosed _ _ _ first, valuesClosed _ _ _ second⟩

/-- A flushed `mm_fifo` is ready for the items. -/
theorem flush_filling (wf : target.WellFormed env) (one : target.OneList) :
    Filling env keys values ((policy env).flush env target)
      ((policy env).flush env target) := by
  have survived := (MmFifo.laws env).flush_survives Strategy.mmFifo.flushParts wf
  refine ⟨survived.wf, (keepsOneList env).flush wf one, rfl, .refl, fun p hp => ?_⟩
  obtain ⟨i, hi, free, -⟩ := mem_freePairs.mp hp
  rw [survived.allPinned 0 i hi] at free
  cases free

theorem exists_loaded_fifo
    (returned : deserialize env .mmFifo target keys values data sec = .returned t) :
    ∃ parsed, parseSerializedData keys values .fifo data = .ok parsed ∧
      t = setAll env sec ((policy env).flush env target) parsed.items := by
  obtain ⟨parsed, accepted, rebuilt⟩ := deserialize_eq_returned.mp returned
  exact ⟨parsed, accepted, (Outcome.returned.inj rebuilt).symm⟩

/-- Whatever the file says, table and list agree afterwards. -/
theorem setAll_wf (wf : s.WellFormed env) :
    (setAll env sec s items).WellFormed env ∧ (setAll env sec s items).settings = s.settings := by
  induction items generalizing s with
  | nil => exact ⟨wf, rfl⟩
  | cons item rest ih =>
    obtain ⟨after, same⟩ := ih ((laws env).set_wf wf item.key item.value sec)
    exact ⟨after, same.trans ((laws env).set_settings wf item.key item.value sec)⟩

/-- A file with such items leaves all of them in the target. -/
theorem Overfills.exists_load (h : Overfills keys values target items)
    (room : noCapacity target = false) (wf : target.WellFormed env) (one : target.OneList) :
    ∃ data t, deserialize env .mmFifo target keys values data sec = .returned t ∧
      t.table.length = target.settings.maxSize + 1 + target.pinnedCount := by
  let snap : CacheSnapshot K V := { type := .fifo, items := items }
  have canonical : snap.Canonical := ⟨fun _ _ => rfl, fun _ _ => rfl⟩
  have accepted := (canonical.parse_iff keys values).mpr ⟨h.count, Nat.zero_le _, h.fits⟩
  have survived := (MmFifo.laws env).flush_survives Strategy.mmFifo.flushParts wf
  have filling : Filling env keys values ((policy env).flush env target) _ := flush_filling wf one
  have overfills := (overfills_congr survived.samePins survived.settings_eq).mpr h
  refine ⟨serializeFromSnapshot keys values snap,
    setAll env sec ((policy env).flush env target) items, ?_, ?_⟩
  · rw [deserialize, typeId, accepted]
    rfl
  · have length := survived.length_table
    have settings := survived.settings_eq
    have fresh := (fresh_iff_freshKeys survived).mpr h.fresh
    have nothing := length_freePairs filling.wf filling.one
    rw [survived.samePins.count, ← length, Nat.add_eq_left, length_eq_zero_iff] at nothing
    generalize (policy env).flush env target = f at *
    have stays : (setAll env sec f items).table.length = f.table.length + items.length := by
      refine setAll_of_vetoed filling.wf filling.one ?_ fresh (congrArg (· ++ _) nothing) ?_
      · rw [noCapacity, settings]
        exact room
      · intro p hp
        rw [nil_append, length_map, overfills.length, ← map_take] at hp
        obtain ⟨item, hitem, rfl⟩ := mem_map.mp hp
        exact overfills.vetoed item hitem
    rw [stays, length, h.length, Nat.add_comm]

/-- Every load leaves at most as many items as the limit and the pinned ones iff no file
overfills the target. -/
theorem fifo_load_le_iff (keysClosed : keys.Closed) (valuesClosed : values.Closed)
    (wf : target.WellFormed env) (one : target.OneList) (sec : Nat) :
    (∀ data t, deserialize env .mmFifo target keys values data sec = .returned t →
        t.table.length ≤ target.settings.maxSize + target.pinnedCount) ↔
      NeverOverfilled keys values target := by
  constructor
  · intro bounded
    cases room : noCapacity target with
    | true => exact .inl room
    | false =>
      refine .inr fun ⟨items, overfills⟩ => ?_
      obtain ⟨data, t, returned, length⟩ := overfills.exists_load room wf one
      have bound := bounded data t returned
      omega
  · intro safe data t returned
    obtain ⟨parsed, accepted, rfl⟩ := exists_loaded_fifo returned
    have read : parseSerializedData keys values (typeId .mmFifo) data = .ok parsed := accepted
    have few := items_length_le read
    have fits := fits_of_parsed keysClosed valuesClosed accepted
    have survived := (MmFifo.laws env).flush_survives Strategy.mmFifo.flushParts wf
    have pins := survived.samePins
    have settings := survived.settings_eq
    have length := survived.length_table
    have filling : Filling env keys values ((policy env).flush env target) _ := flush_filling wf one
    generalize (policy env).flush env target = f at *
    have still : NeverOverfilled keys values f := by
      obtain blocked | none := safe
      · refine .inl ?_
        rw [noCapacity, settings]
        exact blocked
      · refine .inr fun ⟨items, overfills⟩ => none ⟨items, ?_⟩
        exact (overfills_congr pins settings).mp overfills
    have bound := filling.setAll_length_le survived.wf sec fits still
      (by rw [pins.count]; omega) (by rw [pins.count]; omega)
    rw [settings, pins.count] at bound
    exact bound

end Load

end Lru.Persist
