import Lru.Mm.Policy

/-!
# Laws of a strategy

`Policy.Laws` says what the parts of a strategy do to the linked items. From
these laws alone the public operations keep the table and the lists in
agreement, so each strategy has to prove only its own parts lawful.
-/

namespace Lru.Mm

variable {K V : Type} {env : Env K V} {s t u : State K V} {i : ItemId} {f : Item K V → Item K V}
  {n : Nat}

open State List

/-! ## Writes to one item -/

/-- A write to an item that leaves key, hash and links alone and whose new
content depends on the old content only. -/
structure ContentWrite (f : Item K V → Item K V) : Prop where
  key_eq : ∀ a, (f a).key = a.key := by intro; rfl
  hash_eq : ∀ a, (f a).cachedHash = a.cachedHash := by intro; rfl
  queueId_eq : ∀ a, (f a).queueId = a.queueId := by intro; rfl
  linked_eq : ∀ a, (f a).linked = a.linked := by intro; rfl
  content_eq : ∀ a b, a.content = b.content → (f a).content = (f b).content

theorem ContentWrite.value (value : V) :
    ContentWrite fun item : Item K V => { item with value := value } where
  content_eq a b h := by
    rw [Body.content_eq_iff] at h ⊢
    exact ⟨h.1, rfl, h.2.2⟩

theorem ContentWrite.expiry (expiryNs : Nat) :
    ContentWrite fun item : Item K V => { item with expiryNs := expiryNs } where
  content_eq a b h := by
    rw [Body.content_eq_iff] at h ⊢
    exact ⟨h.1, h.2.1, rfl, h.2.2.2⟩

theorem ContentWrite.count (f : Nat → Nat) :
    ContentWrite fun item : Item K V => { item with accessRef := f item.accessRef } where
  content_eq a b h := by
    rw [Body.content_eq_iff] at h ⊢
    exact ⟨h.1, h.2.1, h.2.2.1, congrArg f h.2.2.2⟩

theorem core_modify (f : Item K V → Item K V) :
    (s.modify i f).core = s.core.setBody i (f (s.heap i)).toBody := by
  simp only [State.core, State.modify, Core.setBody, Core.mk.injEq, and_true]
  funext j
  by_cases hj : j = i
  · subst hj; simp
  · simp [hj]

theorem WellFormed.write (write : ContentWrite f) (wf : s.WellFormed env) :
    (s.modify i f).WellFormed env := by
  unfold State.WellFormed
  rw [core_modify]
  exact wf.setBody (write.key_eq _) (write.hash_eq _) (write.queueId_eq _)
    fun hi => (write.linked_eq _).trans (wf.linked i hi)

/-- Writing an item before or after a step that only removes is the same for the
items that stay. -/
theorem Shrinks.write (write : ContentWrite f) (h : Shrinks env s t) :
    Shrinks env (s.modify i f) (t.modify i f) where
  wf := WellFormed.write write h.wf
  mem := h.mem
  content j hj := by
    by_cases same : j = i
    · subst same
      simpa [State.modify] using write.content_eq _ _ (h.content j hj)
    · simpa [State.modify, same] using h.content j hj
  next_eq := h.next_eq
  settings_eq := h.settings_eq
  failed_eq := h.failed_eq
  rejects_eq := h.rejects_eq

/-! ## The laws -/

variable {key : K} {value : V} {expiryNs : Nat} {p : Policy K V}

/-- What `insert_new` can do for an absent key: link a new item, leave it out,
or leave it out and count a failed eviction. -/
inductive Admits (env : Env K V) (s t : State K V) (key : K) (value : V) (expiryNs : Nat) : Prop
  | inserted (h : Inserts env s t key value expiryNs)
  | dropped (h : Shrinks env s t)
  | failed (u : State K V) (h : Shrinks env s u) (noted : t = u.noteEvictionFailed)

theorem Admits.wf (h : Admits env s t key value expiryNs) : t.WellFormed env := by
  cases h with
  | inserted h | dropped h => exact h.wf
  | failed u h noted =>
    subst noted
    exact h.wf

theorem Admits.settings_eq (h : Admits env s t key value expiryNs) : t.settings = s.settings := by
  cases h with
  | inserted h | dropped h => exact h.settings_eq
  | failed u h noted =>
    subst noted
    exact h.settings_eq

theorem Admits.after (before : Shrinks env s t) (h : Admits env t u key value expiryNs) :
    Admits env s u key value expiryNs := by
  cases h with
  | inserted h => exact .inserted (.after before h)
  | dropped h => exact .dropped (before.trans h)
  | failed m h noted => exact .failed m (before.trans h) noted

/-- The parts of a strategy do what their names say. -/
structure Policy.Laws [DecidableEq K] (env : Env K V) (p : Policy K V) : Prop where
  eviction : Eviction env p.size p.victim p.evict
  noCapacity_eq : ∀ {s t : State K V}, t.settings = s.settings → p.noCapacity t = p.noCapacity s
  insertNew : ∀ {s : State K V} {key} value expiryNs sec, s.WellFormed env →
    s.find env key = none →
    Admits env s (p.insertNew s key value expiryNs sec) key value expiryNs
  recordAccess : ∀ {s : State K V} {i} mode sec, s.WellFormed env → i ∈ s.table →
    Moves env s (p.recordAccess s i mode sec).2
  afterGet : ∀ {s : State K V} i, s.WellFormed env → Shrinks env s (p.afterGet s i)
  removeErased : ∀ {s : State K V} {i}, (s.heap i).linked = true → Unlinks s (p.removeErased s i) i
  removeForced : ∀ {s : State K V} {i}, (s.heap i).linked = true → Unlinks s (p.removeForced s i) i
  removeFlushed : ∀ {s : State K V} {i}, (s.heap i).linked = true →
    Unlinks s (p.removeFlushed s i) i
  keepFlushed : ∀ (s : State K V) i, Quiet s (p.keepFlushed s i) := by
    exact fun _ _ => ⟨rfl, rfl, rfl, rfl⟩
  afterFlush : ∀ s : State K V, Quiet s (p.afterFlush s) := by
    exact fun _ => ⟨rfl, rfl, rfl, rfl⟩
  popTail : ∀ {s : State K V} {i}, s.WellFormed env → p.popTail s = some i →
    i ∈ s.table ∧ (s.heap i).accessRef = 0
  popTail_cleanup : ∀ s : State K V, p.popTail s.cleanupPendingDeletion = p.popTail s
  beforeResize : ∀ (s : State K V) n, Quiet s (p.beforeResize s n) := by
    exact fun _ _ => ⟨rfl, rfl, rfl, rfl⟩
  afterResize : ∀ s : State K V, Quiet s (p.afterResize s) := by
    exact fun _ => ⟨rfl, rfl, rfl, rfl⟩
  reconfigure : ∀ {s : State K V} sec, s.WellFormed env → Shrinks env s (p.reconfigure s sec)

/-- Insertion in the strategies that insert whether or not there is room: the
new key is always linked, and the size limit is exceeded exactly when the
strategy is full and its search finds nothing to evict. -/
structure Policy.InsertsAlways [DecidableEq K] (env : Env K V) (p : Policy K V) : Prop where
  blocked : ∀ {s : State K V} {key value expiryNs sec}, p.noCapacity s = true →
    p.insertNew s key value expiryNs sec = s
  inserts : ∀ {s : State K V} {key} value expiryNs sec, s.WellFormed env →
    s.find env key = none → p.noCapacity s = false →
    Inserts env s (p.insertNew s key value expiryNs sec) key value expiryNs
  fits : ∀ {s : State K V} {key} value expiryNs sec, s.WellFormed env →
    s.find env key = none → p.noCapacity s = false → s.settings.maxSize ≠ unlimited →
    p.size s ≤ s.settings.maxSize →
    (p.size s < s.settings.maxSize ∨ p.victim (p.prepare s key) ≠ none) →
    p.size (p.insertNew s key value expiryNs sec) ≤ s.settings.maxSize
  overflows : ∀ {s : State K V} {key} value expiryNs sec, s.WellFormed env →
    s.find env key = none → p.noCapacity s = false → p.victim (p.prepare s key) = none →
    p.size (p.insertNew s key value expiryNs sec) = p.size s + 1

/-- The parts of such an `insert_new`: it prepares, makes room for `mem` bytes and
links. The linking may depend on the state before the call. -/
structure Policy.InsertParts [DecidableEq K] (env : Env K V) (p : Policy K V)
    (room : State K V → Nat → State K V)
    (link : State K V → State K V → K → V → Nat → Nat → Nat → State K V) : Prop where
  eviction : Eviction env p.size p.victim p.evict
  insertNew_eq : ∀ s key value expiryNs sec, p.insertNew s key value expiryNs sec =
    if p.noCapacity s then s
    else
      let mem := s.settings.calcItemMemory env key value
      link s (room (p.prepare s key) mem) key value expiryNs sec mem
  prepare : ∀ {s : State K V} key, s.WellFormed env → Rearranges env s (p.prepare s key)
  room_shrinks : ∀ {s : State K V} mem, s.WellFormed env → Shrinks env s (room s mem)
  room_lt : ∀ {s : State K V} mem, s.WellFormed env → s.settings.maxSize ≠ unlimited →
    p.size s ≤ s.settings.maxSize → (p.size s < s.settings.maxSize ∨ p.victim s ≠ none) →
    p.size (room s mem) < s.settings.maxSize
  room_stuck : ∀ {s : State K V} mem, s.WellFormed env → p.victim s = none →
    Rearranges env s (room s mem) ∧ p.victim (room s mem) = none
  link_inserts : ∀ (o : State K V) {s : State K V} {key} value expiryNs sec mem,
    s.WellFormed env → s.find env key = none →
    Inserts env s (link o s key value expiryNs sec mem) key value expiryNs
  link_stuck : ∀ (o : State K V) {s : State K V} {key} value expiryNs sec mem,
    s.WellFormed env → s.find env key = none → p.victim s = none →
    (link o s key value expiryNs sec mem).table.length = s.table.length + 1

theorem Policy.InsertParts.insertsAlways [DecidableEq K] {room : State K V → Nat → State K V}
    {link : State K V → State K V → K → V → Nat → Nat → Nat → State K V}
    (parts : p.InsertParts env room link) : p.InsertsAlways env where
  blocked capacity := by rw [parts.insertNew_eq, if_pos capacity]
  inserts {s key} value expiryNs sec wf absent capacity := by
    have prepared := (parts.prepare key wf).toShrinks
    have ready := prepared.trans
      (parts.room_shrinks (s.settings.calcItemMemory env key value) prepared.wf)
    rw [parts.insertNew_eq, if_neg (by simp [capacity])]
    exact .after ready
      (parts.link_inserts s value expiryNs sec _ ready.wf (ready.find_eq_none wf absent))
  fits {s key} value expiryNs sec wf absent capacity finite le room := by
    let mem := s.settings.calcItemMemory env key value
    have prepared := parts.prepare key wf
    have settings := prepared.settings_eq
    have size : p.size (p.prepare s key) = p.size s := by
      rw [parts.eviction.size_eq wf, parts.eviction.size_eq prepared.wf, prepared.table_eq]
    have lt := parts.room_lt mem prepared.wf
      (settings ▸ finite) (settings ▸ size ▸ le) (by rw [settings, size]; exact room)
    have ready := prepared.toShrinks.trans (parts.room_shrinks mem prepared.wf)
    have linked := parts.link_inserts s value expiryNs sec mem ready.wf
      (ready.find_eq_none wf absent)
    rw [settings, parts.eviction.size_eq ready.wf] at lt
    rw [parts.insertNew_eq, if_neg (by simp [capacity]), parts.eviction.size_eq linked.wf]
    exact Nat.le_trans linked.length_le lt
  overflows {s key} value expiryNs sec wf absent capacity none := by
    let mem := s.settings.calcItemMemory env key value
    have prepared := parts.prepare key wf
    obtain ⟨same, none⟩ := parts.room_stuck mem prepared.wf none
    have ready := prepared.trans same
    have absent := ready.toShrinks.find_eq_none wf absent
    have linked := parts.link_inserts s value expiryNs sec mem ready.wf absent
    rw [parts.insertNew_eq, if_neg (by simp [capacity]), parts.eviction.size_eq linked.wf,
      parts.link_stuck s value expiryNs sec _ ready.wf absent none, ready.table_eq,
      parts.eviction.size_eq wf]

theorem Policy.InsertsAlways.admits [DecidableEq K] (h : p.InsertsAlways env) (value : V)
    (expiryNs sec : Nat) (wf : s.WellFormed env) (absent : s.find env key = none) :
    Admits env s (p.insertNew s key value expiryNs sec) key value expiryNs := by
  cases capacity : p.noCapacity s with
  | true =>
    rw [h.blocked capacity]
    exact .dropped (.refl wf)
  | false => exact .inserted (h.inserts value expiryNs sec wf absent capacity)

namespace Policy.Laws

theorem cleanupIf_rearranges (b : Bool) (wf : s.WellFormed env) :
    Rearranges env s (cleanupIf b s) := by
  unfold cleanupIf
  split
  · exact .cleanup wf
  · exact .refl wf

theorem cleanupIf_stats (b : Bool) (s : State K V) : (cleanupIf b s).stats = s.stats := by
  cases b with
  | false => rfl
  | true => exact cleanup_stats s

theorem cleanupIf_heap (b : Bool) (s : State K V) : (cleanupIf b s).heap = s.heap := by
  cases b with
  | false => rfl
  | true => exact cleanup_heap s

theorem adjustMemory_quiet (before after : Nat) : Quiet s (adjustMemory s before after) := by
  unfold adjustMemory
  split
  · exact .addMemory _
  · split
    · exact .subMemory _
    · exact .refl

theorem collectUpdate_quiet (s : State K V) (i : ItemId) : Quiet s (collectUpdate s i) :=
  .collect rfl

theorem foldl_retire_shrinks (l : List ItemId) (wf : s.WellFormed env) (lt : ∀ i ∈ l, i < s.next)
    (gone : ∀ i ∈ l, i ∉ s.table) : Shrinks env s (l.foldl retire s) := by
  induction l generalizing s with
  | nil => exact .refl wf
  | cons i rest ih =>
    have retired : Shrinks env s (s.retire i) :=
      ⟨wf.retire (lt i mem_cons_self) (gone i mem_cons_self),
        fun _ h => h, fun _ _ => rfl, rfl, rfl, rfl, rfl⟩
    exact retired.trans (ih retired.wf (fun j hj => lt j (mem_cons_of_mem i hj))
      fun j hj => gone j (mem_cons_of_mem i hj))

variable [DecidableEq K] {p : Policy K V} {sec : Nat} (laws : p.Laws env)
  (wf : s.WellFormed env) {event : K → V → Event K V} {count : Stats → Stats}
  {acc : State K V × List ItemId}

include laws wf

/-! ## Writing operations -/

theorem shrinkToFit_shrinks : Shrinks env s (p.shrinkToFit s) := laws.eviction.shrinkLoop_shrinks wf

theorem storeValue_rearranges (value : V) (sec : Nat) (hi : i ∈ s.table) :
    Rearranges env (s.modify i fun item => { item with value := value })
      (p.storeValue env s i value sec) := by
  have written := WellFormed.write (i := i) (.value value) wf
  exact (laws.recordAccess .write sec written hi).toRearranges.quiet (adjustMemory_quiet _ _)

/-- An update writes the value and may then evict. -/
theorem updateExisting_shrinks (hi : i ∈ s.table) :
    Shrinks env (s.modify i fun item => { item with value := value })
      (p.updateExisting env s i value sec) := by
  have stored := laws.storeValue_rearranges wf value sec hi
  unfold updateExisting
  split
  · have collected := stored.toShrinks.quiet (collectUpdate_quiet _ i)
    exact collected.trans (laws.shrinkToFit_shrinks collected.wf)
  · have shrunk := stored.toShrinks.trans (laws.shrinkToFit_shrinks stored.wf)
    exact shrunk.quiet (collectUpdate_quiet _ i)

theorem updateExisting_mem_of_held (hi : i ∈ s.table) {j : ItemId} (hj : j ∈ s.table)
    (held : (s.heap j).accessRef ≠ 0) : j ∈ (p.updateExisting env s i value sec).table := by
  have stored := laws.storeValue_rearranges wf value sec hi
  have count : ((s.modify i fun item => { item with value := value }).heap j).accessRef ≠ 0 := by
    by_cases same : j = i
    · subst same
      simpa [State.modify] using held
    · simpa [State.modify, same] using held
  have kept : j ∈ (p.storeValue env s i value sec).table := stored.mem_iff.mpr hj
  have pinned := (stored.accessRef hj).trans_ne count
  rw [updateExisting]
  split
  · have collected := collectUpdate_quiet (p.storeValue env s i value sec) i
    refine laws.eviction.evictWhile_mem_of_held (collected.wf stored.wf) ?_ ?_
    · rw [collected.table_eq]
      exact kept
    · rw [congrArg Body.accessRef (collected.body_eq j)]
      exact pinned
  · rw [(collectUpdate_quiet _ i).table_eq]
    exact laws.eviction.evictWhile_mem_of_held stored.wf kept pinned

/-- `set` inserts an absent key or writes the value of a resident one. -/
theorem set_cases (key : K) (value : V) (sec : Nat) :
    (s.find env key = none ∧ Admits env s (p.set env s key value sec) key value 0) ∨
      ∃ i, s.find env key = some i ∧
        Shrinks env (s.modify i fun item => { item with value := value })
          (p.set env s key value sec) := by
  have clean := cleanupIf_rearranges p.cleanupOnSet wf
  have same : (cleanupIf p.cleanupOnSet s).find env key = s.find env key := clean.find_eq wf
  rw [set, same]
  cases found : s.find env key with
  | none =>
    have absent := same.trans found
    exact .inl ⟨rfl, .after clean.toShrinks (laws.insertNew value 0 sec clean.wf absent)⟩
  | some i =>
    have hi := ((find_eq_some_iff clean.wf).mp (same.trans found)).1
    exact .inr ⟨i, rfl, (clean.toShrinks.write (.value value)).trans
      (laws.updateExisting_shrinks clean.wf hi)⟩

/-- A resident key with a handle stays resident. -/
theorem set_find_of_held (value : V) (sec : Nat) (found : s.find env key = some i)
    (held : (s.heap i).accessRef ≠ 0) : (p.set env s key value sec).find env key = some i := by
  have clean := cleanupIf_rearranges p.cleanupOnSet wf
  have same : (cleanupIf p.cleanupOnSet s).find env key = some i := (clean.find_eq wf).trans found
  obtain ⟨hi, hk⟩ := (find_eq_some_iff clean.wf).mp same
  have pinned := (clean.accessRef ((find_eq_some_iff wf).mp found).1).trans_ne held
  have updated : Shrinks env
      ((cleanupIf p.cleanupOnSet s).modify i fun item => { item with value := value })
      (p.updateExisting env (cleanupIf p.cleanupOnSet s) i value sec) :=
    laws.updateExisting_shrinks clean.wf hi
  have kept : i ∈ (p.updateExisting env (cleanupIf p.cleanupOnSet s) i value sec).table :=
    laws.updateExisting_mem_of_held clean.wf hi hi pinned
  rw [set]
  simp only [same]
  have keyed := congrArg Prod.fst (updated.content i kept)
  refine (find_eq_some_iff updated.wf).mpr ⟨kept, ?_⟩
  exact keyed.trans (by simpa [Body.content, State.modify] using hk)

theorem set_settings (key : K) (value : V) (sec : Nat) :
    (p.set env s key value sec).settings = s.settings := by
  obtain ⟨-, admitted⟩ | ⟨i, -, written⟩ := laws.set_cases wf key value sec
  · exact admitted.settings_eq
  · exact written.settings_eq

/-- `set_with_expiry` likewise; the expiry of a resident key is overwritten. -/
theorem setWithExpiry_cases : (s.find env key = none ∧
        Admits env s (p.setWithExpiry env s key value expiryNs sec) key value expiryNs) ∨
      ∃ i, s.find env key = some i ∧
        Shrinks env ((s.modify i fun item => { item with value := value }).modify i fun item =>
          { item with expiryNs := expiryNs }) (p.setWithExpiry env s key value expiryNs sec) := by
  unfold setWithExpiry
  cases found : s.find env key with
  | none => exact .inl ⟨rfl, laws.insertNew value expiryNs sec wf found⟩
  | some i =>
    have hi := ((find_eq_some_iff wf).mp found).1
    have updated : Shrinks env (s.modify i fun item => { item with value := value })
        (p.updateExisting env s i value sec) := laws.updateExisting_shrinks wf hi
    have stamped := updated.write (i := i) (.expiry expiryNs)
    refine .inr ⟨i, rfl, ?_⟩
    simp only
    split
    · exact stamped
    · exact stamped.quiet .ttlIndexPush

theorem set_wf (key : K) (value : V) (sec : Nat) : (p.set env s key value sec).WellFormed env := by
  obtain ⟨-, admitted⟩ | ⟨i, -, written⟩ := laws.set_cases wf key value sec
  · exact admitted.wf
  · exact written.wf

theorem setWithExpiry_wf (key : K) (value : V) (expiryNs sec : Nat) :
    (p.setWithExpiry env s key value expiryNs sec).WellFormed env := by
  obtain ⟨-, admitted⟩ | ⟨i, -, written⟩ := laws.setWithExpiry_cases wf
  · exact admitted.wf
  · exact written.wf

/-- `add` inserts an absent key, and otherwise only records an access. -/
theorem add_cases (key : K) (value : V) (sec : Nat) :
    (s.find env key = none ∧ (p.add env s key value sec).1 = true ∧
        Admits env s (p.add env s key value sec).2 key value 0) ∨
      ∃ i, s.find env key = some i ∧ (p.add env s key value sec).1 = false ∧
        Rearranges env s (p.add env s key value sec).2 := by
  have clean := cleanupIf_rearranges p.cleanupOnSet wf
  have same : (cleanupIf p.cleanupOnSet s).find env key = s.find env key := clean.find_eq wf
  rw [add, same]
  cases found : s.find env key with
  | none =>
    have absent := same.trans found
    exact .inl ⟨rfl, rfl, .after clean.toShrinks (laws.insertNew value 0 sec clean.wf absent)⟩
  | some i =>
    have hi := ((find_eq_some_iff clean.wf).mp (same.trans found)).1
    exact .inr ⟨i, rfl, rfl, clean.trans
      (laws.recordAccess .read sec clean.wf hi).toRearranges⟩

theorem add_wf : (p.add env s key value sec).2.WellFormed env := by
  obtain ⟨-, -, admitted⟩ | ⟨i, -, -, accessed⟩ := laws.add_cases wf key value sec
  · exact admitted.wf
  · exact accessed.wf

theorem replace_wf : (p.replace env s key value sec).2.WellFormed env := by
  have clean := cleanupIf_rearranges p.cleanupOnReplace wf
  unfold replace
  simp only
  split
  · exact clean.wf
  case h_2 i found =>
    exact (laws.updateExisting_shrinks clean.wf ((find_eq_some_iff clean.wf).mp found).1).wf

theorem promote_moves (key : K) (sec : Nat) : Moves env s (p.promote env s key sec).2 := by
  unfold promote
  split
  · exact .refl wf
  case h_2 i found => exact laws.recordAccess .read sec wf ((find_eq_some_iff wf).mp found).1

theorem get_wf : (p.get env s key sec).2.WellFormed env := by
  unfold get
  split
  · refine Quiet.wf (.collect rfl) ?_
    exact Quiet.wf (.modifyStats fun _ => rfl) wf
  case h_2 i found =>
    have accessed := laws.recordAccess .read sec wf ((find_eq_some_iff wf).mp found).1
    have counted := (accessed.toShrinks.trans (laws.afterGet i accessed.wf)).quiet
      (.modifyStats fun _ => rfl)
    simp only
    split
    · exact WellFormed.write (.count (· + 1)) (Quiet.wf (.collect rfl) counted.wf)
    · exact Quiet.wf (.collect rfl) counted.wf

/-! ## Removing operations -/

/-- Erasing a found item removes it unless its handle is looked at again. -/
theorem erase_removes (counts : ∀ x, (count x).evictionFailed = x.evictionFailed)
    (reports : ∀ k v, (event k v).isReport = false) (found : s.find env key = some i)
    (free : ¬ (p.rechecksHandle && (s.heap i).hasActiveHandle) = true) :
    Removes env s (p.erase env s count event key) i := by
  obtain ⟨hi, hk⟩ := (find_eq_some_iff wf).mp found
  simp only [erase, found]
  rw [if_neg free]
  set counted := (s.subMemory (s.itemMemory env i)).modifyStats count
  have toCounted : Quiet s counted := .trans (.subMemory _) (.modifyStats counts)
  set collected := counted.collect (event (s.heap i).key (s.heap i).value)
  have quiet : Quiet s collected := toCounted.trans (.collect (reports _ _))
  have body := quiet.body_eq i
  have linked : ((collected.eraseKey env key).heap i).linked = true :=
    (congrArg Body.linked body).trans (wf.linked i hi)
  have removed := removes_of_unlinks (quiet.wf wf) (quiet.table_eq ▸ hi)
    ((congrArg Body.key body).trans hk) (laws.removeErased linked)
  exact (Removes.of_quiet quiet wf (removed.retire (quiet.wf wf))).quiet (.storeSize _)

theorem erase_shrinks (counts : ∀ x, (count x).evictionFailed = x.evictionFailed)
    (reports : ∀ k v, (event k v).isReport = false) :
    Shrinks env s (p.erase env s count event key) := by
  cases found : s.find env key with
  | none =>
    simp only [erase, found]
    exact .refl wf
  | some i =>
    by_cases held : (p.rechecksHandle && (s.heap i).hasActiveHandle) = true
    · simp only [erase, found]
      rw [if_pos held]
      exact .refl wf
    · exact (laws.erase_removes wf counts reports found held).toShrinks

theorem del_shrinks (key : K) : Shrinks env s (p.del env s key).2 := by
  have clean := Rearranges.cleanup wf
  unfold del
  simp only
  split
  · exact clean.toShrinks
  · split
    · exact clean.toShrinks
    · exact clean.toShrinks.trans (laws.erase_shrinks clean.wf (fun _ => rfl) fun _ _ => rfl)

theorem takeOut_removes (found : s.find env key = some i) :
    Removes env s (p.takeOut env s key i) i := by
  obtain ⟨hi, hk⟩ := (find_eq_some_iff wf).mp found
  have linked : ((s.eraseKey env key).heap i).linked = true := wf.linked i hi
  have removed := removes_of_unlinks wf hi hk (laws.removeForced linked)
  exact (removed.quiet (.subMemory _)).quiet (.storeSize _)

theorem forceDel_shrinks : Shrinks env s (p.forceDel env s key).2 := by
  have clean := Rearranges.cleanup wf
  unfold forceDel
  simp only
  split
  · exact clean.toShrinks
  case h_2 i found =>
    have removed := laws.takeOut_removes clean.wf found
    split
    · split
      · exact clean.toShrinks.quiet ⟨rfl, rfl, rfl, rfl⟩
      · exact clean.toShrinks.trans (removed.postpone clean.wf).toShrinks
    · exact clean.toShrinks.trans ((removed.quiet (.collect rfl)).retire clean.wf).toShrinks

/-- `force_del` takes out an item without handles at once. -/
theorem forceDel_removes (found : s.find env key = some i) (unpinned : (s.heap i).accessRef = 0) :
    Removes env s (p.forceDel env s key).2 i := by
  have clean := Rearranges.cleanup wf
  have still := (clean.find_eq wf).trans found
  have free : ¬ (s.cleanupPendingDeletion.heap i).hasActiveHandle = true := by
    simp [Body.hasActiveHandle, unpinned]
  have removed := laws.takeOut_removes clean.wf still
  unfold forceDel
  simp only
  rw [still]
  simp only
  rw [if_neg free]
  exact .after clean ((removed.quiet (.collect rfl)).retire clean.wf)

theorem pop_shrinks (key : K) : Shrinks env s (p.pop env s key).2 := by
  have clean := cleanupIf_rearranges p.cleanupOnPop wf
  unfold pop
  simp only
  split
  · exact clean.toShrinks
  case h_2 i found =>
    split
    · exact clean.toShrinks
    · exact clean.toShrinks.trans ((laws.takeOut_removes clean.wf found).retire clean.wf).toShrinks

/-- When a move leaves the key as it was, `map_.erase` finds the node. -/
theorem popItem_removes (hi : i ∈ s.table)
    (stable : env.movedKey (s.heap i).key = (s.heap i).key) :
    Removes env s (p.popItem env s i) i := by
  set moved := (s.modify i fun item =>
    { item with key := env.movedKey item.key, value := env.movedValue item.value }) with moved_def
  have movedKey : (moved.heap i).key = (s.heap i).key := by
    simpa [moved_def, State.modify] using stable
  have movedWf : moved.WellFormed env := by
    unfold State.WellFormed
    rw [core_modify]
    exact wf.setBody stable rfl rfl (wf.linked i)
  have quiet : Quiet moved (moved.subMemory (s.itemMemory env i)) := .subMemory _
  have linked : (moved.heap i).linked = true := by
    simpa [moved_def, State.modify] using linked_of_mem wf hi
  have removed := removes_of_unlinks (quiet.wf movedWf) hi movedKey (laws.removeForced linked)
  refine .of_modify wf (.of_quiet quiet movedWf ?_)
  exact (removed.retire (quiet.wf movedWf)).quiet (.storeSize _)

/-- Otherwise it finds nothing: the node stays and refers to a retired item. -/
theorem popItem_dangles (hi : i ∈ s.table)
    (unstable : env.movedKey (s.heap i).key ≠ (s.heap i).key) :
    i ∈ (p.popItem env s i).retired ∧ i ∈ (p.popItem env s i).table := by
  set moved := (s.modify i fun item =>
    { item with key := env.movedKey item.key, value := env.movedValue item.value }) with moved_def
  have linked : (moved.heap i).linked = true := by
    simpa [moved_def, State.modify] using linked_of_mem wf hi
  have misses : ∀ j ∈ s.table, ¬ moved.stopsAt env (s.heap i).key j = true := by
    intro j hj stops
    have hk : (moved.heap j).key = (s.heap i).key := by
      simp only [stopsAt, Bool.and_eq_true, beq_iff_eq] at stops
      exact stops.2
    by_cases same : j = i
    · subst same
      exact unstable (by simpa [moved_def, State.modify] using hk)
    · have other : (s.heap j).key = (s.heap i).key := by
        simpa [moved_def, State.modify, same] using hk
      exact same (wf.key_inj j hj i hi other)
  have kept : (moved.subMemory (s.itemMemory env i) |>.eraseKey env (s.heap i).key).table =
      s.table := eraseP_of_forall_not misses
  have unlinked := laws.removeForced (s := (moved.subMemory (s.itemMemory env i)).eraseKey env
    (s.heap i).key) linked
  refine ⟨mem_append_right _ (mem_singleton_self i), ?_⟩
  exact (unlinked.table_eq.trans kept) ▸ hi

/-! ## Flush and sweep -/

/-- A flush in progress: `rest` is still to be visited, `toRetire` was unlinked. -/
structure Flushing (env : Env K V) (s : State K V) (rest : List ItemId)
    (acc : State K V × List ItemId) : Prop where
  shrinks : Shrinks env s acc.1
  rest_nodup : rest.Nodup
  rest_mem : ∀ i ∈ rest, i ∈ acc.1.table
  retire_lt : ∀ i ∈ acc.2, i < acc.1.next
  retire_not_mem : ∀ i ∈ acc.2, i ∉ acc.1.table

omit wf in
theorem flushOne_flushing {rest : List ItemId} (h : Flushing env s (i :: rest) acc) :
    Flushing env s rest (p.flushOne env acc i) := by
  obtain ⟨fresh, nodup⟩ := nodup_cons.mp h.rest_nodup
  have wf := h.shrinks.wf
  have later : ∀ j ∈ rest, j ∈ acc.1.table := fun j hj => h.rest_mem j (mem_cons_of_mem i hj)
  unfold flushOne
  simp only
  split
  · have quiet := laws.keepFlushed acc.1 i
    refine ⟨h.shrinks.quiet quiet, nodup, ?_, ?_, ?_⟩
    · exact fun j hj => quiet.table_eq ▸ later j hj
    · exact fun j hj => Nat.lt_of_lt_of_eq (h.retire_lt j hj) (quiet.shrinks wf).next_eq.symm
    · exact fun j hj => quiet.table_eq ▸ h.retire_not_mem j hj
  · split
    · have hi := h.rest_mem i mem_cons_self
      set collected := (acc.1.subMemory (acc.1.itemMemory env i)).collect
        (.evict (acc.1.heap i).key (acc.1.heap i).value)
      have quiet : Quiet acc.1 collected := .trans (.subMemory _) (.collect rfl)
      have linked : ((collected.eraseKey env (collected.heap i).key).heap i).linked = true :=
        (congrArg Body.linked (quiet.body_eq i)).trans (wf.linked i hi)
      have removed := Removes.of_quiet quiet wf
        (removes_of_unlinks (quiet.wf wf) (quiet.table_eq ▸ hi) rfl (laws.removeFlushed linked))
      refine ⟨h.shrinks.trans removed.toShrinks, nodup, ?_, ?_, ?_⟩
      · intro j hj
        rw [removed.table_eq]
        have other : j ≠ i := fun same => fresh (same ▸ hj)
        exact (mem_erase_of_ne other).mpr (later j hj)
      · intro j hj
        rw [removed.next_eq]
        obtain old | new := mem_append.mp hj
        · exact h.retire_lt j old
        · exact mem_singleton.mp new ▸ wf.table_lt i hi
      · intro j hj still
        obtain old | new := mem_append.mp hj
        · exact h.retire_not_mem j old (removed.mem j still)
        · exact removed.not_mem wf (mem_singleton.mp new ▸ still)
    · exact ⟨h.shrinks, nodup, later, h.retire_lt, h.retire_not_mem⟩

omit wf in
theorem foldl_flushOne_flushing (rest : List ItemId) (h : Flushing env s rest acc) :
    Flushing env s [] (rest.foldl (p.flushOne env) acc) := by
  induction rest generalizing acc with
  | nil => exact h
  | cons i rest ih => exact ih (laws.flushOne_flushing h)

theorem flushPasses_shrinks :
    Shrinks env s ((s.liveItems.foldl (p.flushOne env) (s, [])).2.foldl retire
      (s.liveItems.foldl (p.flushOne env) (s, [])).1.refreshHashStats) := by
  have perm := wf.table_perm
  have start : Flushing env s s.liveItems (s, []) :=
    ⟨.refl wf, perm.nodup_iff.mp (wf.table_nodup), fun i hi => perm.mem_iff.mpr hi,
      by simp, by simp⟩
  have done := laws.foldl_flushOne_flushing _ start
  have refreshed := done.shrinks.quiet .refreshHashStats
  exact refreshed.trans
    (foldl_retire_shrinks _ refreshed.wf done.retire_lt done.retire_not_mem)

theorem flush_shrinks : Shrinks env s (p.flush env s) := by
  have reset := (laws.flushPasses_shrinks wf).quiet (laws.afterFlush _)
  have stored := fun n => reset.quiet (.storeSize n)
  exact (stored _).trans (cleanup_shrinks (stored _).wf)

theorem sweepLoop_shrinks {nowNs budget fuel evicted : Nat} {deferred : List (Nat × K)} :
    Shrinks env s (p.sweepLoop env nowNs budget fuel s evicted deferred).1 := by
  induction fuel generalizing s evicted deferred with
  | zero => exact .refl wf
  | succ fuel ih =>
    unfold sweepLoop
    split
    · exact .refl wf
    · split
      · exact .refl wf
      case h_2 expiryNs key rest _ =>
        split
        · exact .refl wf
        · have popped : Quiet s { s with ttlIndex := rest } := ⟨rfl, rfl, rfl, rfl⟩
          have start := popped.shrinks wf
          simp only
          split
          · exact start.trans (ih start.wf)
          · exact start.trans (ih start.wf)
          · exact start.trans (ih start.wf)
          · have erased : Shrinks env { s with ttlIndex := rest }
                (p.eraseExpiredImpl env { s with ttlIndex := rest } key) :=
              laws.erase_shrinks start.wf (fun _ => rfl) fun _ _ => rfl
            exact (start.trans erased).trans (ih erased.wf)

theorem evictExpiredN_shrinks {nowNs batchSize : Nat} :
    Shrinks env s (p.evictExpiredN env s nowNs batchSize).2 := by
  have clean := cleanupIf_rearranges p.cleanupOnSweep wf
  exact (clean.toShrinks.trans (laws.sweepLoop_shrinks clean.wf)).quiet ⟨rfl, rfl, rfl, rfl⟩

/-! ## Limits and configuration -/

theorem maxSize_shrinks :
    Shrinks env { s with settings := { s.settings with maxSize := n } } (p.maxSize s n) := by
  have set : State.WellFormed env { s with settings := { s.settings with maxSize := n } } := wf
  refine Shrinks.quiet ?_ (laws.afterResize _)
  split
  · exact .refl set
  · have quiet := laws.beforeResize { s with settings := { s.settings with maxSize := n } } n
    exact (quiet.shrinks set).trans (laws.shrinkToFit_shrinks (quiet.wf set))

theorem maxMemory_shrinks :
    Shrinks env { s with settings := { s.settings with maxMemory := n } } (p.maxMemory s n) := by
  have set : State.WellFormed env { s with settings := { s.settings with maxMemory := n } } := wf
  unfold maxMemory
  split
  · exact .refl set
  · exact laws.shrinkToFit_shrinks set

end Policy.Laws

end Lru.Mm
