import Lru.Mm.Sheds

/-!
# The order of the victims

Evictions that follow one another take the items of a state in an order that depends on its
lists only: each search is made on the lists that the searches before it leave behind. A loop
of evictions takes a prefix of this order, so what it leaves is a matter of the sizes of the
items in it.
-/

namespace Lru.Mm

variable {K V β : Type} {env : Env K V} {s t : State K V} {v : ItemId} {n : Nat}
  {l : List ItemId} {reads : State K V → β}

open State List

/-- Two states that look alike to the searches of a strategy. `reads` is what they read
besides the lists and the items in them. -/
structure State.Alike (reads : State K V → β) (s t : State K V) : Prop where
  queue_eq : t.queue = s.queue
  settings_eq : t.settings = s.settings
  count_eq : ∀ i, (t.heap i).accessRef = (s.heap i).accessRef
  body : ∀ q, ∀ i ∈ s.queue q, (t.heap i).unplaced = (s.heap i).unplaced
  reads_eq : reads t = reads s

/-- The counter after evictions of these items. -/
def State.memoryWithout (env : Env K V) (s : State K V) (l : List ItemId) : Nat :=
  l.foldl (fun m i => SizeT.fetchSub m (s.itemMemory env i)) s.stats.currentMemory

theorem State.memoryWithout_congr (counter : t.stats.currentMemory = s.stats.currentMemory)
    (sizes : ∀ i ∈ l, t.itemMemory env i = s.itemMemory env i) :
    t.memoryWithout env l = s.memoryWithout env l := by
  rw [memoryWithout, memoryWithout, counter]
  exact foldl_ext _ _ _ fun m i hi => by rw [sizes i hi]

def Settings.exceeded (c : Settings K V) (size memory : Nat) : Bool :=
  (c.maxSize != unlimited && c.maxSize < size) || (c.maxMemory != unlimited && c.maxMemory < memory)

/-- The first `n` items that the search finds one after the other. `pass` takes an item out
of the lists. -/
def Policy.victims (p : Policy K V) (pass : State K V → ItemId → State K V) :
    Nat → State K V → List ItemId
  | 0, _ => []
  | n + 1, s =>
    match p.victim s with
    | none => []
    | some v => v :: p.victims pass n (pass s v)

/-- `order` tells which items evictions take one after the other. -/
structure Policy.Ordered [DecidableEq K] (env : Env K V) (p : Policy K V)
    (order : State K V → List ItemId) : Prop where
  laws : p.Laws env
  counts : EvictionCounts env p.victim p.evict
  head : ∀ {s}, s.WellFormed env → (order s).head? = p.victim s
  tail : ∀ {s v}, s.WellFormed env → p.victim s = some v → order (p.evict s) = (order s).tail

/-! ## Loops of evictions -/

section Loops

variable [DecidableEq K] {p : Policy K V} {order : State K V → List ItemId}

/-- `t` is `s` after evictions of the first `n` items. -/
structure Took (env : Env K V) (order : State K V → List ItemId) (n : Nat) (s t : State K V) :
    Prop extends Shrinks env s t where
  order_eq : order t = (order s).drop n
  length_eq : t.table.length + n = s.table.length
  mem_iff : ∀ i, i ∈ t.table ↔ i ∈ s.table ∧ i ∉ (order s).take n
  taken : (order s).take n ⊆ s.table
  memory_eq : t.stats.currentMemory = s.memoryWithout env ((order s).take n)

theorem Policy.Ordered.took (ordered : p.Ordered env order) (wf : s.WellFormed env)
    (enough : n ≤ (order s).length) : Took env order n s (p.evict^[n] s) := by
  induction n with
  | zero => exact ⟨.refl wf, rfl, rfl, fun i => by simp, by simp, rfl⟩
  | succ n ih =>
    have before := ih (by omega)
    set t := p.evict^[n] s with t_def
    have found : p.victim t = some ((order s).get ⟨n, by omega⟩) := by
      rw [← ordered.head before.wf, before.order_eq, head?_drop]
      exact getElem?_eq_getElem _
    set v := (order s).get ⟨n, by omega⟩ with v_def
    have removed := ordered.laws.eviction.removes before.wf found
    have first_eq : (order s).take (n + 1) = (order s).take n ++ [v] := by
      rw [take_add_one, getElem?_eq_getElem (by omega)]
      rfl
    rw [Function.iterate_succ_apply', ← t_def]
    refine ⟨before.toShrinks.trans removed.toShrinks, ?_, ?_, fun i => ?_, ?_, ?_⟩
    · rw [ordered.tail before.wf found, before.order_eq, tail_drop]
    · have fewer := removed.length_eq
      have length := before.length_eq
      omega
    · have unique : t.table.Nodup := before.wf.table_nodup
      rw [removed.table_eq, unique.mem_erase_iff, before.mem_iff, first_eq]
      simp only [mem_append, mem_singleton, not_or]
      tauto
    · rw [first_eq]
      refine append_subset.mpr ⟨before.taken, ?_⟩
      simpa using ((before.mem_iff v).mp removed.mem_before).1
    · have same : t.itemMemory env v = s.itemMemory env v :=
        itemMemory_of_content before.settings_eq (before.content v removed.mem_before)
      rw [ordered.counts.taken before.wf found, same, before.memory_eq, memoryWithout,
        memoryWithout, first_eq, foldl_append]
      rfl

theorem Policy.Ordered.subset_table (ordered : p.Ordered env order) (wf : s.WellFormed env) :
    order s ⊆ s.table := by
  have all := (ordered.took wf (Nat.le_refl (order s).length)).taken
  rwa [take_length] at all

/-- What `needs` says of the size and the counter after evictions of the first `n` items. -/
def needsAfter (env : Env K V) (order : State K V → List ItemId) (needs : Nat → Nat → Bool)
    (s : State K V) (n : Nat) : Bool :=
  needs (s.table.length - n) (s.memoryWithout env ((order s).take n))

theorem Policy.Ordered.needsAfter_iterate (ordered : p.Ordered env order)
    (wf : s.WellFormed env) {k : Nat} (le : n + k ≤ (order s).length)
    (needs : Nat → Nat → Bool) :
    needsAfter env order needs (p.evict^[n] s) k = needsAfter env order needs s (n + k) := by
  have first := ordered.took wf (n := n) (by omega)
  have enough : k ≤ (order (p.evict^[n] s)).length := by
    rw [first.order_eq, length_drop]
    omega
  have later := ordered.took first.wf enough
  have both := ordered.took wf le
  rw [Nat.add_comm n k, Function.iterate_add_apply] at both
  rw [needsAfter, needsAfter, ← later.memory_eq, Nat.add_comm n k, ← both.memory_eq]
  congr 1
  have length := first.length_eq
  omega

/-- A loop that evicts while `needs` asks for it takes items until it does not, or until
nothing can be evicted any more. -/
inductive LoopEnds (env : Env K V) (p : Policy K V) (order : State K V → List ItemId)
    (needs : Nat → Nat → Bool) (s : State K V) (result : State K V × Bool) : Prop
  | stops (n : Nat) (le : n ≤ (order s).length)
      (needed : ∀ j < n, needsAfter env order needs s j = true)
      (met : needsAfter env order needs s n = false) (eq : result = (p.evict^[n] s, true))
  | runsOut (needed : ∀ j ≤ (order s).length, needsAfter env order needs s j = true)
      (eq : result = (p.evict (p.evict^[(order s).length] s), false))

theorem Policy.Ordered.evictWhile_ends (ordered : p.Ordered env order) (wf : s.WellFormed env)
    {cond : State K V → Bool} {needs : Nat → Nat → Bool}
    (reads : ∀ {t : State K V}, t.WellFormed env → t.settings = s.settings →
      cond t = needs t.table.length t.stats.currentMemory) :
    LoopEnds env p order needs s (evictWhile p.evict p.size cond (p.size s + 1) s) := by
  have eviction := ordered.laws.eviction
  -- The loop from the state after `k` evictions, by induction on the fuel.
  have later : ∀ (fuel k : Nat), k ≤ (order s).length → s.table.length < fuel + k →
      (∀ j < k, needsAfter env order needs s j = true) →
      LoopEnds env p order needs s (evictWhile p.evict p.size cond fuel (p.evict^[k] s)) := by
    intro fuel
    induction fuel with
    | zero =>
      intro k hk enough _
      have length := (ordered.took wf hk).length_eq
      omega
    | succ fuel ih =>
      intro k hk enough needed
      have took := ordered.took wf hk
      have length := took.length_eq
      have asked : cond (p.evict^[k] s) = needsAfter env order needs s k := by
        rw [reads took.wf took.settings_eq, took.memory_eq, needsAfter]
        congr 1
        omega
      have head := ordered.head took.wf
      rw [took.order_eq] at head
      cases ends : cond (p.evict^[k] s) with
      | false => exact .stops k hk needed (by rw [← asked, ends]) (evictWhile_of_false ends)
      | true =>
        have upTo : ∀ j ≤ k, needsAfter env order needs s j = true := fun j hj => by
          obtain earlier | rfl := Nat.lt_or_eq_of_le hj
          · exact needed j earlier
          · rw [← asked, ends]
        rw [evictWhile, if_pos ends]
        cases found : p.victim (p.evict^[k] s) with
        | none =>
          obtain rfl : k = (order s).length := by
            rw [found, head?_eq_none_iff, drop_eq_nil_iff] at head
            omega
          simp only [eviction.size_of_none took.wf found]
          exact .runsOut upTo rfl
        | some v =>
          have more : k < (order s).length := by
            by_contra! none
            rw [drop_eq_nil_of_le none, found] at head
            cases head
          have fewer := eviction.size_of_some took.wf found
          have next : p.evict (p.evict^[k] s) = p.evict^[k + 1] s :=
            (Function.iterate_succ_apply' _ _ _).symm
          rw [if_neg (by omega), next]
          exact ih (k + 1) more (by omega) fun j hj => upTo j (Nat.lt_succ_iff.mp hj)
  exact later (p.size s + 1) 0 (Nat.zero_le _) (by rw [eviction.size_eq wf]; omega)
    fun j hj => absurd hj (Nat.not_lt_zero j)

variable {needs : Nat → Nat → Bool} {result : State K V × Bool}

omit [DecidableEq K] in
theorem LoopEnds.success_iff (ends : LoopEnds env p order needs s result) :
    result.2 = true ↔ ∃ n ≤ (order s).length, needsAfter env order needs s n = false := by
  cases ends with
  | stops n le needed met eq => exact iff_of_true (by rw [eq]) ⟨n, le, met⟩
  | runsOut needed eq =>
    refine iff_of_false (by simp [eq]) ?_
    rintro ⟨n, le, met⟩
    rw [needed n le] at met
    cases met

/-- An item outlasts the loop exactly if it is not among the first items that leave nothing
more to be done. -/
theorem LoopEnds.mem_iff {i : ItemId} (ends : LoopEnds env p order needs s result)
    (ordered : p.Ordered env order) (wf : s.WellFormed env) (hi : i ∈ s.table) :
    i ∈ result.1.table ↔ ∃ n, i ∉ (order s).take n ∧
      ((order s).length ≤ n ∨ needsAfter env order needs s n = false) := by
  cases ends with
  | stops n le needed met eq =>
    rw [eq, (ordered.took wf le).mem_iff]
    refine ⟨fun kept => ⟨n, kept.2, .inr met⟩, ?_⟩
    rintro ⟨m, spared, ended⟩
    have least : n ≤ m := by
      obtain all | ended := ended
      · omega
      · by_contra! earlier
        rw [needed m earlier] at ended
        cases ended
    exact ⟨hi, fun taken => spared (take_subset_take_left _ least taken)⟩
  | runsOut needed eq =>
    have took := ordered.took wf (Nat.le_refl (order s).length)
    have none : p.victim (p.evict^[(order s).length] s) = none := by
      rw [← ordered.head took.wf, took.order_eq, drop_length]
      rfl
    have still := ordered.laws.eviction.rearranges took.wf none
    rw [eq, still.mem_iff, took.mem_iff]
    refine ⟨fun kept => ⟨_, kept.2, .inl (Nat.le_refl _)⟩, ?_⟩
    rintro ⟨m, spared, all | ended⟩
    · exact ⟨hi, fun taken => spared (take_subset_take_left _ all taken)⟩
    · by_cases le : m ≤ (order s).length
      · rw [needed m le] at ended
        cases ended
      · exact ⟨hi, fun taken => spared (take_subset_take_left _ (by omega) taken)⟩

end Loops

/-! ## The strategies -/

/-- An eviction leaves the lists as `pass` does, for everything that the search reads. -/
structure Policy.Passes [DecidableEq K] (env : Env K V) (p : Policy K V)
    (pass : State K V → ItemId → State K V) (reads : State K V → β) : Prop where
  laws : p.Laws env
  counts : EvictionCounts env p.victim p.evict
  victim_eq : ∀ {s t}, s.Alike reads t → p.victim t = p.victim s
  pass_alike : ∀ {s t} v, s.Alike reads t → (pass s v).Alike reads (pass t v)
  evict_alike : ∀ {s v}, s.WellFormed env → p.victim s = some v →
    (pass s v).Alike reads (p.evict s)

namespace Policy.Passes

variable [DecidableEq K] {p : Policy K V} {pass : State K V → ItemId → State K V}
  (passes : p.Passes env pass reads)

include passes

theorem victims_eq (same : s.Alike reads t) (n : Nat) :
    p.victims pass n t = p.victims pass n s := by
  induction n generalizing s t with
  | zero => rfl
  | succ n ih =>
    rw [Policy.victims, Policy.victims, passes.victim_eq same]
    cases p.victim s with
    | none => rfl
    | some v => exact congrArg (v :: ·) (ih (passes.pass_alike v same))

theorem ordered : p.Ordered env fun s => p.victims pass s.table.length s where
  laws := passes.laws
  counts := passes.counts
  head {s} wf := by
    cases found : p.victim s with
    | none => cases s.table.length <;> simp [Policy.victims, found]
    | some v =>
      have mem := (passes.laws.eviction.removes wf found).length_eq
      rw [← mem, Policy.victims, found]
      rfl
  tail {s v} wf found := by
    have fewer := (passes.laws.eviction.removes wf found).length_eq
    rw [← fewer, Policy.victims, found, passes.victims_eq (passes.evict_alike wf found)]
    rfl

end Policy.Passes

section Lists

variable {q : QueueId} (same : s.Alike reads t)

include same

theorem State.Alike.content {i : ItemId} (hi : i ∈ s.queue q) :
    (t.heap i).content = (s.heap i).content :=
  Body.eq_of_unplaced (same.body q i hi) Body.content fun _ => rfl

omit q in
theorem State.Alike.held_eq (i : ItemId) :
    (t.heap i).hasActiveHandle = (s.heap i).hasActiveHandle := by
  rw [Body.hasActiveHandle, same.count_eq, Body.hasActiveHandle]

theorem State.Alike.searchQueue_eq : t.searchQueue q = s.searchQueue q := by
  rw [searchQueue, searchQueue, same.queue_eq]
  exact searchVictim_congr same.settings_eq (fun i hi => same.content (mem_reverse.mp hi)) 0

end Lists

def State.without (s : State K V) (v : ItemId) : State K V :=
  { s with queue := fun q => (s.queue q).erase v }

theorem State.Alike.without (blind : ∀ (u : State K V) v, reads (u.without v) = reads u)
    (v : ItemId) (same : s.Alike reads t) : (s.without v).Alike reads (t.without v) where
  queue_eq := funext fun q => by rw [State.without, State.without, same.queue_eq]
  settings_eq := same.settings_eq
  count_eq := same.count_eq
  body q i hi := same.body q i (mem_of_mem_erase hi)
  reads_eq := by rw [blind, blind, same.reads_eq]

/-- An eviction that erases its item from the lists and touches no other. -/
theorem State.Alike.of_erase (removed : Removes env s t v)
    (sheds : Sheds true s t) (queue : ∀ q, t.queue q = (s.queue q).erase v)
    (read : reads t = reads (s.without v)) : (s.without v).Alike reads t where
  queue_eq := funext queue
  settings_eq := removed.settings_eq
  count_eq := sheds.count_eq
  body q i hi := by
    refine sheds.body i fun _ => mem_of_queue removed.wf (q := q) ?_
    rw [queue]
    exact hi
  reads_eq := read

variable [DecidableEq K]

namespace MmFifo

theorem queue_evict (wf : s.WellFormed env) (found : s.searchQueue 0 = some v) (q : QueueId) :
    (evict env s).queue q = (s.queue q).erase v := by
  rw [← searchQueue_cleanup] at found
  have clean := Rearranges.cleanup wf
  obtain ⟨hv, unpinned⟩ := searchQueue_spec clean.wf found
  rw [evict, found, ← cleanup_queue s]
  exact evictVictim_queue clean.wf hv unpinned (fun u _ => unlinkAndUnmark_unlinks) q

theorem passes (env : Env K V) : (policy env).Passes env State.without fun _ => () where
  laws := laws env
  counts := evictionCounts
  victim_eq same := same.searchQueue_eq
  pass_alike := .without fun _ _ => rfl
  evict_alike wf found :=
    .of_erase (eviction.removes wf found) (evict_sheds wf) (queue_evict wf found) rfl

end MmFifo

namespace Mm2q

theorem queue_evict (wf : s.WellFormed env) (found : (findVictim s).map Prod.snd = some v)
    (q : QueueId) : (evict env s).queue q = (s.queue q).erase v := by
  obtain ⟨⟨p, w⟩, search, rfl⟩ := Option.map_eq_some_iff.mp found
  rw [← findVictim_cleanup] at search
  have clean := Rearranges.cleanup wf
  obtain ⟨hv, unpinned⟩ := findVictim_spec clean.wf search
  have erased := evictVictim_queue clean.wf hv unpinned (fun u _ => removeFromQueue_unlinks) q
  rw [evict, search, ← cleanup_queue s, ← erased]
  simp only [storeSize, modifyStats]
  split
  · rw [ghostRecord_unseen.quiet.queue_eq]
  · rfl

theorem passes (env : Env K V) : (policy env).Passes env State.without fun _ => () where
  laws := laws env
  counts := evictionCounts
  victim_eq {s t} same := by
    have found : findVictim t = findVictim s := by
      refine congrArg (findSome? · evictionOrder) (funext fun q => ?_)
      rw [same.searchQueue_eq]
      cases found : s.searchQueue q with
      | none => rfl
      | some v =>
        have inQueue := mem_reverse.mp (searchVictim_spec found).1
        have free := Body.eq_of_unplaced (same.body q v inQueue) Body.canMarkForEviction
          fun _ => rfl
        simp [free]
    exact congrArg (Option.map Prod.snd) found
  pass_alike := .without fun _ _ => rfl
  evict_alike wf found :=
    .of_erase (eviction.removes wf found) (evict_sheds wf) (queue_evict wf found) rfl

end Mm2q

theorem evictGeneric_sketch (s : State K V) : (s.evictGeneric env v).2.sketch = s.sketch := by
  have collected : ∀ (u : State K V) e, (u.collect e).sketch = u.sketch := by
    intro u e
    obtain ⟨events, collected⟩ := collect_eq u e
    rw [collected]
  rw [evictGeneric]
  split
  case isTrue free =>
    rw [evictVictim, if_pos free]
    exact collected _ _
  case isFalse => rfl

namespace MmTinyLfu

open Window

theorem queue_evict (wf : s.WellFormed env) (found : findVictim env s = some v) (q : QueueId) :
    (evict env s).queue q = (s.queue q).erase v := by
  rw [← findVictim_cleanup] at found
  have clean := Rearranges.cleanup wf
  obtain ⟨hv, unpinned⟩ := findVictim_spec clean.wf found
  rw [evict, found, ← cleanup_queue s]
  exact evictGeneric_queue clean.wf hv unpinned q

/-- The comparison of the frequencies reads the sketch. -/
theorem passes (env : Env K V) : (policy env).Passes env State.without State.sketch where
  laws := laws env
  counts := evictionCounts
  victim_eq {s t} same := by
    change findVictim env t = findVictim env s
    rw [findVictim, same.searchQueue_eq, same.searchQueue_eq, findVictim]
    have key : ∀ {q i}, s.searchQueue q = some i → (t.heap i).key = (s.heap i).key :=
      fun found => congrArg Prod.fst (same.content (mem_reverse.mp (searchVictim_spec found).1))
    have wins : ∀ tiny main, s.searchQueue kTinyQueue = some tiny →
        s.searchQueue kMainQueue = some main →
        newcomerWins env t tiny main = newcomerWins env s tiny main := by
      intro tiny main inTiny inMain
      rw [newcomerWins, newcomerWins, same.settings_eq, same.reads_eq, key inTiny, key inMain]
    cases tiny : s.searchQueue kTinyQueue <;> cases main : s.searchQueue kMainQueue
    iterate 3 rfl
    simp only [wins _ _ tiny main]
  pass_alike := .without fun _ _ => rfl
  evict_alike {s v} wf found := by
    refine .of_erase (eviction.removes wf found) (evict_sheds wf) (queue_evict wf found) ?_
    change findVictim env s = _ at found
    rw [← findVictim_cleanup] at found
    change (evict env s).sketch = s.sketch
    rw [evict, found, evictGeneric_sketch]
    exact cleanup_frame s State.sketch fun _ _ _ => rfl

end MmTinyLfu

namespace MmWTinyLfu

open Window

/-- A victim in Protection goes through Probation. -/
theorem queue_evict (wf : s.WellFormed env) (found : findVictim s = some v) (q : QueueId) :
    (evict env s).queue q = (s.queue q).erase v := by
  have clean := Rearranges.cleanup wf
  obtain ⟨u, moved, moves, hv, unpinned, evicted⟩ := evict_of_some wf found
  have nodup : (s.queue q).Nodup := wf.queue_nodup q
  rw [evicted, evictGeneric_queue moves.wf hv unpinned]
  obtain rfl | rfl := moved
  · rw [cleanup_queue]
  · by_cases probation : q = kProbationQueue
    · subst probation
      rw [moveToQueue_queue_tail clean.wf, cleanup_queue,
        erase_append_right _ nodup.not_mem_erase, erase_cons_head, append_nil]
    · rw [moveToQueue_queue_other clean.wf probation, cleanup_queue,
        erase_of_not_mem nodup.not_mem_erase]

theorem passes (env : Env K V) : (policy env).Passes env State.without fun _ => () where
  laws := laws env
  counts := evictionCounts
  victim_eq {s t} same := by
    have protection : protectionVictim t = protectionVictim s := by
      rw [protectionVictim, protectionVictim, unpinnedTailOf, unpinnedTailOf, State.tail,
        State.tail, same.queue_eq]
      cases isTail : (s.queue kProtectionQueue).getLast? with
      | none => rfl
      | some i =>
        have veto := vetoed_congr same.settings_eq (same.content (mem_of_getLast? isTail))
        simp only [same.held_eq]
        split <;> simp_all
    change findVictim t = findVictim s
    rw [findVictim, findVictim, same.searchQueue_eq, same.searchQueue_eq, protection]
  pass_alike := .without fun _ _ => rfl
  evict_alike wf found :=
    .of_erase (eviction.removes wf found) (evict_sheds wf) (queue_evict wf found) rfl

end MmWTinyLfu

namespace MmLru

/-- The list without item `v`, and the cursor where `evict_lru` leaves it. -/
def passOver (s : State K V) (v : ItemId) : State K V :=
  let t := (findEvictionVictim s).2.without v
  { t with unpinnedTail := t.unpinnedTail.or (t.tail 0) }

section Search

omit [DecidableEq K]

variable (same : s.Alike State.unpinnedTail t)

include same

theorem scan_eq (path : ∀ i ∈ l, i ∈ s.queue 0) (tries : Nat) (sawPinned : Bool)
    (first : Option ItemId) : scan t tries sawPinned first l = scan s tries sawPinned first l := by
  induction l generalizing tries sawPinned first with
  | nil => rw [scan, scan, State.tail, State.tail, same.queue_eq]
  | cons i rest ih =>
    have later := ih fun j hj => path j (mem_cons_of_mem i hj)
    have veto := vetoed_congr same.settings_eq (same.content (path i mem_cons_self))
    simp only [scan, same.held_eq, veto, same.settings_eq, State.tail, same.queue_eq, later]

theorem findEvictionVictim_alike : (findEvictionVictim t).1 = (findEvictionVictim s).1 ∧
    (findEvictionVictim s).2.Alike State.unpinnedTail (findEvictionVictim t).2 := by
  have start : searchStart t = searchStart s := by
    simp only [searchStart, same.reads_eq, same.held_eq, State.tail, same.queue_eq]
  have path : searchPath t = searchPath s := by
    simp only [searchPath, start, same.queue_eq, before]
  have scanned := scan_eq same (fun _ => mem_searchPath) 0 false none
  rw [findEvictionVictim, findEvictionVictim, start, path]
  cases searchStart s with
  | none => exact ⟨rfl, same⟩
  | some i =>
    simp only [scanned]
    exact ⟨trivial, same.queue_eq, same.settings_eq, same.count_eq, same.body, rfl⟩

theorem passOver_alike (v : ItemId) : (passOver s v).Alike State.unpinnedTail (passOver t v) := by
  have searched := (findEvictionVictim_alike same).2
  have list : ((findEvictionVictim t).2.without v).queue =
      ((findEvictionVictim s).2.without v).queue := by
    rw [State.without, State.without, searched.queue_eq]
  refine ⟨list, searched.settings_eq, searched.count_eq,
    fun q i hi => searched.body q i (mem_of_mem_erase hi), ?_⟩
  change Option.or _ (((findEvictionVictim t).2.without v).tail 0) = _
  rw [State.tail, list]
  exact congrArg (Option.or · _) searched.reads_eq

end Search

/-- `evict_lru` leaves the list and the cursor as the search does. -/
theorem evictLru_alike (wf : s.WellFormed env) (found : (findEvictionVictim s).1 = some v) :
    (passOver s v).Alike State.unpinnedTail (evictLru env s) := by
  have removed : Removes env s (evictLru env s) v := eviction.removes wf found
  have sheds := evictLru_sheds wf
  have clean : s.Alike State.unpinnedTail s.cleanupPendingDeletion :=
    ⟨cleanup_queue s, cleanup_settings s, fun i => by rw [cleanup_heap],
      fun q i _ => by rw [cleanup_heap], cleanup_cursor⟩
  obtain ⟨u, search, -⟩ := search_cleanup found
  obtain ⟨wfu, mem, free⟩ := found_spec wf search
  have searched : (findEvictionVictim s).2.Alike State.unpinnedTail u := by
    have later := (findEvictionVictim_alike clean).2
    rw [search] at later
    exact later
  have heap : (findEvictionVictim s).2.heap = s.heap := by
    rw [findEvictionVictim]
    split <;> rfl
  have list : (findEvictionVictim s).2.queue = s.queue :=
    (findEvictionVictim_unseen s).quiet.queue_eq
  have evicted := evictLru_of_found wf search
  have queue : ∀ q, (u.evictVictim env removeFromList v).queue q = (s.queue q).erase v := by
    intro q
    rw [evictVictim_queue wfu mem free (fun _ => removeFromList_unlinks), searched.queue_eq, list]
  have left : (evictLru env s).queue = (s.without v).queue := by
    rw [evicted]
    exact funext queue
  have passed : ∀ i, ((passOver s v).heap i) = s.heap i := fun i => congrFun heap i
  refine ⟨?_, ?_, fun i => ?_, fun q i hi => ?_, ?_⟩
  · rw [left]
    exact funext fun q => by rw [passOver, State.without, State.without, list]
  · exact removed.settings_eq.trans (findEvictionVictim_unseen s).quiet.settings_eq.symm
  · rw [sheds.count_eq, passed]
  · rw [passed]
    refine sheds.body i fun _ => mem_of_queue removed.wf (q := q) ?_
    rw [left]
    simpa [passOver, State.without, list] using hi
  · rw [evicted]
    simp only [storeSize, modifyStats, evictVictim_cursor, searched.reads_eq, State.tail, queue]
    simp [passOver, State.without, State.tail, list]

theorem passes (env : Env K V) : (policy env).Passes env passOver State.unpinnedTail where
  laws := laws env
  counts := evictionCounts
  victim_eq same := (findEvictionVictim_alike same).1
  pass_alike v same := passOver_alike same v
  evict_alike := evictLru_alike

end MmLru

namespace Strategy

/-- How an item is taken out of the lists of a strategy. -/
def pass : Strategy → State K V → ItemId → State K V
  | .mmLru => MmLru.passOver
  | _ => State.without

/-- The order in which evictions take the items of a state. -/
def evictionOrder (env : Env K V) (strategy : Strategy) (s : State K V) : List ItemId :=
  (strategy.policy env).victims strategy.pass s.table.length s

theorem ordered (env : Env K V) (strategy : Strategy) :
    (strategy.policy env).Ordered env (strategy.evictionOrder env) := by
  cases strategy with
  | mmLru => exact (MmLru.passes env).ordered
  | mmFifo => exact (MmFifo.passes env).ordered
  | mm2q => exact (Mm2q.passes env).ordered
  | mmTinyLfu => exact (MmTinyLfu.passes env).ordered
  | mmWTinyLfu => exact (MmWTinyLfu.passes env).ordered

/-- The order is a matter of the lists, the items in them, the sketch and the cursor. -/
theorem evictionOrder_eq {strategy : Strategy} (table : t.table = s.table)
    (same : s.Alike (fun u => (u.sketch, u.unpinnedTail)) t) :
    strategy.evictionOrder env t = strategy.evictionOrder env s := by
  have reading : ∀ {β : Type} (f : Sketch × Option ItemId → β),
      s.Alike (fun u => f (u.sketch, u.unpinnedTail)) t := fun f =>
    ⟨same.queue_eq, same.settings_eq, same.count_eq, same.body, congrArg f same.reads_eq⟩
  rw [evictionOrder, evictionOrder, table]
  cases strategy with
  | mmLru => exact (MmLru.passes env).victims_eq (reading Prod.snd) _
  | mmFifo => exact (MmFifo.passes env).victims_eq (reading fun _ => ()) _
  | mm2q => exact (Mm2q.passes env).victims_eq (reading fun _ => ()) _
  | mmTinyLfu => exact (MmTinyLfu.passes env).victims_eq (reading Prod.fst) _
  | mmWTinyLfu => exact (MmWTinyLfu.passes env).victims_eq (reading fun _ => ()) _

end Strategy

end Lru.Mm
