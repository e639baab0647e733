import Lru.Cache.StripedWrites
import Lru.Mm.PlainList
import Lru.Reshard.Clone

/-!
# What the copy leaves in the new shards

Every pair that passes the checks of `set` enters its shard at the head. So the list of
a shard starts with the pair that was copied last, and it keeps another one unless its
quota is one.
-/

namespace Lru.Reshard

variable {K V : Type} {n : Nat}

open Mm State ShardedMmLru Striped

/-! ## One list -/

/-- A list after some pairs have been put in front of it, one by one. -/
structure Filled (quota : Nat) (copies l : List (K × V)) : Prop where
  subset : l ⊆ copies
  head_eq : l.head? = copies.getLast?
  single : l.length ≤ 1 → copies.length ≤ 1 ∨ quota = 1
  short : quota = 1 → l.length ≤ 1

theorem Filled.nil (quota : Nat) : Filled quota ([] : List (K × V)) [] :=
  ⟨List.Subset.refl [], rfl, fun _ => .inl (Nat.zero_le 1), fun _ => Nat.zero_le 1⟩

/-- The next pair comes in front of some of the others. -/
theorem Filled.push {quota : Nat} {copies l rest : List (K × V)} {p : K × V}
    (filled : Filled quota copies l) (pos : 0 < quota) (kept : rest ⊆ l)
    (enough : min l.length (quota - 1) ≤ rest.length)
    (short : quota = 1 → (p :: rest).length ≤ 1) : Filled quota (copies ++ [p]) (p :: rest) := by
  refine ⟨?_, ?_, ?_, short⟩
  · intro q hq
    obtain rfl | later := List.mem_cons.mp hq
    · exact List.mem_append_right _ (List.mem_singleton_self _)
    · exact List.mem_append_left _ (filled.subset (kept later))
  · rw [List.getLast?_concat]
    rfl
  · intro alone
    rw [List.length_cons] at alone
    by_cases empty : l = []
    · have none : copies = [] := by
        apply List.getLast?_eq_none_iff.mp
        rw [← filled.head_eq, empty]
        rfl
      exact .inl (by simp [none])
    · have positive := List.length_pos_iff.mpr empty
      exact .inr (by omega)

/-! ## The whole copy -/

theorem modifyShard_of_eq {m : ShardedMmLru K V n} {i : Fin n} {f : State K V → State K V}
    (same : f (m.shards i) = m.shards i) : m.modifyShard i f = m := by
  rw [modifyShard, same, Function.update_eq_self]

section Copy

variable [DecidableEq K] [NeZero n]

def passes (env : Env K V) (o : Surroundings K V) (c : Striped K V n) (p : K × V) : Bool :=
  match c.preWriteCheck "set" with
  | .ok .kProceed => (c.admitWrite env true p.1 p.2 (c.mm.shardFor env p.1) (o.calls p.1)).1
  | _ => false

/-- The pairs that pass the checks of a cache into which they are copied. -/
def copied (env : Env K V) (o : Surroundings K V) (c : Striped K V n) : List (K × V) → List (K × V)
  | [] => []
  | p :: rest =>
    let later := copied env o (copyOne env o c p) rest
    if passes env o c p then p :: later else later

theorem copied_sublist (env : Env K V) (o : Surroundings K V) (c : Striped K V n)
    (pairs : List (K × V)) : (copied env o c pairs).Sublist pairs := by
  induction pairs generalizing c with
  | nil => exact .refl []
  | cons p rest ih =>
    rw [copied]
    split
    · exact (ih _).cons_cons p
    · exact (ih _).cons p

def shardOf (env : Env K V) (key : K) : Fin n := Fin.ofNat n (splitmix (env.hash key))

variable {env : Env K V} {o : Surroundings K V} {c d : Striped K V n} {maxSize : Nat}
  {quotas : Fin n → Nat} {done : List (K × V)} {p : K × V}

structure Copying (env : Env K V) (maxSize : Nat) (quotas : Fin n → Nat) (done : List (K × V))
    (c : Striped K V n) : Prop where
  isOpen : c.closed = false
  resumed : c.quiesced = false
  maxSize_eq : c.mm.maxSize = maxSize
  mixed : c.mm.mixShardHash = true
  seated : maxSize ≠ unlimited → Seated env c.mm
  plain : ∀ j, MmLru.Plain env (quotas j) (c.mm.shards j)
  fits : ∀ j, quotas j ≠ unlimited → MmLru.size (c.mm.shards j) ≤ quotas j
  filled : ∀ j, Filled (quotas j) (done.filter fun q => shardOf env q.1 = j)
    ((c.mm.shards j).sequence 0)

namespace Copying

variable (copying : Copying env maxSize quotas done c)

include copying

omit [DecidableEq K] in
theorem of_mm (mm : d.mm = c.mm) (closed : d.closed = c.closed)
    (quiesced : d.quiesced = c.quiesced) : Copying env maxSize quotas done d := by
  obtain ⟨isOpen, resumed, maxSize_eq, mixed, seated, plain, fits, filled⟩ := copying
  rw [← closed] at isOpen
  rw [← quiesced] at resumed
  rw [← mm] at maxSize_eq mixed seated plain fits filled
  exact ⟨isOpen, resumed, maxSize_eq, mixed, seated, plain, fits, filled⟩

omit [DecidableEq K] in
theorem shardFor_eq (key : K) : c.mm.shardFor env key = shardOf env key := by
  rw [shardFor, shardForHash, if_pos copying.mixed]
  rfl

/-- A key that has not been copied is not in its shard. -/
theorem absent (fresh : ∀ q ∈ done, q.1 ≠ p.1) (j : Fin n) :
    (c.mm.shards j).find env p.1 = none := by
  refine (copying.plain j).oneList.find_eq_none (copying.plain j).wf fun q hq => ?_
  exact fresh q (List.mem_of_mem_filter ((copying.filled j).subset hq))

omit [DecidableEq K] in
theorem reportWriteRejected_eq (key : K) (value : V) : c.reportWriteRejected env key value = c := by
  apply reportWriteRejected_of_unheard
  rw [(copying.plain _).settings_eq]

theorem checkMemoryAdmission (fresh : ∀ q ∈ done, q.1 ≠ p.1) (a : Ambient K) :
    Copying env maxSize quotas done (c.checkMemoryAdmission env p.1 p.2 a).2 := by
  obtain ⟨closed, quiesced, -⟩ := checkMemoryAdmission_spec env c p.1 p.2 a
  refine copying.of_mm ?_ closed quiesced
  rw [checkMemoryAdmission_mm]
  split
  · apply modifyShard_of_eq
    rw [contains, copying.absent fresh]
  · rfl

theorem applyOverflowPolicyForSet (i : Fin n) (a : Ambient K) :
    c.applyOverflowPolicyForSet env p.1 i a = (true, c) := by
  have allowed : (c.mm.shards i).settings.config.overflowPolicyValue = .kAllowGrowth := by
    rw [(copying.plain i).settings_eq]
  have passes : Cache.applyOverflowPolicyForSet { mm := c.mm.shards i } env .mmLru p.1 a =
      (true, { mm := c.mm.shards i }) := by
    simp [Cache.applyOverflowPolicyForSet, allowed]
  simp only [Striped.applyOverflowPolicyForSet, passes]
  rw [modifyShard_of_eq rfl]

omit copying in
theorem drainRing_eq (quiet : (o.calls p.1).drained = []) :
    c.drainRing env (o.calls p.1) = c := by
  rw [drainRing, quiet]
  split <;> rfl

/-- The checks ask, but they change nothing in the shards. -/
theorem admitWrite (fresh : ∀ q ∈ done, q.1 ≠ p.1) (quiet : (o.calls p.1).drained = []) :
    ∃ b d, c.admitWrite env true p.1 p.2 (c.mm.shardFor env p.1) (o.calls p.1) = (b, d) ∧
      Copying env maxSize quotas done d := by
  have asked := copying.checkMemoryAdmission fresh (o.calls p.1)
  simp only [Striped.admitWrite, drainRing_eq quiet]
  cases admission : c.checkMemoryAdmission env p.1 p.2 (o.calls p.1) with
  | mk admitted d =>
    rw [admission] at asked
    cases admitted with
    | false => exact ⟨false, d, by simp [asked.reportWriteRejected_eq], asked⟩
    | true =>
      simp only [asked.applyOverflowPolicyForSet]
      exact ⟨true, d, rfl, asked⟩

theorem set (distributed : Distributed maxSize quotas) (fresh : ∀ q ∈ done, q.1 ≠ p.1) (sec : Nat) :
    Copying env maxSize quotas (done ++ [p]) { c with mm := c.mm.set env p.1 p.2 sec } := by
  obtain ⟨kept, seated⟩ := set_keeps p.1 p.2 sec fun j => (copying.plain j).wf
  have shard := copying.shardFor_eq p.1
  obtain ⟨plain, fits, rest, sequence, subset, enough⟩ :=
    (copying.plain (shardOf env p.1)).set (distributed.pos _) (copying.fits _)
      (copying.absent fresh _)
  -- Only the shard of the key changes.
  have here : (c.mm.set env p.1 p.2 sec).shards (shardOf env p.1) =
      (MmLru.policy env).set env (c.mm.shards (shardOf env p.1)) p.1 p.2 sec := by
    rw [ShardedMmLru.set, shard, modifyShard_same]
  have elsewhere : ∀ j, j ≠ shardOf env p.1 →
      (c.mm.set env p.1 p.2 sec).shards j = c.mm.shards j := by
    intro j other
    rw [ShardedMmLru.set, shard, modifyShard_of_ne _ other]
  refine ⟨copying.isOpen, copying.resumed, copying.maxSize_eq, copying.mixed,
    fun finite => seated (copying.seated finite), fun j => ?_, fun j => ?_, fun j => ?_⟩
  · by_cases same : j = shardOf env p.1
    · subst same
      exact here ▸ plain
    · exact elsewhere j same ▸ copying.plain j
  · by_cases same : j = shardOf env p.1
    · subst same
      exact here ▸ fits
    · exact elsewhere j same ▸ copying.fits j
  · rw [List.filter_append]
    by_cases same : j = shardOf env p.1
    · subst same
      have one : ([p].filter fun q => shardOf env q.1 = shardOf (n := n) env p.1) = [p] := by simp
      rw [one, here, sequence]
      refine (copying.filled _).push (distributed.pos _) subset enough fun alone => ?_
      have length := fits (by rw [alone]; decide)
      rwa [alone, ← plain.length_sequence, sequence] at length
    · have none : ([p].filter fun q => shardOf env q.1 = j) = [] := by simp [Ne.symm same]
      rw [none, List.append_nil, elsewhere j same]
      exact copying.filled j

/-- The quotas keep the cache within its limit, so the gate is idle. -/
theorem enforceCapacity_eq (key : K) (sizeBefore : Nat) :
    c.enforceCapacityAfterInsert env key sizeBefore = c := by
  apply enforceCapacity_of_le
  by_cases endless : maxSize = unlimited
  · exact .inl (copying.maxSize_eq.trans endless)
  · exact .inr (copying.seated endless).size_le

theorem setBody (distributed : Distributed maxSize quotas) (fresh : ∀ q ∈ done, q.1 ≠ p.1)
    (quiet : (o.calls p.1).drained = []) : Copying env maxSize quotas
      (if (c.admitWrite env true p.1 p.2 (c.mm.shardFor env p.1) (o.calls p.1)).1 then done ++ [p]
        else done) (c.setBody env p.1 p.2 (o.calls p.1)) := by
  obtain ⟨b, d, admission, ready⟩ := copying.admitWrite fresh quiet
  rw [Striped.setBody, admission]
  cases b with
  | false => exact ready
  | true =>
    have written := ready.set distributed fresh (o.calls p.1).sec
    simp only [written.enforceCapacity_eq, if_true]
    obtain ⟨mm, closed, quiesced, -⟩ := applyMemoryPressure_spec
    obtain ⟨mm', closed', quiesced', -⟩ := reportMemory_spec
    exact written.of_mm (mm'.trans mm) (closed'.trans closed) (quiesced'.trans quiesced)

theorem copyOne (distributed : Distributed maxSize quotas) (fresh : ∀ q ∈ done, q.1 ≠ p.1)
    (quiet : (o.calls p.1).drained = []) :
    Copying env maxSize quotas (if passes env o c p then done ++ [p] else done)
      (copyOne env o c p) := by
  rw [Reshard.copyOne, Striped.set, passes]
  by_cases critical : c.memoryCriticalMode = true
  · have refused : c.preWriteCheck "set" = .ok .kRejectInsert := by
      simp [Layer.preWriteCheck, copying.isOpen, copying.resumed, critical]
    rw [refused]
    simp only [copying.reportWriteRejected_eq]
    exact copying
  · have proceeds :=
    Layer.preWriteCheck_of_open "set" copying.isOpen copying.resumed (by simpa using critical)
    rw [proceeds]
    exact copying.setBody distributed fresh quiet

/-- Without a memory limit no check refuses a pair, and no pressure is found. -/
theorem copyOne_of_unwatched (distributed : Distributed maxSize quotas)
    (fresh : ∀ q ∈ done, q.1 ≠ p.1) (quiet : (o.calls p.1).drained = [])
    (unwatched : c.toLayer = {}) (endless : c.mm.maxMemory = unlimited) :
    passes env o c p = true ∧ (Reshard.copyOne env o c p).toLayer = {} ∧
      (Reshard.copyOne env o c p).mm.maxMemory = unlimited := by
  have proceeds : c.preWriteCheck "set" = .ok .kProceed := by rw [unwatched]; rfl
  have asked : c.checkMemoryAdmission env p.1 p.2 (o.calls p.1) = (true, c) := by
    rw [Striped.checkMemoryAdmission, unwatched]
    exact if_neg (by decide)
  have admitted : c.admitWrite env true p.1 p.2 (c.mm.shardFor env p.1) (o.calls p.1) =
      (true, c) := by
    simp only [Striped.admitWrite, drainRing_eq quiet, asked, copying.applyOverflowPolicyForSet]
  have written := copying.set distributed fresh (o.calls p.1).sec
  have calm : (c.mm.set env p.1 p.2 (o.calls p.1).sec).maxMemory = unlimited := endless
  rw [passes, Reshard.copyOne, Striped.set, proceeds]
  simp only [admitted, Striped.setBody, written.enforceCapacity_eq]
  simp only [applyMemoryPressure, Striped.reportMemory, unwatched, calm, and_true, true_and]
  rfl

omit [DecidableEq K] [NeZero n] copying in
/-- The keys that remain are new after the next copy, too. -/
theorem fresh_rest {rest : List (K × V)} {passed : Bool}
    (nodup : ((p :: rest).map Prod.fst).Nodup)
    (fresh : ∀ q ∈ done, ∀ r ∈ p :: rest, q.1 ≠ r.1) :
    ∀ q ∈ (if passed then done ++ [p] else done), ∀ r ∈ rest, q.1 ≠ r.1 := by
  intro q hq r hr
  have elsewhere : p.1 ≠ r.1 := fun same =>
    (List.nodup_cons.mp nodup).1 (same ▸ List.mem_map_of_mem hr)
  split at hq
  · obtain old | new := List.mem_append.mp hq
    · exact fresh q old r (.tail _ hr)
    · rw [List.mem_singleton.mp new]
      exact elsewhere
  · exact fresh q hq r (.tail _ hr)

section All

variable {pairs : List (K × V)} (distributed : Distributed maxSize quotas)
  (nodup : (pairs.map Prod.fst).Nodup) (fresh : ∀ q ∈ done, ∀ p ∈ pairs, q.1 ≠ p.1)
  (quiet : ∀ key, (o.calls key).drained = [])

include distributed nodup fresh quiet

theorem copyAll : Copying env maxSize quotas (done ++ copied env o c pairs)
    (pairs.foldl (Reshard.copyOne env o) c) := by
  induction pairs generalizing c done with
  | nil =>
    rw [copied, List.append_nil]
    exact copying
  | cons p rest ih =>
    have one := copying.copyOne distributed (fun q hq => fresh q hq p (.head _)) (quiet p.1)
    have all := ih one (List.nodup_cons.mp nodup).2 (fresh_rest nodup fresh)
    rw [copied]
    split
    case isTrue passes => rwa [if_pos passes, List.append_assoc] at all
    case isFalse refused => rwa [if_neg refused] at all

/-- Without a memory limit every pair is copied. -/
theorem copied_eq (unwatched : c.toLayer = {}) (endless : c.mm.maxMemory = unlimited) :
    copied env o c pairs = pairs := by
  induction pairs generalizing c done with
  | nil => rfl
  | cons p rest ih =>
    have first := fun q hq => fresh q hq p (.head _)
    obtain ⟨passed, layer, memory⟩ :=
      copying.copyOne_of_unwatched distributed first (quiet p.1) unwatched endless
    have all := ih (copying.copyOne distributed first (quiet p.1)) (List.nodup_cons.mp nodup).2
      (fresh_rest nodup fresh) layer memory
    rw [copied, if_pos passed, all]

end All

omit [DecidableEq K] copying in
theorem start (distributed : Distributed maxSize quotas) :
    Copying env maxSize quotas [] (newCache o maxSize quotas) := by
  have plain (j : Fin n) : MmLru.Plain env (quotas j) ((newCache o maxSize quotas).mm.shards j) :=
    ⟨Strategy.empty_wf o.memory _ {} o.sec, rfl, fun _ _ => rfl, nofun, nofun, nofun, rfl⟩
  refine ⟨rfl, rfl, rfl, rfl, fun finite => ?_, plain, fun _ _ => Nat.zero_le _, fun j => .nil _⟩
  exact ⟨fun j => ⟨(plain j).wf, rfl, Nat.zero_le _, Nat.zero_le _⟩, distributed.finite finite,
    distributed.sum_le finite⟩

end Copying

end Copy

end Lru.Reshard
