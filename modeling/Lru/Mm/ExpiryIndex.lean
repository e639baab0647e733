import Lru.Mm.Sheds

/-!
# The TTL index

A resident with an expiry always has an entry in the index with that expiry, whatever stale
entries there are besides. A rewritten expiry is pushed after it is stored, and a rebuild
reads the linked items, so the two steps of a write may only be looked at together.
-/

namespace Lru.Mm

variable {K V : Type} {env : Env K V} {s t : State K V} {i : ItemId} {key : K} {clears : Bool}
  {expiryNs : Nat}

open State Function List

/-- Every linked item with an expiry has its entry, and no entry stands for no expiry. -/
structure Indexed (s : State K V) : Prop where
  complete : ∀ i ∈ s.table, (s.heap i).expiryNs ≠ 0 →
    ((s.heap i).expiryNs, (s.heap i).key) ∈ s.ttlIndex
  positive : ∀ e ∈ s.ttlIndex, e.1 ≠ 0

theorem Sheds.key_eq (h : Sheds clears s t) (hi : i ∈ t.table) : (t.heap i).key = (s.heap i).key :=
  Body.eq_of_unplaced (h.body i fun _ => hi) Body.key fun _ => rfl

theorem Indexed.sheds (h : Indexed s) (shed : Sheds clears s t) : Indexed t where
  complete i hi timed := by
    rw [Body.eq_of_unplaced (shed.body i fun _ => hi) Body.expiryNs fun _ => rfl] at timed ⊢
    rw [shed.key_eq hi, shed.index_eq]
    exact h.complete i (shed.mem i hi) timed
  positive e he := h.positive e (shed.index_eq ▸ he)

/-- A write to an item that leaves its key and its expiry. -/
theorem Indexed.modify (h : Indexed s) {f : Item K V → Item K V}
    (key : ∀ item, (f item).key = item.key) (expiry : ∀ item, (f item).expiryNs = item.expiryNs) :
    Indexed (s.modify i f) where
  complete j hj timed := by
    by_cases same : j = i
    · subst same
      simp only [State.modify, update_self, key, expiry] at timed ⊢
      exact h.complete j hj timed
    · simp only [State.modify, update_of_ne same] at timed ⊢
      exact h.complete j hj timed
  positive := h.positive

/-- The push restores the index after the expiry of one key was written. -/
theorem ttlIndexPush_indexed {liveCount : Nat} (wf : s.WellFormed env)
    (complete : ∀ i ∈ s.table, (s.heap i).expiryNs ≠ 0 →
      ((s.heap i).expiryNs, (s.heap i).key) ∈ s.ttlIndex ∨
        (s.heap i).expiryNs = expiryNs ∧ (s.heap i).key = key)
    (positive : ∀ e ∈ s.ttlIndex, e.1 ≠ 0) :
    Indexed (s.ttlIndexPush liveCount key expiryNs) := by
  have rebuilt : ∀ u : State K V, u.table = s.table → u.queue = s.queue →
      Indexed u.ttlIndexRebuild := by
    intro u table queue
    refine ⟨fun i (hi : i ∈ u.table) (timed : (u.heap i).expiryNs ≠ 0) => ?_, fun e he => ?_⟩
    · have live : i ∈ u.liveItems := by
        rw [liveItems, queue]
        rw [table] at hi
        exact (wf.table_perm).mem_iff.mp hi
      exact mem_map.mpr ⟨i, mem_filter.mpr ⟨live, by simpa using timed⟩, rfl⟩
    · obtain ⟨i, timed, rfl⟩ := mem_map.mp he
      simpa using (mem_filter.mp timed).2
  rw [ttlIndexPush]
  split
  case isTrue none =>
    split
    · exact rebuilt s rfl rfl
    · refine ⟨fun i hi timed => ?_, positive⟩
      obtain listed | ⟨same, -⟩ := complete i hi timed
      · exact listed
      · exact absurd (same.trans none) timed
  case isFalse some =>
    split
    · exact rebuilt _ rfl rfl
    · refine ⟨fun i hi timed => ?_, fun e he => ?_⟩
      · obtain listed | ⟨expiry, hk⟩ := complete i hi timed
        · exact mem_append_left _ listed
        · refine mem_append_right _ (mem_singleton.mpr ?_)
          exact Prod.ext expiry hk
      · obtain old | new := mem_append.mp he
        · exact positive e old
        · rw [mem_singleton.mp new]
          exact some

variable [DecidableEq K]

theorem indexed_closed (env : Env K V) : ShedClosed env (Indexed) where
  sheds shed h := h.sheds shed
  configured _ _ _ h := ⟨h.complete, h.positive⟩
  counted _ i _ h := h.modify (fun _ => rfl) fun _ => rfl
  valued _ i _ h := h.modify (fun _ => rfl) fun _ => rfl
  linked {s key} value q expiryNs hook place liveCount wf absent perm h := by
    have inserted : Inserts env s (s.linkNew env key value q expiryNs hook place) key value
        expiryNs := linkNew_inserts wf absent perm
    refine ttlIndexPush_indexed inserted.wf (fun i hi timed => ?_) ?_
    · rw [linkNew_eq wf absent] at hi timed ⊢
      by_cases new : i = s.next
      · subst new
        exact .inr (by simp)
      · simp only [update_of_ne new] at timed ⊢
        exact .inl (h.complete i ((mem_cons.mp hi).resolve_left new) timed)
    · rw [linkNew_eq wf absent]
      exact h.positive
  linkedPlain {s key} value q hook place wf absent _ h := by
    rw [linkNew_eq wf absent]
    refine ⟨fun i hi timed => ?_, h.positive⟩
    by_cases new : i = s.next
    · subst new
      exact absurd (by simp) timed
    · simp only [update_of_ne new] at timed ⊢
      exact h.complete i ((mem_cons.mp hi).resolve_left new) timed

/-- The update may evict the item itself; its new expiry then stands for nothing. -/
theorem setWithExpiry_indexed {strategy : Strategy} {value : V} {sec : Nat}
    (wf : s.WellFormed env) (h : Indexed s) :
    Indexed ((strategy.policy env).setWithExpiry env s key value expiryNs sec) := by
  have laws := strategy.laws env
  have room := (indexed_closed env).keepsRoom strategy
  rw [Policy.setWithExpiry]
  cases found : s.find env key with
  | none => exact room.insertNew value expiryNs sec wf found h
  | some i =>
    obtain ⟨hi, hk⟩ := (find_eq_some_iff wf).mp found
    have shrunk : Shrinks env (s.modify i fun item => { item with value := value })
        ((strategy.policy env).updateExisting env s i value sec) :=
      laws.updateExisting_shrinks wf hi
    have updated := room.updateExisting laws wf h hi value sec
    set u := (strategy.policy env).updateExisting env s i value sec
    simp only
    set v := u.modify i fun item => { item with expiryNs := expiryNs } with v_def
    have stamped : v.WellFormed env := WellFormed.write (.expiry expiryNs) shrunk.wf
    have complete : ∀ j ∈ v.table, (v.heap j).expiryNs ≠ 0 →
        ((v.heap j).expiryNs, (v.heap j).key) ∈ v.ttlIndex ∨
          (v.heap j).expiryNs = expiryNs ∧ (v.heap j).key = key := by
      intro j (hj : j ∈ u.table) timed
      by_cases same : j = i
      · subst same
        refine .inr ⟨by simp [v_def, State.modify], ?_⟩
        have keyed := congrArg Prod.fst (shrunk.content j hj)
        simpa [v_def, Body.content, State.modify, hk] using keyed
      · simp only [v_def, State.modify, update_of_ne same] at timed ⊢
        exact .inl (updated.complete j hj timed)
    split
    case isTrue plain =>
      have none : expiryNs = 0 := by simp_all
      refine ⟨fun j hj timed => ?_, updated.positive⟩
      obtain listed | ⟨zero, -⟩ := complete j hj timed
      · exact listed
      · exact absurd (zero.trans none) timed
    case isFalse => exact ttlIndexPush_indexed stamped complete updated.positive

end Lru.Mm
