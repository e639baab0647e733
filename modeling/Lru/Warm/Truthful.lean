import Lru.Warm.Manager
import Lru.Persist.RoundTrip

/-!
# The answer of `load_with_delta`

The call builds a cache and swaps the live pointer last, so a `false` leaves the live
cache alone. It also returns `true` at three places where it cannot get at the data of an
existing delta file; the cache with the full snapshot is dropped there.
-/

namespace Lru.Warm

open Binary Mm Manager

variable {K V : Type} {type : CacheType K V} {data : List UInt8}

/-- The entries of a delta file that can be used. -/
def File.entries (keys : Codec K) (values : Codec V) : File → Option (List (DeltaEntry K V))
  | .readable data => decodeDelta keys values data
  | _ => none

/-- The cache that a true answer promises: the full snapshot in a new cache of the live
cache's size, with the delta on top if there is one that can be used. -/
inductive Promised (type : CacheType K V) (current : type.Cache) (full delta : File) :
    type.Cache → Prop
  | alone {data cache} (read : full = .readable data)
      (loaded : type.load (type.make (type.maxSize current)) data = .returned cache)
      (unusable : delta.entries type.keys type.values = none) :
      Promised type current full delta cache
  | onTop {data staged entries cache} (read : full = .readable data)
      (loaded : type.load (type.make (type.maxSize current)) data = .returned staged)
      (usable : delta.entries type.keys type.values = some entries)
      (applied : applyEntries type staged entries = .ok cache) :
      Promised type current full delta cache

namespace Manager

/-- The live cache is another object now, which is as promised. -/
def Replaced (m after : Manager type) (full delta : File) : Prop :=
  ∃ old new, m.live = some old ∧ after.live = some new ∧ new.1 ≠ old.1
    ∧ Promised type old.2 full delta new.2

/-- The call is defined, a true answer means that the live cache has been replaced as
promised, and a false one that it is the same object with the same contents. -/
def Truthful (m : Manager type) (full delta : File) : Prop :=
  ∃ answer after, m.loadWithDelta full delta = some (answer, after)
    ∧ (answer = true ↔ m.Replaced after full delta)
    ∧ (answer = false → after.live = m.live)

/-- The full file loads into a new cache of the live cache's size. -/
def Loads (m : Manager type) (full : File) (result : Outcome type.Cache) : Prop :=
  ∃ object current data, m.live = some (object, current) ∧ full = .readable data
    ∧ type.load (type.make (type.maxSize current)) data = result

variable {m : Manager type} {full delta : File} {object : Nat} {current staged : type.Cache}

@[simp] theorem live_reattachDeltaCallbacks :
    m.reattachDeltaCallbacks.live = m.live := by
  rw [reattachDeltaCallbacks]
  split <;> rfl

theorem live_publishStaged : (m.publishStaged staged).live = some (m.nextObject, staged) := by
  rw [publishStaged, live_reattachDeltaCallbacks]

theorem not_replaced_self : ¬ m.Replaced m full delta := by
  rintro ⟨old, new, before, after, other, -⟩
  obtain rfl := Option.some.inj (before.symm.trans after)
  exact other rfl

theorem truthful_of_fails (exit : reconstruct type (m.live.map (·.2)) full delta = .fails) :
    m.Truthful full delta := by
  refine ⟨false, m, by rw [loadWithDelta, exit], ?_, fun _ => rfl⟩
  exact iff_of_false Bool.false_ne_true not_replaced_self

theorem not_truthful_of_keeps (exit : reconstruct type (m.live.map (·.2)) full delta = .keeps) :
    ¬ m.Truthful full delta := by
  rintro ⟨answer, after, ran, replaced, -⟩
  rw [loadWithDelta, exit] at ran
  cases ran
  exact not_replaced_self (replaced.mp rfl)

/-- A publication replaces the live cache if what it publishes is as promised. -/
theorem truthful_of_publishes (live : m.live = some (object, current))
    (exit : reconstruct type (m.live.map (·.2)) full delta = .publishes staged)
    (promised : Promised type current full delta staged) : m.Truthful full delta := by
  refine ⟨true, m.publishStaged staged, by rw [loadWithDelta, exit], ?_, nofun⟩
  exact iff_of_true rfl ⟨(object, current), (m.nextObject, staged), live,
    live_publishStaged, (m.fresh _ live).ne', promised⟩

theorem not_truthful_of_undefined
    (exit : reconstruct type (m.live.map (·.2)) full delta = .undefined) :
    ¬ m.Truthful full delta := by
  rintro ⟨answer, after, ran, -⟩
  rw [loadWithDelta, exit] at ran
  cases ran

/-- Without a loadable full snapshot the call returns `false`. -/
theorem reconstruct_of_not_loads (returned : ∀ c, ¬ m.Loads full (.returned c))
    (defined : ¬ m.Loads full .undefined) :
    reconstruct type (m.live.map (·.2)) full delta = .fails := by
  cases live : m.live with
  | none => rfl
  | some pointer =>
    cases full with
    | readable data =>
      simp only [Option.map_some, reconstruct]
      cases loaded : type.load (type.make (type.maxSize pointer.2)) data with
      | returned c => exact absurd ⟨_, _, data, live, rfl, loaded⟩ (returned c)
      | threw message c => rfl
      | undefined => exact absurd ⟨_, _, data, live, rfl, loaded⟩ defined
    | missing | statusUnknown | notOpened | sizeUnknown | tooLarge | readFails => rfl

theorem reconstruct_of_live (live : m.live = some (object, current)) :
    reconstruct type (m.live.map (·.2)) (.readable data) delta =
      match type.load (type.make (type.maxSize current)) data with
      | .returned cache => applyDelta type cache delta
      | .threw _ _ => .fails
      | .undefined => .undefined := by
  rw [live]
  rfl

/-- Behind a loadable full snapshot, only the delta decides. -/
theorem truthful_of_loaded (live : m.live = some (object, current))
    (loaded : type.load (type.make (type.maxSize current)) data = .returned staged) :
    m.Truthful (.readable data) delta ↔ ¬ delta.Unreadable := by
  have exit : reconstruct type (m.live.map (·.2)) (.readable data) delta =
      applyDelta type staged delta := by
    rw [reconstruct_of_live live, loaded]
  have alone (unusable : delta.entries type.keys type.values = none) :
      Promised type current (.readable data) delta staged := .alone rfl loaded unusable
  cases delta with
  | missing =>
    exact iff_of_true (truthful_of_publishes live exit (alone rfl)) (by simp [File.Unreadable])
  | statusUnknown | tooLarge =>
    exact iff_of_true (truthful_of_fails exit) (by simp [File.Unreadable])
  | notOpened | sizeUnknown | readFails =>
    exact iff_of_false (not_truthful_of_keeps exit) (by simp [File.Unreadable])
  | readable bytes =>
    refine iff_of_true ?_ (by simp [File.Unreadable])
    simp only [applyDelta] at exit
    cases decoded : decodeDelta type.keys type.values bytes with
    | none =>
      rw [decoded] at exit
      exact truthful_of_fails exit
    | some entries =>
      simp only [decoded] at exit
      cases applied : applyEntries type staged entries with
      | error e =>
        rw [applied] at exit
        exact truthful_of_fails exit
      | ok cache =>
        rw [applied] at exit
        exact truthful_of_publishes live exit (.onTop rfl loaded decoded applied)

end Manager

/-- The answer is truthful exactly if loading the full snapshot is defined and, should it
load, the delta file is not one that exists and cannot be read. -/
theorem truthful_iff (m : Manager type) (full delta : File) :
    m.Truthful full delta ↔
      ¬ m.Loads full .undefined ∧ ((∃ c, m.Loads full (.returned c)) → ¬ delta.Unreadable) := by
  by_cases undefined : m.Loads full .undefined
  · obtain ⟨object, current, data, live, rfl, loaded⟩ := undefined
    refine iff_of_false (not_truthful_of_undefined ?_)
      fun h => h.1 ⟨object, current, data, live, rfl, loaded⟩
    rw [reconstruct_of_live live, loaded]
  · by_cases loads : ∃ c, m.Loads full (.returned c)
    · obtain ⟨staged, object, current, data, live, rfl, loaded⟩ := loads
      rw [truthful_of_loaded live loaded]
      have loads : ∃ c, m.Loads (.readable data) (.returned c) :=
        ⟨staged, object, current, data, live, rfl, loaded⟩
      exact ⟨fun readable => ⟨undefined, fun _ => readable⟩, fun h => h.2 loads⟩
    · refine iff_of_true (truthful_of_fails ?_) ⟨undefined, fun h => absurd h loads⟩
      exact reconstruct_of_not_loads (not_exists.mp loads) undefined

/-! ## A delta file that cannot be opened -/

def byteManager : Manager byteCache where
  live := some (0, byteCache.make 4)
  nextObject := 1
  fresh := by simp

def byteFile : File :=
  match byteCache.save (byteCache.make 4) with
  | .ok data => .readable data
  | .error _ => .missing

theorem byteFile_loads : ∃ c, byteManager.Loads byteFile (.returned c) := by
  have returned : (match byteCache.save (byteCache.make 4) with
      | .ok data =>
        match byteCache.load (byteCache.make 4) data with
        | .returned _ => true
        | _ => false
      | .error _ => false) = true := by decide +kernel
  cases saved : byteCache.save (byteCache.make 4) with
  | error message => simp [saved] at returned
  | ok data =>
    cases loaded : byteCache.load (byteCache.make 4) data with
    | threw | undefined => simp [saved, loaded] at returned
    | returned c => exact ⟨c, 0, byteCache.make 4, data, rfl, by rw [byteFile, saved], loaded⟩

/-- The call returns `true` and the live cache is still the old object. -/
theorem unopened_delta_not_truthful :
    (∃ after, byteManager.loadWithDelta byteFile .notOpened = some (true, after)
      ∧ after.live = byteManager.live) ∧ ¬ byteManager.Truthful byteFile .notOpened := by
  obtain ⟨staged, object, current, data, live, read, loaded⟩ := byteFile_loads
  have exit : reconstruct byteCache (byteManager.live.map (·.2)) byteFile .notOpened = .keeps := by
    rw [read, reconstruct_of_live live, loaded]
    rfl
  refine ⟨⟨byteManager, by rw [loadWithDelta, exit], rfl⟩, ?_⟩
  exact not_truthful_of_keeps exit

end Lru.Warm
