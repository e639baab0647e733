import Lru.Persist.Lifetime
import Lru.Warm.Ticks
import Lru.Warm.Truthful

/-!
# Restoring the last tick

What a restore publishes is the last full snapshot, overlaid with the changes of the last
window whose tick wrote a delta. It is the cache of the last tick exactly if nothing
else changed in between.
-/

namespace Lru.Warm

open Binary Mm Persist.Serde Function List Manager

variable {K V : Type} [DecidableEq K] {type : CacheType K V} {interval last size : Nat} {key : K}
  {windows : List (Window type)} {final : Window type}

/-! ## Changes on top of a snapshot -/

def DeltaEntry.onPairs (pairs : K → Option V) : DeltaEntry K V → K → Option V
  | .insert key value => update pairs key (some value)
  | .remove key => update pairs key none

def overlay (entries : List (DeltaEntry K V)) (pairs : K → Option V) : K → Option V :=
  entries.foldl DeltaEntry.onPairs pairs

/-- The entries that the delta file of a window decodes to. -/
def Window.decoded (w : Window type) : Option (List (DeltaEntry K V)) :=
  decodeDelta type.keys type.values
    (writeDelta type.keys type.values ((changes w.events).map entryOf))

/-- The window of the delta on disk, if there is one. -/
def lastDelta (interval : Nat) (windows : List (Window type)) (last : Nat) :
    Option (Window type) :=
  (deltaTick interval last).bind (windows[·]?)

/-- A new cache of this size is large enough: it holds the pairs of the snapshot, and the
changes of the delta act on them like on a map. -/
structure Roomy (type : CacheType K V) (size : Nat) (full : Window type)
    (delta : Option (Window type)) : Prop where
  loaded : ∀ {data staged}, type.save full.cache = .ok data →
    type.load (type.make size) data = .returned staged → type.pairs staged = type.pairs full.cache
  applied : ∀ {data staged w entries cache}, type.save full.cache = .ok data →
    type.load (type.make size) data = .returned staged → delta = some w →
      w.decoded = some entries → applyEntries type staged entries = .ok cache →
        type.pairs cache = overlay entries (type.pairs staged)

section Strategies

variable {env : Env K V} {strategy : Strategy} {around : Surroundings K V} {c : Cache K V}
  {events : List (Event K V)} {delta : Option (Window (strategyCache env strategy around))}

/-- A new cache gets back the pairs that a strategy saved. Only `mm_fifo`, which sets them one
by one, needs room for them. -/
theorem strategyCache_loaded {data : List UInt8} {staged : Cache K V}
    (wf : c.mm.WellFormed env)
    (within : Persist.WithinLimits around.keys around.values strategy c.mm)
    (room : strategy = .mmFifo → size = unlimited ∨ c.mm.table.length ≤ size) :
    let type := strategyCache env strategy around
    type.save c = .ok data → type.load (type.make size) data = .returned staged →
      type.pairs staged = type.pairs c := by
  intro type saved loaded
  obtain ⟨t, returned, mm⟩ : ∃ t, Persist.deserialize env strategy
      (State.empty around.memory { maxSize := size } (around.sketch size) around.ambient.sec)
      around.keys around.values data around.ambient.sec = .returned t ∧ staged.mm = t := by
    simp only [type, strategyCache] at loaded
    split at loaded
    case h_1 t returned =>
      cases loaded
      exact ⟨t, returned, rfl⟩
    case h_2 | h_3 => cases loaded
  have written : Persist.serialize around.keys around.values strategy c.mm env = .ok data := by
    rw [Persist.serialize_eq_save _ _ wf]
    exact saved
  have before : (State.empty around.memory { maxSize := size } (around.sketch size)
      around.ambient.sec).WellFormed env := Strategy.empty_wf ..
  obtain ⟨after, origin⟩ := Persist.restored_holds wf within before nofun written returned
  have restored : ∀ i ∈ c.mm.table, _ := fun i => Persist.holds_restored wf within before nofun
    (fun fifo => ⟨rfl, room fifo⟩) written returned
  funext key
  change (staged.mm.find env key).map _ = (c.mm.find env key).map _
  rw [mm]
  cases found : c.mm.find env key with
  | none =>
    have missing : t.find env key = none := by
      refine (find_eq_none_iff after).mpr fun j hj same => ?_
      obtain ⟨i, hi, content⟩ := origin _ ⟨j, hj, rfl⟩
      exact (find_eq_none_iff wf).mp found i hi ((congrArg Prod.fst content).trans same)
    rw [missing]
    rfl
  | some i =>
    obtain ⟨hi, hk⟩ := (find_eq_some_iff wf).mp found
    obtain ⟨j, hj, content⟩ := restored i hi
    have keyed : (t.heap j).key = key := (congrArg Prod.fst content).trans hk
    rw [(find_eq_some_iff after).mpr ⟨hj, keyed⟩]
    exact congrArg (fun x => some x.2.1) content

/-- So for a strategy only the changes need room. -/
theorem Roomy.of_strategy (wf : c.mm.WellFormed env)
    (within : Persist.WithinLimits around.keys around.values strategy c.mm)
    (room : strategy = .mmFifo → size = unlimited ∨ c.mm.table.length ≤ size)
    (applied : let type := strategyCache env strategy around
      ∀ {staged w entries cache}, delta = some w → w.decoded = some entries →
        type.pairs staged = type.pairs c → applyEntries type staged entries = .ok cache →
          type.pairs cache = overlay entries (type.pairs staged)) :
    Roomy (strategyCache env strategy around) size ⟨c, events⟩ delta where
  loaded saved loaded := strategyCache_loaded wf within room saved loaded
  applied saved loaded here decoded ran :=
    applied here decoded (strategyCache_loaded wf within room saved loaded) ran

end Strategies

/-! ## Restores -/

/-- `load_with_delta` publishes a cache that holds exactly these pairs. -/
def Manager.Restores (loader : Manager type) (disk : Disk) (pairs : K → Option V) : Prop :=
  ∃ old new after, loader.live = some old
    ∧ loader.loadWithDelta disk.full disk.delta = some (true, after)
    ∧ after.live = some new ∧ new.1 ≠ old.1 ∧ type.pairs new.2 = pairs

/-- The full snapshot of the last tick that wrote one loads; and unless no delta has been
written, the last one decodes, can be applied, and turns the pairs of that tick into
these pairs. -/
def Replayable (type : CacheType K V) (interval : Nat) (windows : List (Window type))
    (last size : Nat) (pairs : K → Option V) : Prop :=
  0 < interval ∧ ∃ full data staged, windows[fullTick interval last]? = some full
    ∧ type.save full.cache = .ok data ∧ type.load (type.make size) data = .returned staged
    ∧ ∀ tick, deltaTick interval last = some tick →
      ∃ delta entries cache, windows[tick]? = some delta ∧ delta.decoded = some entries
        ∧ applyEntries type staged entries = .ok cache
        ∧ overlay entries (type.pairs full.cache) = pairs

section Restore

variable {loader m : Manager type} {disk : Disk} {object : Nat} {current : type.Cache}
  {pairs : K → Option V}

omit [DecidableEq K] in
theorem Manager.restores_iff (live : loader.live = some (object, current)) :
    loader.Restores disk pairs ↔
      ∃ cache, reconstruct type (some current) disk.full disk.delta = .publishes cache
        ∧ type.pairs cache = pairs := by
  have exit : (loader.live.map (·.2)) = some current := by
    rw [live]
    rfl
  constructor
  · rintro ⟨old, new, after, held, ran, published, other, same⟩
    -- Only a publication makes the live cache another object.
    rw [loadWithDelta, exit] at ran
    cases ended : reconstruct type (some current) disk.full disk.delta with
    | publishes cache =>
      rw [ended] at ran
      cases ran
      rw [live_publishStaged] at published
      cases published
      exact ⟨cache, rfl, same⟩
    | keeps =>
      rw [ended] at ran
      cases ran
      exact absurd (congrArg Prod.fst (Option.some.inj (published.symm.trans held))) other
    | fails | undefined =>
      rw [ended] at ran
      cases ran
  · rintro ⟨cache, ended, same⟩
    refine ⟨(object, current), (loader.nextObject, cache), loader.publishStaged cache, live, ?_,
      live_publishStaged, (loader.fresh _ live).ne', same⟩
    rw [loadWithDelta, exit, ended]

/-- The tick that leaves no delta behind has written the full snapshot. -/
theorem fullTick_of_deltaTick (none : deltaTick interval last = none) :
    fullTick interval last = last := by
  refine fullTick_of_writesFull ?_
  by_contra other
  have other := Bool.eq_false_of_not_eq_true other
  simp [deltaTick, other] at none

/-- What the reader of the two files makes of them. -/
theorem restores_of_disk {o : Nat}
    (live : loader.live = some (object, current))
    (here : windows[last]? = some final) (ticked : Ticked interval windows last o (m, disk))
    (roomy : ∀ full, windows[fullTick interval last]? = some full →
      Roomy type (type.maxSize current) full (lastDelta interval windows last)) :
    loader.Restores disk (type.pairs final.cache) ↔
      Replayable type interval windows last (type.maxSize current) (type.pairs final.cache) := by
  rw [restores_iff live]
  constructor
  · rintro ⟨cache, published, pairs⟩
    obtain ⟨data, staged, onDisk, loaded, applied⟩ := reconstruct_eq_publishes.mp published
    have positive : 0 < interval := by
      by_contra zero
      cases (ticked.noFull (by omega)).symm.trans onDisk
    obtain ⟨full, data', found, saved, onDisk'⟩ := ticked.full positive
    cases onDisk'.symm.trans onDisk
    refine ⟨positive, full, data, staged, found, saved, loaded, ?_⟩
    intro tick wrote
    obtain ⟨delta, foundDelta, written⟩ := ticked.deltaFile positive tick wrote
    have room := roomy full found
    have here : lastDelta interval windows last = some delta := by
      rw [lastDelta, wrote]
      exact foundDelta
    obtain ⟨missing, -⟩ | ⟨bytes, entries, read, decoded, applied⟩ :=
      applyDelta_eq_publishes.mp applied
    · cases written.symm.trans missing
    · cases written.symm.trans read
      refine ⟨delta, entries, cache, foundDelta, decoded, applied, ?_⟩
      rw [← room.loaded saved loaded, ← room.applied saved loaded here decoded applied]
      exact pairs
  · rintro ⟨positive, full, data, staged, found, saved, loaded, replay⟩
    obtain ⟨full', data', found', saved', onDisk⟩ := ticked.full positive
    cases found'.symm.trans found
    cases saved'.symm.trans saved
    have room := roomy full found
    cases wrote : deltaTick interval last with
    | none =>
      have whole : full = final := by
        rw [fullTick_of_deltaTick wrote] at found
        exact Option.some.inj (found.symm.trans here)
      refine ⟨staged, reconstruct_eq_publishes.mpr ⟨data, staged, onDisk, loaded, ?_⟩, ?_⟩
      · exact applyDelta_eq_publishes.mpr (.inl ⟨ticked.noDelta wrote, rfl⟩)
      · rw [room.loaded saved loaded, whole]
    | some tick =>
      obtain ⟨delta, entries, cache, foundDelta, decoded, applied, overlaid⟩ := replay tick wrote
      obtain ⟨delta', foundDelta', written⟩ := ticked.deltaFile positive tick wrote
      cases foundDelta'.symm.trans foundDelta
      have here : lastDelta interval windows last = some delta := by
        rw [lastDelta, wrote]
        exact foundDelta
      refine ⟨cache, reconstruct_eq_publishes.mpr ⟨data, staged, onDisk, loaded, ?_⟩, ?_⟩
      · exact applyDelta_eq_publishes.mpr (.inr ⟨_, entries, written, decoded, applied⟩)
      · rw [room.applied saved loaded here decoded applied, room.loaded saved loaded]
        exact overlaid

/-- A restore behind a run publishes the pairs of the last tick exactly if the last full
snapshot loads and the last delta, if one has been written, turns its pairs into those
of the last tick. -/
theorem restores_lastTick_iff {before : List (Window type)} {last : Window type}
    (started : m.Started) (completed : Completed type m.fullSnapshotInterval (before ++ [last]))
    (live : loader.live = some (object, current))
    (roomy : ∀ full,
      (before ++ [last])[fullTick m.fullSnapshotInterval before.length]? = some full →
        Roomy type (type.maxSize current) full
          (lastDelta m.fullSnapshotInterval (before ++ [last]) before.length)) :
    loader.Restores (m.run (before ++ [last])).2 (type.pairs last.cache) ↔
      Replayable type m.fullSnapshotInterval (before ++ [last]) before.length
        (type.maxSize current) (type.pairs last.cache) := by
  obtain ⟨o, ticked⟩ := run_ticked started completed
  exact restores_of_disk live getElem?_concat_length ticked roomy

end Restore

/-! ## Runs of a small cache -/

section Samples

def restoredPairs (loader : Manager byteCache) (disk : Disk) : Option (UInt8 → Option UInt8) :=
  match reconstruct byteCache (loader.live.map (·.2)) disk.full disk.delta with
  | .publishes cache => some (byteCache.pairs cache)
  | _ => none

/-- The empty cache with these pairs set. -/
def bytesSet (pairs : List (UInt8 × UInt8)) : byteCache.Cache :=
  pairs.foldl (fun c pair =>
    match byteCache.set c pair.1 pair.2 with
    | .ok c => c
    | .error _ => c) (byteCache.make 4)

def firstBytes : Window byteCache := ⟨bytesSet [], []⟩

def secondBytes : Window byteCache := ⟨bytesSet [(1, 10)], [.insert 1 10]⟩

def thirdBytes : Window byteCache := ⟨bytesSet [(1, 10), (2, 20)], [.insert 2 20]⟩

/-- The manager of the empty cache with an interval. -/
def byteTicks (interval : Nat) : Manager byteCache :=
  { byteManager with fullSnapshotInterval := interval }

theorem byteTicks_started : (byteTicks interval).Started := ⟨rfl, rfl, nofun⟩

theorem restores_iff_restoredPairs {disk : Disk} {pairs : UInt8 → Option UInt8} :
    byteManager.Restores disk pairs ↔ restoredPairs byteManager disk = some pairs := by
  have live : byteManager.live = some (0, byteCache.make 4) := rfl
  rw [restores_iff live]
  show _ ↔ (match reconstruct byteCache (some (byteCache.make 4)) disk.full disk.delta with
    | .publishes cache => some (byteCache.pairs cache)
    | _ => none) = _
  generalize reconstruct byteCache (some (byteCache.make 4)) disk.full disk.delta = exit
  cases exit with
  | publishes cache => simp
  | fails | keeps | undefined => simp

def tabulate (pairs : UInt8 → Option UInt8) : List (Option UInt8) :=
  (range 256).map fun n => pairs (UInt8.ofNat n)

theorem tabulate_injective : Injective tabulate := by
  intro p q same
  funext key
  have agree := map_inj_left.mp same key.toNat (mem_range.mpr key.toNat_lt)
  rwa [UInt8.ofNat_toNat] at agree

/-- Whether a restore of these windows ends with these pairs, and like one of maps. -/
def replays (type : CacheType UInt8 UInt8) (size : Nat) (full delta : Window type)
    (pairs : UInt8 → Option UInt8) : Bool :=
  match type.save full.cache with
  | .error _ => false
  | .ok data =>
    match type.load (type.make size) data, delta.decoded with
    | .returned staged, some entries =>
      match applyEntries type staged entries with
      | .ok cache => tabulate (type.pairs staged) = tabulate (type.pairs full.cache)
          ∧ tabulate (type.pairs cache) = tabulate (overlay entries (type.pairs staged))
          ∧ tabulate (overlay entries (type.pairs full.cache)) = tabulate pairs
      | .error _ => false
    | _, _ => false

theorem replays_spec {type : CacheType UInt8 UInt8} {full delta : Window type}
    {pairs : UInt8 → Option UInt8} (ran : replays type size full delta pairs = true) :
    Roomy type size full (some delta) ∧ ∃ data staged, type.save full.cache = .ok data
      ∧ type.load (type.make size) data = .returned staged
      ∧ ∃ entries cache, delta.decoded = some entries
        ∧ applyEntries type staged entries = .ok cache
        ∧ overlay entries (type.pairs full.cache) = pairs := by
  rw [replays] at ran
  split at ran
  case h_1 => cases ran
  case h_2 data saved =>
    split at ran
    case h_2 => cases ran
    case h_1 staged entries loaded decoded =>
      split at ran
      case h_2 => cases ran
      case h_1 cache applied =>
        obtain ⟨held, changed, ended⟩ := of_decide_eq_true ran
        refine ⟨⟨?_, ?_⟩, data, staged, saved, loaded, entries, cache, decoded, applied,
          tabulate_injective ended⟩
        · intro data' staged' saved' loaded'
          cases saved.symm.trans saved'
          cases loaded.symm.trans loaded'
          exact tabulate_injective held
        · intro data' staged' w entries' cache' saved' loaded' here decoded' applied'
          cases here
          cases saved.symm.trans saved'
          cases loaded.symm.trans loaded'
          cases decoded.symm.trans decoded'
          cases applied.symm.trans applied'
          exact tabulate_injective changed

/-- One delta behind the full snapshot: the restore publishes the second window. -/
theorem second_window_restored :
    byteManager.Restores ((byteTicks 2).run ([firstBytes] ++ [secondBytes])).2
      (byteCache.pairs secondBytes.cache)
    ∧ Replayable byteCache 2 ([firstBytes] ++ [secondBytes]) 1 4
      (byteCache.pairs secondBytes.cache) := by
  have ran : replays byteCache 4 firstBytes secondBytes (byteCache.pairs secondBytes.cache) :=
    by decide +kernel
  obtain ⟨roomy, data, staged, saved, loaded, entries, cache, decoded, applied, ended⟩ :=
    replays_spec ran
  have replayable : Replayable byteCache 2 ([firstBytes] ++ [secondBytes]) 1 4
      (byteCache.pairs secondBytes.cache) := by
    refine ⟨by decide, firstBytes, data, staged, rfl, saved, loaded, fun tick wrote => ?_⟩
    cases wrote
    exact ⟨secondBytes, entries, cache, rfl, decoded, applied, ended⟩
  have completed : Completed byteCache 2 ([firstBytes] ++ [secondBytes]) := by
    intro tick w found full
    obtain _ | _ | tick := tick
    · cases found
      exact ⟨data, saved⟩
    · cases full
    · cases found
  have live : byteManager.live = some (0, byteCache.make 4) := rfl
  refine ⟨(restores_lastTick_iff byteTicks_started completed live ?_).mpr replayable, replayable⟩
  rintro full ⟨⟩
  exact roomy

/-- With a full snapshot at every third tick only, the change of the second window is
lost; without an interval nothing is restored. -/
theorem second_window_lost :
    ¬ byteManager.Restores ((byteTicks 3).run [firstBytes, secondBytes, thirdBytes]).2
      (byteCache.pairs thirdBytes.cache)
    ∧ ¬ byteManager.Restores ((byteTicks 0).run [firstBytes]).2
      (byteCache.pairs firstBytes.cache) := by
  have third : (restoredPairs byteManager
      ((byteTicks 3).run [firstBytes, secondBytes, thirdBytes]).2).map (· 1) = some none := by
    decide +kernel
  have held : byteCache.pairs thirdBytes.cache 1 = some 10 := by decide +kernel
  have nothing : (restoredPairs byteManager ((byteTicks 0).run [firstBytes]).2).isSome = false := by
    decide +kernel
  constructor
  · intro restores
    rw [restores_iff_restoredPairs.mp restores, Option.map_some, held] at third
    cases third
  · intro restores
    rw [restores_iff_restoredPairs.mp restores] at nothing
    cases nothing

end Samples

end Lru.Warm
