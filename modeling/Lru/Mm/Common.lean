import Lru.Mm.Shrink

/-!
# Parts shared by the strategies

Each strategy class has its own copy of these private helpers and read paths;
the copies are the same up to the lists they run over. A strategy's function is
the definition here applied to its own list, size and unlinking.
-/

namespace Lru.Mm

variable {K V : Type} {e : Event K V}

namespace State

section Definitions

variable (env : Env K V) (s : State K V)

def itemMemory (i : ItemId) : Nat := s.settings.calcItemMemory env (s.heap i).key (s.heap i).value

def addMemory (bytes : Nat) : State K V :=
  s.modifyStats fun x => { x with currentMemory := SizeT.fetchAdd x.currentMemory bytes }

def subMemory (bytes : Nat) : State K V :=
  s.modifyStats fun x => { x with currentMemory := SizeT.fetchSub x.currentMemory bytes }

def storeSize (n : Nat) : State K V := s.modifyStats fun x => { x with currentSize := n }

def refreshHashStats : State K V :=
  s.modifyStats fun x => { x with hash := s.hashTable.report s.table }

def noteEvictionFailed : State K V :=
  s.modifyStats fun x => { x with evictionFailed := x.evictionFailed + 1 }

def noteEvictionRejected (key : K) (value : V) : State K V :=
  s.noteEvictionFailed.collect (.reject key value)

/-- Collect the eviction of an item and hand it to the reclaimer. -/
def evictAndRetire (i : ItemId) : State K V :=
  (s.collect (.evict (s.heap i).key (s.heap i).value)).retire i

def cleanupPendingDeletion : State K V :=
  let unpinned := s.pendingDeletion.filter fun i => !(s.heap i).hasActiveHandle
  let pinned := s.pendingDeletion.filter fun i => (s.heap i).hasActiveHandle
  { unpinned.foldl evictAndRetire s with pendingDeletion := pinned }

/-- `should_evict`, for the strategy's own `size()`. -/
def shouldEvict (size : Nat) : Bool :=
  (s.settings.maxSize != unlimited && s.settings.maxSize < size) ||
    (s.settings.maxMemory != unlimited && s.settings.maxMemory < s.stats.currentMemory)

/-- `is_at_capacity`, for the strategy's own `size()`. -/
def isAtCapacity (size : Nat) : Bool := s.settings.maxSize != unlimited && s.settings.maxSize ≤ size

def vetoed (i : ItemId) : Bool := s.settings.vetoes ((s.heap i).key, (s.heap i).value)

/-- Walk a list from its tail to the first item that is neither pinned nor
vetoed. Only vetoes count against `eviction_search_tries`. -/
def searchVictim : Nat → List ItemId → Option ItemId
  | _, [] => none
  | tries, i :: rest =>
    if (s.heap i).hasActiveHandle then searchVictim tries rest
    else if s.vetoed i then
      if s.settings.config.evictionSearchTries ≤ tries + 1 then none
      else searchVictim (tries + 1) rest
    else some i

/-- Remove the item from the list it is linked in. -/
def unlink (i : ItemId) : State K V :=
  s.setQueue (s.heap i).queueId ((s.queue (s.heap i).queueId).erase i)

def unmark (i : ItemId) : State K V := s.modify i fun item => { item with linked := false }

/-- `while (cond) { old = size(); evict(); if (size() == old) break; }`. The
flag tells whether the loop ended because the condition failed. The fuel bounds
the rounds; each of them but the last removes an item. -/
def evictWhile (evict : State K V → State K V) (size : State K V → Nat)
    (cond : State K V → Bool) : Nat → State K V → State K V × Bool
  | 0, s => (s, true)
  | fuel + 1, s =>
    if cond s then
      let t := evict s
      if size t = size s then (t, false) else evictWhile evict size cond fuel t
    else (s, true)

/-- `while (should_evict())`, for the strategy's own eviction and `size()`. -/
def shrinkLoop (evict : State K V → State K V) (size : State K V → Nat) : State K V × Bool :=
  evictWhile evict size (fun s => s.shouldEvict (size s)) (size s + 1) s

def evictAtCapacity (evict : State K V → State K V) (size : State K V → Nat) : State K V :=
  if s.isAtCapacity (size s) then evict s else s

/-- The item about to be inserted does not fit next to the current ones. -/
def exceedsMemory (mem : Nat) : Bool :=
  s.settings.maxMemory < SizeT.fetchAdd s.stats.currentMemory mem

/-- The loop that makes room for `mem` bytes. `count` is what the strategy calls
empty: its list or its table. -/
def fitLoop (evict : State K V → State K V) (size count : State K V → Nat) (mem : Nat) :
    State K V × Bool :=
  if s.settings.maxMemory = unlimited then (s, true)
  else evictWhile evict size (fun s => 0 < count s && s.exceedsMemory mem) (size s + 1) s

/-- How `mm_2q`, `mm_tiny_lfu` and `mm_wtiny_lfu` make room for a new item. -/
def makeRoom (evict : State K V → State K V) (size : State K V → Nat) (mem : Nat) : State K V :=
  let s := (s.shrinkLoop evict size).1
  let s := s.evictAtCapacity evict size
  (s.fitLoop evict size size mem).1

/-- The eviction part common to all strategies once a victim is chosen. The
statistics, the event and the unlinking are independent of each other. -/
def evictVictim [DecidableEq K] (remove : State K V → ItemId → State K V) (victim : ItemId) :
    State K V :=
  if (s.heap victim).canMarkForEviction then
    let mem := s.itemMemory env victim
    let key := (s.heap victim).key
    let s := s.subMemory mem
    let s := s.modifyStats fun x =>
      { x with evictions := x.evictions + 1, evictionsCapacity := x.evictionsCapacity + 1 }
    let hasCallbacks := s.settings.callbacks.eviction
    let s := s.collect (.evict key (s.heap victim).value)
    let s := remove (s.eraseKey env key) victim
    -- The value is moved into the event only when somebody listens.
    let s := s.modify victim fun item =>
      { item with value := if hasCallbacks then env.movedValue item.value else item.value }
    s.retire victim
  else s

/-- Unlink an item and clear its linked bit. -/
def unlinkAndUnmark (i : ItemId) : State K V := (s.unlink i).unmark i

/-- `evict_generic`; the flag tells whether the item was evicted. -/
def evictGeneric [DecidableEq K] (i : ItemId) : Bool × State K V :=
  if (s.heap i).canMarkForEviction then
    let s := s.evictVictim env unlinkAndUnmark i
    (true, s.storeSize s.table.length)
  else (false, s)

/-- The search of one list, from its tail. -/
def searchQueue (q : QueueId) : Option ItemId := s.searchVictim 0 (s.queue q).reverse

/-- Walk a list from its tail to the first unpinned item; here the pinned ones
count against `eviction_search_tries`. -/
def unpinnedFrom : Nat → List ItemId → Option ItemId
  | _, [] => none
  | tries, i :: rest =>
    if (s.heap i).hasActiveHandle then
      if s.settings.config.evictionSearchTries ≤ tries + 1 then none
      else unpinnedFrom (tries + 1) rest
    else some i

def moveToHead (i : ItemId) : State K V :=
  s.setQueue (s.heap i).queueId (i :: (s.queue (s.heap i).queueId).erase i)

/-- Unlink an item and link it at the head or at the tail of list `q`. -/
def moveToQueue (i : ItemId) (q : QueueId) (toTail : Bool) : State K V :=
  let s := s.unlink i
  let s := s.setQueue q (if toTail then s.queue q ++ [i] else i :: s.queue q)
  s.modify i fun item => { item with queueId := q }

def tail (q : QueueId) : Option ItemId := (s.queue q).getLast?

def unpinnedTailOf (q : QueueId) : Option ItemId :=
  match s.tail q with
  | none => none
  | some i => if (s.heap i).hasActiveHandle then none else some i

/-- The part of `reconfigure_locked` after its guards: the refresh time follows
the age of the given tail item. -/
def retune (curr : Nat) (tail : Option ItemId) : State K V :=
  let age := match tail with
    | some t => (curr + 2 ^ 32 - (s.heap t).hook.updateTime) % 2 ^ 32
    | none => 0
  let config := s.settings.config
  { s with
    nextReconfigureTime := (curr + config.mmReconfigureIntervalSecs) % 2 ^ 32
    lruRefreshTime := min (max config.defaultLruRefreshTime
      (env.rounding.scale age config.lruRefreshRatio.toRat)) kLruRefreshTimeCap }

/-- The refresh time and its next adjustment after `set_config`. -/
def restartRefresh (sec : Nat) : State K V :=
  let config := s.settings.config
  { s with
    lruRefreshTime := config.defaultLruRefreshTime
    nextReconfigureTime :=
      if config.mmReconfigureIntervalSecs = 0 then 2 ^ 32 - 1
      else (sec + config.mmReconfigureIntervalSecs) % 2 ^ 32 }

/-- `reconfigure_locked` of the strategies with several lists. -/
def reconfigureLocked (curr : Nat) (tail : Option ItemId) : State K V :=
  if curr < s.nextReconfigureTime then s
  else if s.settings.config.mmReconfigureIntervalSecs = 0 then s
  else s.retune env curr tail

/-- The access mode is one that moves items. -/
def updatesOn (mode : AccessMode) : Bool :=
  match mode with
  | .write => s.settings.config.updateOnWrite
  | .read => s.settings.config.updateOnRead

/-- The refresh time since the last promotion of the item has not passed. -/
def refreshedAt (i : ItemId) (curr : Nat) : Bool :=
  curr < ((s.heap i).hook.updateTime + s.lruRefreshTime) % 2 ^ 32

def modifyHook (i : ItemId) (f : Hook → Hook) : State K V :=
  s.modify i fun item => { item with hook := f item.hook }

end Definitions

/-! ## Read paths -/

section Reads

variable [DecidableEq K] (env : Env K V) (s : State K V)

def incRef (i : ItemId) : State K V :=
  s.modify i fun item => { item with accessRef := item.accessRef + 1 }

def decRef (i : ItemId) : State K V :=
  s.modify i fun item => { item with accessRef := item.accessRef - 1 }

/-- `find_and_pin_lockfree`: the item, pinned, or nothing when the key is absent
or its count is saturated. -/
def findAndPin (key : K) : Option ItemId × State K V :=
  match s.find env key with
  | none => (none, s)
  | some i => if (s.heap i).canPin then (some i, s.incRef i) else (none, s)

def peek (key : K) : Option ItemId × State K V := s.findAndPin env key

/-- `check_expiry`; the flag is `kExpired`. -/
def checkExpiry (i : ItemId) (key : K) (nowNs : Nat) (ttlHeldRef : Bool) : Bool × State K V :=
  if (s.heap i).expiryNs = 0 then (false, s)
  else
    let s := s.modifyStats fun x => { x with ttlCheckedCount := x.ttlCheckedCount + 1 }
    if nowNs < (s.heap i).expiryNs then (false, s)
    else
      let s := s.modifyStats fun x =>
        { x with
          ttlExpiredCount := x.ttlExpiredCount + 1
          evictionsTtl := x.evictionsTtl + 1 }
      let s := if ttlHeldRef then s.decRef i else s
      let s := s.modifyStats fun x => { x with misses := x.misses + 1 }
      (true, s.collect (.miss key))

def peekForGet (key : K) (nowNs : Nat) : Option ItemId × State K V :=
  match s.findAndPin env key with
  | (none, s) => (none, s)
  | (some i, s) =>
    match s.checkExpiry i key nowNs true with
    | (true, s) => (none, s)
    | (false, s) => (some i, s)

def contains (key : K) (nowNs : Nat) : Bool × State K V :=
  match s.find env key with
  | none => (false, s)
  | some i =>
    let (expired, s) := s.checkExpiry i key nowNs false
    (!expired, s)

end Reads

/-! ## Insertion and the TTL index -/

section Insertion

variable [DecidableEq K] (env : Env K V) (s : State K V)

/-- Allocate an item, link it into list `q` by `place` and into the table. The
source allocates, fills in the hook, links, sets the linked bit and inserts the
node, in this order. -/
def linkNew (key : K) (value : V) (q : QueueId) (expiryNs : Nat) (hook : Hook)
    (place : ItemId → List ItemId → List ItemId) : State K V :=
  let i := s.next
  let item : Item K V :=
    { key := key, value := value, queueId := q, expiryNs := expiryNs, linked := true, hook := hook }
  let s := { s with heap := Function.update s.heap i item, next := i + 1 }
  let s := s.setQueue q (place i (s.queue q))
  s.insertNode env key i

/-- The linked items, list by list from head to tail. -/
def liveItems : List ItemId := s.queue 0 ++ s.queue 1 ++ s.queue 2

/-- `ttl_index_rebuild`: one entry for each linked item with a TTL. -/
def ttlIndexRebuild : State K V :=
  { s with ttlIndex := (s.liveItems.filter fun i => (s.heap i).expiryNs != 0).map fun i =>
      ((s.heap i).expiryNs, (s.heap i).key) }

def kMaxTtlHeapMultiplier : Nat := 4

/-- `ttl_index_push`, for the strategy's own `ttl_live_count()`. -/
def ttlIndexPush (liveCount : Nat) (key : K) (expiryNs : Nat) : State K V :=
  let s := if expiryNs = 0 then s else { s with ttlIndex := s.ttlIndex ++ [(expiryNs, key)] }
  if kMaxTtlHeapMultiplier * liveCount < s.ttlIndex.length then s.ttlIndexRebuild else s

/-- The statistics and the event of a completed insertion. -/
def noteInsertion (size mem : Nat) (key : K) (value : V) : State K V :=
  let s := (s.storeSize size).addMemory mem
  let s := s.modifyStats fun x => { x with insertions := x.insertions + 1 }
  s.collect (.insert key value)

/-- Link a new item at the head of list `q`, index its expiry and report it. -/
def linkAtHead (key : K) (value : V) (q : QueueId) (expiryNs : Nat) (hook : Hook)
    (liveCount size : State K V → Nat) (mem : Nat) : State K V :=
  let s := s.linkNew env key value q expiryNs hook List.cons
  let s := s.ttlIndexPush (liveCount s) key expiryNs
  s.noteInsertion (size s) mem key value

end Insertion

end State

open State

/-! ## Bookkeeping of the shared parts -/

section Bookkeeping

variable {env : Env K V} {s : State K V}

theorem Quiet.addMemory (bytes : Nat) : Quiet s (s.addMemory bytes) := .modifyStats fun _ => rfl

theorem Quiet.subMemory (bytes : Nat) : Quiet s (s.subMemory bytes) := .modifyStats fun _ => rfl

theorem Quiet.storeSize (n : Nat) : Quiet s (s.storeSize n) := .modifyStats fun _ => rfl

theorem Quiet.refreshHashStats : Quiet s s.refreshHashStats := .modifyStats fun _ => rfl

theorem Quiet.ttlIndexPush {key : K} {expiryNs : Nat} {liveCount : Nat} :
    Quiet s (s.ttlIndexPush liveCount key expiryNs) := by
  unfold State.ttlIndexPush
  simp only
  split <;> split <;> exact ⟨rfl, rfl, rfl, rfl⟩

@[simp] theorem core_collect (s : State K V) (e : Event K V) : (s.collect e).core = s.core := by
  unfold collect
  split <;> rfl

@[simp] theorem collect_queue : (s.collect e).queue = s.queue :=
  congrArg Core.queue (core_collect s e)

@[simp] theorem collect_heap : (s.collect e).heap = s.heap := by
  unfold collect
  split <;> rfl

theorem collect_hashTable : (s.collect e).hashTable = s.hashTable := by
  unfold collect
  split <;> rfl

@[simp] theorem collect_stats : (s.collect e).stats = s.stats := by
  unfold collect
  split <;> rfl

@[simp] theorem collect_settings :
    (s.collect e).settings = s.settings := by
  unfold collect
  split <;> rfl

theorem Unseen.modifyHook (i : ItemId) (f : Hook → Hook) : Unseen s (s.modifyHook i f) := by
  refine ⟨?_, rfl, rfl, rfl⟩
  simp only [State.core, State.modifyHook, State.modify, Core.mk.injEq, and_true]
  funext j
  by_cases hj : j = i
  · subst hj; simp
  · simp [hj]

theorem Unseen.restartRefresh (sec : Nat) : Unseen s (s.restartRefresh sec) := ⟨rfl, rfl, rfl, rfl⟩

theorem Unseen.reconfigureLocked {curr : Nat} {tail : Option ItemId} :
    Unseen s (s.reconfigureLocked env curr tail) := by
  unfold State.reconfigureLocked
  split
  · exact .refl
  · split
    · exact .refl
    · exact ⟨rfl, rfl, rfl, rfl⟩

/-- A fold of retirements collects evictions and extends the retired list. -/
private theorem foldl_evictAndRetire (l : List ItemId) (s : State K V) :
    ∃ events, l.foldl evictAndRetire s = { s with events := events, retired := s.retired ++ l } ∧
      (l.foldl evictAndRetire s).rejects = s.rejects := by
  induction l generalizing s with
  | nil => exact ⟨s.events, by simp, rfl⟩
  | cons i rest ih =>
    have quiet : Quiet s (s.collect (.evict (s.heap i).key (s.heap i).value)) := .collect rfl
    obtain ⟨events, fold, rejects⟩ := ih (s.evictAndRetire i)
    refine ⟨events, ?_, rejects.trans quiet.rejects_eq⟩
    rw [List.foldl_cons, fold]
    unfold evictAndRetire retire collect
    split <;> simp

/-- Clean-up only collects events and moves items from the pending to the
retired list. -/
theorem cleanup_eq :
    ∃ events, s.cleanupPendingDeletion = { s with
      events := events
      retired := s.retired ++ s.pendingDeletion.filter fun i => !(s.heap i).hasActiveHandle
      pendingDeletion := s.pendingDeletion.filter fun i => (s.heap i).hasActiveHandle } := by
  obtain ⟨events, fold, -⟩ := foldl_evictAndRetire
    (s.pendingDeletion.filter fun i => !(s.heap i).hasActiveHandle) s
  exact ⟨events, by rw [cleanupPendingDeletion, fold]⟩

/-- What reads neither the events nor the two lists is unchanged. -/
theorem cleanup_frame {α : Type} (s : State K V) (f : State K V → α)
    (frame : ∀ events retired pending,
      f { s with events := events, retired := retired, pendingDeletion := pending } = f s) :
    f s.cleanupPendingDeletion = f s := by
  obtain ⟨events, clean⟩ := cleanup_eq
  rw [clean]
  exact frame _ _ _

theorem core_cleanupPendingDeletion (s : State K V) :
    s.cleanupPendingDeletion.core = s.core.cleanup := by
  obtain ⟨events, clean⟩ := cleanup_eq
  rw [clean]
  rfl

theorem cleanup_rejects : s.cleanupPendingDeletion.rejects = s.rejects := by
  obtain ⟨events, -, rejects⟩ := foldl_evictAndRetire
    (s.pendingDeletion.filter fun i => !(s.heap i).hasActiveHandle) s
  exact rejects

@[simp] theorem cleanup_stats (s : State K V) :
    s.cleanupPendingDeletion.stats = s.stats := cleanup_frame s (·.stats) fun _ _ _ => rfl

@[simp] theorem cleanup_heap (s : State K V) :
    s.cleanupPendingDeletion.heap = s.heap := cleanup_frame s (·.heap) fun _ _ _ => rfl

@[simp] theorem cleanup_settings (s : State K V) :
    s.cleanupPendingDeletion.settings = s.settings := cleanup_frame s (·.settings) fun _ _ _ => rfl

theorem cleanup_shrinks (wf : s.WellFormed env) : Shrinks env s s.cleanupPendingDeletion := by
  have core := core_cleanupPendingDeletion s
  have table : s.cleanupPendingDeletion.table = s.table := congrArg Core.table core
  refine ⟨?_, fun i hi => table ▸ hi, fun i _ => ?_, congrArg Core.next core,
    cleanup_settings s,
    congrArg Stats.evictionFailed (cleanup_stats s),
    cleanup_rejects⟩
  · unfold State.WellFormed
    rw [core]
    exact wf.cleanup
  · exact congrArg Body.content (congrFun (congrArg Core.body core) i)

@[simp] theorem cleanup_table :
    s.cleanupPendingDeletion.table = s.table :=
  congrArg Core.table (core_cleanupPendingDeletion s)

@[simp] theorem cleanup_queue (s : State K V) :
    s.cleanupPendingDeletion.queue = s.queue :=
  congrArg Core.queue (core_cleanupPendingDeletion s)

end Bookkeeping

end Lru.Mm
