import Lru.Mm.Item

/-!
# `compact_cache`

The store of the compact traits: one list of slots in the order of their last
recorded access, and a map from keys to slots. It has its own limits and no pins,
expiry or rejections. Slots are identified with their contents here; the map is
the search by key.
-/

namespace Lru

open Mm (Callbacks Event unlimited)

structure Slot (K V : Type) where
  key : K
  value : V
  updateTime : Nat
  deriving DecidableEq, Repr

structure CompactCache (K V : Type) where
  /-- `lru_list_`, head first. -/
  slots : List (Slot K V) := []
  maxSize : Nat := unlimited
  maxMemory : Nat := unlimited
  currentMemory : Nat := 0
  refreshTime : Nat := 60
  isShutdown : Bool := false
  /-- `sizeof(slot_type)`. -/
  slotSize : Nat
  callbacks : Callbacks := {}
  events : List (Event K V) := []

namespace CompactCache

variable {K V : Type} [DecidableEq K] (c : CompactCache K V)

def find (key : K) : Option (Slot K V) := c.slots.find? fun slot => slot.key = key

/-- The value that `get`, `peek` and `contains` find under a key. -/
def lookup (key : K) : Option V := (c.find key).map Slot.value

/-- Collect an event if a callback of its kind is registered. -/
def collect (e : Event K V) : CompactCache K V :=
  if c.callbacks.has e then { c with events := c.events ++ [e] } else c

/-- `record_access`: a move to the head, unless the last one is too recent. The times
are 32-bit numbers. -/
def recordAccess (slot : Slot K V) (curr : Nat) : CompactCache K V :=
  if curr < (slot.updateTime + c.refreshTime) % 2 ^ 32 then c
  else
    let rest := c.slots.eraseP fun s => s.key = slot.key
    { c with slots := { slot with updateTime := curr } :: rest }

def eraseSlot (slot : Slot K V) : CompactCache K V :=
  let c := { c with currentMemory := SizeT.fetchSub c.currentMemory c.slotSize }
  let c := c.collect (.evict slot.key slot.value)
  { c with slots := c.slots.eraseP fun s => s.key = slot.key }

def evictLru : CompactCache K V :=
  match c.slots.getLast? with
  | none => c
  | some victim => c.eraseSlot victim

/-- The loop that brings the size below the limit; it stops when an eviction makes no
progress. -/
def evictToSize : Nat → CompactCache K V → CompactCache K V
  | 0, c => c
  | fuel + 1, c =>
    if c.maxSize ≤ c.slots.length ∧ c.maxSize ≠ unlimited then
      if c.slots.length ≤ c.evictLru.slots.length then c.evictLru
      else evictToSize fuel c.evictLru
    else c

def shouldEvictMemory : Bool := c.maxMemory ≠ unlimited && c.maxMemory < c.currentMemory

/-- The loop that brings the memory below the limit or empties the store. -/
def evictToMemory : Nat → CompactCache K V → CompactCache K V
  | 0, c => c
  | fuel + 1, c =>
    if c.shouldEvictMemory && !c.slots.isEmpty then evictToMemory fuel c.evictLru else c

/-- The part of `set` that links a new slot. -/
def link (key : K) (value : V) (sec : Nat) : CompactCache K V :=
  let c := { c with
    slots := ⟨key, value, sec⟩ :: c.slots
    currentMemory := SizeT.fetchAdd c.currentMemory c.slotSize }
  c.collect (.insert key value)

/-- `set` past its test for shutdown. Each eviction shortens the list, so its length
bounds the rounds of both loops. -/
def setBody (key : K) (value : V) (sec : Nat) : CompactCache K V :=
  match c.find key with
  | some slot =>
    let updated := { slot with value := value }
    let c := { c with
      slots := c.slots.map fun s : Slot K V => if s.key = key then updated else s }
    c.recordAccess updated sec
  | none =>
    if c.maxSize = 0 then c
    else
      let c := evictToSize (c.slots.length + 1) c
      let c := evictToMemory (c.slots.length + 1) c
      c.link key value sec

def set (key : K) (value : V) (sec : Nat) : Except String Unit × CompactCache K V :=
  if c.isShutdown then (.error "compact_cache::set: cache is shutdown", c)
  else (.ok (), c.setBody key value sec)

/-- `add`; its `set_unlocked` is the body of `set`. -/
def add (key : K) (value : V) (sec : Nat) : Except String Bool × CompactCache K V :=
  if c.isShutdown then (.error "compact_cache::add: cache is shutdown", c)
  else if (c.find key).isSome then (.ok false, c)
  else (.ok true, c.setBody key value sec)

def get (key : K) (sec : Nat) : Option V × CompactCache K V :=
  match c.find key with
  | none => (none, c.collect (.miss key))
  | some slot => (some slot.value, (c.recordAccess slot sec).collect (.hit key slot.value))

def del (key : K) : Except String Bool × CompactCache K V :=
  if c.isShutdown then (.error "compact_cache::del: cache is shutdown", c)
  else
    match c.find key with
    | none => (.ok false, c)
    | some slot => (.ok true, c.eraseSlot slot)

/-- `flush`, with the text of its exception. -/
def flush : Except String Unit × CompactCache K V :=
  if c.isShutdown then (.error "compact_cache::flush: cache is shutdown", c)
  else (.ok (), { c with slots := [], currentMemory := 0 })

def shrinkLoop : Nat → CompactCache K V → CompactCache K V
  | 0, c => c
  | fuel + 1, c =>
    if c.maxSize < c.slots.length ∧ c.maxSize ≠ unlimited then shrinkLoop fuel c.evictLru else c

def shrinkToFit : CompactCache K V := shrinkLoop c.slots.length c

def resize (newMax : Nat) : CompactCache K V := { c with maxSize := newMax }.shrinkToFit

end CompactCache

/-- The calls that change a `compact_cache`. -/
inductive CompactOp (K V : Type) where
  | set (key : K) (value : V) (sec : Nat)
  | add (key : K) (value : V) (sec : Nat)
  | get (key : K) (sec : Nat)
  | del (key : K)
  | flush
  | maxSize (newMax : Nat)
  | shrinkToFit
  | setRefreshTime (seconds : Nat)
  | setCallbacks (callbacks : Callbacks)
  | shutdown

namespace CompactCache

variable {K V : Type} [DecidableEq K]

/-- The state after a call, whatever it returns or throws. -/
def step (c : CompactCache K V) : CompactOp K V → CompactCache K V
  | .set key value sec => (c.set key value sec).2
  | .add key value sec => (c.add key value sec).2
  | .get key sec => (c.get key sec).2
  | .del key => (c.del key).2
  | .flush => c.flush.2
  | .maxSize newMax => c.resize newMax
  | .shrinkToFit => c.shrinkToFit
  | .setRefreshTime seconds => { c with refreshTime := seconds }
  | .setCallbacks callbacks => { c with callbacks := callbacks }
  | .shutdown => { c with isShutdown := true }

/-- A state that a newly constructed cache reaches. The size of a slot is a `size_t`. -/
def Reachable (c : CompactCache K V) : Prop :=
  ∃ slotSize maxSize maxMemory : Nat, ∃ ops : List (CompactOp K V), slotSize < SizeT.range ∧
    c = ops.foldl step { slotSize := slotSize, maxSize := maxSize, maxMemory := maxMemory }

end CompactCache

end Lru
