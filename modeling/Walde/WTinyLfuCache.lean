import Walde.Baseline
import Walde.BloomDoorkeeper
import Walde.Foundation.NodeList
import Walde.Foundation.Segmented

namespace Walde

open Foundation
open Foundation.NodeList (Node Indexed)

/-! # The W-TinyLFU baseline -/

structure TinyLfuEntry where
  key : Key
  value : Value
  segment : Place
deriving DecidableEq, Repr

/-- The nodes of the lists with their addresses, the front first. An iterator
in the map is an address. -/
structure WTinyLfuCache where
  windowCapacity : Nat
  probationCapacity : Nat
  protectedCapacity : Nat
  window : List (Node TinyLfuEntry)
  probation : List (Node TinyLfuEntry)
  protected_ : List (Node TinyLfuEntry)
  map : AList fun _ : Key => Nat
  nextAddress : Nat
  doorkeeper : BloomDoorkeeper
  cms : CountMinSketch
  decayInterval : Nat
  opsSinceDecay : Nat
  stats : StripeStats

/-- A get may answer with the value of a node that is erased by then. That is a
fault which spoils the answer, but nothing in the cache. -/
inductive TinyLfuReply
  | value (found : Option Value)
  | changed (inserted : Bool)
  | erased
deriving DecidableEq, Repr

namespace WTinyLfuCache

/-- Capacities are `uint32_t`: for a capacity of one, `capacity - 2` wraps
around. -/
def clampWindow (capacity scaled : Nat) : Nat :=
  if (capacity + uint32Size - 2) % uint32Size ≤ max 3 scaled then capacity / 4
  else max 3 scaled

def doorkeeperBits (capacity : Nat) : Nat := capacity * 8 % uint32Size

def new (capacity : Nat) (windowPct probationPct : Percentage) :
    WTinyLfuCache :=
  let windowCapacity := clampWindow capacity (windowPct.scale capacity)
  let mainCapacity := (capacity + uint32Size - windowCapacity) % uint32Size
  let probationCapacity := max 1 (probationPct.scale mainCapacity)
  { windowCapacity
    probationCapacity
    protectedCapacity :=
      (mainCapacity + uint32Size - probationCapacity) % uint32Size
    window := []
    probation := []
    protected_ := []
    map := ∅
    nextAddress := 0
    doorkeeper := .new (doorkeeperBits capacity)
    cms := .new 4 8192
    decayInterval := if capacity * 5 = 0 then 1 else capacity * 5
    opsSinceDecay := 0
    stats := {} }

def nodesAt (cache : WTinyLfuCache) : Place → List (Node TinyLfuEntry)
  | .window => cache.window
  | .probation => cache.probation
  | .protected_ => cache.protected_

def nodes (cache : WTinyLfuCache) : List (Node TinyLfuEntry) :=
  cache.window ++ (cache.probation ++ cache.protected_)

/-! ## Counting -/

def maybeDecay (cache : WTinyLfuCache) : WTinyLfuCache :=
  if cache.decayInterval ≤ cache.opsSinceDecay + 1 then
    { cache with
      cms := cache.cms.decay
      doorkeeper := cache.doorkeeper.reset
      opsSinceDecay := 0 }
  else
    { cache with opsSinceDecay := cache.opsSinceDecay + 1 }

def recordAccess (cache : WTinyLfuCache) (key : Key) :
    Option WTinyLfuCache := do
  let (seenBefore, doorkeeper) ← cache.doorkeeper.containsAndAdd key
  let cms :=
    if seenBefore then TinyLfuSketch.increment cache.cms key else cache.cms
  return maybeDecay { cache with doorkeeper, cms }

/-! ## Promotion -/

/-- The overflow of a full protected segment goes to the front of probation,
with its node. There is no last node of an empty list. -/
def makeRoomInProtected (cache : WTinyLfuCache) : Option WTinyLfuCache :=
  if cache.protectedCapacity ≤ cache.protected_.length then do
    let demoted ← cache.protected_.getLast?
    let entry := { demoted.item with segment := .probation }
    return { cache with
      probation := { demoted with item := entry } :: cache.probation
      protected_ := cache.protected_.dropLast
      map := cache.map.insert entry.key demoted.address }
  else some cache

/-- The entry moves to a new node. -/
def promoteToProtected (cache : WTinyLfuCache) (it : Nat) :
    Option WTinyLfuCache := do
  let entry ← NodeList.deref cache.probation it
  let cache ← makeRoomInProtected { cache with
    map := cache.map.erase entry.key
    probation := NodeList.erase it cache.probation }
  let node : Node TinyLfuEntry :=
    ⟨cache.nextAddress, { entry with segment := .protected_ }⟩
  return { cache with
    protected_ := node :: cache.protected_
    map := cache.map.insert entry.key cache.nextAddress
    nextAddress := cache.nextAddress + 1 }

/-- The switch on the segment of an entry that was hit, in `get` and in `put`.
To splice a node from a list that it is not on is a fault. -/
def moveWithinSegment (cache : WTinyLfuCache) (it : Nat) :
    Place → Option WTinyLfuCache
  | .window => do
      let _ ← NodeList.deref cache.window it
      return { cache with window := NodeList.toFront it cache.window }
  | .probation => cache.promoteToProtected it
  | .protected_ => do
      let _ ← NodeList.deref cache.protected_ it
      return { cache with protected_ := NodeList.toFront it cache.protected_ }

/-- What `entry.value` is for the reference that a hit has kept. -/
def read (cache : WTinyLfuCache) (it : Nat) : TinyLfuReply :=
  match NodeList.deref cache.nodes it with
  | some entry => .value (some entry.value)
  | none => .erased

def hit (cache : WTinyLfuCache) (it : Nat) :
    Option (TinyLfuReply × WTinyLfuCache) := do
  let entry ← NodeList.deref cache.nodes it
  let cache ← cache.moveWithinSegment it entry.segment
  let stats := { cache.stats with hits := cache.stats.hits + 1 }
  return (cache.read it, { cache with stats })

def get (cache : WTinyLfuCache) (key : Key) :
    Option (TinyLfuReply × WTinyLfuCache) :=
  match cache.map.lookup key with
  | none =>
      let stats := { cache.stats with misses := cache.stats.misses + 1 }
      some (.value none, { cache with stats })
  | some it => do
      let cache ← cache.recordAccess key
      cache.hit it

/-! ## Admission -/

/-- `map_.erase(cand_key)` and `window_.erase(candidate_it)`. -/
def dropCandidate (cache : WTinyLfuCache) (candidate : TinyLfuEntry) :
    WTinyLfuCache :=
  { cache with
    map := cache.map.erase candidate.key
    window := cache.window.dropLast }

def admitCandidate (cache : WTinyLfuCache) (candidate : TinyLfuEntry) :
    WTinyLfuCache :=
  { cache with
    probation := ⟨cache.nextAddress, { candidate with segment := .probation }⟩ ::
      cache.probation
    map := cache.map.insert candidate.key cache.nextAddress
    nextAddress := cache.nextAddress + 1
    stats := { cache.stats with admissions := cache.stats.admissions + 1 } }

def rejectCandidate (cache : WTinyLfuCache) : WTinyLfuCache :=
  { cache with
    stats := { cache.stats with rejections := cache.stats.rejections + 1 } }

def evictVictim (cache : WTinyLfuCache) (victim : TinyLfuEntry) :
    WTinyLfuCache :=
  { cache with
    map := cache.map.erase victim.key
    probation := cache.probation.dropLast
    stats := { cache.stats with evictions := cache.stats.evictions + 1 } }

/-- Sizes and capacities are added in 32 bits. -/
def tryAdmitFromWindow (cache : WTinyLfuCache) : WTinyLfuCache :=
  match cache.window.getLast? with
  | none => cache
  | some candidate =>
      let mainSize :=
        (cache.probation.length + cache.protected_.length) % uint32Size
      if mainSize <
          (cache.probationCapacity + cache.protectedCapacity) % uint32Size then
        (cache.dropCandidate candidate.item).admitCandidate candidate.item
      else
        match cache.probation.getLast? with
        | none => (cache.dropCandidate candidate.item).rejectCandidate
        | some victim =>
            if TinyLfuSketch.estimate cache.cms candidate.item.key >
                TinyLfuSketch.estimate cache.cms victim.item.key then
              ((cache.evictVictim victim.item).dropCandidate
                candidate.item).admitCandidate candidate.item
            else (cache.dropCandidate candidate.item).rejectCandidate

/-- The loop on the size of the window. It needs at most one round for each
node; running out of rounds is a fault. -/
def shrinkWindow : Nat → WTinyLfuCache → Option WTinyLfuCache
  | rounds, cache =>
      if cache.windowCapacity < cache.window.length then
        match rounds with
        | 0 => none
        | rounds + 1 => shrinkWindow rounds cache.tryAdmitFromWindow
      else some cache

def pushWindow (cache : WTinyLfuCache) (key : Key) (value : Value) :
    WTinyLfuCache :=
  { cache with
    window := ⟨cache.nextAddress, { key, value, segment := .window }⟩ ::
      cache.window
    map := cache.map.insert key cache.nextAddress
    nextAddress := cache.nextAddress + 1 }

def assign (cache : WTinyLfuCache) (it : Nat) (value : Value) :
    WTinyLfuCache :=
  let change : TinyLfuEntry → TinyLfuEntry := fun entry => { entry with value }
  { cache with
    window := NodeList.modify it change cache.window
    probation := NodeList.modify it change cache.probation
    protected_ := NodeList.modify it change cache.protected_ }

def store (cache : WTinyLfuCache) (key : Key) (value : Value) :
    Option (TinyLfuReply × WTinyLfuCache) :=
  match cache.map.lookup key with
  | some it => do
      let entry ← NodeList.deref cache.nodes it
      let cache ← (cache.assign it value).moveWithinSegment it entry.segment
      return (.changed false, cache)
  | none => do
      let cache := cache.pushWindow key value
      let cache ← cache.shrinkWindow cache.window.length
      return (.changed true, cache)

def put (cache : WTinyLfuCache) (key : Key) (value : Value) :
    Option (TinyLfuReply × WTinyLfuCache) := do
  let cache ← cache.recordAccess key
  cache.store key value

def size (cache : WTinyLfuCache) : Nat := Recency.size cache.map % uint32Size

def step : Machine WTinyLfuCache BaselineCall TinyLfuReply
  | cache, .get key => cache.get key
  | cache, .put key value => cache.put key value

end WTinyLfuCache

end Walde
