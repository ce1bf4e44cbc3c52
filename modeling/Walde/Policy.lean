import Walde.CacheStripe

namespace Walde

/-! # The W-LFU policy

What one stripe is for: the put and get pipelines of the architecture notes on
three plain lists, most recently used entry first, and a table of counters. -/

inductive Place
  | window
  | probation
  | protected_
deriving DecidableEq, Repr

abbrev Entry := Key × Value

structure Policy where
  config : StripeConfig
  window : List Entry
  probation : List Entry
  protected_ : List Entry
  table : Foundation.CountMin.Table
  putsSinceDecay : Nat
  stats : StripeStats
  queueAttached : Bool

namespace Policy

def new (config : StripeConfig) (queueAttached : Bool) : Policy where
  config
  window := []
  probation := []
  protected_ := []
  table := fun _ _ => 0
  putsSinceDecay := 0
  stats := {}
  queueAttached

def entriesAt (policy : Policy) : Place → List Entry
  | .window => policy.window
  | .probation => policy.probation
  | .protected_ => policy.protected_

def entries (policy : Policy) : List Entry :=
  policy.window ++ policy.probation ++ policy.protected_

def named (key : Key) (entries : List Entry) : List Entry :=
  entries.filter fun entry => entry.1 = key

def without (key : Key) (entries : List Entry) : List Entry :=
  entries.filter fun entry => entry.1 ≠ key

def find (policy : Policy) (key : Key) : Option Value :=
  (policy.entries.find? fun entry => entry.1 = key).map (·.2)

/-! ## Frequencies -/

def column (xx : XxHash) (key : Key) (row : Nat) : Nat :=
  xx.xxh32 key (CountMinSketch.seed row) % 512

def frequency (xx : XxHash) (policy : Policy) (key : Key) : Nat :=
  policy.table.least (uint32Size - 1) 4 (column xx key)

def count (xx : XxHash) (policy : Policy) (key : Key) : Policy :=
  { policy with table := policy.table.bump uint32Size 4 (column xx key) }

/-- One more put; every `decayInterval` puts the counters are halved. -/
def tick (policy : Policy) : Policy :=
  if policy.config.decayInterval ≤ policy.putsSinceDecay + 1 then
    { policy with table := policy.table.halve, putsSinceDecay := 0 }
  else
    { policy with putsSinceDecay := policy.putsSinceDecay + 1 }

/-! ## Promotion -/

def makeRoom (policy : Policy) : Policy :=
  if policy.config.protectedCapacity ≤ policy.protected_.length then
    match policy.protected_.getLast? with
    | some demoted => { policy with
        protected_ := policy.protected_.dropLast
        probation := demoted :: policy.probation }
    | none => policy
  else policy

def promote (policy : Policy) (key : Key) : Policy :=
  let promoted := named key policy.probation
  let policy :=
    makeRoom { policy with probation := without key policy.probation }
  { policy with protected_ := promoted ++ policy.protected_ }

def moveToFront (key : Key) (entries : List Entry) : List Entry :=
  named key entries ++ without key entries

def touch (policy : Policy) (key : Key) : Place → Policy
  | .window => { policy with window := moveToFront key policy.window }
  | .probation => policy.promote key
  | .protected_ =>
      { policy with protected_ := moveToFront key policy.protected_ }

def placeOf (policy : Policy) (key : Key) : Option Place :=
  if key ∈ policy.window.map (·.1) then some .window
  else if key ∈ policy.probation.map (·.1) then some .probation
  else if key ∈ policy.protected_.map (·.1) then some .protected_
  else none

def get (xx : XxHash) (policy : Policy) (key : Key) : Option Value × Policy :=
  match policy.placeOf key with
  | none =>
      let stats := { policy.stats with misses := policy.stats.misses + 1 }
      (none, { policy with stats })
  | some place =>
      let stats := { policy.stats with hits := policy.stats.hits + 1 }
      (policy.find key,
        { (policy.count xx key).touch key place with stats })

/-! ## Admission -/

def admitCandidate (policy : Policy) (candidate : Entry) : Policy :=
  { policy with
    probation := candidate :: policy.probation
    stats := { policy.stats with
      admissions := policy.stats.admissions + 1 } }

def reject (policy : Policy) : Policy :=
  { policy with
    stats := { policy.stats with
      rejections := policy.stats.rejections + 1 } }

def evict (policy : Policy) : Policy :=
  { policy with
    probation := policy.probation.dropLast
    stats := { policy.stats with evictions := policy.stats.evictions + 1 } }

def offer (xx : XxHash) (policy : Policy) (victim : Entry) :
    List DemotionItem :=
  if policy.queueAttached then
    [⟨victim.1, victim.2, policy.frequency xx victim.1⟩]
  else []

/-- The strict frequency contest, against the last entry of probation. -/
def contest (xx : XxHash) (policy : Policy) (candidate victim : Entry) :
    Policy × List DemotionItem :=
  if policy.frequency xx victim.1 < policy.frequency xx candidate.1 then
    (policy.evict.admitCandidate candidate, policy.offer xx victim)
  else
    (policy.reject, [])

def tryAdmit (xx : XxHash) (policy : Policy) : Policy × List DemotionItem :=
  match policy.window.getLast? with
  | none => (policy, [])
  | some candidate =>
      let policy := { policy with window := policy.window.dropLast }
      if policy.probation.length + policy.protected_.length <
          policy.config.mainCapacity then
        (policy.admitCandidate candidate, [])
      else
        match policy.probation.getLast? with
        | none => (policy.reject, [])
        | some victim => policy.contest xx candidate victim

def shrinkWindow (xx : XxHash) : Nat → Policy → Policy × List DemotionItem
  | 0, policy => (policy, [])
  | rounds + 1, policy =>
      if policy.config.windowCapacity < policy.window.length then
        let admitted := policy.tryAdmit xx
        let rest := admitted.1.shrinkWindow xx rounds
        (rest.1, admitted.2 ++ rest.2)
      else
        (policy, [])

def insert (xx : XxHash) (policy : Policy) (key : Key) (value : Value) :
    Policy × List DemotionItem :=
  let policy := { policy with window := (key, value) :: policy.window }
  policy.shrinkWindow xx policy.window.length

def assign (key : Key) (value : Value) (entries : List Entry) : List Entry :=
  entries.map fun entry => if entry.1 = key then (key, value) else entry

def overwrite (policy : Policy) (key : Key) (value : Value) : Policy :=
  { policy with
    window := assign key value policy.window
    probation := assign key value policy.probation
    protected_ := assign key value policy.protected_ }

/-- `slot` says whether the slab has a free slot for a new entry. The answer is
whether the key was inserted. -/
def put (xx : XxHash) (slot : Bool) (policy : Policy) (key : Key)
    (value : Value) : Bool × Policy × List DemotionItem :=
  let policy := (policy.count xx key).tick
  match policy.placeOf key with
  | some place => (false, (policy.overwrite key value).touch key place, [])
  | none =>
      if slot then (true, policy.insert xx key value) else (false, policy, [])

def remove (policy : Policy) (key : Key) : Bool × Policy :=
  ((policy.placeOf key).isSome, { policy with
    window := without key policy.window
    probation := without key policy.probation
    protected_ := without key policy.protected_ })

end Policy

end Walde
