import Mathlib.Data.List.AList
import Walde.CountMinSketch
import Walde.LruList

namespace Walde

/-! # One stripe of the L1 cache

The behaviour of the calls without a `LatencyBreakdown`. -/

/-! ## Capacities -/

/-- A percentage, by what `static_cast<uint32_t>(count * pct)` makes of every
count. Any `float` gives one. -/
structure Percentage where
  scale : Nat → Nat
  scale_lt : ∀ count, scale count < uint32Size

namespace Percentage

/-- Round to the nearest number with a significand of 24 bits, ties to even. -/
def roundBinary32 (value : Nat) : Nat :=
  let excess := value.log2 + 1 - 24
  let quotient := value >>> excess
  let rest := value % 2 ^ excess
  if 0 < excess ∧ (2 ^ (excess - 1) < rest ∨
      rest = 2 ^ (excess - 1) ∧ quotient % 2 = 1) then
    (quotient + 1) <<< excess
  else
    quotient <<< excess

/-- The `float` with value `significand / 2 ^ shift`. -/
def ofBinary32 (significand shift : Nat) : Percentage where
  scale count :=
    (roundBinary32 (roundBinary32 count * significand) >>> shift) % uint32Size
  scale_lt _ := Nat.mod_lt _ (by decide)

/-- `0.01f` -/
def defaultWindow : Percentage := ofBinary32 10737418 30

/-- `0.20f` -/
def defaultProbation : Percentage := ofBinary32 13421773 26

end Percentage

/-- The capacities of a stripe, as its constructor splits them. -/
structure StripeConfig where
  totalCapacity : Nat
  windowCapacity : Nat
  mainCapacity : Nat
  probationCapacity : Nat
  protectedCapacity : Nat
  decayInterval : Nat
  split : windowCapacity + mainCapacity = totalCapacity
  decay_pos : 0 < decayInterval

def StripeConfig.clampWindow (capacity scaled : Nat) : Nat :=
  if capacity - 2 ≤ max 3 scaled then capacity / 4 else max 3 scaled

theorem StripeConfig.clampWindow_le (capacity scaled : Nat) :
    clampWindow capacity scaled ≤ capacity := by
  unfold clampWindow
  split <;> omega

/-- The splitting in the constructor. Capacities are `uint32_t`, so protected
wraps around when probation is larger than main. -/
def StripeConfig.new (capacity : Nat) (windowPct probationPct : Percentage) :
    StripeConfig :=
  let windowCapacity := clampWindow capacity (windowPct.scale capacity)
  let mainCapacity := capacity - windowCapacity
  let probationCapacity := max 1 (probationPct.scale mainCapacity)
  { totalCapacity := capacity
    windowCapacity
    mainCapacity
    probationCapacity
    protectedCapacity :=
      (mainCapacity + uint32Size - probationCapacity) % uint32Size
    decayInterval := if capacity * 5 = 0 then 1 else capacity * 5
    split := Nat.add_sub_cancel' (clampWindow_le _ _)
    decay_pos := by split <;> omega }

/-- Counted as natural numbers. -/
structure StripeStats where
  hits : Nat := 0
  misses : Nat := 0
  evictions : Nat := 0
  admissions : Nat := 0
  rejections : Nat := 0
deriving DecidableEq, Repr

structure CacheStripe where
  config : StripeConfig
  indexMap : AList fun _ : Key => Nat
  windowLru : IntrusiveLru
  probationLru : IntrusiveLru
  protectedLru : IntrusiveLru
  cms : CountMinSketch
  opsSinceDecay : Nat
  stats : StripeStats
  /-- Whether a demotion queue is attached. -/
  demotionQueue : Bool

namespace CacheStripe

open SlabProgram

/-- `none` is the failed assertion on the capacity. -/
def new (capacity : Nat) (windowPct probationPct : Percentage)
    (demotionQueue : Bool) : Option CacheStripe :=
  if 3 ≤ capacity then some {
    config := .new capacity windowPct probationPct
    indexMap := ∅
    windowLru := {}
    probationLru := {}
    protectedLru := {}
    cms := .new 4 512
    opsSinceDecay := 0
    stats := {}
    demotionQueue }
  else none

def size (stripe : CacheStripe) : Nat :=
  stripe.windowLru.size + stripe.probationLru.size + stripe.protectedLru.size

def maybeDecayCms (stripe : CacheStripe) : CacheStripe :=
  if stripe.config.decayInterval ≤ stripe.opsSinceDecay + 1 then
    { stripe with cms := stripe.cms.decay, opsSinceDecay := 0 }
  else
    { stripe with opsSinceDecay := stripe.opsSinceDecay + 1 }

/-- The overflow of a full protected segment goes to the front of probation. -/
def makeRoomInProtected (stripe : CacheStripe) : SlabProgram CacheStripe := do
  if stripe.config.protectedCapacity ≤ stripe.protectedLru.size then
    let (demotedIdx, protectedLru) ← stripe.protectedLru.popBack
    let stripe := { stripe with protectedLru }
    if demotedIdx ≠ kInvalidIndex then
      modifyNode demotedIdx fun node => { node with segment := .probation }
      let probationLru ← stripe.probationLru.pushFront demotedIdx
      return { stripe with probationLru }
    else
      return stripe
  else
    return stripe

def promoteToProtected (stripe : CacheStripe) (idx : Nat) :
    SlabProgram CacheStripe := do
  let probationLru ← stripe.probationLru.remove idx
  let stripe := { stripe with probationLru }
  let stripe ← stripe.makeRoomInProtected
  modifyNode idx fun node => { node with segment := .protected_ }
  let protectedLru ← stripe.protectedLru.pushFront idx
  return { stripe with protectedLru }

/-- The switch on the segment of a node that was hit, in `get` and in `put`. -/
def promoteWithinSegment (stripe : CacheStripe) (idx : Nat) :
    SlabProgram CacheStripe := do
  let node ← SlabProgram.node idx
  match node.segment with
  | .window =>
      let windowLru ← stripe.windowLru.moveToFront idx
      return { stripe with windowLru }
  | .probation => stripe.promoteToProtected idx
  | .protected_ =>
      let protectedLru ← stripe.protectedLru.moveToFront idx
      return { stripe with protectedLru }
  | .free | .l2 => return stripe

def get (xx : XxHash) (stripe : CacheStripe) (key : Key) :
    SlabProgram (Option Value × CacheStripe) :=
  match stripe.indexMap.lookup key with
  | none =>
      let stats := { stripe.stats with misses := stripe.stats.misses + 1 }
      return (none, { stripe with stats })
  | some idx => do
      let stripe := { stripe with cms := stripe.cms.increment xx key }
      let stripe ← stripe.promoteWithinSegment idx
      let node ← SlabProgram.node idx
      let stats := { stripe.stats with hits := stripe.stats.hits + 1 }
      return (some node.value, { stripe with stats })

/-- The frequency is estimated before the key moves out of the node. -/
def demoteVictim (xx : XxHash) (stripe : CacheStripe) (victimIdx : Nat) :
    SlabProgram CacheStripe := do
  let victim ← SlabProgram.node victimIdx
  let stripe := { stripe with indexMap := stripe.indexMap.erase victim.key }
  if stripe.demotionQueue then
    let item : DemotionItem := {
      key := victim.key
      value := victim.value
      frequency := stripe.cms.estimate xx victim.key }
    setNode victimIdx { victim with key := "", value := "" }
    deallocate victimIdx
    tryPush item
  else
    deallocate victimIdx
  let stats := { stripe.stats with evictions := stripe.stats.evictions + 1 }
  return { stripe with stats }

def admitCandidate (stripe : CacheStripe) (candidateIdx : Nat) :
    SlabProgram CacheStripe := do
  modifyNode candidateIdx fun node => { node with segment := .probation }
  let probationLru ← stripe.probationLru.pushFront candidateIdx
  let stats := { stripe.stats with admissions := stripe.stats.admissions + 1 }
  return { stripe with probationLru, stats }

def rejectCandidate (stripe : CacheStripe) (candidateIdx : Nat) :
    SlabProgram CacheStripe := do
  let candidate ← SlabProgram.node candidateIdx
  let indexMap := stripe.indexMap.erase candidate.key
  deallocate candidateIdx
  let stats := { stripe.stats with rejections := stripe.stats.rejections + 1 }
  return { stripe with indexMap, stats }

def contest (xx : XxHash) (stripe : CacheStripe) (candidateIdx : Nat) :
    SlabProgram CacheStripe := do
  let victimIdx := stripe.probationLru.peekBack
  let candidate ← SlabProgram.node candidateIdx
  let victim ← SlabProgram.node victimIdx
  if stripe.cms.estimate xx candidate.key >
      stripe.cms.estimate xx victim.key then
    let (_, probationLru) ← stripe.probationLru.popBack
    let stripe := { stripe with probationLru }
    let stripe ← stripe.demoteVictim xx victimIdx
    stripe.admitCandidate candidateIdx
  else
    stripe.rejectCandidate candidateIdx

def tryAdmitFromWindow (xx : XxHash) (stripe : CacheStripe) :
    SlabProgram CacheStripe := do
  let (candidateIdx, windowLru) ← stripe.windowLru.popBack
  if candidateIdx = kInvalidIndex then
    return stripe
  else
    let stripe := { stripe with windowLru }
    let mainSize := stripe.probationLru.size + stripe.protectedLru.size
    if mainSize < stripe.config.mainCapacity then
      stripe.admitCandidate candidateIdx
    else if stripe.probationLru.empty then
      stripe.rejectCandidate candidateIdx
    else
      stripe.contest xx candidateIdx

/-- The loop on the size of the window. It needs at most one round for each
node of the window; running out of rounds is a fault. -/
def shrinkWindow (xx : XxHash) : Nat → CacheStripe → SlabProgram CacheStripe
  | rounds, stripe =>
      if stripe.config.windowCapacity < stripe.windowLru.size then
        match rounds with
        | 0 => fault
        | rounds + 1 => do
            let stripe ← stripe.tryAdmitFromWindow xx
            shrinkWindow xx rounds stripe
      else
        return stripe

def insertIntoWindow (xx : XxHash) (stripe : CacheStripe) (idx : Nat) :
    SlabProgram CacheStripe := do
  let windowLru ← stripe.windowLru.pushFront idx
  let stripe := { stripe with windowLru }
  stripe.shrinkWindow xx windowLru.size

/-- The tail of `put` for a key that is not in the stripe. -/
def insertNew (xx : XxHash) (stripe : CacheStripe) (key : Key) (value : Value) :
    SlabProgram (Bool × CacheStripe) := do
  let idx ← allocate
  if idx = kInvalidIndex then
    return (false, stripe)
  else
    modifyNode idx fun node =>
      { node with key := key, value := value, segment := .window }
    let stripe := { stripe with indexMap := stripe.indexMap.insert key idx }
    let stripe ← stripe.insertIntoWindow xx idx
    return (true, stripe)

def put (xx : XxHash) (stripe : CacheStripe) (key : Key) (value : Value) :
    SlabProgram (Bool × CacheStripe) :=
  let stripe := { stripe with cms := stripe.cms.increment xx key }
  let stripe := stripe.maybeDecayCms
  match stripe.indexMap.lookup key with
  | some idx => do
      modifyNode idx fun node => { node with value := value }
      let stripe ← stripe.promoteWithinSegment idx
      return (false, stripe)
  | none => stripe.insertNew xx key value

def remove (stripe : CacheStripe) (key : Key) :
    SlabProgram (Bool × CacheStripe) :=
  match stripe.indexMap.lookup key with
  | none => return (false, stripe)
  | some idx => do
      let node ← SlabProgram.node idx
      let stripe ← (match node.segment with
        | .window => do
            let windowLru ← stripe.windowLru.remove idx
            return { stripe with windowLru }
        | .probation => do
            let probationLru ← stripe.probationLru.remove idx
            return { stripe with probationLru }
        | .protected_ => do
            let protectedLru ← stripe.protectedLru.remove idx
            return { stripe with protectedLru }
        | .free | .l2 => return stripe)
      let indexMap := stripe.indexMap.erase key
      deallocate idx
      return (true, { stripe with indexMap })

end CacheStripe

end Walde
