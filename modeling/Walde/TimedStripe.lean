import Walde.CacheStripe
import Walde.Foundation.Erasure

namespace Walde

open Foundation

/-! # The instrumented calls of a stripe

`get` and `put` of a stripe have a second body for callers that pass a
`LatencyBreakdown`. -/

inductive LatencyPath
  | l1Hit
  | l2Hit
  | backendHit
  | miss
deriving DecidableEq, Repr

structure LatencyBreakdown where
  totalNs : Int := 0
  lockWaitNs : Int := 0
  lookupNs : Int := 0
  admissionNs : Int := 0
  evictionNs : Int := 0
  l2Ns : Int := 0
  backendNs : Int := 0
  slabNs : Int := 0
  path : LatencyPath := .miss
deriving DecidableEq, Repr

/-- The readings of the clock that are still to come, and the breakdown that
the caller passed; `none` is a null pointer. -/
structure Stopwatch where
  readings : Nat → Int
  breakdown : Option LatencyBreakdown

abbrev Timed (m : Type → Type) := StateT Stopwatch m

namespace Timed

variable {m : Type → Type} [Monad m]

def now : Timed m Int := modifyGet fun watch =>
  (watch.readings 0, { watch with readings := fun i => watch.readings (i + 1) })

def record (change : LatencyBreakdown → LatencyBreakdown) : Timed m Unit :=
  modifyGet fun watch =>
    ((), { watch with breakdown := watch.breakdown.map change })

/-- The test `if (bd)`. -/
def hasBreakdown : Timed m Bool :=
  modifyGet fun watch => (watch.breakdown.isSome, watch)

def startTimer : Timed m Int := do
  if ← hasBreakdown then now else return 0

def stopTimer (start : Int)
    (change : Int → LatencyBreakdown → LatencyBreakdown) : Timed m Unit := do
  if ← hasBreakdown then
    let stop ← now
    record (change (stop - start))
  else return ()

theorem now_silent : Silent (now : Timed m Int) := .modifyGet _

theorem record_silent (change : LatencyBreakdown → LatencyBreakdown) :
    Silent (record change : Timed m Unit) := .modifyGet _

theorem hasBreakdown_silent : Silent (hasBreakdown : Timed m Bool) :=
  .modifyGet _

variable [LawfulMonad m]

theorem startTimer_silent : Silent (startTimer : Timed m Int) := by
  apply hasBreakdown_silent.bind
  intro timed
  cases timed with
  | true => exact now_silent
  | false => exact .pure 0

theorem stopTimer_silent (start : Int)
    (change : Int → LatencyBreakdown → LatencyBreakdown) :
    Silent (stopTimer start change : Timed m Unit) := by
  apply hasBreakdown_silent.bind
  intro timed
  cases timed with
  | true => exact now_silent.bind fun stop => record_silent _
  | false => exact .pure ()

theorem erases_clocked {α : Type}
    {write : Int → LatencyBreakdown → LatencyBreakdown}
    {next : Int → Timed m α} {plain : m α}
    (rest : ∀ time, Erases (next time) plain) :
    Erases (do let time ← now; record (write time); next time) plain := by
  apply Erases.note now_silent
  intro time
  apply Erases.note (record_silent _)
  exact fun _ => rest time

theorem erases_of_both {α : Type} {timed untimed : Timed m α} {plain : m α}
    (withBreakdown : Erases timed plain) (without : Erases untimed plain) :
    Erases (do if ← hasBreakdown then timed else untimed) plain := by
  apply Erases.note hasBreakdown_silent
  intro present
  cases present with
  | true => exact withBreakdown
  | false => exact without

end Timed

namespace CacheStripe

open SlabProgram Timed

/-! ## The bodies with timers -/

def getTimed (xx : XxHash) (stripe : CacheStripe) (key : Key) :
    Timed SlabProgram (Option Value × CacheStripe) := do
  let lockStart ← now
  let lockEnd ← now
  record fun bd => { bd with lockWaitNs := lockEnd - lockStart }
  let lookupStart ← now
  match stripe.indexMap.lookup key with
  | none => do
      let stats := { stripe.stats with misses := stripe.stats.misses + 1 }
      let lookupEnd ← now
      record fun bd => { bd with lookupNs := lookupEnd - lookupStart }
      return (none, { stripe with stats })
  | some idx => do
      let stripe := { stripe with cms := stripe.cms.increment xx key }
      let node ← SlabProgram.node idx
      let stripe ← (match node.segment with
        | .window => do
            let windowLru ← stripe.windowLru.moveToFront idx
            return { stripe with windowLru }
        | .probation => stripe.promoteToProtected idx
        | .protected_ => do
            let protectedLru ← stripe.protectedLru.moveToFront idx
            return { stripe with protectedLru }
        | .free | .l2 => return stripe : Timed SlabProgram CacheStripe)
      let lookupEnd ← now
      record fun bd => { bd with lookupNs := lookupEnd - lookupStart }
      let stats := { stripe.stats with hits := stripe.stats.hits + 1 }
      let node ← SlabProgram.node idx
      return (some node.value, { stripe with stats })

/-- The contest of `try_admit_from_window` with its two timers. -/
def contestTimed (xx : XxHash) (stripe : CacheStripe) (candidateIdx : Nat) :
    Timed SlabProgram CacheStripe := do
  let admitStart ← startTimer
  let victimIdx := stripe.probationLru.peekBack
  let candidate ← SlabProgram.node candidateIdx
  let victim ← SlabProgram.node victimIdx
  let candidateFreq := stripe.cms.estimate xx candidate.key
  let victimFreq := stripe.cms.estimate xx victim.key
  stopTimer admitStart fun ns bd =>
    { bd with admissionNs := bd.admissionNs + ns }
  if candidateFreq > victimFreq then do
    let evictStart ← startTimer
    let (_, probationLru) ← stripe.probationLru.popBack
    let stripe := { stripe with probationLru }
    let stripe ← stripe.demoteVictim xx victimIdx
    modifyNode candidateIdx fun node => { node with segment := .probation }
    let probationLru ← stripe.probationLru.pushFront candidateIdx
    stopTimer evictStart fun ns bd =>
      { bd with evictionNs := bd.evictionNs + ns }
    let stats := { stripe.stats with admissions := stripe.stats.admissions + 1 }
    return { stripe with probationLru, stats }
  else
    stripe.rejectCandidate candidateIdx

def tryAdmitFromWindowTimed (xx : XxHash) (stripe : CacheStripe) :
    Timed SlabProgram CacheStripe := do
  let (candidateIdx, windowLru) ← stripe.windowLru.popBack
  if candidateIdx = kInvalidIndex then
    return stripe
  else
    let stripe := { stripe with windowLru }
    let mainSize := stripe.probationLru.size + stripe.protectedLru.size
    if mainSize < stripe.config.mainCapacity then
      stripe.admitCandidate candidateIdx
    else if stripe.probationLru.empty then
      stripe.rejectCandidate candidateIdx
    else
      stripe.contestTimed xx candidateIdx

def shrinkWindowTimed (xx : XxHash) :
    Nat → CacheStripe → Timed SlabProgram CacheStripe
  | rounds, stripe =>
      if stripe.config.windowCapacity < stripe.windowLru.size then
        match rounds with
        | 0 => (fault : SlabProgram CacheStripe)
        | rounds + 1 => do
            let stripe ← stripe.tryAdmitFromWindowTimed xx
            shrinkWindowTimed xx rounds stripe
      else
        return stripe

def insertIntoWindowTimed (xx : XxHash) (stripe : CacheStripe) (idx : Nat) :
    Timed SlabProgram CacheStripe := do
  let windowLru ← stripe.windowLru.pushFront idx
  let stripe := { stripe with windowLru }
  stripe.shrinkWindowTimed xx windowLru.size

def putTimed (xx : XxHash) (stripe : CacheStripe) (key : Key) (value : Value) :
    Timed SlabProgram (Bool × CacheStripe) := do
  let lockStart ← now
  let lockEnd ← now
  record fun bd => { bd with lockWaitNs := lockEnd - lockStart }
  let stripe := { stripe with cms := stripe.cms.increment xx key }
  let stripe := stripe.maybeDecayCms
  let lookupStart ← now
  match stripe.indexMap.lookup key with
  | some idx => do
      modifyNode idx fun node => { node with value := value }
      let node ← SlabProgram.node idx
      let stripe ← (match node.segment with
        | .window => do
            let windowLru ← stripe.windowLru.moveToFront idx
            return { stripe with windowLru }
        | .probation => stripe.promoteToProtected idx
        | .protected_ => do
            let protectedLru ← stripe.protectedLru.moveToFront idx
            return { stripe with protectedLru }
        | .free | .l2 => return stripe : Timed SlabProgram CacheStripe)
      let lookupEnd ← now
      record fun bd => { bd with lookupNs := lookupEnd - lookupStart }
      return (false, stripe)
  | none => do
      let lookupEnd ← now
      record fun bd => { bd with lookupNs := lookupEnd - lookupStart }
      let slabStart ← now
      let idx ← allocate
      let slabEnd ← now
      record fun bd => { bd with slabNs := slabEnd - slabStart }
      if idx = kInvalidIndex then
        return (false, stripe)
      else
        modifyNode idx fun node =>
          { node with key := key, value := value, segment := .window }
        let stripe := { stripe with indexMap := stripe.indexMap.insert key idx }
        let stripe ← stripe.insertIntoWindowTimed xx idx
        return (true, stripe)

/-! ## Both bodies -/

def getWith (xx : XxHash) (stripe : CacheStripe) (key : Key) :
    Timed SlabProgram (Option Value × CacheStripe) := do
  if ← hasBreakdown then stripe.getTimed xx key else stripe.get xx key

def putWith (xx : XxHash) (stripe : CacheStripe) (key : Key) (value : Value) :
    Timed SlabProgram (Bool × CacheStripe) := do
  if ← hasBreakdown then stripe.putTimed xx key value
  else stripe.put xx key value

/-! ## The timers do not change what happens -/

theorem switch_erases (stripe : CacheStripe) (idx : Nat) (segment : Segment) :
    Erases (match segment with
        | .window => do
            let windowLru ← stripe.windowLru.moveToFront idx
            return { stripe with windowLru }
        | .probation => stripe.promoteToProtected idx
        | .protected_ => do
            let protectedLru ← stripe.protectedLru.moveToFront idx
            return { stripe with protectedLru }
        | .free | .l2 => return stripe : Timed SlabProgram CacheStripe)
      (match segment with
        | .window => do
            let windowLru ← stripe.windowLru.moveToFront idx
            return { stripe with windowLru }
        | .probation => stripe.promoteToProtected idx
        | .protected_ => do
            let protectedLru ← stripe.protectedLru.moveToFront idx
            return { stripe with protectedLru }
        | .free | .l2 => return stripe) := by
  cases segment with
  | window => exact (Erases.lift _).bind fun _ => .pure _
  | probation => exact .lift _
  | protected_ => exact (Erases.lift _).bind fun _ => .pure _
  | free => exact .pure _
  | l2 => exact .pure _

theorem getTimed_erases (xx : XxHash) (stripe : CacheStripe) (key : Key) :
    Erases (stripe.getTimed xx key) (stripe.get xx key) := by
  unfold getTimed get
  apply Erases.note now_silent
  intro lockStart
  apply erases_clocked
  intro lockEnd
  apply Erases.note now_silent
  intro lookupStart
  cases stripe.indexMap.lookup key with
  | none =>
      apply erases_clocked
      intro lookupEnd
      exact .pure _
  | some idx =>
      dsimp only
      rw [promoteWithinSegment, bind_assoc]
      apply (Erases.lift _).bind
      intro node
      have switch := switch_erases
        { stripe with cms := stripe.cms.increment xx key } idx node.segment
      apply switch.bind
      intro stripe
      apply erases_clocked
      intro lookupEnd
      apply (Erases.lift _).bind
      intro node
      exact .pure _

theorem contestTimed_erases (xx : XxHash) (stripe : CacheStripe)
    (candidateIdx : Nat) :
    Erases (stripe.contestTimed xx candidateIdx)
      (stripe.contest xx candidateIdx) := by
  unfold contestTimed contest
  apply Erases.note startTimer_silent
  intro admitStart
  apply (Erases.lift _).bind
  intro candidate
  apply (Erases.lift _).bind
  intro victim
  apply Erases.note (stopTimer_silent _ _)
  intro _
  split
  · apply Erases.note startTimer_silent
    intro evictStart
    apply (Erases.lift _).bind
    rintro ⟨_, probationLru⟩
    apply (Erases.lift _).bind
    intro stripe
    apply (Erases.lift _).bind
    intro _
    apply (Erases.lift _).bind
    intro probationLru
    apply Erases.note (stopTimer_silent _ _)
    intro _
    exact .pure _
  · exact .lift _

theorem tryAdmitFromWindowTimed_erases (xx : XxHash) (stripe : CacheStripe) :
    Erases (stripe.tryAdmitFromWindowTimed xx)
      (stripe.tryAdmitFromWindow xx) := by
  unfold tryAdmitFromWindowTimed tryAdmitFromWindow
  apply (Erases.lift _).bind
  rintro ⟨candidateIdx, windowLru⟩
  dsimp only
  split
  · exact .pure _
  · split
    · exact .lift _
    · split
      · exact .lift _
      · exact contestTimed_erases xx _ candidateIdx

theorem shrinkWindowTimed_erases (xx : XxHash) (rounds : Nat)
    (stripe : CacheStripe) :
    Erases (stripe.shrinkWindowTimed xx rounds)
      (stripe.shrinkWindow xx rounds) := by
  induction rounds generalizing stripe with
  | zero =>
      unfold shrinkWindowTimed shrinkWindow
      split
      · exact .lift _
      · exact .pure _
  | succ rounds induction =>
      unfold shrinkWindowTimed shrinkWindow
      split
      · exact (tryAdmitFromWindowTimed_erases xx stripe).bind induction
      · exact .pure _

theorem insertIntoWindowTimed_erases (xx : XxHash) (stripe : CacheStripe)
    (idx : Nat) :
    Erases (stripe.insertIntoWindowTimed xx idx)
      (stripe.insertIntoWindow xx idx) := by
  apply (Erases.lift _).bind
  intro windowLru
  exact shrinkWindowTimed_erases xx windowLru.size _

theorem putTimed_erases (xx : XxHash) (stripe : CacheStripe) (key : Key)
    (value : Value) :
    Erases (stripe.putTimed xx key value) (stripe.put xx key value) := by
  unfold putTimed put
  apply Erases.note now_silent
  intro lockStart
  apply erases_clocked
  intro lockEnd
  apply Erases.note now_silent
  intro lookupStart
  dsimp only
  generalize { stripe with cms := stripe.cms.increment xx key }.maybeDecayCms =
    counted
  cases counted.indexMap.lookup key with
  | some idx =>
      apply (Erases.lift _).bind
      intro _
      rw [promoteWithinSegment, bind_assoc]
      apply (Erases.lift _).bind
      intro node
      apply (switch_erases counted idx node.segment).bind
      intro stripe
      apply erases_clocked
      intro lookupEnd
      exact .pure _
  | none =>
      unfold insertNew
      apply erases_clocked
      intro lookupEnd
      apply Erases.note now_silent
      intro slabStart
      apply (Erases.lift _).bind
      intro idx
      apply erases_clocked
      intro slabEnd
      split
      · exact .pure _
      · apply (Erases.lift _).bind
        intro _
        apply (insertIntoWindowTimed_erases xx _ idx).bind
        intro stripe
        exact .pure _

theorem getWith_erases (xx : XxHash) (stripe : CacheStripe) (key : Key) :
    Erases (stripe.getWith xx key) (stripe.get xx key) :=
  erases_of_both (getTimed_erases xx stripe key) (.lift _)

theorem putWith_erases (xx : XxHash) (stripe : CacheStripe) (key : Key)
    (value : Value) :
    Erases (stripe.putWith xx key value) (stripe.put xx key value) :=
  erases_of_both (putTimed_erases xx stripe key value) (.lift _)

end CacheStripe

end Walde
