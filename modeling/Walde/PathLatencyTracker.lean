import Walde.LatencyHistogram
import Walde.TimedStripe

namespace Walde

open Foundation.OrderStatistics

/-! # The latencies of the stages and of the paths

Every client records its breakdowns in twelve histograms of its own, and the
histograms of all clients are merged. -/

/-- `record` under the test `if (ns > 0)`. -/
def LatencyHistogram.recordPositive (histogram : LatencyHistogram) (ns : Int) :
    Option LatencyHistogram :=
  if ns > 0 then histogram.record ns else some histogram

structure PathLatencyTracker where
  total : LatencyHistogram
  lockWait : LatencyHistogram
  lookup : LatencyHistogram
  admission : LatencyHistogram
  eviction : LatencyHistogram
  l2 : LatencyHistogram
  backend : LatencyHistogram
  slab : LatencyHistogram
  l1Hit : LatencyHistogram
  l2Hit : LatencyHistogram
  backendHit : LatencyHistogram
  fullMiss : LatencyHistogram

namespace PathLatencyTracker

def new : PathLatencyTracker where
  total := .new
  lockWait := .new
  lookup := .new
  admission := .new
  eviction := .new
  l2 := .new
  backend := .new
  slab := .new
  l1Hit := .new
  l2Hit := .new
  backendHit := .new
  fullMiss := .new

def record (tracker : PathLatencyTracker) (bd : LatencyBreakdown) :
    Option PathLatencyTracker := do
  let total ← tracker.total.record bd.totalNs
  let lockWait ← tracker.lockWait.record bd.lockWaitNs
  let lookup ← tracker.lookup.record bd.lookupNs
  let slab ← tracker.slab.record bd.slabNs
  let admission ← tracker.admission.recordPositive bd.admissionNs
  let eviction ← tracker.eviction.recordPositive bd.evictionNs
  let l2 ← tracker.l2.recordPositive bd.l2Ns
  let backend ← tracker.backend.recordPositive bd.backendNs
  let tracker := { tracker with
    total, lockWait, lookup, slab, admission, eviction, l2, backend }
  match bd.path with
  | .l1Hit => do
      return { tracker with l1Hit := ← tracker.l1Hit.record bd.totalNs }
  | .l2Hit => do
      return { tracker with l2Hit := ← tracker.l2Hit.record bd.totalNs }
  | .backendHit => do
      return { tracker with
        backendHit := ← tracker.backendHit.record bd.totalNs }
  | .miss => do
      return { tracker with fullMiss := ← tracker.fullMiss.record bd.totalNs }

def merge (tracker other : PathLatencyTracker) : Option PathLatencyTracker := do
  return {
    total := ← tracker.total.merge other.total
    lockWait := ← tracker.lockWait.merge other.lockWait
    lookup := ← tracker.lookup.merge other.lookup
    admission := ← tracker.admission.merge other.admission
    eviction := ← tracker.eviction.merge other.eviction
    l2 := ← tracker.l2.merge other.l2
    backend := ← tracker.backend.merge other.backend
    slab := ← tracker.slab.merge other.slab
    l1Hit := ← tracker.l1Hit.merge other.l1Hit
    l2Hit := ← tracker.l2Hit.merge other.l2Hit
    backendHit := ← tracker.backendHit.merge other.backendHit
    fullMiss := ← tracker.fullMiss.merge other.fullMiss }

end PathLatencyTracker

structure PublishedLatencies where
  total : PathLatency
  l1HitPath : PathLatency
  l2HitPath : PathLatency
  backendHitPath : PathLatency
  lockWait : PathLatency
  lookup : PathLatency
  admission : PathLatency
  eviction : PathLatency
  l2Access : PathLatency
  backendAccess : PathLatency
  slabAlloc : PathLatency

def PublishedLatencies.populateFromTracker (tracker : PathLatencyTracker) :
    Option PublishedLatencies := do
  return {
    total := ← PathLatency.fromHistogram tracker.total
    l1HitPath := ← PathLatency.fromHistogram tracker.l1Hit
    l2HitPath := ← PathLatency.fromHistogram tracker.l2Hit
    backendHitPath := ← PathLatency.fromHistogram tracker.backendHit
    lockWait := ← PathLatency.fromHistogram tracker.lockWait
    lookup := ← PathLatency.fromHistogram tracker.lookup
    admission := ← PathLatency.fromHistogram tracker.admission
    eviction := ← PathLatency.fromHistogram tracker.eviction
    l2Access := ← PathLatency.fromHistogram tracker.l2
    backendAccess := ← PathLatency.fromHistogram tracker.backend
    slabAlloc := ← PathLatency.fromHistogram tracker.slab }

/-! ## Channels -/

/-- One of the histograms of a tracker. -/
inductive Channel
  | total
  | lockWait
  | lookup
  | admission
  | eviction
  | l2
  | backend
  | slab
  | path (path : LatencyPath)
deriving DecidableEq, Repr

theorem Channel.forall_iff {holds : Channel → Prop} :
    (∀ channel, holds channel) ↔
      holds .total ∧ holds .lockWait ∧ holds .lookup ∧ holds .slab ∧
        holds .admission ∧ holds .eviction ∧ holds .l2 ∧ holds .backend ∧
        holds (.path .l1Hit) ∧ holds (.path .l2Hit) ∧
        holds (.path .backendHit) ∧ holds (.path .miss) := by
  constructor
  · intro all
    simp only [all, and_self]
  · rintro ⟨total, lockWait, lookup, slab, admission, eviction, l2, backend,
      l1Hit, l2Hit, backendHit, miss⟩ channel
    cases channel with
    | path path => cases path <;> assumption
    | _ => assumption

namespace PathLatencyTracker

def histogram (tracker : PathLatencyTracker) : Channel → LatencyHistogram
  | .total => tracker.total
  | .lockWait => tracker.lockWait
  | .lookup => tracker.lookup
  | .admission => tracker.admission
  | .eviction => tracker.eviction
  | .l2 => tracker.l2
  | .backend => tracker.backend
  | .slab => tracker.slab
  | .path .l1Hit => tracker.l1Hit
  | .path .l2Hit => tracker.l2Hit
  | .path .backendHit => tracker.backendHit
  | .path .miss => tracker.fullMiss

end PathLatencyTracker

def LatencyBreakdown.part (bd : LatencyBreakdown) : Channel → Option Int
  | .total => some bd.totalNs
  | .lockWait => some bd.lockWaitNs
  | .lookup => some bd.lookupNs
  | .slab => some bd.slabNs
  | .admission => if bd.admissionNs > 0 then some bd.admissionNs else none
  | .eviction => if bd.evictionNs > 0 then some bd.evictionNs else none
  | .l2 => if bd.l2Ns > 0 then some bd.l2Ns else none
  | .backend => if bd.backendNs > 0 then some bd.backendNs else none
  | .path path => if bd.path = path then some bd.totalNs else none

namespace LatencyHistogram

def recordPart (histogram : LatencyHistogram) :
    Option Int → Option LatencyHistogram
  | some ns => histogram.record ns
  | none => some histogram

theorem recordPositive_eq (histogram : LatencyHistogram) (ns : Int) :
    histogram.recordPositive ns =
      histogram.recordPart (if ns > 0 then some ns else none) := by
  rw [recordPositive]
  split <;> rfl

end LatencyHistogram

namespace PathLatencyTracker

theorem record_eq_some {tracker after : PathLatencyTracker}
    {bd : LatencyBreakdown} :
    tracker.record bd = some after ↔ ∀ channel,
      (tracker.histogram channel).recordPart (bd.part channel) =
        some (after.histogram channel) := by
  rcases after with ⟨⟩
  rcases bd with ⟨totalNs, _, _, _, _, _, _, _, path⟩
  simp only [Channel.forall_iff]
  cases path <;>
    simp only [record, LatencyHistogram.recordPositive_eq,
      LatencyHistogram.recordPart, Option.pure_def, Option.bind_eq_bind,
      Option.bind_eq_some_iff, Option.some.injEq, mk.injEq, ↓existsAndEq,
      LatencyBreakdown.part, histogram, reduceCtorEq, ↓reduceIte] <;>
    tauto

theorem merge_eq_some {tracker other after : PathLatencyTracker} :
    tracker.merge other = some after ↔ ∀ channel,
      (tracker.histogram channel).merge (other.histogram channel) =
        some (after.histogram channel) := by
  rcases after with ⟨⟩
  simp only [Channel.forall_iff]
  simp only [merge, Option.pure_def, Option.bind_eq_bind,
    Option.bind_eq_some_iff, Option.some.injEq, mk.injEq, ↓existsAndEq,
    histogram]
  tauto

def assemble (histograms : Channel → LatencyHistogram) : PathLatencyTracker where
  total := histograms .total
  lockWait := histograms .lockWait
  lookup := histograms .lookup
  admission := histograms .admission
  eviction := histograms .eviction
  l2 := histograms .l2
  backend := histograms .backend
  slab := histograms .slab
  l1Hit := histograms (.path .l1Hit)
  l2Hit := histograms (.path .l2Hit)
  backendHit := histograms (.path .backendHit)
  fullMiss := histograms (.path .miss)

theorem histogram_assemble (histograms : Channel → LatencyHistogram) :
    (assemble histograms).histogram = histograms := by
  funext channel
  cases channel with
  | path path => cases path <;> rfl
  | _ => rfl

theorem assemble_histogram (tracker : PathLatencyTracker) :
    assemble tracker.histogram = tracker := rfl

end PathLatencyTracker

/-! ## Many clients -/

inductive TrackerRecording
  | fresh
  | record (recording : TrackerRecording) (bd : LatencyBreakdown)
  | merge (recording other : TrackerRecording)

namespace TrackerRecording

open LatencyHistogram

def tracker : TrackerRecording → Option PathLatencyTracker
  | .fresh => some .new
  | .record recording bd => do (← recording.tracker).record bd
  | .merge recording other => do (← recording.tracker).merge (← other.tracker)

def breakdowns : TrackerRecording → List LatencyBreakdown
  | .fresh => []
  | .record recording bd => bd :: recording.breakdowns
  | .merge recording other => recording.breakdowns ++ other.breakdowns

def along (channel : Channel) : TrackerRecording → Recording
  | .fresh => .fresh
  | .record recording bd =>
      match bd.part channel with
      | some ns => (recording.along channel).record ns
      | none => recording.along channel
  | .merge recording other =>
      .merge (recording.along channel) (other.along channel)

def parts (channel : Channel) (breakdowns : List LatencyBreakdown) : List Int :=
  breakdowns.filterMap fun bd => bd.part channel

theorem values_along (channel : Channel) (recording : TrackerRecording) :
    (recording.along channel).values = parts channel recording.breakdowns := by
  induction recording with
  | fresh => rfl
  | record recording bd induction =>
      rw [along, parts, breakdowns, List.filterMap_cons]
      cases bd.part channel with
      | none => exact induction
      | some ns => exact congrArg (ns :: ·) induction
  | merge recording other induction induction' =>
      rw [along, parts, breakdowns, List.filterMap_append]
      exact congrArg₂ (· ++ ·) induction induction'

theorem histogram_along_record (channel : Channel)
    (recording : TrackerRecording) (bd : LatencyBreakdown) :
    ((recording.record bd).along channel).histogram =
      (recording.along channel).histogram.bind fun histogram =>
        histogram.recordPart (bd.part channel) := by
  rw [along]
  cases bd.part channel with
  | none => exact (Option.bind_fun_some _).symm
  | some ns => rfl

/-- A tracker is its histograms, each recorded and merged on its own. -/
theorem tracker_eq_some {recording : TrackerRecording}
    {tracker : PathLatencyTracker} :
    recording.tracker = some tracker ↔ ∀ channel,
      (recording.along channel).histogram =
        some (tracker.histogram channel) := by
  induction recording generalizing tracker with
  | fresh =>
      constructor
      · intro made channel
        cases made
        cases channel with
        | path path => cases path <;> rfl
        | _ => rfl
      · intro all
        have same : tracker.histogram = fun _ => .new :=
          funext fun channel => (Option.some.inj (all channel)).symm
        rw [← tracker.assemble_histogram, same]
        rfl
  | record recording bd induction =>
      rw [TrackerRecording.tracker, Option.bind_eq_bind, Option.bind_eq_some_iff]
      constructor
      · rintro ⟨before, made, recorded⟩ channel
        rw [histogram_along_record, induction.mp made channel, Option.bind_some]
        exact PathLatencyTracker.record_eq_some.mp recorded channel
      · intro all
        have each : ∀ channel, ∃ histogram,
            (recording.along channel).histogram = some histogram ∧
            histogram.recordPart (bd.part channel) =
              some (tracker.histogram channel) := by
          intro channel
          have here := all channel
          rw [histogram_along_record] at here
          exact Option.bind_eq_some_iff.mp here
        choose histograms made recorded using each
        refine ⟨.assemble histograms, induction.mpr ?_,
          PathLatencyTracker.record_eq_some.mpr ?_⟩
        · rwa [PathLatencyTracker.histogram_assemble]
        · rwa [PathLatencyTracker.histogram_assemble]
  | merge recording other induction induction' =>
      simp only [TrackerRecording.tracker, Option.bind_eq_bind,
        Option.bind_eq_some_iff]
      constructor
      · rintro ⟨left, madeLeft, right, madeRight, merged⟩ channel
        rw [along, Recording.histogram, induction.mp madeLeft channel,
          induction'.mp madeRight channel]
        exact PathLatencyTracker.merge_eq_some.mp merged channel
      · intro all
        have each : ∀ channel, ∃ left,
            (recording.along channel).histogram = some left ∧ ∃ right,
            (other.along channel).histogram = some right ∧
            left.merge right = some (tracker.histogram channel) := by
          intro channel
          have here := all channel
          rw [along, Recording.histogram] at here
          rcases Option.bind_eq_some_iff.mp here with ⟨left, madeLeft, here⟩
          exact ⟨left, madeLeft, Option.bind_eq_some_iff.mp here⟩
        choose left madeLeft right madeRight merged using each
        refine ⟨.assemble left, induction.mpr ?_, .assemble right,
          induction'.mpr ?_, PathLatencyTracker.merge_eq_some.mpr ?_⟩
        · rwa [PathLatencyTracker.histogram_assemble]
        · rwa [PathLatencyTracker.histogram_assemble]
        · simpa only [PathLatencyTracker.histogram_assemble] using merged

/-- The times of a breakdown that are recorded are in the range of the
histograms. -/
def InRange (recording : TrackerRecording) : Prop :=
  ∀ channel, ∀ ns ∈ parts channel recording.breakdowns,
    LatencyHistogram.InRange ns

section Merged

variable {recording other : TrackerRecording}

theorem InRange.perm (range : recording.InRange)
    (same : recording.breakdowns.Perm other.breakdowns) : other.InRange := by
  intro channel ns member
  exact range channel ns ((same.filterMap _).mem_iff.mpr member)

theorem InRange.histogram_along (range : recording.InRange) (channel : Channel) :
    (recording.along channel).histogram =
      if (parts channel recording.breakdowns).sum < 2 ^ 63 then
        some (summary (parts channel recording.breakdowns))
      else none := by
  rw [← values_along]
  apply Recording.histogram_eq
  rw [values_along]
  exact range channel

/-- However many clients record the same breakdowns, in whatever order, and
however their trackers are merged: the tracker is the same, or overflows. -/
theorem tracker_perm (range : recording.InRange)
    (same : recording.breakdowns.Perm other.breakdowns) :
    recording.tracker = other.tracker := by
  apply Option.ext
  intro tracker
  rw [tracker_eq_some, tracker_eq_some]
  apply forall_congr'
  intro channel
  have parts' : (parts channel recording.breakdowns).Perm
      (parts channel other.breakdowns) := same.filterMap _
  rw [range.histogram_along, (range.perm same).histogram_along, parts'.sum_eq,
    summary_perm parts']

theorem tracker_perm_sample :
    ((fresh.record { totalNs := 250, path := .l1Hit }).merge
        (fresh.record { totalNs := 900, l2Ns := 40, path := .l2Hit })).tracker =
      ((fresh.record { totalNs := 250, path := .l1Hit }).record
        { totalNs := 900, l2Ns := 40, path := .l2Hit }).tracker := by
  apply tracker_perm
  · rw [InRange, Channel.forall_iff]
    simp [parts, breakdowns, LatencyBreakdown.part, LatencyHistogram.InRange]
  · exact .swap _ _ _

end Merged

end TrackerRecording

/-! ## What is published -/

namespace PublishedLatencies

/-- The latencies of a channel. Those of full misses are not published. -/
def along (published : PublishedLatencies) : Channel → Option PathLatency
  | .total => some published.total
  | .lockWait => some published.lockWait
  | .lookup => some published.lookup
  | .admission => some published.admission
  | .eviction => some published.eviction
  | .l2 => some published.l2Access
  | .backend => some published.backendAccess
  | .slab => some published.slabAlloc
  | .path .l1Hit => some published.l1HitPath
  | .path .l2Hit => some published.l2HitPath
  | .path .backendHit => some published.backendHitPath
  | .path .miss => none

theorem populateFromTracker_along {tracker : PathLatencyTracker}
    {published : PublishedLatencies}
    (populated : populateFromTracker tracker = some published)
    {channel : Channel} {latency : PathLatency}
    (here : published.along channel = some latency) :
    PathLatency.fromHistogram (tracker.histogram channel) = some latency := by
  rcases published with ⟨⟩
  simp only [populateFromTracker, Option.pure_def, Option.bind_eq_bind,
    Option.bind_eq_some_iff, Option.some.injEq, mk.injEq, ↓existsAndEq,
    and_true] at populated
  cases channel with
  | path path =>
      cases path <;> cases here <;>
        simp only [PathLatencyTracker.histogram, populated]
  | _ =>
      cases here
      simp only [PathLatencyTracker.histogram, populated]

/-- The published figures against the calls that were recorded. -/
structure AddsUp (published : PublishedLatencies)
    (breakdowns : List LatencyBreakdown) : Prop where
  stages : ∀ channel latency, published.along channel = some latency →
    latency.count = (TrackerRecording.parts channel breakdowns).length ∧
      latency.mean * latency.count =
        (TrackerRecording.parts channel breakdowns).sum / 1000
  calls : published.total.count = breakdowns.length
  paths : published.l1HitPath.count + published.l2HitPath.count +
      published.backendHitPath.count +
      (TrackerRecording.parts (.path .miss) breakdowns).length =
    published.total.count
  times : published.l1HitPath.mean * published.l1HitPath.count +
      published.l2HitPath.mean * published.l2HitPath.count +
      published.backendHitPath.mean * published.backendHitPath.count +
      (TrackerRecording.parts (.path .miss) breakdowns).sum / 1000 =
    published.total.mean * published.total.count

end PublishedLatencies

namespace LatencyHistogram

theorem fromHistogram_counts {values : List Int} {latency : PathLatency}
    (few : values.length < uint64Size)
    (made : PathLatency.fromHistogram (summary values) = some latency) :
    latency.count = values.length ∧
      latency.mean * latency.count = values.sum / 1000 := by
  simp only [PathLatency.fromHistogram, Option.bind_eq_bind,
    Option.bind_eq_some_iff, Option.some.injEq] at made
  rcases made with ⟨_, -, _, -, _, -, _, -, rfl⟩
  have count : (summary values).totalCount = values.length :=
    Nat.mod_eq_of_lt few
  refine ⟨count, ?_⟩
  simp only [LatencyHistogram.count, meanUs, count]
  by_cases empty : values = []
  · simp [empty]
  · have nonzero : (values.length : ℚ) ≠ 0 := by
      exact_mod_cast mt List.length_eq_zero_iff.mp empty
    have positive : values.length ≠ 0 := by exact_mod_cast nonzero
    rw [if_neg positive]
    change ((values.sum : Int) : ℚ) / values.length / 1000 * values.length = _
    field_simp

end LatencyHistogram

namespace TrackerRecording

theorem parts_paths (breakdowns : List LatencyBreakdown) :
    (parts (.path .l1Hit) breakdowns ++ parts (.path .l2Hit) breakdowns ++
        parts (.path .backendHit) breakdowns ++
        parts (.path .miss) breakdowns).Perm
      (parts .total breakdowns) := by
  induction breakdowns with
  | nil => exact .refl _
  | cons bd rest induction =>
      rw [List.perm_iff_count] at induction ⊢
      intro ns
      have counted := induction ns
      simp only [List.count_append] at counted ⊢
      cases path : bd.path <;>
        simp only [parts, List.filterMap_cons, LatencyBreakdown.part, path,
          reduceCtorEq, ↓reduceIte, List.count_cons] at counted ⊢ <;>
        omega

theorem length_parts_total (breakdowns : List LatencyBreakdown) :
    (parts .total breakdowns).length = breakdowns.length := by
  rw [parts, ← List.length_map LatencyBreakdown.totalNs]
  exact congrArg List.length (congrFun List.filterMap_eq_map' _)

theorem published_stage {recording : TrackerRecording}
    {tracker : PathLatencyTracker} {published : PublishedLatencies}
    (range : recording.InRange)
    (few : recording.breakdowns.length < uint64Size)
    (made : recording.tracker = some tracker)
    (populated : PublishedLatencies.populateFromTracker tracker =
      some published) (channel : Channel) (latency : PathLatency)
    (here : published.along channel = some latency) :
    latency.count = (parts channel recording.breakdowns).length ∧
      latency.mean * latency.count =
        (parts channel recording.breakdowns).sum / 1000 := by
  have histogram := tracker_eq_some.mp made channel
  rw [range.histogram_along] at histogram
  split at histogram
  · have summarised := Option.some.inj histogram
    apply LatencyHistogram.fromHistogram_counts
    · exact (List.length_filterMap_le _ _).trans_lt few
    · rw [summarised]
      exact PublishedLatencies.populateFromTracker_along populated here
  · cases histogram

/-- What is published adds up: every stage counts the calls in which it took
any time, and the calls of the published paths and the full misses are all
calls. -/
theorem published_adds_up {recording : TrackerRecording}
    {tracker : PathLatencyTracker} {published : PublishedLatencies}
    (range : recording.InRange)
    (few : recording.breakdowns.length < uint64Size)
    (made : recording.tracker = some tracker)
    (populated : PublishedLatencies.populateFromTracker tracker =
      some published) :
    published.AddsUp recording.breakdowns := by
  have stages := published_stage range few made populated
  have total := stages .total _ rfl
  have l1Hit := stages (.path .l1Hit) _ rfl
  have l2Hit := stages (.path .l2Hit) _ rfl
  have backendHit := stages (.path .backendHit) _ rfl
  have paths := parts_paths recording.breakdowns
  constructor
  · exact stages
  · rw [total.1, length_parts_total]
  · rw [l1Hit.1, l2Hit.1, backendHit.1, total.1, ← paths.length_eq]
    simp only [List.length_append]
  · rw [l1Hit.2, l2Hit.2, backendHit.2, total.2, ← paths.sum_eq]
    simp only [List.sum_append]
    push_cast
    ring

theorem published_adds_up_sample :
    ∃ tracker published,
      ((fresh.record { totalNs := 250, path := .l1Hit }).merge
        (fresh.record { totalNs := 900, l2Ns := 40 })).tracker = some tracker ∧
      PublishedLatencies.populateFromTracker tracker = some published ∧
      published.AddsUp [{ totalNs := 250, path := .l1Hit },
        { totalNs := 900, l2Ns := 40 }] := by
  have accepted : (((fresh.record { totalNs := 250, path := .l1Hit }).merge
      (fresh.record { totalNs := 900, l2Ns := 40 })).tracker.bind
        PublishedLatencies.populateFromTracker).isSome = true := by
    decide +kernel
  rcases Option.isSome_iff_exists.mp accepted with ⟨published, ran⟩
  rcases Option.bind_eq_some_iff.mp ran with ⟨tracker, made, populated⟩
  refine ⟨tracker, published, made, populated,
    published_adds_up ?_ (by decide) made populated⟩
  rw [InRange, Channel.forall_iff]
  simp [parts, breakdowns, LatencyBreakdown.part, LatencyHistogram.InRange]

end TrackerRecording

end Walde
