import Mathlib.Tactic.LinearCombination
import Walde.BenchThreads
import Walde.PathLatencyTracker

namespace Walde

open Foundation

/-! # What the benchmarks of the engine publish -/

namespace CacheEngine

def l1Admissions (engine : CacheEngine) : Nat :=
  ∑ i, (engine.l1.stripe i).stats.admissions

def l1Rejections (engine : CacheEngine) : Nat :=
  ∑ i, (engine.l1.stripe i).stats.rejections

end CacheEngine

/-- The results of one benchmark, without its settings and its duration. -/
structure BenchmarkResult where
  totalOps : Nat
  l1HitRate : ℚ
  l2HitRate : ℚ
  l1Hits : Nat
  l1Misses : Nat
  l2Hits : Nat
  admissions : Nat
  rejections : Nat
  evictions : Nat
  latencies : PublishedLatencies

namespace BenchmarkResult

def ofCounts (totalOps benchH1 benchM1 benchH2 admissions rejections
    evictions : Nat) (latencies : PublishedLatencies) : BenchmarkResult where
  totalOps
  l1HitRate := rate benchH1 (benchH1 + benchM1)
  l2HitRate := rate benchH2 benchM1
  l1Hits := benchH1
  l1Misses := benchM1
  l2Hits := benchH2
  admissions
  rejections
  evictions
  latencies

/-- From the counters before and after, to exclude the warm-up. -/
def new (totalOps : Nat) (before after : CacheEngine)
    (latencies : PublishedLatencies) : BenchmarkResult :=
  .ofCounts totalOps (after.l1Hits - before.l1Hits)
    (after.l1Misses - before.l1Misses) (after.l2Hits - before.l2Hits)
    (after.l1Admissions - before.l1Admissions)
    (after.l1Rejections - before.l1Rejections)
    (after.l1Evictions - before.l1Evictions) latencies

section New

variable (totalOps : Nat) (before after : CacheEngine)
  (latencies : PublishedLatencies)

theorem latencies_new :
    (new totalOps before after latencies).latencies = latencies :=
  rfl

theorem l1HitRate_new : (new totalOps before after latencies).l1HitRate =
    rate (after.l1Hits - before.l1Hits) ((after.l1Hits - before.l1Hits) +
      (after.l1Misses - before.l1Misses)) := by
  rw [new, ofCounts]

theorem l2HitRate_new : (new totalOps before after latencies).l2HitRate =
    rate (after.l2Hits - before.l2Hits) (after.l1Misses - before.l1Misses) := by
  rw [new, ofCounts]

end New

/-- A path without samples falls back on all operations. -/
def t1 (result : BenchmarkResult) : ℚ :=
  if result.latencies.l1HitPath.count = 0 then result.latencies.total.p50
  else result.latencies.l1HitPath.p50

def t2 (result : BenchmarkResult) : ℚ :=
  if result.latencies.l2HitPath.count = 0 then result.latencies.total.p95
  else result.latencies.l2HitPath.p50

def tm (result : BenchmarkResult) : ℚ :=
  if result.latencies.backendHitPath.count = 0 then result.latencies.total.p99
  else result.latencies.backendHitPath.p50

/-- The latency model: the medians of the paths, weighted by the hit rates. -/
def expected (result : BenchmarkResult) : ℚ :=
  let h1 := result.l1HitRate
  let h2 := result.l2HitRate
  h1 * result.t1 + (1 - h1) * h2 * result.t2 + (1 - h1) * (1 - h2) * result.tm

theorem expected_mul {result : BenchmarkResult} {hits misses rescued : Nat}
    (within : rescued ≤ misses)
    (l1 : result.l1HitRate = rate hits (hits + misses))
    (l2 : result.l2HitRate = rate rescued misses) :
    result.expected * (hits + misses : Nat) =
      hits * result.t1 + rescued * result.t2 + (misses - rescued) * result.tm := by
  have ofL1 := rate_mul (Nat.le_add_right hits misses)
  have ofL2 := @rest_mul_rate hits misses rescued within
  have whole : ((hits + misses : Nat) : ℚ) = hits + misses := Nat.cast_add _ _
  rw [← l1] at ofL1 ofL2
  rw [← l2] at ofL2
  rw [expected]
  linear_combination result.t1 * ofL1 + result.t2 * ofL2 +
    result.tm * (whole - ofL1 - ofL2)

theorem count_mul_t1 (result : BenchmarkResult) :
    (result.latencies.l1HitPath.count : ℚ) * result.t1 =
      result.latencies.l1HitPath.count * result.latencies.l1HitPath.p50 := by
  rw [t1]
  split
  · rename_i none
    rw [none, Nat.cast_zero, zero_mul, zero_mul]
  · rfl

theorem count_mul_t2 (result : BenchmarkResult) :
    (result.latencies.l2HitPath.count : ℚ) * result.t2 =
      result.latencies.l2HitPath.count * result.latencies.l2HitPath.p50 := by
  rw [t2]
  split
  · rename_i none
    rw [none, Nat.cast_zero, zero_mul, zero_mul]
  · rfl

end BenchmarkResult

/-! ## Runs of a benchmark -/

/-- A benchmark on an engine: its threads warm the engine up, come to rest,
measure their operations and come to rest again. -/
structure BenchRun (Thread : Type) [DecidableEq Thread] (xx : XxHash)
    (config : CacheEngineConfig) (backend : InMemoryBackend) where
  engine : CacheEngine
  made : CacheEngine.new config backend = some engine
  warm : List (Threads.Move Thread BenchCall)
  warmReplies : List (Option (Option Measured))
  before : BenchThreads Thread
  warmed : (BenchThreads.machine xx).run warm (.start engine) =
    some (warmReplies, before)
  beforeAtRest : before.AtRest
  moves : List (Threads.Move Thread BenchCall)
  measuring : ∀ thread op, .enter thread (.warmUp op) ∉ moves
  replies : List (Option (Option Measured))
  after : BenchThreads Thread
  ran : (BenchThreads.machine xx).run moves before = some (replies, after)
  afterAtRest : after.AtRest

namespace BenchRun

variable {Thread : Type} [DecidableEq Thread] {xx : XxHash}
  {config : CacheEngineConfig} {backend : InMemoryBackend}

def ops (run : BenchRun Thread xx config backend) : List BenchOp :=
  BenchThreads.opsOf run.moves

def measured (run : BenchRun Thread xx config backend) : List Measured :=
  BenchThreads.measuredOf run.replies

def reads (run : BenchRun Thread xx config backend) : Nat :=
  run.ops.countP BenchOp.isRead

def took (run : BenchRun Thread xx config backend) (path : LatencyPath) : Nat :=
  run.measured.countP fun outcome => outcome.path = path

/-- What is measured if the moves lead from rest to rest. -/
def attempt [Fintype Thread] (xx : XxHash) (config : CacheEngineConfig)
    (backend : InMemoryBackend) (warm moves : List (Threads.Move Thread BenchCall)) :
    Option (List Measured) := do
  let engine ← CacheEngine.new config backend
  let (_, before) ← (BenchThreads.machine xx).run warm (.start engine)
  if before.AtRest then
    let (replies, after) ← (BenchThreads.machine xx).run moves before
    if after.AtRest then return BenchThreads.measuredOf replies else none
  else none

theorem of_attempt [Fintype Thread]
    {warm moves : List (Threads.Move Thread BenchCall)}
    {outcomes : List Measured}
    (completes : attempt xx config backend warm moves = some outcomes)
    (measuring : ∀ thread op, .enter thread (.warmUp op) ∉ moves) :
    ∃ run : BenchRun Thread xx config backend,
      run.warm = warm ∧ run.moves = moves ∧ run.measured = outcomes := by
  rcases Option.bind_eq_some_iff.mp completes with ⟨engine, made, completes⟩
  rcases Option.bind_eq_some_iff.mp completes with
    ⟨⟨warmReplies, before⟩, warmed, completes⟩
  dsimp only at completes
  split at completes
  · rename_i beforeAtRest
    rcases Option.bind_eq_some_iff.mp completes with
      ⟨⟨replies, after⟩, ran, completes⟩
    dsimp only at completes
    split at completes
    · rename_i afterAtRest
      cases completes
      exact ⟨⟨engine, made, warm, warmReplies, before, warmed, beforeAtRest,
        moves, measuring, replies, after, ran, afterAtRest⟩, rfl, rfl, rfl⟩
    · cases completes
  · cases completes

section Counts

variable (run : BenchRun Thread xx config backend)

theorem ops_perm : (run.measured.map Measured.op).Perm run.ops :=
  BenchThreads.measured_ops_perm run.made run.warmed run.ran run.beforeAtRest
    run.afterAtRest

theorem counted (counter : LookupCounter) : counter.value run.after.shared =
    counter.value run.before.shared +
      run.measured.countP counter.countsMeasured :=
  BenchThreads.counter_eq_of_run run.made run.warmed run.ran run.beforeAtRest
    run.afterAtRest run.measuring counter

theorem path_of_read {outcome : Measured} (member : outcome ∈ run.measured)
    (read : outcome.op.isRead = true)
    (known : run.before.shared.backend.lookup outcome.op.key ≠ none) :
    outcome.path ≠ .miss :=
  (BenchThreads.path_of_measured run.made run.warmed run.ran run.beforeAtRest
    run.afterAtRest member).1 read known

theorem path_of_write {outcome : Measured} (member : outcome ∈ run.measured)
    (write : outcome.op.isRead = false) : outcome.path = .miss :=
  (BenchThreads.path_of_measured run.made run.warmed run.ran run.beforeAtRest
    run.afterAtRest member).2 write

theorem reads_eq :
    run.reads = run.measured.countP fun outcome => outcome.op.isRead := by
  rw [reads, ← run.ops_perm.countP_eq, List.countP_map]
  rfl

theorem l1Hits_add_l1Misses :
    (run.after.shared.l1Hits - run.before.shared.l1Hits) +
        (run.after.shared.l1Misses - run.before.shared.l1Misses) =
      run.reads := by
  have hits : run.after.shared.l1Hits = run.before.shared.l1Hits + _ :=
    run.counted .l1Hits
  have misses : run.after.shared.l1Misses = run.before.shared.l1Misses + _ :=
    run.counted .l1Misses
  rw [hits, misses, Nat.add_sub_cancel_left, Nat.add_sub_cancel_left,
    run.reads_eq]
  apply Machine.countP_split
  intro outcome _
  rw [LookupCounter.countsMeasured, LookupCounter.countsMeasured]
  cases outcome.op.isRead <;> cases outcome.path <;> rfl

theorem took_eq (path : LatencyPath) (hit : path ≠ .miss) : run.took path =
    run.measured.countP fun outcome =>
      outcome.op.isRead && outcome.path = path := by
  apply List.countP_congr
  intro outcome member
  cases read : outcome.op.isRead with
  | true => simp
  | false => simp [run.path_of_write member read, Ne.symm hit]

theorem l1Hits_eq : run.after.shared.l1Hits - run.before.shared.l1Hits =
    run.took .l1Hit := by
  have hits : run.after.shared.l1Hits = run.before.shared.l1Hits + _ :=
    run.counted .l1Hits
  rw [hits, Nat.add_sub_cancel_left, run.took_eq .l1Hit nofun]
  rfl

theorem l2Hits_eq : run.after.shared.l2Hits - run.before.shared.l2Hits =
    run.took .l2Hit := by
  have hits : run.after.shared.l2Hits = run.before.shared.l2Hits + _ :=
    run.counted .l2Hits
  rw [hits, Nat.add_sub_cancel_left, run.took_eq .l2Hit nofun]
  rfl

theorem took_hits : run.took .l1Hit + run.took .l2Hit =
    run.measured.countP fun outcome => outcome.op.isRead &&
      (outcome.path = .l1Hit || outcome.path = .l2Hit) := by
  rw [run.took_eq .l1Hit nofun, run.took_eq .l2Hit nofun]
  apply Machine.countP_split
  intro outcome _
  cases outcome.op.isRead <;> cases outcome.path <;> rfl

theorem took_hits_le : run.took .l1Hit + run.took .l2Hit ≤ run.reads := by
  rw [run.took_hits, run.reads_eq]
  apply List.countP_mono_left
  intro outcome _ both
  exact (Bool.and_eq_true_iff.mp both).1

theorem took_of_found (found : ∀ outcome ∈ run.measured,
      outcome.op.isRead = true → outcome.path ≠ .miss) :
    run.took .l1Hit + run.took .l2Hit + run.took .backendHit = run.reads := by
  rw [run.took_hits, run.took_eq .backendHit nofun, run.reads_eq]
  apply Machine.countP_split
  intro outcome member
  cases read : outcome.op.isRead with
  | false => rfl
  | true =>
      cases path : outcome.path with
      | miss => exact absurd path (found outcome member read)
      | _ => rfl

theorem took_of_known (known : ∀ op ∈ run.ops, op.isRead = true →
      run.before.shared.backend.lookup op.key ≠ none) :
    run.took .l1Hit + run.took .l2Hit + run.took .backendHit = run.reads := by
  apply run.took_of_found
  intro outcome member read
  have given : outcome.op ∈ run.ops :=
    run.ops_perm.mem_iff.mp (List.mem_map_of_mem member)
  exact run.path_of_read member read (known _ given read)

end Counts

/-! ## Counters and published latencies -/

/-- The published latencies are those of breakdowns that tell the paths of the
measured operations, which were recorded by trackers of any threads. -/
structure Publishes (run : BenchRun Thread xx config backend)
    (recording : TrackerRecording) (latencies : PublishedLatencies) : Prop where
  paths : (recording.breakdowns.map LatencyBreakdown.path).Perm
    (run.measured.map Measured.path)
  range : recording.InRange
  few : recording.breakdowns.length < uint64Size
  published : (recording.tracker.bind
    PublishedLatencies.populateFromTracker) = some latencies

section Published

variable {run : BenchRun Thread xx config backend}
  {recording : TrackerRecording} {latencies : PublishedLatencies}

theorem Publishes.stage (publishes : run.Publishes recording latencies)
    {channel : Channel} {latency : PathLatency}
    (here : latencies.along channel = some latency) :
    latency.count =
      (TrackerRecording.parts channel recording.breakdowns).length := by
  rcases Option.bind_eq_some_iff.mp publishes.published with
    ⟨tracker, made, populated⟩
  exact (TrackerRecording.published_stage publishes.range publishes.few made
    populated channel latency here).1

theorem Publishes.path (publishes : run.Publishes recording latencies)
    {path : LatencyPath} {latency : PathLatency}
    (here : latencies.along (.path path) = some latency) :
    latency.count = run.took path := by
  have paths := publishes.paths.countP_eq fun other => other = path
  rw [List.countP_map, List.countP_map] at paths
  rw [publishes.stage here, TrackerRecording.parts,
    List.length_filterMap_eq_countP]
  refine Eq.trans (List.countP_congr fun bd _ => ?_) paths
  rw [LatencyBreakdown.part]
  split <;> simp_all

theorem Publishes.calls (publishes : run.Publishes recording latencies) :
    latencies.total.count = run.ops.length := by
  have total : latencies.along .total = some latencies.total := rfl
  have lengths := publishes.paths.length_eq
  rw [List.length_map, List.length_map] at lengths
  rw [publishes.stage total, TrackerRecording.length_parts_total, lengths,
    ← run.ops_perm.length_eq, List.length_map]

/-- The result of a benchmark against the operations that it was given. -/
structure AddsUp (run : BenchRun Thread xx config backend)
    (result : BenchmarkResult) : Prop where
  l1Hits : result.l1Hits = result.latencies.l1HitPath.count
  l2Hits : result.l2Hits = result.latencies.l2HitPath.count
  reads : result.l1Hits + result.l1Misses = run.reads
  calls : result.latencies.total.count = run.ops.length
  l1HitRate : result.l1HitRate * run.reads = result.l1Hits
  l2HitRate : result.l2HitRate * result.l1Misses = result.l2Hits
  rates : (0 ≤ result.l1HitRate ∧ result.l1HitRate ≤ 1) ∧
    0 ≤ result.l2HitRate ∧ result.l2HitRate ≤ 1
  paths : (∀ op ∈ run.ops, op.isRead = true →
      run.before.shared.backend.lookup op.key ≠ none) →
    result.latencies.l1HitPath.count + result.latencies.l2HitPath.count +
      result.latencies.backendHitPath.count = run.reads

/-- The counters of the engine and the latencies of the trackers, which know
nothing of each other, tell the same story: whatever the threads and the drainer
do in any order, as many gets hit L1 or L2 as there are breakdowns that say so,
every read looks into L1 once, and the rates are the shares of the hits. -/
theorem result_adds_up (publishes : run.Publishes recording latencies)
    (totalOps : Nat) :
    run.AddsUp (.new totalOps run.before.shared run.after.shared latencies) := by
  have l1Path : latencies.l1HitPath.count = run.took .l1Hit :=
    publishes.path rfl
  have l2Path : latencies.l2HitPath.count = run.took .l2Hit :=
    publishes.path rfl
  have backendPath : latencies.backendHitPath.count = run.took .backendHit :=
    publishes.path rfl
  have reads := run.l1Hits_add_l1Misses
  have within := run.took_hits_le
  rw [run.l1Hits_eq] at reads
  rw [BenchmarkResult.new, run.l1Hits_eq, run.l2Hits_eq]
  generalize run.after.shared.l1Misses - run.before.shared.l1Misses = misses at *
  constructor
  · exact l1Path.symm
  · exact l2Path.symm
  · exact reads
  · exact publishes.calls
  · rw [← reads]
    exact rate_mul (Nat.le_add_right _ _)
  · exact rate_mul (by omega)
  · exact ⟨rate_bounds (Nat.le_add_right _ _), rate_bounds (by omega)⟩
  · intro known
    rw [← run.took_of_known known, ← l1Path, ← l2Path, ← backendPath]
    rfl

end Published

theorem publishes_sample :
    ∃ (run : BenchRun Bool .sample .sample (.new ∅)) (latencies : _),
      run.reads = 2 ∧ run.Publishes ((TrackerRecording.fresh.record
        { totalNs := 900, lookupNs := 250 }).merge (.record .fresh
        { totalNs := 400, lookupNs := 90, path := .l1Hit })) latencies := by
  have completes : BenchRun.attempt .sample .sample (.new ∅)
      [.enter false (.warmUp ⟨.put, "k", "1"⟩), .perform false, .perform false,
        .leave false]
      [.enter false (.measured ⟨.get, "w", ""⟩), .perform false,
        .enter true (.measured ⟨.rmw, "k", "2"⟩), .perform true, .background,
        .perform false, .perform true, .perform false, .perform true,
        .leave true, .leave false] =
      some [⟨⟨.rmw, "k", "2"⟩, .l1Hit⟩, ⟨⟨.get, "w", ""⟩, .miss⟩] := by
    decide +kernel
  have accepted : (((TrackerRecording.fresh.record
      { totalNs := 900, lookupNs := 250 }).merge (.record .fresh
      { totalNs := 400, lookupNs := 90, path := .l1Hit })).tracker.bind
        PublishedLatencies.populateFromTracker).isSome = true := by
    decide +kernel
  rcases Option.isSome_iff_exists.mp accepted with ⟨latencies, published⟩
  rcases BenchRun.of_attempt completes (by simp) with ⟨run, -, moves, measured⟩
  refine ⟨run, latencies, ?_, ?_, ?_, by decide, published⟩
  · rw [BenchRun.reads, BenchRun.ops, moves]
    rfl
  · rw [measured]
    decide
  · rw [TrackerRecording.InRange, Channel.forall_iff]
    simp [TrackerRecording.parts, TrackerRecording.breakdowns,
      LatencyBreakdown.part, LatencyHistogram.InRange]

theorem result_adds_up_sample :
    ∃ (run : BenchRun Bool .sample .sample (.new ∅)) (latencies : _),
      run.reads = 2 ∧
      run.AddsUp (.new 2 run.before.shared run.after.shared latencies) := by
  rcases publishes_sample with ⟨run, latencies, two, publishes⟩
  exact ⟨run, latencies, two, result_adds_up publishes 2⟩

section Published

variable {run : BenchRun Thread xx config backend}
  {recording : TrackerRecording} {latencies : PublishedLatencies}

/-- What the latency model expects of all reads together. The reads that find
nothing are charged like those that find something in the backend; the paths
without samples do not matter to the others. -/
theorem expected_latency (publishes : run.Publishes recording latencies)
    (totalOps : Nat) :
    let result : BenchmarkResult :=
      .new totalOps run.before.shared run.after.shared latencies
    result.expected * run.reads =
      latencies.l1HitPath.count * latencies.l1HitPath.p50 +
        latencies.l2HitPath.count * latencies.l2HitPath.p50 +
        (run.reads - latencies.l1HitPath.count - latencies.l2HitPath.count) *
          result.tm := by
  have l1Path : latencies.l1HitPath.count = run.took .l1Hit :=
    publishes.path rfl
  have l2Path : latencies.l2HitPath.count = run.took .l2Hit :=
    publishes.path rfl
  have reads := run.l1Hits_add_l1Misses
  have within := run.took_hits_le
  rw [run.l1Hits_eq, ← l1Path] at reads
  rw [← l1Path, ← l2Path] at within
  have published := BenchmarkResult.latencies_new totalOps run.before.shared
    run.after.shared latencies
  have l1HitRate := BenchmarkResult.l1HitRate_new totalOps run.before.shared
    run.after.shared latencies
  have l2HitRate := BenchmarkResult.l2HitRate_new totalOps run.before.shared
    run.after.shared latencies
  intro result
  change result.latencies = _ at published
  change result.l1HitRate = _ at l1HitRate
  change result.l2HitRate = _ at l2HitRate
  clear_value result
  subst published
  rw [run.l1Hits_eq, ← l1Path] at l1HitRate
  rw [run.l2Hits_eq, ← l2Path] at l2HitRate
  generalize run.after.shared.l1Misses - run.before.shared.l1Misses = misses at *
  have expected := BenchmarkResult.expected_mul (by omega) l1HitRate l2HitRate
  have rest : (run.reads : ℚ) = result.latencies.l1HitPath.count + misses := by
    rw [← reads, Nat.cast_add]
  rw [reads, result.count_mul_t1, result.count_mul_t2] at expected
  rw [expected, rest, add_sub_cancel_left]

end Published

theorem expected_latency_sample :
    ∃ (run : BenchRun Bool .sample .sample (.new ∅))
      (latencies : PublishedLatencies),
      let result : BenchmarkResult :=
        .new 2 run.before.shared run.after.shared latencies
      result.expected * run.reads =
        latencies.l1HitPath.count * latencies.l1HitPath.p50 +
          latencies.l2HitPath.count * latencies.l2HitPath.p50 +
          (run.reads - latencies.l1HitPath.count - latencies.l2HitPath.count) *
            result.tm := by
  rcases publishes_sample with ⟨run, latencies, -, publishes⟩
  exact ⟨run, latencies, expected_latency publishes 2⟩

end BenchRun

end Walde
