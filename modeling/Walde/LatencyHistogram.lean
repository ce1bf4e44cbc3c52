import Mathlib.Algebra.Order.Floor.Ring
import Mathlib.Data.Int.ConditionallyCompleteOrder
import Mathlib.Data.Nat.Size
import Mathlib.Data.Rat.Floor
import Mathlib.Tactic.Linarith
import Mathlib.Tactic.NormNum
import Walde.Foundation.OrderStatistics
import Walde.Types

namespace Walde

open Foundation.OrderStatistics

/-! # The latency histogram -/

/-- `int64_t` addition, undefined when it overflows. -/
def addInt64 (left right : Int) : Option Int :=
  if -2 ^ 63 ≤ left + right ∧ left + right < 2 ^ 63 then some (left + right)
  else none

/-- `int64_t` left shift, undefined when the result leaves `uint64_t`. -/
def shiftInt64 (value : Int) (places : Nat) : Option Int :=
  if 0 ≤ value ∧ value * 2 ^ places < 2 ^ 64 then
    some ((value * 2 ^ places).bmod (2 ^ 64))
  else none

def kNumBuckets : Nat := 64

/-- A `double` is the rational it stands for. -/
structure LatencyHistogram where
  counts : Nat → Nat
  totalCount : Nat
  totalSum : Int

namespace LatencyHistogram

def new : LatencyHistogram := ⟨fun _ => 0, 0, 0⟩

/-- The loop of `record`, with the number of buckets above this one. -/
def raise (ns : Int) : Nat → Nat → Int → Option Nat
  | 0, bucket, _ => some bucket
  | above + 1, bucket, threshold =>
      if ns ≥ threshold then do
        raise ns above (bucket + 1) (← shiftInt64 threshold 1)
      else some bucket

def bucketOf (ns : Int) : Option Nat :=
  if ns ≥ 100 then raise ns (kNumBuckets - 2) 1 200 else some 0

def record (histogram : LatencyHistogram) (ns : Int) :
    Option LatencyHistogram := do
  let bucket ← bucketOf ns
  let totalSum ← addInt64 histogram.totalSum ns
  some {
    counts := Function.update histogram.counts bucket
      ((histogram.counts bucket + 1) % uint64Size)
    totalCount := (histogram.totalCount + 1) % uint64Size
    totalSum }

/-- The loop of `percentile_us`, with the number of buckets still to add. -/
def scan (histogram : LatencyHistogram) (target : Nat) :
    Nat → Nat → Nat → Option Nat
  | 0, _, _ => none
  | buckets + 1, i, cumulative =>
      let cumulative := (cumulative + histogram.counts i) % uint64Size
      if cumulative > target then some i
      else histogram.scan target buckets (i + 1) cumulative

def selected (histogram : LatencyHistogram) (p : ℚ) : Option Nat :=
  histogram.scan ⌊p * histogram.totalCount⌋.toNat kNumBuckets 0 0

def bucketUs : Option Nat → Option ℚ
  | some 0 => some (1 / 20)
  | some (i + 1) => do
      let lo ← shiftInt64 100 i
      let hi ← shiftInt64 100 (i + 1)
      let sum ← addInt64 lo hi
      some (sum / 2 / 1000)
  | none => some (100 * 2 ^ (kNumBuckets - 2) / 1000)

def percentileUs (histogram : LatencyHistogram) (p : ℚ) : Option ℚ :=
  if histogram.totalCount = 0 then some 0
  else bucketUs (histogram.selected p)

def meanUs (histogram : LatencyHistogram) : ℚ :=
  if histogram.totalCount = 0 then 0
  else histogram.totalSum / histogram.totalCount / 1000

def count (histogram : LatencyHistogram) : Nat := histogram.totalCount

def merge (histogram other : LatencyHistogram) : Option LatencyHistogram := do
  let totalSum ← addInt64 histogram.totalSum other.totalSum
  some {
    counts := fun i => (histogram.counts i + other.counts i) % uint64Size
    totalCount := (histogram.totalCount + other.totalCount) % uint64Size
    totalSum }

end LatencyHistogram

structure PathLatency where
  p50 : ℚ
  p95 : ℚ
  p99 : ℚ
  p999 : ℚ
  mean : ℚ
  count : Nat

def PathLatency.fromHistogram (histogram : LatencyHistogram) :
    Option PathLatency := do
  some {
    p50 := ← histogram.percentileUs (50 / 100)
    p95 := ← histogram.percentileUs (95 / 100)
    p99 := ← histogram.percentileUs (99 / 100)
    p999 := ← histogram.percentileUs (999 / 1000)
    mean := histogram.meanUs
    count := histogram.count }

namespace LatencyHistogram

/-! ## The bucket of a value -/

def bucketIndex (ns : Int) : Nat := (ns.toNat / 100).size

theorem bucketIndex_monotone : Monotone bucketIndex := by
  intro small large le
  exact Nat.size_le_size (Nat.div_le_div_right (Int.toNat_le_toNat le))

theorem lt_bucketIndex {ns : Int} {bucket : Nat} :
    bucket < bucketIndex ns ↔ 100 * 2 ^ bucket ≤ ns := by
  rw [bucketIndex, Nat.lt_size, Nat.le_div_iff_mul_le (by omega)]
  have cast : ((2 ^ bucket : Nat) : Int) = 2 ^ bucket := by norm_num
  have positive := Nat.two_pow_pos bucket
  omega

def InBucket (bucket : Nat) (ns : Int) : Prop :=
  if bucket = 0 then 0 ≤ ns ∧ ns < 100
  else 100 * 2 ^ (bucket - 1) ≤ ns ∧ ns < 100 * 2 ^ bucket

theorem inBucket_iff {ns : Int} (nonneg : 0 ≤ ns) {bucket : Nat} :
    InBucket bucket ns ↔ bucketIndex ns = bucket := by
  have upper : bucket < bucketIndex ns ↔ 100 * 2 ^ bucket ≤ ns := lt_bucketIndex
  cases bucket with
  | zero =>
      simp only [InBucket, ↓reduceIte]
      simp only [pow_zero, mul_one] at upper
      omega
  | succ lower =>
      have lower' : lower < bucketIndex ns ↔ 100 * 2 ^ lower ≤ ns :=
        lt_bucketIndex
      simp only [InBucket, Nat.succ_ne_zero, ↓reduceIte, Nat.add_sub_cancel]
      omega

theorem shiftInt64_eq {value : Int} {places : Nat} (nonneg : 0 ≤ value)
    (fits : value * 2 ^ places < 2 ^ 63) :
    shiftInt64 value places = some (value * 2 ^ places) := by
  have positive : 0 ≤ value * 2 ^ places :=
    mul_nonneg nonneg (by positivity)
  rw [shiftInt64, if_pos ⟨nonneg, by omega⟩, Int.bmod_eq_of_le] <;> omega

theorem shiftInt64_hundred {bucket : Nat} (low : bucket ≤ 56) :
    shiftInt64 100 bucket = some (100 * 2 ^ bucket) := by
  apply shiftInt64_eq (by norm_num)
  calc (100 : Int) * 2 ^ bucket
      ≤ 100 * 2 ^ 56 := by gcongr; norm_num
    _ < 2 ^ 63 := by norm_num

theorem raise_eq {ns : Int} (high : bucketIndex ns ≤ 56) :
    ∀ {above bucket : Nat}, bucket ≤ bucketIndex ns →
      bucketIndex ns < bucket + above →
      raise ns above bucket (100 * 2 ^ bucket) = some (bucketIndex ns)
  | 0, _, _, _ => by omega
  | above + 1, bucket, le, lt => by
      rw [raise]
      rcases le.lt_or_eq with below | reached
      · have next : shiftInt64 (100 * 2 ^ bucket) 1 =
            some (100 * 2 ^ (bucket + 1)) := by
          rw [pow_succ, ← mul_assoc]
          apply shiftInt64_eq (by positivity)
          calc (100 : Int) * 2 ^ bucket * 2 ^ 1
              ≤ 100 * 2 ^ 55 * 2 ^ 1 := by gcongr <;> omega
            _ < 2 ^ 63 := by norm_num
        rw [if_pos (lt_bucketIndex.mp below), next]
        exact raise_eq high below (by omega)
      · rw [if_neg, reached]
        intro above'
        have := lt_bucketIndex.mpr above'
        omega

/-- The values that the buckets with `int64_t` bounds hold. -/
def InRange (ns : Int) : Prop := 0 ≤ ns ∧ ns < 100 * 2 ^ 56

theorem InRange.bucketIndex_le {ns : Int} (range : InRange ns) :
    bucketIndex ns ≤ 56 := by
  by_contra high
  exact absurd (lt_bucketIndex.mp (Nat.lt_of_not_le high)) (by
    have := range.2
    omega)

theorem bucketOf_eq {ns : Int} (range : InRange ns) :
    bucketOf ns = some (bucketIndex ns) := by
  have first : 0 < bucketIndex ns ↔ 100 * 2 ^ 0 ≤ ns := lt_bucketIndex
  rw [pow_zero, mul_one] at first
  rw [bucketOf]
  split
  · rename_i large
    have reached : 1 ≤ bucketIndex ns := first.mpr large
    exact raise_eq range.bucketIndex_le reached
      (by have := range.bucketIndex_le; simp only [kNumBuckets]; omega)
  · have : bucketIndex ns = 0 := by omega
    rw [this]

/-! ## The histogram of a sample -/

/-- What a histogram shows of the values recorded in it. -/
def summary (values : List Int) : LatencyHistogram where
  counts := fun i => classCount bucketIndex values i % uint64Size
  totalCount := values.length % uint64Size
  totalSum := values.sum

theorem summary_perm {values other : List Int} (same : values.Perm other) :
    summary values = summary other := by
  have counts : classCount bucketIndex values = classCount bucketIndex other := by
    funext i
    exact same.countP_eq _
  rw [summary, summary, counts, same.length_eq, same.sum_eq]

theorem sum_nonneg {values : List Int} (range : ∀ ns ∈ values, InRange ns) :
    0 ≤ values.sum :=
  List.sum_nonneg fun ns member => (range ns member).1

theorem addInt64_eq {left right : Int} (left' : 0 ≤ left) (right' : 0 ≤ right) :
    addInt64 left right =
      if left + right < 2 ^ 63 then some (left + right) else none := by
  rw [addInt64]
  congr 1
  exact propext ⟨And.right, fun fits => ⟨by omega, fits⟩⟩

theorem summary_record {values : List Int} {ns : Int}
    (nonneg : 0 ≤ values.sum) (range : InRange ns) :
    (summary values).record ns =
      if (ns :: values).sum < 2 ^ 63 then some (summary (ns :: values))
      else none := by
  rw [record, bucketOf_eq range, Option.bind_eq_bind, Option.bind_some, summary,
    addInt64_eq nonneg range.1, List.sum_cons, add_comm values.sum ns]
  split
  · rw [Option.bind_eq_bind, Option.bind_some, summary, List.sum_cons,
      List.length_cons]
    congr 2
    · funext i
      rw [classCount_cons]
      by_cases same : i = bucketIndex ns
      · subst same
        rw [Function.update_self, if_pos rfl, Nat.mod_add_mod]
      · rw [Function.update_of_ne same, if_neg (Ne.symm same), Nat.add_zero]
    · rw [Nat.mod_add_mod]
  · rfl

theorem summary_merge {values other : List Int} (nonneg : 0 ≤ values.sum)
    (otherNonneg : 0 ≤ other.sum) :
    (summary values).merge (summary other) =
      if (values ++ other).sum < 2 ^ 63 then some (summary (values ++ other))
      else none := by
  rw [merge, summary, summary, addInt64_eq nonneg otherNonneg, List.sum_append]
  split
  · rw [Option.bind_eq_bind, Option.bind_some, summary, List.sum_append,
      List.length_append]
    congr 2
    · funext i
      change (classCount bucketIndex values i % uint64Size +
        classCount bucketIndex other i % uint64Size) % uint64Size = _
      rw [← Nat.add_mod, classCount_append]
    · exact (Nat.add_mod _ _ _).symm
  · rfl

end LatencyHistogram

/-! ## Recordings and merges -/

inductive Recording where
  | fresh
  | record (recording : Recording) (ns : Int)
  | merge (recording other : Recording)

namespace Recording

open LatencyHistogram

def histogram : Recording → Option LatencyHistogram
  | .fresh => some .new
  | .record recording ns => do (← recording.histogram).record ns
  | .merge recording other => do
      (← recording.histogram).merge (← other.histogram)

def values : Recording → List Int
  | .fresh => []
  | .record recording ns => ns :: recording.values
  | .merge recording other => recording.values ++ other.values

def single (values : List Int) : Recording :=
  values.foldr (fun ns recording => recording.record ns) .fresh

@[simp] theorem values_single (values : List Int) :
    (single values).values = values := by
  induction values with
  | nil => rfl
  | cons ns rest inductionHypothesis =>
      exact congrArg (ns :: ·) inductionHypothesis

/-- A recording that fits has the summary of its values, however it was split. -/
theorem histogram_eq : {recording : Recording} →
    (∀ ns ∈ recording.values, InRange ns) →
    recording.histogram =
      if recording.values.sum < 2 ^ 63 then some (summary recording.values)
      else none
  | .fresh, _ => rfl
  | .record recording ns, range => by
      have split := List.forall_mem_cons.mp range
      have nonneg := sum_nonneg split.2
      rw [histogram, histogram_eq split.2]
      by_cases fits : recording.values.sum < 2 ^ 63
      · rw [if_pos fits]
        exact summary_record nonneg split.1
      · rw [if_neg fits, if_neg]
        · rfl
        · have := split.1.1
          rw [values, List.sum_cons]
          omega
  | .merge recording other, range => by
      have left : ∀ ns ∈ recording.values, InRange ns := fun ns member =>
        range ns (List.mem_append_left _ member)
      have right : ∀ ns ∈ other.values, InRange ns := fun ns member =>
        range ns (List.mem_append_right _ member)
      have nonneg := sum_nonneg left
      have otherNonneg := sum_nonneg right
      have sum : (recording.merge other).values.sum =
          recording.values.sum + other.values.sum := List.sum_append
      rw [histogram, histogram_eq left, histogram_eq right]
      by_cases fits : recording.values.sum < 2 ^ 63
      · by_cases otherFits : other.values.sum < 2 ^ 63
        · rw [if_pos fits, if_pos otherFits]
          exact summary_merge nonneg otherNonneg
        · have overflows : ¬(recording.merge other).values.sum < 2 ^ 63 := by
            omega
          rw [if_pos fits, if_neg otherFits, if_neg overflows]
          rfl
      · have overflows : ¬(recording.merge other).values.sum < 2 ^ 63 := by
          omega
        rw [if_neg fits, if_neg overflows]
        rfl

end Recording

namespace LatencyHistogram

/-! ## Percentiles -/

theorem scan_eq {histogram : LatencyHistogram} {counts : Nat → Nat}
    {target bucket : Nat} (agrees : ∀ i, histogram.counts i = counts i)
    (fits : ∀ i, cumulative counts i < uint64Size)
    (passes : ∀ i, target < cumulative counts (i + 1) ↔ bucket ≤ i) :
    ∀ {buckets i : Nat}, i ≤ bucket → bucket < i + buckets →
      histogram.scan target buckets i (cumulative counts i) = some bucket
  | 0, _, _, _ => by omega
  | buckets + 1, i, reached, within => by
      rw [scan, agrees, ← cumulative_succ, Nat.mod_eq_of_lt (fits _)]
      simp only [gt_iff_lt, passes]
      rcases reached.eq_or_lt with rfl | later
      · exact if_pos (Nat.le_refl _)
      · rw [if_neg (by omega)]
        exact scan_eq agrees fits passes later (by omega)

section Summary

variable {values : List Int} {p : ℚ} {value : Int}

theorem rank_lt (nonempty : values ≠ []) (nonneg : 0 ≤ p) (below : p < 1) :
    ⌊p * values.length⌋.toNat < values.length := by
  have positive : (0 : ℚ) < values.length := by
    exact_mod_cast List.length_pos_of_ne_nil nonempty
  have floor : ⌊p * values.length⌋ < (values.length : Int) := by
    rw [Int.floor_lt]
    push_cast
    nlinarith
  have floorNonneg : 0 ≤ ⌊p * values.length⌋ :=
    Int.floor_nonneg.mpr (by positivity)
  omega

/-- The scan of a sample's summary stops at the bucket of the order statistic. -/
theorem selected_summary (range : ∀ ns ∈ values, InRange ns)
    (fits : values.length < uint64Size)
    (ranked : smallest values ⌊p * values.length⌋.toNat = some value) :
    (summary values).selected p = some (bucketIndex value) := by
  have total : (summary values).totalCount = values.length :=
    Nat.mod_eq_of_lt fits
  have low := (range value (mem_of_smallest ranked)).bucketIndex_le
  rw [selected, total]
  refine @scan_eq _ (classCount bucketIndex values) _ _ ?_ ?_ ?_ _ 0
    (Nat.zero_le _) ?_
  · intro i
    exact Nat.mod_eq_of_lt (Nat.lt_of_le_of_lt List.countP_le_length fits)
  · intro i
    rw [cumulative_classCount]
    exact Nat.lt_of_le_of_lt List.countP_le_length fits
  · exact lt_cumulative_classCount_iff bucketIndex_monotone ranked
  · simp only [kNumBuckets]
    omega

def midpointUs (bucket : Nat) : ℚ :=
  if bucket = 0 then 50 / 1000
  else (100 * 2 ^ (bucket - 1) + 100 * 2 ^ bucket) / 2 / 1000

/-- The bounds of bucket 56 are `int64_t`, and their sum is not. -/
theorem addInt64_bounds {lower : Nat} (low : lower ≤ 55) :
    addInt64 (100 * 2 ^ lower) (100 * 2 ^ (lower + 1)) =
      if lower ≤ 54 then some (100 * 2 ^ lower + 100 * 2 ^ (lower + 1))
      else none := by
  rw [addInt64_eq (by positivity) (by positivity)]
  by_cases within : lower ≤ 54
  · rw [if_pos within, if_pos]
    calc (100 : Int) * 2 ^ lower + 100 * 2 ^ (lower + 1)
        ≤ 100 * 2 ^ 54 + 100 * 2 ^ 55 := by gcongr <;> omega
      _ < 2 ^ 63 := by norm_num
  · obtain rfl : lower = 55 := by omega
    rw [if_neg within, if_neg (by norm_num)]

theorem bucketUs_eq {bucket : Nat} (low : bucket ≤ 56) :
    bucketUs (some bucket) =
      if bucket ≤ 55 then some (midpointUs bucket) else none := by
  cases bucket with
  | zero => norm_num [bucketUs, midpointUs]
  | succ lower =>
      rw [bucketUs, shiftInt64_hundred (show lower ≤ 56 by omega),
        Option.bind_eq_bind, Option.bind_some, shiftInt64_hundred low,
        Option.bind_some, addInt64_bounds (by omega)]
      by_cases within : lower + 1 ≤ 55
      · rw [if_pos (by omega), if_pos within, Option.bind_some, midpointUs,
          if_neg (Nat.succ_ne_zero lower), Nat.add_sub_cancel]
        push_cast
        rfl
      · rw [if_neg (by omega), if_neg within]
        rfl

theorem percentileUs_of_selected {histogram : LatencyHistogram} {bucket : Nat}
    (recorded : histogram.totalCount ≠ 0)
    (found : histogram.selected p = some bucket) (low : bucket ≤ 56) :
    histogram.percentileUs p =
      if bucket ≤ 55 then some (midpointUs bucket) else none := by
  rw [percentileUs, if_neg recorded, found, bucketUs_eq low]

theorem bucketIndex_le_iff {ns : Int} :
    bucketIndex ns ≤ 55 ↔ ns < 100 * 2 ^ 55 := by
  rw [← Nat.not_lt, lt_bucketIndex, Int.not_le]

theorem percentileUs_summary (range : ∀ ns ∈ values, InRange ns)
    (fits : values.length < uint64Size)
    (ranked : smallest values ⌊p * values.length⌋.toNat = some value) :
    (summary values).percentileUs p =
      if value < 100 * 2 ^ 55 then some (midpointUs (bucketIndex value))
      else none := by
  have member := mem_of_smallest ranked
  have positive := List.length_pos_of_mem member
  have total : (summary values).totalCount = values.length :=
    Nat.mod_eq_of_lt fits
  rw [percentileUs_of_selected (by omega) (selected_summary range fits ranked)
    (range value member).bucketIndex_le]
  exact if_congr bucketIndex_le_iff rfl rfl

end Summary

end LatencyHistogram

namespace Recording

open LatencyHistogram

/-! ## What a percentile stands for -/

/-- A histogram is that of its values recorded in any order, and the loop of
`percentile_us` returns the middle of the bucket of the order statistic. -/
structure Publishes (recording : Recording) (p : ℚ)
    (histogram : LatencyHistogram) (value : Int) (bucket : Nat) : Prop where
  made : recording.histogram = some histogram
  merged : ∀ order : List Int, order.Perm recording.values →
    (single order).histogram = some histogram
  count : histogram.count = recording.values.length
  totalSum : histogram.totalSum = recording.values.sum
  ranked : smallest recording.values ⌊p * recording.values.length⌋.toNat =
    some value
  inside : InBucket bucket value
  found : histogram.selected p = some bucket
  percentile : histogram.percentileUs p = some (midpointUs bucket)

section Publishes

variable {recording : Recording} {p : ℚ}

theorem publishes_of_fits (nonneg : 0 ≤ p) (below : p < 1)
    (nonempty : recording.values ≠ [])
    (range : ∀ ns ∈ recording.values, InRange ns)
    (count : recording.values.length < uint64Size)
    (sum : recording.values.sum < 2 ^ 63)
    (fast : ∀ value, smallest recording.values
      ⌊p * recording.values.length⌋.toNat = some value → value < 100 * 2 ^ 55) :
    ∃ histogram value bucket, recording.Publishes p histogram value bucket := by
  rcases exists_smallest (rank_lt nonempty nonneg below) with ⟨value, ranked⟩
  have total : (summary recording.values).totalCount =
      recording.values.length := Nat.mod_eq_of_lt count
  refine ⟨summary recording.values, value, bucketIndex value, ?_, ?_, total,
    rfl, ranked, ?_, selected_summary range count ranked, ?_⟩
  · rw [histogram_eq range, if_pos sum]
  · intro order same
    have orderRange : ∀ ns ∈ (single order).values, InRange ns := by
      intro ns member
      rw [values_single] at member
      exact range ns (same.mem_iff.mp member)
    rw [histogram_eq orderRange, values_single, same.sum_eq, if_pos sum,
      summary_perm same]
  · exact (inBucket_iff (range value (mem_of_smallest ranked)).1).mpr rfl
  · rw [percentileUs_summary range count ranked, if_pos (fast value ranked)]

theorem Publishes.fits {histogram : LatencyHistogram} {value : Int}
    {bucket : Nat} (published : recording.Publishes p histogram value bucket)
    (range : ∀ ns ∈ recording.values, InRange ns) :
    recording.values.length < uint64Size ∧ recording.values.sum < 2 ^ 63 ∧
      value < 100 * 2 ^ 55 := by
  have made := published.made
  rw [histogram_eq range] at made
  split at made
  · rename_i sum
    obtain rfl : summary recording.values = histogram := Option.some.inj made
    have count : recording.values.length < uint64Size := by
      rw [← published.count]
      exact Nat.mod_lt _ (by decide)
    refine ⟨count, sum, ?_⟩
    by_contra slow
    have percentile := published.percentile
    rw [percentileUs_summary range count published.ranked, if_neg slow]
      at percentile
    cases percentile
  · cases made

/-- Every percentile is the middle of the bucket of its order statistic exactly
when the recordings can be counted and added and the bounds of that bucket
can be added. -/
theorem publishes_iff (nonneg : 0 ≤ p) (below : p < 1)
    (nonempty : recording.values ≠ [])
    (range : ∀ ns ∈ recording.values, InRange ns) :
    (∃ histogram value bucket, recording.Publishes p histogram value bucket) ↔
      recording.values.length < uint64Size ∧ recording.values.sum < 2 ^ 63 ∧
        ∀ value, smallest recording.values
          ⌊p * recording.values.length⌋.toNat = some value →
            value < 100 * 2 ^ 55 := by
  refine ⟨?_, fun ⟨count, sum, fast⟩ =>
    publishes_of_fits nonneg below nonempty range count sum fast⟩
  rintro ⟨histogram, value, bucket, published⟩
  rcases published.fits range with ⟨count, sum, fast⟩
  refine ⟨count, sum, fun other ranked => ?_⟩
  obtain rfl : value = other :=
    Option.some.inj (published.ranked.symm.trans ranked)
  exact fast

theorem publishes_iff_sample :
    (∃ histogram value bucket,
      (merge (record fresh 50) (record (record fresh 120) 350)).Publishes (1 / 2)
        histogram value bucket) ↔
      3 < uint64Size ∧ (520 : Int) < 2 ^ 63 ∧
        ∀ value, smallest [50, 350, 120] ⌊(1 / 2 : ℚ) * (3 : Nat)⌋.toNat =
          some value → value < (100 * 2 ^ 55 : Int) :=
  @publishes_iff (merge (record fresh 50) (record (record fresh 120) 350))
    (1 / 2) (by norm_num) (by norm_num) (by simp [values])
    (by simp [values, InRange])

/-- One operation of a hundred times `2 ^ 55` nanoseconds has no median. -/
theorem slowest_unpublished :
    ∃ histogram, (record fresh (100 * 2 ^ 55)).histogram = some histogram ∧
      histogram.percentileUs (1 / 2) = none ∧
      ¬∃ histogram value bucket,
        (record fresh (100 * 2 ^ 55)).Publishes (1 / 2) histogram value bucket := by
  have range : ∀ ns ∈ (record fresh (100 * 2 ^ 55)).values, InRange ns := by
    norm_num [values, InRange]
  have ranked : smallest (record fresh (100 * 2 ^ 55)).values
      ⌊(1 / 2 : ℚ) * (record fresh (100 * 2 ^ 55)).values.length⌋.toNat =
        some (100 * 2 ^ 55) := by
    norm_num [values, smallest]
  refine ⟨summary (record fresh (100 * 2 ^ 55)).values, ?_, ?_, ?_⟩
  · rw [histogram_eq range, if_pos (by norm_num [values])]
  · rw [percentileUs_summary range (by decide) ranked, if_neg (by norm_num)]
  · rintro ⟨_, value, _, published⟩
    have fast := (published.fits range).2.2
    obtain rfl : value = 100 * 2 ^ 55 :=
      Option.some.inj (published.ranked.symm.trans ranked)
    omega

end Publishes

end Recording

end Walde
