import Walde.BenchWorkload
import Walde.Foundation.StackDistance
import Walde.LruCache
import Walde.WTinyLfuCache

namespace Walde

open Foundation Foundation.StackDistance

/-! # Replays of the baselines

The benchmarks run the same operations on every cache. What depends on a clock
is left out of the results. -/

/-- Counts of a uint64_t are natural numbers, and a `double` is the rational it
stands for. -/
structure PolicyResult where
  name : String := ""
  hitRate : ℚ := 0
  l1HitRate : ℚ := 0
  l2HitRate : ℚ := 0
  admissionRate : ℚ := 0
  rejectionRate : ℚ := 0
  totalOps : Nat := 0
  evictions : Nat := 0
  approxMemory : Nat := 0
deriving DecidableEq, Repr

def BenchOp.isRead (op : BenchOp) : Bool := op.type ≠ .put

/-- The share of a part in a whole, of which there may be nothing. -/
def rate (part whole : Nat) : ℚ := if whole > 0 then part / whole else 0

/-- The operations of the second loop. Its bound is a `uint32_t`. -/
def measuredOps (ops : List BenchOp) (warmup : Nat) : List BenchOp :=
  (ops.take (ops.length % uint32Size)).drop warmup

/-- `uint64_t mops = end - start` -/
def mops (ops : List BenchOp) (warmup : Nat) : Nat :=
  subUint32 (ops.length % uint32Size) warmup

/-- What a replay takes from a baseline. -/
structure BaselineCache (σ Reply : Type) where
  step : Machine σ BaselineCall Reply
  hasValue : Reply → Bool
  resetStats : σ → σ

namespace BaselineCache

variable {σ Reply : Type} (baseline : BaselineCache σ Reply)

def write (cache : σ) (key : Key) (value : Value) : Option σ :=
  (baseline.step cache (.put key value)).map Prod.snd

/-- A get, and a put of the key if it was not found. -/
def read (cache : σ) (key : Key) : Option σ := do
  let (v, cache) ← baseline.step cache (.get key)
  if baseline.hasValue v then return cache
  else baseline.write cache key ("value_" ++ key)

/-- The body of the first loop. -/
def warmUp (cache : σ) (op : BenchOp) : Option σ :=
  match op.type with
  | .put | .rmw => baseline.write cache op.key op.value
  | .get => baseline.read cache op.key

def measure (cache : σ) (op : BenchOp) : Option σ :=
  match op.type with
  | .put => baseline.write cache op.key op.value
  | .rmw => do
      let cache ← baseline.read cache op.key
      baseline.write cache op.key op.value
  | .get => baseline.read cache op.key

def replay (ops : List BenchOp) (warmup : Nat) (cache : σ) : Option σ := do
  let cache ← (ops.take warmup).foldlM baseline.warmUp cache
  (measuredOps ops warmup).foldlM baseline.measure (baseline.resetStats cache)

end BaselineCache

namespace LruCache

def hitRate (cache : LruCache) : ℚ :=
  rate cache.hits (cache.hits + cache.misses)

def resetStats (cache : LruCache) : LruCache :=
  { cache with hits := 0, misses := 0, evictions := 0 }

def baseline : BaselineCache LruCache CacheReply where
  step
  hasValue := CacheReply.isHit
  resetStats

end LruCache

namespace WTinyLfuCache

def hitRate (cache : WTinyLfuCache) : ℚ :=
  rate cache.stats.hits (cache.stats.hits + cache.stats.misses)

def resetStats (cache : WTinyLfuCache) : WTinyLfuCache :=
  { cache with stats := {} }

def hasValue : TinyLfuReply → Bool
  | .value (some _) => true
  | _ => false

/-- What a read of an erased node gives is undefined, and so is a replay with
such a read. -/
def definedStep : Machine WTinyLfuCache BaselineCall TinyLfuReply :=
  fun cache call =>
    match cache.step call with
    | some (.erased, _) => none
    | outcome => outcome

def baseline : BaselineCache WTinyLfuCache TinyLfuReply where
  step := definedStep
  hasValue
  resetStats

end WTinyLfuCache

def runLru (ops : List BenchOp) (warmup capacity : Nat) :
    Option PolicyResult := do
  let cache ← LruCache.baseline.replay ops warmup (.new capacity)
  return {
    name := "LRU"
    hitRate := cache.hitRate
    l1HitRate := cache.hitRate
    totalOps := mops ops warmup
    evictions := cache.evictions
    approxMemory := capacity * (10 + 10 + 48 + 64) }

namespace BaselineCache

variable {σ Reply : Type} {baseline : BaselineCache σ Reply} {cache after : σ}
  {key : Key} {reply : Reply}

theorem write_eq {value : Value}
    (stepped : baseline.step cache (.put key value) = some (reply, after)) :
    baseline.write cache key value = some after := by
  rw [write, stepped]
  rfl

theorem read_found
    (stepped : baseline.step cache (.get key) = some (reply, after))
    (found : baseline.hasValue reply = true) :
    baseline.read cache key = some after := by
  rw [read, stepped, Option.bind_eq_bind, Option.bind_some]
  exact if_pos found

theorem read_missed
    (stepped : baseline.step cache (.get key) = some (reply, after))
    (missed : baseline.hasValue reply = false) :
    baseline.read cache key = baseline.write after key ("value_" ++ key) := by
  rw [read, stepped, Option.bind_eq_bind, Option.bind_some]
  exact if_neg (Bool.not_eq_true _ ▸ missed)

end BaselineCache

/-! ## Rates -/

theorem rate_bounds {part whole : Nat} (le : part ≤ whole) :
    0 ≤ rate part whole ∧ rate part whole ≤ 1 := by
  rw [rate]
  split
  · refine ⟨by positivity, div_le_one_of_le₀ ?_ (Nat.cast_nonneg whole)⟩
    exact_mod_cast le
  · exact ⟨le_rfl, zero_le_one⟩

theorem rate_mono {part part' whole : Nat} (le : part ≤ part') :
    rate part whole ≤ rate part' whole := by
  rw [rate, rate]
  split
  · gcongr
  · exact le_rfl

theorem rate_mul {part whole : Nat} (le : part ≤ whole) :
    rate part whole * whole = part := by
  rw [rate]
  split
  · rename_i positive
    exact div_mul_cancel₀ _ (Nat.cast_ne_zero.mpr positive.ne')
  · have none : part = 0 := by omega
    rw [zero_mul, none, Nat.cast_zero]

theorem rest_mul_rate {part rest sub : Nat} (le : sub ≤ rest) :
    (1 - rate part (part + rest)) * rate sub rest * (part + rest : Nat) =
      sub := by
  have whole := rate_mul (Nat.le_add_right part rest)
  have share : (1 - rate part (part + rest)) * (part + rest : Nat) = rest := by
    rw [sub_mul, one_mul, whole, Nat.cast_add, add_sub_cancel_left]
  rw [mul_right_comm, share, mul_comm, rate_mul le]

theorem rate_split {part rest sub : Nat} (le : sub ≤ rest) :
    rate (part + sub) (part + rest) = rate part (part + rest) +
      (1 - rate part (part + rest)) * rate sub rest := by
  rcases Nat.eq_zero_or_pos (part + rest) with nothing | positive
  · obtain ⟨rfl, rfl⟩ := Nat.add_eq_zero_iff.mp nothing
    obtain rfl := Nat.le_zero.mp le
    simp [rate]
  · have whole : ((part + rest : Nat) : ℚ) ≠ 0 :=
      Nat.cast_ne_zero.mpr positive.ne'
    apply mul_right_cancel₀ whole
    rw [add_mul, rest_mul_rate le, rate_mul (Nat.add_le_add_left le part),
      rate_mul (Nat.le_add_right part rest), Nat.cast_add]

end Walde
