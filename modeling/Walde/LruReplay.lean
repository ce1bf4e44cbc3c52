import Walde.BaselineReplay

namespace Walde

open Foundation Foundation.StackDistance
open Foundation.KeyedList (recent)

/-! # The replay of the LRU baseline -/

namespace LruCache

/-- The key was used before, and since then fewer other keys than there are
places. -/
def reused (capacity : Nat) (uses : List Key) (key : Key) : Bool :=
  decide (key ∈ uses ∧ distance key uses < capacity)

def filled (capacity : Nat) (uses : List Key) : Bool :=
  decide (capacity ≤ uses.dedup.length)

inductive Counter
  | hits
  | misses
  | evictions
deriving DecidableEq, Repr

namespace Counter

def of : Counter → LruCache → Nat
  | .hits, cache => cache.hits
  | .misses, cache => cache.misses
  | .evictions, cache => cache.evictions

def raised (capacity : Nat) (reads : Bool) (uses : List Key) (key : Key) :
    Counter → Bool
  | .hits => reads && reused capacity uses key
  | .misses => reads && !reused capacity uses key
  | .evictions => !reused capacity uses key && filled capacity uses

end Counter

/-- A sound cache with the keys that were used last. -/
structure Holds (capacity : Nat) (uses : List Key) (cache : LruCache) :
    Prop where
  sound : cache.Sound
  sameCapacity : cache.capacity = capacity
  keys : KeyedList.keys cache.entries = (recent uses).take capacity

section Holds

variable {capacity : Nat} {uses : List Key} {cache after : LruCache} {key : Key}

theorem Holds.new (capacity : Nat) : Holds capacity [] (new capacity) where
  sound := .new capacity
  sameCapacity := rfl
  keys := List.take_nil.symm

theorem Holds.resident_iff (holds : Holds capacity uses cache) :
    key ∈ KeyedList.keys cache.entries ↔ reused capacity uses key = true := by
  rw [holds.keys, mem_take_recent, reused, decide_eq_true_eq]

theorem Holds.length (holds : Holds capacity uses cache) :
    cache.list.length = min capacity (recent uses).length := by
  have lengths := congrArg List.length holds.keys
  rwa [keys_entries, LruCache.keys, List.length_map, List.length_take] at lengths

theorem Holds.use (holds : Holds capacity uses cache) (positive : 1 ≤ capacity)
    {value : Value} (sound : after.Sound)
    (sameCapacity : after.capacity = cache.capacity)
    (entries : after.entries =
      KeyedList.use cache.capacity key value cache.entries) :
    Holds capacity (uses ++ [key]) after where
  sound
  sameCapacity := sameCapacity.trans holds.sameCapacity
  keys := by
    rw [entries, holds.sameCapacity]
    exact KeyedList.keys_use positive holds.keys

theorem Holds.evictions (holds : Holds capacity uses cache)
    (holds' : Holds capacity (uses ++ [key]) after)
    (balance : after.evictions + after.list.length = cache.evictions +
      cache.list.length +
        (decide (key ∉ KeyedList.keys cache.entries)).toNat) :
    after.evictions = cache.evictions +
      (!reused capacity uses key && filled capacity uses).toNat := by
  have distinct : (recent uses).length = uses.dedup.length :=
    List.length_reverse
  have grown := length_recent_concat key uses
  rw [holds.length, holds'.length] at balance
  by_cases resident : key ∈ KeyedList.keys cache.entries
  · have hit := holds.resident_iff.mp resident
    have used : key ∈ uses := (of_decide_eq_true hit).1
    rw [decide_eq_false (not_not_intro used), Bool.toNat_false,
      Nat.add_zero] at grown
    rw [decide_eq_false (not_not_intro resident), Bool.toNat_false,
      Nat.add_zero, grown] at balance
    rw [hit]
    exact Nat.add_right_cancel balance
  · have miss : reused capacity uses key = false :=
      Bool.eq_false_iff.mpr (mt holds.resident_iff.mpr resident)
    rw [decide_eq_true resident, Bool.toNat_true] at balance
    rw [miss, filled, Bool.not_false, Bool.true_and]
    by_cases full : capacity ≤ uses.dedup.length
    · rw [decide_eq_true full, Bool.toNat_true]
      omega
    · -- a key that was used is resident then
      have unused : key ∉ uses := by
        intro used
        apply resident
        rw [holds.keys, List.take_of_length_le (by omega), recent,
          List.mem_reverse, List.mem_dedup]
        exact used
      rw [decide_eq_true unused, Bool.toNat_true] at grown
      rw [decide_eq_false full, Bool.toNat_false]
      omega

theorem Holds.write (holds : Holds capacity uses cache) (positive : 1 ≤ capacity)
    (key : Key) (value : Value) :
    ∃ after, baseline.write cache key value = some after ∧
      Holds capacity (uses ++ [key]) after ∧
      ∀ counter : Counter, counter.of after = counter.of cache +
        (counter.raised capacity false uses key).toNat := by
  have enough : 1 ≤ cache.capacity := by rwa [holds.sameCapacity]
  rcases holds.sound.put enough key value with
    ⟨after, put, sound, sameCapacity, entries, balance⟩
  have stepped : step cache (.put key value) =
      some (.changed (decide (key ∉ KeyedList.keys cache.entries)), after) := by
    rw [step, put]
    rfl
  have counts := step_counts stepped
  have holds' := holds.use positive sound sameCapacity entries
  refine ⟨after, ?_, holds', ?_⟩
  · exact BaselineCache.write_eq stepped
  · intro counter
    cases counter with
    | hits => exact counts.1
    | misses => exact counts.2
    | evictions => exact holds.evictions holds' balance

theorem Holds.read (holds : Holds capacity uses cache) (positive : 1 ≤ capacity)
    (key : Key) :
    ∃ after, baseline.read cache key = some after ∧
      Holds capacity (uses ++ [key]) after ∧
      ∀ counter : Counter, counter.of after = counter.of cache +
        (counter.raised capacity true uses key).toNat := by
  by_cases resident : key ∈ KeyedList.keys cache.entries
  · have hit := holds.resident_iff.mp resident
    rcases List.mem_map.mp resident with ⟨⟨name, value⟩, member, rfl⟩
    rcases holds.sound.get_hit member with
      ⟨after, got, sound, sameCapacity, evictions, entries⟩
    have stepped : step cache (.get name) =
        some (.value (some value), after) := by
      rw [step, got]
      rfl
    have counts := step_counts stepped
    refine ⟨after, BaselineCache.read_found stepped rfl,
      holds.use positive sound sameCapacity entries, ?_⟩
    intro counter
    cases counter with
    | hits =>
        rw [Counter.raised, hit]
        exact counts.1
    | misses =>
        rw [Counter.raised, hit]
        exact counts.2
    | evictions =>
        rw [Counter.raised, hit]
        exact evictions
  · have miss : reused capacity uses key = false :=
      Bool.eq_false_iff.mpr (mt holds.resident_iff.mpr resident)
    have stepped : step cache (.get key) = some (.value none,
        { cache with misses := cache.misses + 1 }) := by
      rw [step, get, holds.sound.lookup_eq_none.mpr resident]
      rfl
    have middle : Holds capacity uses
        { cache with misses := cache.misses + 1 } :=
      ⟨⟨holds.sound.indexed, holds.sound.within⟩, holds.sameCapacity, holds.keys⟩
    rcases middle.write positive key ("value_" ++ key) with
      ⟨after, written, holds', counted⟩
    refine ⟨after, (BaselineCache.read_missed stepped rfl).trans written, holds',
      ?_⟩
    intro counter
    rw [counted]
    cases counter with
    | hits =>
        rw [Counter.raised, Counter.raised, miss]
        rfl
    | misses =>
        rw [Counter.raised, Counter.raised, miss]
        rfl
    | evictions => rfl

theorem raised_again (positive : 1 ≤ capacity) (key : Key) (uses : List Key)
    (counter : Counter) :
    counter.raised capacity false (uses ++ [key]) key = false := by
  have again : reused capacity (uses ++ [key]) key = true := by
    rw [reused, decide_eq_true_eq, ← mem_take_recent,
      KeyedList.recent_concat, ← Nat.sub_add_cancel positive]
    simp
  cases counter with
  | hits => rfl
  | misses => rfl
  | evictions =>
      rw [Counter.raised, again]
      rfl

theorem Holds.measure (holds : Holds capacity uses cache)
    (positive : 1 ≤ capacity) (op : BenchOp) :
    ∃ after, baseline.measure cache op = some after ∧
      Holds capacity (uses ++ [op.key]) after ∧
      ∀ counter : Counter, counter.of after = counter.of cache +
        (counter.raised capacity op.isRead uses op.key).toNat := by
  rw [BaselineCache.measure, BenchOp.isRead]
  cases op.type with
  | put => exact holds.write positive op.key op.value
  | get => exact holds.read positive op.key
  | rmw =>
      rcases holds.read positive op.key with ⟨middle, looked, holds', counted⟩
      rcases holds'.write positive op.key op.value with
        ⟨after, written, holds'', again⟩
      refine ⟨after, ?_, ⟨holds''.sound, holds''.sameCapacity, ?_⟩, ?_⟩
      · rw [looked]
        exact written
      · rw [← recent_twice]
        exact holds''.keys
      · intro counter
        rw [again, raised_again positive]
        exact counted counter

theorem Holds.warmUp (holds : Holds capacity uses cache)
    (positive : 1 ≤ capacity) (op : BenchOp) :
    ∃ after, baseline.warmUp cache op = some after ∧
      Holds capacity (uses ++ [op.key]) after := by
  rw [BaselineCache.warmUp]
  cases op.type with
  | put =>
      rcases holds.write positive op.key op.value with ⟨after, written, holds', -⟩
      exact ⟨after, written, holds'⟩
  | rmw =>
      rcases holds.write positive op.key op.value with ⟨after, written, holds', -⟩
      exact ⟨after, written, holds'⟩
  | get =>
      rcases holds.read positive op.key with ⟨after, looked, holds', -⟩
      exact ⟨after, looked, holds'⟩

end Holds

/-! ## Whole replays -/

def keysOf (ops : List BenchOp) : List Key := ops.map BenchOp.key

/-- How often a counter is raised by operations after others. -/
def tally (capacity : Nat) (counter : Counter) (past ops : List BenchOp) : Nat :=
  countAlong (fun past op =>
    counter.raised capacity op.isRead (keysOf past) op.key) past ops

theorem Holds.replay {capacity : Nat} (positive : 1 ≤ capacity)
    (ops : List BenchOp) (warmup : Nat) :
    ∃ cache, baseline.replay ops warmup (LruCache.new capacity) = some cache ∧
      Holds capacity (keysOf (ops.take warmup ++ measuredOps ops warmup))
        cache ∧
      ∀ counter : Counter, counter.of cache =
        tally capacity counter (ops.take warmup) (measuredOps ops warmup) := by
  have keysOf_concat : ∀ (past : List BenchOp) (op : BenchOp),
      keysOf (past ++ [op]) = keysOf past ++ [op.key] := fun _ _ =>
    List.map_append
  have warming : ∀ past cache op, Holds capacity (keysOf past) cache →
      ∃ after, baseline.warmUp cache op = some after ∧
        Holds capacity (keysOf (past ++ [op])) after := by
    intro past cache op holds
    rw [keysOf_concat]
    exact holds.warmUp positive op
  have measuring : ∀ past cache op, Holds capacity (keysOf past) cache →
      ∃ after, baseline.measure cache op = some after ∧
        Holds capacity (keysOf (past ++ [op])) after ∧
        ∀ counter : Counter, counter.of after = counter.of cache +
          (counter.raised capacity op.isRead (keysOf past) op.key).toNat := by
    intro past cache op holds
    rw [keysOf_concat]
    exact holds.measure positive op
  have start : Holds capacity (keysOf []) (LruCache.new capacity) :=
    .new capacity
  rcases foldlM_keeps warming [] start (ops.take warmup) with
    ⟨warm, warmed, holds⟩
  rw [List.nil_append] at holds
  have reset : Holds capacity (keysOf (ops.take warmup)) warm.resetStats :=
    ⟨⟨holds.sound.indexed, holds.sound.within⟩, holds.sameCapacity, holds.keys⟩
  rcases foldlM_along measuring _ reset (measuredOps ops warmup) with
    ⟨last, measured, holds', counted⟩
  refine ⟨last, ?_, holds', fun counter => ?_⟩
  · rw [BaselineCache.replay, warmed]
    exact measured
  · have zero : counter.of warm.resetStats = 0 := by
      cases counter <;> rfl
    rw [counted, zero, Nat.zero_add]
    rfl

theorem tally_reads (capacity : Nat) (past ops : List BenchOp) :
    tally capacity .hits past ops + tally capacity .misses past ops =
      ops.countP BenchOp.isRead := by
  rw [tally, tally, ← countAlong_eq_countP BenchOp.isRead past ops]
  apply countAlong_add
  intro past op
  rw [Counter.raised, Counter.raised]
  cases op.isRead <;> cases reused capacity (keysOf past) op.key <;> rfl

theorem hitRate_of_counted {capacity : Nat} {cache : LruCache}
    {past ops : List BenchOp}
    (counted : ∀ counter : Counter,
      counter.of cache = tally capacity counter past ops) :
    cache.hitRate =
      rate (tally capacity .hits past ops) (ops.countP BenchOp.isRead) := by
  have hits : cache.hits = _ := counted .hits
  have misses : cache.misses = _ := counted .misses
  rw [hitRate, hits, misses, tally_reads]

theorem reused_mono {capacity capacity' : Nat} (le : capacity ≤ capacity')
    {uses : List Key} {key : Key} (reused' : reused capacity uses key = true) :
    reused capacity' uses key = true := by
  rw [reused, decide_eq_true_eq] at *
  exact ⟨reused'.1, reused'.2.trans_le le⟩

theorem tally_hits_mono {capacity capacity' : Nat} (le : capacity ≤ capacity')
    (past ops : List BenchOp) :
    tally capacity .hits past ops ≤ tally capacity' .hits past ops := by
  apply countAlong_mono
  intro past op hit
  rw [Counter.raised, Bool.and_eq_true] at *
  exact ⟨hit.1, reused_mono le hit.2⟩

theorem tally_evictions_anti {capacity capacity' : Nat}
    (le : capacity ≤ capacity') (past ops : List BenchOp) :
    tally capacity' .evictions past ops ≤
      tally capacity .evictions past ops := by
  apply countAlong_mono
  intro past op evicts
  rw [Counter.raised, Bool.and_eq_true, Bool.not_eq_true', filled,
    decide_eq_true_eq] at *
  refine ⟨Bool.eq_false_iff.mpr fun hit => ?_, le.trans evicts.2⟩
  rw [reused_mono le hit] at evicts
  exact Bool.noConfusion evicts.1

end LruCache

/-! ## The results -/

theorem runLru_of_replayed {capacity : Nat} {ops : List BenchOp} {warmup : Nat}
    {cache : LruCache} (replayed :
      LruCache.baseline.replay ops warmup (.new capacity) = some cache) :
    runLru ops warmup capacity = some {
      name := "LRU"
      hitRate := cache.hitRate
      l1HitRate := cache.hitRate
      totalOps := mops ops warmup
      evictions := cache.evictions
      approxMemory := capacity * 132 } := by
  rw [runLru, replayed]
  rfl

/-- What the benchmark reports of the LRU baseline is a count of reuse
distances: a measured read hits when its key was used before, with fewer other
keys since than the cache has places, and a use that does not find its key
evicts one when so many keys were used. -/
theorem runLru_counts {capacity : Nat} (positive : 1 ≤ capacity)
    (ops : List BenchOp) (warmup : Nat) :
    runLru ops warmup capacity = some {
      name := "LRU"
      hitRate := rate
        (LruCache.tally capacity .hits (ops.take warmup)
          (measuredOps ops warmup))
        ((measuredOps ops warmup).countP BenchOp.isRead)
      l1HitRate := rate
        (LruCache.tally capacity .hits (ops.take warmup)
          (measuredOps ops warmup))
        ((measuredOps ops warmup).countP BenchOp.isRead)
      totalOps := mops ops warmup
      evictions := LruCache.tally capacity .evictions (ops.take warmup)
        (measuredOps ops warmup)
      approxMemory := capacity * 132 } := by
  rcases LruCache.Holds.replay positive ops warmup with
    ⟨cache, replayed, -, counted⟩
  have evictions : cache.evictions = _ := counted .evictions
  rw [runLru_of_replayed replayed, LruCache.hitRate_of_counted counted,
    evictions]

def sampleReads : List BenchOp :=
  ["a", "b", "a", "c", "b"].map fun key => { key }

/-- After the warm-up "a" is still there. Then "c" pushes out "b", which pushes
out "a". -/
theorem runLru_counts_sample :
    runLru sampleReads 2 2 = some {
      name := "LRU"
      hitRate := 1 / 3
      l1HitRate := 1 / 3
      totalOps := 3
      evictions := 2
      approxMemory := 264 } :=
  (runLru_counts (by decide) sampleReads 2).trans (by decide +kernel)

/-- More capacity never lowers the hit rate that is reported, and never raises
the number of evictions. -/
theorem runLru_mono {capacity capacity' : Nat} (positive : 1 ≤ capacity)
    (le : capacity ≤ capacity') (ops : List BenchOp) (warmup : Nat) :
    ∃ result result', runLru ops warmup capacity = some result ∧
      runLru ops warmup capacity' = some result' ∧
      result.hitRate ≤ result'.hitRate ∧
      result'.evictions ≤ result.evictions ∧
      result'.totalOps = result.totalOps := by
  rcases LruCache.Holds.replay positive ops warmup with
    ⟨cache, replayed, -, counted⟩
  rcases LruCache.Holds.replay (positive.trans le) ops warmup with
    ⟨cache', replayed', -, counted'⟩
  refine ⟨_, _, runLru_of_replayed replayed, runLru_of_replayed replayed', ?_,
    ?_, rfl⟩
  · rw [LruCache.hitRate_of_counted counted,
      LruCache.hitRate_of_counted counted']
    exact rate_mono (LruCache.tally_hits_mono le _ _)
  · have evictions : cache.evictions = _ := counted .evictions
    have evictions' : cache'.evictions = _ := counted' .evictions
    rw [evictions, evictions']
    exact LruCache.tally_evictions_anti le _ _

theorem runLru_mono_sample :
    ∃ result result', runLru sampleReads 2 2 = some result ∧
      runLru sampleReads 2 3 = some result' ∧
      result.hitRate ≤ result'.hitRate ∧
      result'.evictions ≤ result.evictions ∧
      result'.totalOps = result.totalOps :=
  runLru_mono (by decide) (by decide) sampleReads 2

end Walde
