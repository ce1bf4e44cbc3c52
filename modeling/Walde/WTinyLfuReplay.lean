import Walde.BaselineReplay
import Walde.WTinyLfuCapacity

namespace Walde

open Foundation Foundation.StackDistance

/-! # The replay of the W-TinyLFU baseline -/

namespace WTinyLfuCache

def lookups (cache : WTinyLfuCache) : Nat :=
  cache.stats.hits + cache.stats.misses

def accounted (cache : WTinyLfuCache) : Nat :=
  cache.segments.entries.length + cache.stats.rejections +
    cache.stats.evictions

/-- What operations add to the accounts: how often they have looked something
up, and how many entries they have inserted besides those that they missed. -/
structure Earns (reads inserted : Nat) (cache after : WTinyLfuCache) :
    Prop where
  sound : after.Sound
  limits : after.limits = cache.limits
  lookups : after.lookups = cache.lookups + reads
  accounted : after.accounted + cache.stats.misses =
    cache.accounted + after.stats.misses + inserted
  evictions : after.stats.evictions + cache.stats.admissions ≤
    cache.stats.evictions + after.stats.admissions

theorem inserted_counts (stats : StripeStats) (admission : Admission) :
    (stats.inserted admission).hits = stats.hits ∧
      (stats.inserted admission).misses = stats.misses ∧
      (stats.inserted admission).rejections +
          (stats.inserted admission).evictions =
        stats.rejections + stats.evictions + admission.lost ∧
      (stats.inserted admission).evictions + stats.admissions ≤
        stats.evictions + (stats.inserted admission).admissions := by
  cases admission <;> refine ⟨rfl, rfl, ?_, ?_⟩ <;>
    simp only [StripeStats.inserted, Admission.lost] <;> omega

/-! ## Defined reads -/

/-- A get of a key in probation reads a node that it has erased. -/
def ReadsValue (cache : WTinyLfuCache) (key : Key) : Prop :=
  key ∉ KeyedList.keys cache.segments.probation

section Reads

variable {cache : WTinyLfuCache} {key : Key}

theorem Sound.defined_get (sound : cache.Sound) (defined : cache.ReadsValue key) :
    ∃ reply after, baseline.step cache (.get key) = some (reply, after) ∧
      cache.Becomes after (cache.segments.get cache.limits key)
        (cache.stats.looked (key ∈ cache.segments.keys)) ∧
      hasValue reply = decide (key ∈ cache.segments.keys) := by
  rcases sound.get key with ⟨reply, after, got, becomes, answers⟩
  have got' : cache.step (.get key) = some (reply, after) := got
  refine ⟨reply, after, ?_, becomes, ?_⟩ <;>
    by_cases resident : key ∈ cache.segments.keys
  · rcases List.mem_map.mp resident with ⟨⟨name, value⟩, member, rfl⟩
    have found := answers.found value member
    rw [if_neg defined] at found
    subst found
    change definedStep cache _ = _
    rw [definedStep, got']
  · have missing := answers.missing resident
    subst missing
    change definedStep cache _ = _
    rw [definedStep, got']
  · rcases List.mem_map.mp resident with ⟨⟨name, value⟩, member, rfl⟩
    rw [answers.found value member, if_neg defined, decide_eq_true resident]
    rfl
  · rw [answers.missing resident, decide_eq_false resident]
    rfl

theorem Sound.undefined_get (sound : cache.Sound)
    (undefined : ¬cache.ReadsValue key) :
    baseline.step cache (.get key) = none := by
  rw [ReadsValue, not_not] at undefined
  rcases List.mem_map.mp undefined with ⟨⟨name, value⟩, member, rfl⟩
  have inEntries : (name, value) ∈ cache.segments.entries :=
    List.mem_append_right _ (List.mem_append_left _ member)
  rcases sound.get name with ⟨reply, after, got, -, answers⟩
  have got' : cache.step (.get name) = some (reply, after) := got
  have erased := answers.found value inEntries
  rw [if_pos undefined] at erased
  subst erased
  change definedStep cache _ = _
  rw [definedStep, got']

theorem defined_put {value : Value} {inserted : Bool} {after : WTinyLfuCache}
    (put : cache.put key value = some (.changed inserted, after)) :
    baseline.step cache (.put key value) = some (.changed inserted, after) := by
  have put' : cache.step (.put key value) = some (.changed inserted, after) :=
    put
  change definedStep cache _ = _
  rw [definedStep, put']

end Reads

section Earns

variable {cache middle after : WTinyLfuCache}
  {reads reads' inserted inserted' : Nat}

theorem Sound.write (sound : cache.Sound) (key : Key) (value : Value) :
    ∃ after, baseline.write cache key value = some after ∧
      Earns 0 (decide (key ∉ cache.segments.keys)).toNat cache after := by
  rcases sound.put key value with ⟨counted, after, -, put, becomes⟩
  have sound' := sound.of_becomes becomes
    (sound.bounded.put counted.beats (key, value))
  have length := Segments.put_length cache.limits counted.beats (key, value)
    cache.segments
  rcases inserted_counts cache.stats (cache.segments.put cache.limits
    counted.beats (key, value)).1 with ⟨hits, misses, lost, evictions⟩
  rw [← becomes.segments] at length
  rw [← becomes.stats] at hits misses lost evictions
  refine ⟨after, BaselineCache.write_eq (defined_put put), sound',
    becomes.limits, ?_, ?_, evictions⟩
  · rw [lookups, hits, misses]
    rfl
  · rw [accounted, accounted, misses]
    dsimp only at length
    omega

theorem Sound.read (sound : cache.Sound) {key : Key}
    (defined : cache.ReadsValue key) :
    ∃ after, baseline.read cache key = some after ∧
      Earns 1 0 cache after := by
  rcases sound.defined_get defined with ⟨reply, middle, got, becomes, hit⟩
  have sound' := sound.of_becomes becomes (sound.bounded.get key)
  have length := Segments.get_length cache.limits key cache.segments
  rw [← becomes.segments] at length
  have stats := becomes.stats
  by_cases resident : key ∈ cache.segments.keys
  · rw [decide_eq_true resident] at hit stats
    refine ⟨middle, BaselineCache.read_found got hit, sound', becomes.limits,
      ?_, ?_, ?_⟩
    · rw [lookups, lookups, stats]
      exact Nat.add_right_comm _ _ _
    · rw [accounted, accounted, stats, length]
      rfl
    · rw [stats]
      exact le_rfl
  · rw [decide_eq_false resident] at hit stats
    have absent : key ∉ middle.segments.keys := by
      rw [becomes.segments, Segments.get, if_neg resident]
      exact resident
    rcases sound'.write key ("value_" ++ key) with ⟨after, written, earns⟩
    refine ⟨after, (BaselineCache.read_missed got hit).trans written,
      earns.sound, earns.limits.trans becomes.limits, ?_, ?_, ?_⟩
    · rw [earns.lookups, lookups, lookups, stats]
      rfl
    · have accounts := earns.accounted
      rw [decide_eq_true absent, Bool.toNat_true] at accounts
      rw [accounted, accounted, stats, length] at accounts
      rw [accounted, accounted]
      change _ + (cache.stats.misses + 1) =
        cache.segments.entries.length + cache.stats.rejections +
          cache.stats.evictions + _ + 1 at accounts
      omega
    · have evictions := earns.evictions
      rw [stats] at evictions
      exact evictions

theorem Sound.undefined_read (sound : cache.Sound) {key : Key}
    (undefined : ¬cache.ReadsValue key) : baseline.read cache key = none := by
  rw [BaselineCache.read, sound.undefined_get undefined]
  rfl

theorem Earns.trans (first : Earns reads inserted cache middle)
    (second : Earns reads' inserted' middle after) :
    Earns (reads + reads') (inserted + inserted') cache after where
  sound := second.sound
  limits := second.limits.trans first.limits
  lookups := by rw [second.lookups, first.lookups, Nat.add_assoc]
  accounted := by
    have before := first.accounted
    have later := second.accounted
    omega
  evictions := by
    have before := first.evictions
    have later := second.evictions
    omega

theorem Sound.measure (sound : cache.Sound) {op : BenchOp}
    (defined : op.isRead = true → cache.ReadsValue op.key) :
    ∃ inserted after, baseline.measure cache op = some after ∧
      inserted ≤ (decide (op.type ≠ .get)).toNat ∧
      Earns op.isRead.toNat inserted cache after := by
  rw [BenchOp.isRead] at *
  rw [BaselineCache.measure]
  cases type : op.type with
  | put =>
      rcases sound.write op.key op.value with ⟨after, written, earns⟩
      exact ⟨_, after, written, Bool.toNat_le _, earns⟩
  | get =>
      rw [type] at defined
      rcases sound.read (defined rfl) with ⟨after, looked, earns⟩
      exact ⟨0, after, looked, Nat.zero_le _, earns⟩
  | rmw =>
      rw [type] at defined
      rcases sound.read (defined rfl) with ⟨middle, looked, earns⟩
      rcases earns.sound.write op.key op.value with ⟨after, written, earns'⟩
      refine ⟨_, after, ?_, ?_, earns.trans earns'⟩
      · rw [looked]
        exact written
      · rw [Nat.zero_add]
        exact Bool.toNat_le _

theorem Sound.undefined_measure (sound : cache.Sound) {op : BenchOp}
    (undefined : ¬(op.isRead = true → cache.ReadsValue op.key)) :
    baseline.measure cache op = none := by
  rcases Classical.not_imp.mp undefined with ⟨reads, undefined⟩
  rw [BenchOp.isRead] at reads
  rw [BaselineCache.measure]
  cases type : op.type with
  | put =>
      rw [type] at reads
      cases reads
  | get => exact sound.undefined_read undefined
  | rmw =>
      rw [sound.undefined_read undefined]
      rfl

theorem Sound.warmUp (sound : cache.Sound) {op : BenchOp}
    (defined : op.type = .get → cache.ReadsValue op.key) :
    ∃ after, baseline.warmUp cache op = some after ∧ after.Sound ∧
      after.limits = cache.limits := by
  rw [BaselineCache.warmUp]
  cases type : op.type with
  | get =>
      rcases sound.read (defined type) with ⟨after, looked, earns⟩
      exact ⟨after, looked, earns.sound, earns.limits⟩
  | put =>
      rcases sound.write op.key op.value with ⟨after, written, earns⟩
      exact ⟨after, written, earns.sound, earns.limits⟩
  | rmw =>
      rcases sound.write op.key op.value with ⟨after, written, earns⟩
      exact ⟨after, written, earns.sound, earns.limits⟩

end Earns

theorem Sound.resetStats {cache : WTinyLfuCache} (sound : cache.Sound) :
    cache.resetStats.Sound where
  linked := ⟨sound.linked.indexed, sound.linked.tag⟩
  bounded := sound.bounded
  roomy := sound.roomy
  ready := sound.ready

theorem Sound.length_le {capacity : Nat} {cache : WTinyLfuCache}
    (sound : cache.Sound) (limits : cache.limits = (StripeConfig.new capacity
      .defaultWindow .defaultProbation).limits) :
    cache.segments.entries.length ≤ capacity := by
  have length := sound.bounded.length_le
  rw [limits] at length
  exact length.trans (Nat.le_of_eq (StripeConfig.new capacity .defaultWindow
    .defaultProbation).split)

/-! ## Whole replays -/

section Replays

variable {capacity : Nat} (two : 2 ≤ capacity) (fits : capacity < uint32Size)
  (provides : BloomDoorkeeper.Provides (doorkeeperBits capacity))

include two fits provides

omit two fits provides

/-- What the measured operations have done by then. -/
def Measured (warm : WTinyLfuCache) (past : List BenchOp)
    (cache : WTinyLfuCache) : Prop :=
  ∃ inserted ≤ past.countP (·.type ≠ .get),
    Earns (past.countP BenchOp.isRead) inserted warm.resetStats cache

theorem Measured.step {warm : WTinyLfuCache} (past : List BenchOp)
    (cache : WTinyLfuCache) (op : BenchOp) (measured : Measured warm past cache)
    (defined : op.isRead = true → cache.ReadsValue op.key) :
    ∃ after, baseline.measure cache op = some after ∧
      Measured warm (past ++ [op]) after := by
  rcases measured with ⟨inserted, few, earns⟩
  rcases earns.sound.measure defined with ⟨more, after, measured, one, earns'⟩
  have single : ∀ kind : BenchOp → Bool,
      [op].countP kind = (kind op).toNat := by
    intro kind
    rw [List.countP_singleton]
    cases kind op <;> rfl
  refine ⟨after, measured, inserted + more, ?_, ?_⟩
  · rw [List.countP_append, single]
    exact Nat.add_le_add few one
  · rw [List.countP_append, single]
    exact earns.trans earns'

theorem Measured.fault {warm : WTinyLfuCache} (past : List BenchOp)
    (cache : WTinyLfuCache) (op : BenchOp) (measured : Measured warm past cache)
    (undefined : ¬(op.isRead = true → cache.ReadsValue op.key)) :
    baseline.measure cache op = none := by
  rcases measured with ⟨inserted, -, earns⟩
  exact earns.sound.undefined_measure undefined

theorem Measured.start {warm : WTinyLfuCache} (sound : warm.Sound) :
    Measured warm [] warm.resetStats :=
  ⟨0, le_rfl, sound.resetStats, rfl, rfl, rfl, le_rfl⟩

include two fits provides

end Replays

end WTinyLfuCache

/-! ## The results -/

end Walde
