import Walde.WorkloadGenerator

namespace Walde

/-! # Scan bursts

What a generator emits falls into stretches: single operations, and bursts of
consecutive reads. Every stretch takes two draws. -/

inductive Stretch
  | single (op : WorkloadOp)
  | burst (offset : Nat)
deriving DecidableEq, Repr

namespace Stretch

/-- The reads of a burst that are still to come when `count` are; they go down
to the offset. -/
def scans (offset count : Nat) : List WorkloadOp :=
  (List.range count).reverse.map fun i =>
    { key := WorkloadGenerator.scanKey (offset + i) }

def ops (scanLength : Nat) : Stretch → List WorkloadOp
  | .single op => [op]
  | .burst offset => scans offset scanLength

def isBurst : Stretch → Bool
  | .single _ => false
  | .burst _ => true

inductive Drawn (math : DoubleMath) (config : WorkloadConfig)
    (first second : ℚ) : Stretch → Prop
  | single {op : WorkloadOp} (index : Nat) :
      config.actualScanProb ≤ first →
      op.key = ZipfianGenerator.keyOf index →
      (op.type = .put ↔ second < config.writeRatio) →
      Drawn math config first second (.single op)
  | burst : first < config.actualScanProb →
      Drawn math config first second
        (.burst (math.toUint32 (second * config.numKeys * 10)))

theorem scans_succ (offset count : Nat) :
    scans offset (count + 1) =
      { key := WorkloadGenerator.scanKey (offset + count) } ::
        scans offset count := by
  simp [scans, List.range_succ]

@[simp] theorem scans_length (offset count : Nat) :
    (scans offset count).length = count := by
  simp [scans]

theorem scans_keys {offset count : Nat} (fits : offset + count ≤ uint32Size) :
    ((scans offset count).map WorkloadOp.key).Perm
      ((List.range' offset count).map fun index => "scan_" ++ toString index) := by
  have keys : (scans offset count).map WorkloadOp.key =
      ((List.range' offset count).map fun index =>
        "scan_" ++ toString index).reverse := by
    rw [scans, List.map_map, ← List.map_reverse, List.range'_eq_map_range,
      ← List.map_reverse, List.map_map]
    apply List.map_congr_left
    intro i member
    have below : i < count := by simpa using member
    have inWord : (offset + i) % uint32Size = offset + i :=
      Nat.mod_eq_of_lt (by omega)
    simp [WorkloadGenerator.scanKey, inWord]
  rw [keys]
  exact List.reverse_perm _

end Stretch

/-! ## Calls -/

inductive GeneratorCall
  | next
  | generateBatch (count : Nat)
deriving DecidableEq, Repr

def GeneratorCall.count : GeneratorCall → Nat
  | .next => 1
  | .generateBatch count => count

namespace WorkloadGenerator

def run (math : DoubleMath) (depth : Nat) :
    List GeneratorCall → WorkloadGenerator →
      Option (List WorkloadOp × WorkloadGenerator)
  | [], generator => some ([], generator)
  | .next :: rest, generator => do
      let (op, generator) ← generator.nextWithin math depth
      let (ops, generator) ← run math depth rest generator
      return (op :: ops, generator)
  | .generateBatch count :: rest, generator => do
      let (batch, generator) ← generator.generateBatch math depth count
      let (ops, generator) ← run math depth rest generator
      return (batch ++ ops, generator)

def rest (generator : WorkloadGenerator) : List WorkloadOp :=
  Stretch.scans generator.scanOffset generator.scanRemaining

/-- The operations emitted so far, in stretches; the last one may be a burst
that is not finished. -/
structure Follows (math : DoubleMath) (config : WorkloadConfig)
    (draws : Nat → ℚ) (stretches : List Stretch) (ops : List WorkloadOp)
    (generator : WorkloadGenerator) : Prop where
  sameConfig : generator.config = config
  prob : generator.actualScanProb = config.actualScanProb
  position : ∀ i, generator.draws i = draws (2 * stretches.length + i)
  drawn : ∀ (k : Nat) (stretch : Stretch), stretches[k]? = some stretch →
    stretch.Drawn math config (draws (2 * k)) (draws (2 * k + 1))
  emitted : ops ++ generator.rest =
    stretches.flatMap (Stretch.ops config.scanLength)
  counted : generator.opsGenerated =
    ops.length + stretches.countP Stretch.isBurst
  unfinished : generator.scanRemaining = 0 ∨
    generator.scanRemaining ≤ config.scanLength ∧
      stretches.getLast? = some (.burst generator.scanOffset)

section Follows

variable {math : DoubleMath} {config : WorkloadConfig} {draws : Nat → ℚ}
  {stretches : List Stretch} {ops : List WorkloadOp}
  {generator : WorkloadGenerator} {depth : Nat}

theorem new_follows {zipfDraws : Nat → ℚ}
    (made : new math config zipfDraws draws = some generator) :
    Follows math config draws [] [] generator := by
  rcases Option.map_eq_some_iff.mp made with ⟨zipf, -, rfl⟩
  exact ⟨rfl, rfl, fun i => by simp, by simp, rfl, rfl, .inl rfl⟩

theorem Follows.inside (follows : Follows math config draws stretches ops
      generator) {remaining : Nat}
    (inside : generator.scanRemaining = remaining + 1) :
    Follows math config draws stretches
      (ops ++ [{ key := scanKey (generator.scanOffset + remaining) }])
      { generator with
        scanRemaining := remaining
        opsGenerated := generator.opsGenerated + 1 } where
  sameConfig := follows.sameConfig
  prob := follows.prob
  position := follows.position
  drawn := follows.drawn
  emitted := by
    rw [← follows.emitted, rest, rest, inside, Stretch.scans_succ]
    simp
  counted := by
    have counted := follows.counted
    simp only [List.length_append, List.length_singleton]
    omega
  unfinished := by
    rcases follows.unfinished with outside | ⟨within, last⟩
    · omega
    · exact .inr ⟨by change remaining ≤ _; omega, last⟩

theorem Follows.drawn_concat (follows : Follows math config draws stretches ops
      generator) {next : Stretch}
    (drawn : next.Drawn math config (generator.draws 0) (generator.draws 1))
    (k : Nat) (stretch : Stretch)
    (found : (stretches ++ [next])[k]? = some stretch) :
    stretch.Drawn math config (draws (2 * k)) (draws (2 * k + 1)) := by
  rcases Nat.lt_trichotomy k stretches.length with before | here | beyond
  · rw [List.getElem?_append_left before] at found
    exact follows.drawn k stretch found
  · rw [here, List.getElem?_concat_length] at found
    cases found
    rwa [follows.position, follows.position, Nat.add_zero, ← here] at drawn
  · have past : (stretches ++ [next]).length ≤ k := by
      simpa using Nat.succ_le_of_lt beyond
    rw [List.getElem?_eq_none past] at found
    cases found

theorem Follows.position_concat (follows : Follows math config draws stretches
      ops generator) (next : Stretch) (i : Nat) :
    generator.draws (i + 2) = draws (2 * (stretches ++ [next]).length + i) := by
  rw [follows.position, List.length_append, List.length_singleton]
  exact congrArg draws (by omega)

theorem Follows.started (follows : Follows math config draws stretches ops
      generator) (outside : generator.scanRemaining = 0)
    (starts : generator.draws 0 < generator.actualScanProb) :
    Follows math config draws
      (stretches ++ [.burst (generator.startBurst math).scanOffset]) ops
      (generator.startBurst math) where
  sameConfig := follows.sameConfig
  prob := follows.prob
  position := follows.position_concat _
  drawn := by
    apply follows.drawn_concat
    rw [follows.prob] at starts
    rw [startBurst, follows.sameConfig]
    exact .burst starts
  emitted := by
    have emitted := follows.emitted
    rw [rest, outside] at emitted
    have finished : ops = stretches.flatMap (Stretch.ops config.scanLength) := by
      simpa [Stretch.scans] using emitted
    rw [List.flatMap_append, ← finished, rest, startBurst, follows.sameConfig]
    simp [Stretch.ops]
  counted := by
    have counted := follows.counted
    rw [List.countP_append, startBurst]
    simp only [List.countP_singleton, Stretch.isBurst, if_true]
    omega
  unfinished := .inr ⟨by rw [startBurst, follows.sameConfig], by simp⟩

theorem Follows.single (follows : Follows math config draws stretches ops
      generator) (outside : generator.scanRemaining = 0)
    (misses : generator.actualScanProb ≤ generator.draws 0) {op : WorkloadOp}
    (key : op.key = generator.zipf.nextKey.1)
    (type : op.type = .put ↔ generator.draws 1 < generator.config.writeRatio) :
    Follows math config draws (stretches ++ [.single op]) (ops ++ [op])
      { generator with
        zipf := generator.zipf.nextKey.2
        draws := fun i => generator.draws (i + 2)
        opsGenerated := generator.opsGenerated + 1 } where
  sameConfig := follows.sameConfig
  prob := follows.prob
  position := follows.position_concat _
  drawn := by
    apply follows.drawn_concat
    rw [follows.prob] at misses
    rw [follows.sameConfig] at type
    exact .single generator.zipf.nextIndex.1 misses key type
  emitted := by
    have emitted := follows.emitted
    rw [rest, outside] at emitted
    have finished : ops = stretches.flatMap (Stretch.ops config.scanLength) := by
      simpa [Stretch.scans] using emitted
    rw [List.flatMap_append, ← finished, rest, outside]
    simp [Stretch.ops, Stretch.scans]
  counted := by
    have counted := follows.counted
    rw [List.countP_append]
    simp only [List.length_append, List.length_singleton,
      List.countP_singleton, Stretch.isBurst, Bool.false_eq_true, if_false]
    omega
  unfinished := .inl outside

theorem Follows.next (follows : Follows math config draws stretches ops
      generator) (positive : 0 < config.scanLength) (deep : 1 ≤ depth) :
    ∃ op generator' more,
      generator.nextWithin math depth = some (op, generator') ∧
      Follows math config draws (stretches ++ more) (ops ++ [op]) generator' ∧
      generator'.scanRemaining < config.scanLength := by
  rcases next_cases generator with
    ⟨remaining, inside⟩ | ⟨outside, starts⟩ | ⟨outside, misses⟩
  · have after := follows.inside inside
    refine ⟨_, _, [], nextWithin_inside depth inside, ?_, ?_⟩
    · rwa [List.append_nil]
    · change remaining < _
      rcases follows.unfinished with outside | within <;> omega
  · rcases Nat.exists_eq_add_of_le' deep with ⟨depth, rfl⟩
    have inside : (generator.startBurst math).scanRemaining =
        config.scanLength - 1 + 1 := by
      rw [startBurst, follows.sameConfig]
      exact (Nat.sub_add_cancel positive).symm
    refine ⟨_, _, [_], ?_, (follows.started outside starts).inside inside, ?_⟩
    · rw [(nextWithin_starts depth outside starts).2]
      exact nextWithin_inside depth inside
    · exact Nat.sub_one_lt positive.ne'
  · rcases nextWithin_single math depth outside misses with
      ⟨op, key, type, outcome⟩
    refine ⟨op, _, [_], outcome, follows.single outside misses key type, ?_⟩
    change generator.scanRemaining < _
    omega

theorem Follows.batch (follows : Follows math config draws stretches ops
      generator) (positive : 0 < config.scanLength) (deep : 1 ≤ depth)
    (begun : generator.scanRemaining < config.scanLength) (count : Nat) :
    ∃ batch generator' stretches',
      generator.generateBatch math depth count = some (batch, generator') ∧
      batch.length = count ∧
      Follows math config draws stretches' (ops ++ batch) generator' ∧
      generator'.scanRemaining < config.scanLength := by
  induction count generalizing generator stretches ops with
  | zero => exact ⟨[], generator, stretches, rfl, rfl, by simpa, begun⟩
  | succ count induction =>
      rcases follows.next positive deep with
        ⟨op, middle, more, called, followsMiddle, begunMiddle⟩
      rcases induction followsMiddle begunMiddle with
        ⟨batch, last, stretches', ran, length, followsLast, begunLast⟩
      refine ⟨op :: batch, last, stretches', ?_, by simp [length], ?_, begunLast⟩
      · simp only [generateBatch, called, ran, Option.bind_eq_bind,
          Option.bind_some]
        rfl
      · simpa using followsLast

theorem Follows.run (follows : Follows math config draws stretches ops
      generator) (positive : 0 < config.scanLength) (deep : 1 ≤ depth)
    (begun : generator.scanRemaining < config.scanLength)
    (calls : List GeneratorCall) :
    ∃ emitted last stretches',
      generator.run math depth calls = some (emitted, last) ∧
      emitted.length = (calls.map GeneratorCall.count).sum ∧
      Follows math config draws stretches' (ops ++ emitted) last ∧
      last.scanRemaining < config.scanLength := by
  induction calls generalizing generator stretches ops with
  | nil => exact ⟨[], generator, stretches, rfl, rfl, by simpa, begun⟩
  | cons call rest induction =>
      cases call with
      | next =>
          rcases follows.next positive deep with
            ⟨op, middle, more, called, followsMiddle, begunMiddle⟩
          rcases induction followsMiddle begunMiddle with
            ⟨emitted, last, stretches', ran, length, followsLast, begunLast⟩
          refine ⟨op :: emitted, last, stretches', ?_, ?_, ?_, begunLast⟩
          · simp only [WorkloadGenerator.run, called, ran, Option.bind_eq_bind,
              Option.bind_some]
            rfl
          · simp [length, GeneratorCall.count, Nat.add_comm]
          · simpa using followsLast
      | generateBatch count =>
          rcases follows.batch positive deep begun count with
            ⟨batch, middle, more, called, batchLength, followsMiddle,
              begunMiddle⟩
          rcases induction followsMiddle begunMiddle with
            ⟨emitted, last, stretches', ran, length, followsLast, begunLast⟩
          refine ⟨batch ++ emitted, last, stretches', ?_, ?_, ?_, begunLast⟩
          · simp only [WorkloadGenerator.run, called, ran, Option.bind_eq_bind,
              Option.bind_some]
            rfl
          · simp [length, batchLength, GeneratorCall.count]
          · simpa using followsLast

theorem Follows.begun (follows : Follows math config draws stretches ops
      generator) (positive : 0 < config.scanLength)
    (begun : generator.scanRemaining < config.scanLength) :
    stretches.length ≤ ops.length := by
  have one : 1 ≤ config.scanLength := positive
  have nonempty : ∀ stretches : List Stretch, stretches.length ≤
      (stretches.flatMap (Stretch.ops config.scanLength)).length := by
    intro stretches
    induction stretches with
    | nil => exact Nat.le_refl _
    | cons head tail induction =>
        rw [List.flatMap_cons, List.length_append, List.length_cons]
        cases head with
        | single op => simp only [Stretch.ops, List.length_singleton]; omega
        | burst offset => simp only [Stretch.ops, Stretch.scans_length]; omega
  have emitted := congrArg List.length follows.emitted
  rw [List.length_append, rest, Stretch.scans_length] at emitted
  rcases follows.unfinished with outside | ⟨-, last⟩
  · have all := nonempty stretches
    omega
  · rcases List.getLast?_eq_some_iff.mp last with ⟨front, rfl⟩
    have before := nonempty front
    simp only [List.flatMap_append, List.length_append, List.flatMap_singleton,
      Stretch.ops, Stretch.scans_length, List.length_singleton] at emitted ⊢
    omega

end Follows

/-! ## The account of a run -/

/-- What `count` calls emit: as many operations, in single operations and
bursts, each burst all of its keys once but for the last one, which may be cut
off. -/
structure Emits (math : DoubleMath) (config : WorkloadConfig)
    (draws : Nat → ℚ) (count : Nat) (ops : List WorkloadOp) : Prop where
  emitted : ops.length = count
  bursts : ∃ (stretches : List Stretch) (cut : List WorkloadOp),
    (∀ (k : Nat) (stretch : Stretch), stretches[k]? = some stretch →
      stretch.Drawn math config (draws (2 * k)) (draws (2 * k + 1))) ∧
    ops ++ cut = stretches.flatMap (Stretch.ops config.scanLength) ∧
    (cut = [] ∨ cut.length < config.scanLength ∧
      ∃ offset, stretches.getLast? = some (.burst offset)) ∧
    ∀ offset, Stretch.burst offset ∈ stretches →
      (Stretch.scans offset config.scanLength).length = config.scanLength ∧
      (∀ op ∈ Stretch.scans offset config.scanLength, op.type = .get) ∧
      (offset + config.scanLength ≤ uint32Size →
        ((Stretch.scans offset config.scanLength).map WorkloadOp.key).Perm
          ((List.range' offset config.scanLength).map fun index =>
            "scan_" ++ toString index))

/-- The counter is meant to have no more than what was emitted. -/
structure Accounted (math : DoubleMath) (config : WorkloadConfig)
    (draws : Nat → ℚ) (count : Nat) (ops : List WorkloadOp)
    (generator : WorkloadGenerator) : Prop
    extends Emits math config draws count ops where
  opsGenerated : generator.opsGenerated = count

section Accounted

variable {math : DoubleMath} {config : WorkloadConfig} {draws : Nat → ℚ}
  {stretches : List Stretch} {ops : List WorkloadOp}
  {generator : WorkloadGenerator}

theorem Follows.emits (follows : Follows math config draws stretches ops
      generator) (begun : generator.scanRemaining < config.scanLength) :
    Emits math config draws ops.length ops where
  emitted := rfl
  bursts := by
    refine ⟨stretches, generator.rest, follows.drawn, follows.emitted, ?_, ?_⟩
    · rcases follows.unfinished with outside | ⟨-, last⟩
      · left
        rw [rest, outside]
        rfl
      · exact .inr ⟨by rwa [rest, Stretch.scans_length], _, last⟩
    · intro offset _
      refine ⟨Stretch.scans_length _ _, ?_, Stretch.scans_keys⟩
      intro op member
      rcases List.mem_map.mp member with ⟨i, -, rfl⟩
      rfl

/-- The counter has one too many for every burst that was started. -/
theorem Follows.counts_iff (follows : Follows math config draws stretches ops
      generator) (positive : 0 < config.scanLength)
    (begun : generator.scanRemaining < config.scanLength) :
    generator.opsGenerated = ops.length ↔
      ∀ k < ops.length, config.actualScanProb ≤ draws (2 * k) := by
  have within := follows.begun positive begun
  have counted := follows.counted
  constructor
  · intro counts
    have noBurst : stretches.countP Stretch.isBurst = 0 := by omega
    rw [List.countP_eq_zero] at noBurst
    have one : ∀ stretch ∈ stretches,
        (stretch.ops config.scanLength).length = 1 := by
      intro stretch member
      cases stretch with
      | single op => rfl
      | burst offset => exact absurd rfl (noBurst _ member)
    have emitted := congrArg List.length follows.emitted
    rw [List.length_append, List.length_flatMap, List.map_congr_left one,
      List.map_const', List.sum_replicate_nat, Nat.mul_one] at emitted
    intro k below
    have inside : k < stretches.length := by omega
    have drawn := follows.drawn k _ (List.getElem?_eq_getElem inside)
    have single := noBurst _ (List.getElem_mem inside)
    generalize stretches[k] = stretch at drawn single
    cases drawn with
    | single index misses => exact misses
    | burst starts => exact absurd rfl single
  · intro misses
    have noBurst : stretches.countP Stretch.isBurst = 0 := by
      rw [List.countP_eq_zero]
      intro stretch member isBurst
      rcases List.getElem?_of_mem member with ⟨k, found⟩
      have inside : k < stretches.length :=
        (List.getElem?_eq_some_iff.mp found).1
      have drawn := follows.drawn k stretch found
      cases drawn with
      | single index => cases isBurst
      | burst starts =>
          exact absurd starts (not_lt.mpr (misses k (by omega)))
    omega

/-- A run from a new generator, by single calls and batches, always emits what
it should. The counter agrees exactly when no call starts a burst: every call
takes two draws then, and the first of them is compared with the probability of
a burst. -/
theorem run_accounted_iff (math : DoubleMath) {config : WorkloadConfig}
    (positive : 0 < config.scanLength) (zipfDraws draws : Nat → ℚ) {depth : Nat}
    (deep : 1 ≤ depth) (calls : List GeneratorCall) :
    (1 ≤ config.numKeys →
      ∃ start ops last, new math config zipfDraws draws = some start ∧
        start.run math depth calls = some (ops, last) ∧
        Emits math config draws (calls.map GeneratorCall.count).sum ops) ∧
    ((∃ start ops last, new math config zipfDraws draws = some start ∧
        start.run math depth calls = some (ops, last) ∧
        Accounted math config draws (calls.map GeneratorCall.count).sum ops
          last) ↔
      1 ≤ config.numKeys ∧ ∀ k < (calls.map GeneratorCall.count).sum,
        config.actualScanProb ≤ draws (2 * k)) := by
  have outcome : ∀ {start}, new math config zipfDraws draws = some start →
      ∃ ops last stretches, start.run math depth calls = some (ops, last) ∧
        ops.length = (calls.map GeneratorCall.count).sum ∧
        Follows math config draws stretches ops last ∧
        last.scanRemaining < config.scanLength := by
    intro start made
    have begun : start.scanRemaining < config.scanLength := by
      rcases Option.map_eq_some_iff.mp made with ⟨zipf, -, rfl⟩
      exact positive
    exact (new_follows made).run positive deep begun calls
  refine ⟨?_, ?_, ?_⟩
  · intro keys
    rcases new_eq_some math keys zipfDraws draws with ⟨start, made⟩
    rcases outcome made with ⟨ops, last, stretches, ran, length, follows, begun⟩
    rw [← length]
    exact ⟨start, ops, last, made, ran, follows.emits begun⟩
  · rintro ⟨start, ops, last, made, ran, accounted⟩
    rcases outcome made with ⟨ops, last, stretches, ran', length, follows, begun⟩
    rw [ran] at ran'
    cases ran'
    refine ⟨numKeys_of_new made, ?_⟩
    rw [← length, ← follows.counts_iff positive begun, length]
    exact accounted.opsGenerated
  · rintro ⟨keys, misses⟩
    rcases new_eq_some math keys zipfDraws draws with ⟨start, made⟩
    rcases outcome made with ⟨ops, last, stretches, ran, length, follows, begun⟩
    rw [← length] at misses ⊢
    exact ⟨start, ops, last, made, ran, follows.emits begun,
      (follows.counts_iff positive begun).mpr misses⟩

theorem run_accounted_iff_sample :
    (1 ≤ sampleConfig.numKeys →
      ∃ start ops last,
        new .sample sampleConfig (fun _ => 0) (fun _ => 1 / 2) = some start ∧
        start.run .sample 1 [.next, .generateBatch 2] = some (ops, last) ∧
        Emits .sample sampleConfig (fun _ => 1 / 2)
          ([.next, .generateBatch 2].map GeneratorCall.count).sum ops) ∧
    ((∃ start ops last,
        new .sample sampleConfig (fun _ => 0) (fun _ => 1 / 2) = some start ∧
        start.run .sample 1 [.next, .generateBatch 2] = some (ops, last) ∧
        Accounted .sample sampleConfig (fun _ => 1 / 2)
          ([.next, .generateBatch 2].map GeneratorCall.count).sum ops last) ↔
      1 ≤ sampleConfig.numKeys ∧
        ∀ k < ([.next, .generateBatch 2].map GeneratorCall.count).sum,
          sampleConfig.actualScanProb ≤ 1 / 2) :=
  run_accounted_iff .sample (by decide) _ _ (Nat.le_refl 1) _

/-- The first call starts a burst and counts itself twice. -/
theorem startedBurst_counts_twice :
    ∃ start op last,
      new .sample sampleConfig (fun _ => 0) (fun _ => 0) = some start ∧
      start.run .sample 1 [.next] = some ([op], last) ∧
      last.opsGenerated = 2 ∧
      ¬Accounted .sample sampleConfig (fun _ => 0) 1 [op] last := by
  have made : ∃ start, new .sample sampleConfig (fun _ => 0) (fun _ => 0) =
      some start ∧ start.scanRemaining = 0 ∧ start.opsGenerated = 0 :=
    ⟨_, rfl, rfl, rfl⟩
  rcases made with ⟨start, made, outside, none⟩
  have follows := new_follows made
  have starts : start.draws 0 < start.actualScanProb := by
    rw [follows.position, follows.prob]
    norm_num [sampleConfig, WorkloadConfig.actualScanProb]
  have inside : (start.startBurst .sample).scanRemaining = 1 + 1 := by
    rw [startBurst, follows.sameConfig]
    rfl
  have called : ∃ op last, start.nextWithin .sample 1 = some (op, last) ∧
      last.opsGenerated = 2 := by
    have starting : start.nextWithin .sample 1 =
        (start.startBurst .sample).nextWithin .sample 0 :=
      (nextWithin_starts 0 outside starts).2
    rw [starting, nextWithin_inside 0 inside]
    refine ⟨_, _, rfl, ?_⟩
    change start.opsGenerated + 1 + 1 = 2
    rw [none]
  rcases called with ⟨op, last, called, twice⟩
  refine ⟨start, op, last, made, ?_, twice, fun accounted => ?_⟩
  · rw [run, called]
    rfl
  · have counts := accounted.opsGenerated
    omega

end Accounted

end WorkloadGenerator

end Walde
