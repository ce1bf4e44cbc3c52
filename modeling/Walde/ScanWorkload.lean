import Walde.BenchWorkload

namespace Walde

/-! # The scan workload of the benchmarks

The generator repeats the one of the engine's workloads, but starts its bursts
with another probability where the fraction of scans is not below one. -/

structure ScanWorkloadConfig where
  numKeys : Nat := 100000
  zipfAlpha : ℚ := 99 / 100
  scanFraction : ℚ := 10 / 100
  scanLength : Nat := 500
  writeRatio : ℚ := 5 / 100

structure ScanWorkloadGenerator where
  config : ScanWorkloadConfig
  zipf : BenchZipfian
  coin : Nat → ℚ
  scanTriggerProb : ℚ
  scanRemaining : Nat
  scanOffset : Nat
  opsGenerated : Nat

def ScanWorkloadConfig.scanTriggerProb (config : ScanWorkloadConfig) : ℚ :=
  if 0 < config.scanFraction ∧ config.scanFraction < 1 then
    let ratio := config.scanFraction
    let length : ℚ := config.scanLength
    ratio / (length * (1 - ratio) + ratio)
  else 0

namespace ScanWorkloadGenerator

def new (math : DoubleMath) (config : ScanWorkloadConfig)
    (zipfDraws coin : Nat → ℚ) : Option ScanWorkloadGenerator :=
  (BenchZipfian.new math config.numKeys config.zipfAlpha zipfDraws).map
    fun zipf =>
      { config, zipf, coin
        scanTriggerProb := config.scanTriggerProb
        scanRemaining := 0
        scanOffset := 0
        opsGenerated := 0 }

/-- `coin_(rng_)` -/
def toss (generator : ScanWorkloadGenerator) : ℚ × ScanWorkloadGenerator :=
  (generator.coin 0,
    { generator with coin := fun i => generator.coin (i + 1) })

/-- `next` where it calls itself at most `depth` times. With more calls to make
it has no outcome. -/
def nextWithin (math : DoubleMath) :
    Nat → ScanWorkloadGenerator → Option (BenchOp × ScanWorkloadGenerator)
  | depth, generator =>
      let generator :=
        { generator with opsGenerated := generator.opsGenerated + 1 }
      if 0 < generator.scanRemaining then
        let scanRemaining := generator.scanRemaining - 1
        let key :=
          WorkloadGenerator.scanKey (generator.scanOffset + scanRemaining)
        some ({ type := .get, key }, { generator with scanRemaining })
      else
        let (u, generator) := generator.toss
        if u < generator.scanTriggerProb then
          let scanRemaining := generator.config.scanLength
          let (v, generator) := generator.toss
          let scanOffset := math.toUint32 (v * generator.config.numKeys * 10)
          match depth with
          | 0 => none
          | depth + 1 =>
              nextWithin math depth { generator with scanRemaining, scanOffset }
        else
          let (index, zipf) := BenchZipfian.next generator.zipf
          let key := ZipfianGenerator.keyOf index
          let (w, generator) := { generator with zipf }.toss
          if w < generator.config.writeRatio then
            let value := "val_" ++ toString generator.opsGenerated
            some ({ type := .put, key, value }, generator)
          else
            some ({ type := .get, key }, generator)

def generateBatch (math : DoubleMath) (depth : Nat) :
    Nat → ScanWorkloadGenerator → Option (List BenchOp × ScanWorkloadGenerator)
  | 0, generator => some ([], generator)
  | count + 1, generator => do
      let (op, generator) ← generator.nextWithin math depth
      let (ops, generator) ← generateBatch math depth count generator
      return (op :: ops, generator)

end ScanWorkloadGenerator

/-! ## Against the engine's generator -/

def WorkloadOp.bench (op : WorkloadOp) : BenchOp where
  type := match op.type with
    | .get => .get
    | .put => .put
  key := op.key
  value := op.value

def ScanWorkloadConfig.core (config : ScanWorkloadConfig) : WorkloadConfig where
  numKeys := config.numKeys
  zipfAlpha := config.zipfAlpha
  writeRatio := config.writeRatio
  scanProbability := config.scanFraction
  scanLength := config.scanLength

namespace ScanWorkloadGenerator

/-- The engine's generator in the same state, up to the probability of a burst,
for which it is enough that all draws to come are decided alike. -/
structure Mirrors (generator : ScanWorkloadGenerator)
    (engine : WorkloadGenerator) : Prop where
  config : engine.config = generator.config.core
  zipf : engine.zipf = generator.zipf
  draws : engine.draws = generator.coin
  scanRemaining : engine.scanRemaining = generator.scanRemaining
  scanOffset : engine.scanOffset = generator.scanOffset
  opsGenerated : engine.opsGenerated = generator.opsGenerated
  decides : ∀ i, generator.coin i < generator.scanTriggerProb ↔
    generator.coin i < engine.actualScanProb

section Mirrors

variable {math : DoubleMath} {config : ScanWorkloadConfig}
  {zipfDraws coin : Nat → ℚ} {generator : ScanWorkloadGenerator}
  {engine : WorkloadGenerator}

/-- The engine's generator that starts bursts with the same probability. -/
def core (generator : ScanWorkloadGenerator) : WorkloadGenerator where
  config := generator.config.core
  zipf := generator.zipf
  draws := generator.coin
  actualScanProb := generator.scanTriggerProb
  scanRemaining := generator.scanRemaining
  scanOffset := generator.scanOffset
  opsGenerated := generator.opsGenerated

theorem core_mirrors (generator : ScanWorkloadGenerator) :
    generator.Mirrors generator.core :=
  ⟨rfl, rfl, rfl, rfl, rfl, rfl, fun _ => Iff.rfl⟩

theorem Mirrors.starts (mirrors : generator.Mirrors engine)
    (starts : generator.coin 0 < generator.scanTriggerProb) :
    engine.draws 0 < engine.actualScanProb := by
  rw [mirrors.draws]
  exact (mirrors.decides 0).mp starts

def SameOutcome (outcome : BenchOp × ScanWorkloadGenerator)
    (outcome' : WorkloadOp × WorkloadGenerator) : Prop :=
  outcome.1 = outcome'.1.bench ∧ outcome.2.Mirrors outcome'.2

theorem Mirrors.stays (mirrors : generator.Mirrors engine) (depth : Nat)
    (stays : 0 < generator.scanRemaining ∨
      ¬generator.coin 0 < generator.scanTriggerProb) :
    Option.Rel SameOutcome (generator.nextWithin math depth)
      (engine.nextWithin math depth) := by
  rcases engine with ⟨config, zipf, draws, prob, remaining, offset, count⟩
  rcases mirrors with ⟨rfl, rfl, rfl, rfl, rfl, rfl, decides⟩
  have decided := decides 0
  dsimp only at decides decided
  rw [ScanWorkloadGenerator.nextWithin, WorkloadGenerator.nextWithin]
  simp only [toss, WorkloadGenerator.uniform]
  by_cases inside : 0 < generator.scanRemaining
  · rw [if_pos inside, if_pos inside]
    exact .some ⟨rfl, rfl, rfl, rfl, rfl, rfl, rfl, decides⟩
  · have misses := stays.resolve_left inside
    simp only [inside, misses, decided.not.mp misses, ↓reduceIte]
    have later : ∀ i, generator.coin (i + 2) < generator.scanTriggerProb ↔
        generator.coin (i + 2) < prob := fun i => decides (i + 2)
    by_cases writes : generator.coin 1 < generator.config.writeRatio
    · simp only [Nat.zero_add, ScanWorkloadConfig.core, writes, ↓reduceIte]
      exact .some ⟨rfl, rfl, rfl, rfl, rfl, rfl, rfl, later⟩
    · simp only [Nat.zero_add, ScanWorkloadConfig.core, writes, ↓reduceIte]
      exact .some ⟨rfl, rfl, rfl, rfl, rfl, rfl, rfl, later⟩

/-- The state in which a call that starts a burst calls itself. -/
def startBurst (math : DoubleMath) (generator : ScanWorkloadGenerator) :
    ScanWorkloadGenerator :=
  { generator with
    coin := fun i => generator.coin (i + 2)
    scanRemaining := generator.config.scanLength
    scanOffset := math.toUint32
      (generator.coin 1 * generator.config.numKeys * 10)
    opsGenerated := generator.opsGenerated + 1 }

theorem nextWithin_starts (depth : Nat) (outside : generator.scanRemaining = 0)
    (starts : generator.coin 0 < generator.scanTriggerProb) :
    generator.nextWithin math 0 = none ∧
      generator.nextWithin math (depth + 1) =
        (generator.startBurst math).nextWithin math depth := by
  constructor
  · rw [nextWithin]
    simp [outside, toss, starts]
  · rw [nextWithin]
    simp [outside, toss, starts, startBurst]

theorem Mirrors.startBurst (mirrors : generator.Mirrors engine) :
    (generator.startBurst math).Mirrors (engine.startBurst math) := by
  rcases engine with ⟨config, zipf, draws, prob, remaining, offset, count⟩
  rcases mirrors with ⟨rfl, rfl, rfl, rfl, rfl, rfl, decides⟩
  exact ⟨rfl, rfl, rfl, rfl, rfl, rfl, fun i => decides (i + 2)⟩

/-- Both calls return the same operation, or none returns. -/
theorem Mirrors.nextWithin (mirrors : generator.Mirrors engine) (depth : Nat) :
    Option.Rel SameOutcome (generator.nextWithin math depth)
      (engine.nextWithin math depth) := by
  induction depth generalizing generator engine with
  | zero =>
      by_cases stays : 0 < generator.scanRemaining ∨
          ¬generator.coin 0 < generator.scanTriggerProb
      · exact mirrors.stays 0 stays
      · rw [not_or, not_not, Nat.pos_iff_ne_zero, not_not] at stays
        rcases stays with ⟨outside, starts⟩
        rw [(nextWithin_starts 0 outside starts).1,
          (WorkloadGenerator.nextWithin_starts 0
            (mirrors.scanRemaining.trans outside) (mirrors.starts starts)).1]
        exact .none
  | succ depth induction =>
      by_cases stays : 0 < generator.scanRemaining ∨
          ¬generator.coin 0 < generator.scanTriggerProb
      · exact mirrors.stays (depth + 1) stays
      · rw [not_or, not_not, Nat.pos_iff_ne_zero, not_not] at stays
        rcases stays with ⟨outside, starts⟩
        rw [(nextWithin_starts depth outside starts).2,
          (WorkloadGenerator.nextWithin_starts depth
            (mirrors.scanRemaining.trans outside) (mirrors.starts starts)).2]
        exact induction mirrors.startBurst

theorem Mirrors.generateBatch (mirrors : generator.Mirrors engine)
    (depth count : Nat) :
    (generator.generateBatch math depth count).map Prod.fst =
      (engine.generateBatch math depth count).map
        fun outcome => outcome.1.map WorkloadOp.bench := by
  induction count generalizing generator engine with
  | zero => rfl
  | succ count induction =>
      have step : Option.Rel SameOutcome (generator.nextWithin math depth)
          (engine.nextWithin math depth) := mirrors.nextWithin depth
      rw [ScanWorkloadGenerator.generateBatch, WorkloadGenerator.generateBatch]
      generalize generator.nextWithin math depth = left at step
      generalize engine.nextWithin math depth = right at step
      cases step with
      | none => rfl
      | @some outcome outcome' same =>
          rcases same with ⟨sameOp, mirrors'⟩
          have rest := induction mirrors'
          simp only [Option.bind_eq_bind, Option.bind_some, Option.map_bind,
            Option.pure_def]
          generalize outcome.2.generateBatch math depth count = later at rest
          generalize outcome'.2.generateBatch math depth count = later' at rest
          cases later with
          | none =>
              rw [Option.map_none, eq_comm, Option.map_eq_none_iff] at rest
              rw [rest]
              rfl
          | some batch =>
              rw [Option.map_some, eq_comm, Option.map_eq_some_iff] at rest
              rcases rest with ⟨batch', rfl, equal⟩
              rw [Option.bind_some, Option.bind_some, Function.comp_apply,
                Function.comp_apply, Option.map_some, Option.map_some,
                List.map_cons, sameOp, equal]

/-! ## Scans of all operations -/

theorem new_mirrors {math : DoubleMath} {config : ScanWorkloadConfig}
    {zipfDraws coin : Nat → ℚ} {generator : ScanWorkloadGenerator}
    {engine : WorkloadGenerator}
    (made : new math config zipfDraws coin = some generator)
    (madeEngine : WorkloadGenerator.new math config.core zipfDraws coin =
      some engine)
    (nonneg : ∀ i, 0 ≤ coin i) (below : config.scanFraction < 1) :
    generator.Mirrors engine := by
  rcases Option.map_eq_some_iff.mp made with ⟨zipf, zipfMade, rfl⟩
  rcases Option.map_eq_some_iff.mp madeEngine with ⟨zipf', zipfMade', rfl⟩
  obtain rfl : zipf = zipf' := Option.some.inj (zipfMade.symm.trans zipfMade')
  refine ⟨rfl, rfl, rfl, rfl, rfl, rfl, fun i => ?_⟩
  have engineProb : config.core.actualScanProb =
      if 0 < config.scanFraction ∧ config.scanFraction < 1 then
        config.scanFraction /
          (config.scanLength * (1 - config.scanFraction) + config.scanFraction)
      else config.scanFraction := rfl
  dsimp only
  rw [ScanWorkloadConfig.scanTriggerProb, engineProb]
  by_cases positive : 0 < config.scanFraction
  · rw [if_pos ⟨positive, below⟩, if_pos ⟨positive, below⟩]
  · -- no draw is below a fraction that is not positive
    rw [if_neg fun both => positive both.1, if_neg fun both => positive both.1]
    have drawn := nonneg i
    rw [not_lt] at positive
    exact iff_of_false (not_lt.mpr drawn) (not_lt.mpr (positive.trans drawn))

end Mirrors

/-! ## The keys -/

def IsScan (op : BenchOp) : Prop :=
  op.type = .get ∧ ∃ index, op.key = WorkloadGenerator.scanKey index

def IsDrawn (numKeys : Nat) (op : BenchOp) : Prop :=
  op.type ≠ .rmw ∧ ∃ index, index < numKeys ∧
    op.key = ZipfianGenerator.keyOf index

theorem keyOf_ne_scanKey (index scanned : Nat) :
    ZipfianGenerator.keyOf index ≠ WorkloadGenerator.scanKey scanned := by
  intro equal
  have letters := congrArg String.toList equal
  rw [ZipfianGenerator.keyOf, WorkloadGenerator.scanKey, String.toList_append,
    String.toList_append] at letters
  have first := congrArg List.head? letters
  simp at first

section Keys

variable {math : DoubleMath} {engine engine' : WorkloadGenerator}
  {op : WorkloadOp} {numKeys depth : Nat}

theorem nextKey_drawn (ranged : BenchZipfian.Ranged numKeys engine.zipf)
    (key : op.key = engine.zipf.nextKey.1) :
    IsDrawn numKeys op.bench ∧
      BenchZipfian.Ranged numKeys engine.zipf.nextKey.2 := by
  rcases ranged.next with ⟨below, ranged'⟩
  refine ⟨⟨?_, _, below, key⟩, ranged'⟩
  rw [WorkloadOp.bench]
  cases op.type <;> simp

theorem engine_key (ranged : BenchZipfian.Ranged numKeys engine.zipf)
    (called : engine.nextWithin math depth = some (op, engine')) :
    (IsScan op.bench ∨ IsDrawn numKeys op.bench) ∧
      BenchZipfian.Ranged numKeys engine'.zipf := by
  induction depth generalizing engine with
  | zero =>
      rcases engine.next_cases with
        ⟨remaining, inside⟩ | ⟨outside, starts⟩ | ⟨outside, misses⟩
      · rw [WorkloadGenerator.nextWithin_inside 0 inside] at called
        cases called
        exact ⟨.inl ⟨rfl, _, rfl⟩, ranged⟩
      · rw [(WorkloadGenerator.nextWithin_starts 0 outside starts).1] at called
        cases called
      · rcases WorkloadGenerator.nextWithin_single math 0 outside misses with
          ⟨op, key, -, outcome⟩
        rw [outcome] at called
        cases called
        rcases nextKey_drawn ranged key with ⟨drawn, ranged'⟩
        exact ⟨.inr drawn, ranged'⟩
  | succ depth induction =>
      rcases engine.next_cases with
        ⟨remaining, inside⟩ | ⟨outside, starts⟩ | ⟨outside, misses⟩
      · rw [WorkloadGenerator.nextWithin_inside _ inside] at called
        cases called
        exact ⟨.inl ⟨rfl, _, rfl⟩, ranged⟩
      · rw [(WorkloadGenerator.nextWithin_starts depth outside starts).2]
          at called
        have sameZipf : BenchZipfian.Ranged numKeys
            (engine.startBurst math).zipf := ranged
        exact induction sameZipf called
      · rcases WorkloadGenerator.nextWithin_single math (depth + 1) outside
          misses with ⟨op, key, -, outcome⟩
        rw [outcome] at called
        cases called
        rcases nextKey_drawn ranged key with ⟨drawn, ranged'⟩
        exact ⟨.inr drawn, ranged'⟩

theorem nextWithin_key {generator generator' : ScanWorkloadGenerator}
    {op : BenchOp} (ranged : generator.zipf.Ranged numKeys)
    (called : generator.nextWithin math depth = some (op, generator')) :
    (IsScan op ∨ IsDrawn numKeys op) ∧ generator'.zipf.Ranged numKeys := by
  have mirrored : Option.Rel SameOutcome (generator.nextWithin math depth)
      (generator.core.nextWithin math depth) :=
    (core_mirrors generator).nextWithin depth
  rw [called] at mirrored
  cases engineCalled : generator.core.nextWithin math depth with
  | none =>
      rw [engineCalled] at mirrored
      cases mirrored
  | some outcome =>
      rw [engineCalled] at mirrored
      cases mirrored with
      | some same =>
          rcases engine_key ranged engineCalled with
            ⟨key, ranged'⟩
          rw [← same.1] at key
          rw [same.2.zipf] at ranged'
          exact ⟨key, ranged'⟩

theorem generateBatch_keys {generator generator' : ScanWorkloadGenerator}
    {ops : List BenchOp} {count : Nat}
    (ranged : generator.zipf.Ranged numKeys)
    (called : generator.generateBatch math depth count = some (ops, generator')) :
    ∀ op ∈ ops, IsScan op ∨ IsDrawn numKeys op := by
  induction count generalizing generator ops with
  | zero =>
      cases called
      simp
  | succ count induction =>
      rw [ScanWorkloadGenerator.generateBatch] at called
      rcases Option.bind_eq_some_iff.mp called with ⟨⟨op, next⟩, first, called⟩
      rcases Option.bind_eq_some_iff.mp called with ⟨⟨rest, last⟩, later, equal⟩
      cases equal
      rcases nextWithin_key ranged first with ⟨key, ranged'⟩
      exact List.forall_mem_cons.mpr ⟨key, induction ranged' later⟩

end Keys

/-! ## Scans of all operations -/

section All

variable {math : DoubleMath} {config : ScanWorkloadConfig}
  {zipfDraws coin : Nat → ℚ} {generator : ScanWorkloadGenerator}
  {engine : WorkloadGenerator}

theorem nextWithin_never (depth : Nat)
    (outside : generator.scanRemaining = 0)
    (never : generator.scanTriggerProb ≤ generator.coin 0) :
    ∃ outcome index, generator.nextWithin math depth = some outcome ∧
      outcome.1.key = ZipfianGenerator.keyOf index := by
  have mirrored : Option.Rel SameOutcome (generator.nextWithin math depth)
      (generator.core.nextWithin math depth) :=
    (core_mirrors generator).nextWithin depth
  have engineOutside : generator.core.scanRemaining = 0 := outside
  rcases WorkloadGenerator.nextWithin_single math depth engineOutside never with
    ⟨op, key, -, called⟩
  rw [called] at mirrored
  cases step : generator.nextWithin math depth with
  | none =>
      rw [step] at mirrored
      cases mirrored
  | some outcome =>
      rw [step] at mirrored
      cases mirrored with
      | some same =>
          refine ⟨outcome, (BenchZipfian.next generator.zipf).1, rfl, ?_⟩
          rw [same.1]
          exact key

theorem engine_always {depth : Nat} {op : WorkloadOp}
    {engine' : WorkloadGenerator}
    (always : ∀ i, engine.draws i < engine.actualScanProb)
    (called : engine.nextWithin math depth = some (op, engine')) :
    ∃ index, op.key = WorkloadGenerator.scanKey index := by
  induction depth generalizing engine with
  | zero =>
      rcases engine.next_cases with
        ⟨remaining, inside⟩ | ⟨outside, starts⟩ | ⟨outside, misses⟩
      · rw [WorkloadGenerator.nextWithin_inside 0 inside] at called
        cases called
        exact ⟨_, rfl⟩
      · rw [(WorkloadGenerator.nextWithin_starts 0 outside starts).1] at called
        cases called
      · exact absurd (always 0) (not_lt.mpr misses)
  | succ depth induction =>
      rcases engine.next_cases with
        ⟨remaining, inside⟩ | ⟨outside, starts⟩ | ⟨outside, misses⟩
      · rw [WorkloadGenerator.nextWithin_inside _ inside] at called
        cases called
        exact ⟨_, rfl⟩
      · rw [(WorkloadGenerator.nextWithin_starts depth outside starts).2]
          at called
        have later : ∀ i, (engine.startBurst math).draws i <
            (engine.startBurst math).actualScanProb := fun i => always (i + 2)
        exact induction later called
      · exact absurd (always 0) (not_lt.mpr misses)

theorem first_differs
    (made : new math config zipfDraws coin = some generator)
    (madeEngine : WorkloadGenerator.new math config.core zipfDraws coin =
      some engine)
    (nonneg : ∀ i, 0 ≤ coin i) (below_one : ∀ i, coin i < 1)
    (all : 1 ≤ config.scanFraction) :
    (generator.generateBatch math 1 1).map Prod.fst ≠
      (engine.generateBatch math 1 1).map
        fun outcome => outcome.1.map WorkloadOp.bench := by
  rcases Option.map_eq_some_iff.mp made with ⟨zipf, -, rfl⟩
  rcases Option.map_eq_some_iff.mp madeEngine with ⟨zipf', -, rfl⟩
  have trigger : config.scanTriggerProb = 0 :=
    if_neg fun both => absurd both.2 (not_lt.mpr all)
  have prob : config.core.actualScanProb = config.scanFraction :=
    if_neg fun both => absurd both.2 (not_lt.mpr all)
  have never : config.scanTriggerProb ≤ coin 0 := by
    rw [trigger]
    exact nonneg 0
  have always : ∀ i, coin i < config.core.actualScanProb := by
    intro i
    rw [prob]
    exact (below_one i).trans_le all
  let made : ScanWorkloadGenerator := {
    config, zipf, coin, scanTriggerProb := config.scanTriggerProb
    scanRemaining := 0, scanOffset := 0, opsGenerated := 0 }
  have first : ∃ outcome index, made.nextWithin math 1 = some outcome ∧
      outcome.1.key = ZipfianGenerator.keyOf index :=
    nextWithin_never 1 rfl never
  rcases first with ⟨outcome, index, called, key⟩
  intro equal
  rw [generateBatch, WorkloadGenerator.generateBatch, called] at equal
  cases step : WorkloadGenerator.nextWithin math 1 {
      config := config.core, zipf := zipf', draws := coin
      actualScanProb := config.core.actualScanProb, scanRemaining := 0
      scanOffset := 0, opsGenerated := 0 } with
  | none =>
      rw [step] at equal
      cases equal
  | some outcome' =>
      rw [step] at equal
      rcases engine_always (by exact always) step with ⟨scanned, key'⟩
      have sameOp : outcome.1 = outcome'.1.bench :=
        (List.cons.inj (Option.some.inj equal)).1
      apply keyOf_ne_scanKey index scanned
      rw [← key, sameOp, ← key']
      rfl

/-- The scan benchmark asks for the operations of the engine's generator, from
the same draws, exactly when not all operations are to be scans. -/
theorem generateBatch_agrees_iff
    (made : new math config zipfDraws coin = some generator)
    (madeEngine : WorkloadGenerator.new math config.core zipfDraws coin =
      some engine)
    (nonneg : ∀ i, 0 ≤ coin i) (below_one : ∀ i, coin i < 1) :
    (∀ depth count,
      (generator.generateBatch math depth count).map Prod.fst =
        (engine.generateBatch math depth count).map
          fun outcome => outcome.1.map WorkloadOp.bench) ↔
      config.scanFraction < 1 := by
  constructor
  · intro agrees
    by_contra all
    exact first_differs made madeEngine nonneg below_one (not_lt.mp all)
      (agrees 1 1)
  · intro below depth count
    exact (new_mirrors made madeEngine nonneg below).generateBatch depth count

def sampleConfig : ScanWorkloadConfig where
  numKeys := 2
  zipfAlpha := 1
  scanFraction := 1 / 2
  scanLength := 2

theorem generateBatch_agrees_iff_sample :
    ∃ generator engine,
      new .sample sampleConfig (fun _ => 0) (fun _ => 0) = some generator ∧
      WorkloadGenerator.new .sample sampleConfig.core (fun _ => 0)
        (fun _ => 0) = some engine ∧
      ((∀ depth count,
        (generator.generateBatch .sample depth count).map Prod.fst =
          (engine.generateBatch .sample depth count).map
            fun outcome => outcome.1.map WorkloadOp.bench) ↔
        sampleConfig.scanFraction < 1) :=
  ⟨_, _, rfl, rfl, generateBatch_agrees_iff rfl rfl (fun _ => le_refl 0)
    fun _ => one_pos⟩

end All

end ScanWorkloadGenerator

end Walde
