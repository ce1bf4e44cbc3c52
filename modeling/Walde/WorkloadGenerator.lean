import Mathlib.Algebra.Order.Field.Rat
import Mathlib.Data.Rat.Floor
import Walde.Types

namespace Walde

/-! # The workload generator

Arithmetic on `double` is taken over the rationals, and the numbers that the two
random generators draw from `[0, 1)` are given as streams. -/

/-- What `double` arithmetic takes from the library and what it leaves open: the
power function, and the conversion of a value that no `uint32_t` holds. -/
structure DoubleMath where
  pow : ℚ → ℚ → ℚ
  toUint32 : ℚ → Nat
  toUint32_lt : ∀ value : ℚ, toUint32 value < uint32Size
  toUint32_floor : ∀ value : ℚ, 0 ≤ value → value < uint32Size →
    toUint32 value = value.floor.toNat

def DoubleMath.sample : DoubleMath where
  pow base _ := base
  toUint32 value := value.floor.toNat % uint32Size
  toUint32_lt _ := Nat.mod_lt _ (by decide)
  toUint32_floor value nonneg small := by
    apply Nat.mod_eq_of_lt
    have floored : value.floor < (uint32Size : Int) :=
      Int.floor_lt.mpr (by exact_mod_cast small)
    have nonnegFloor : 0 ≤ value.floor := Int.floor_nonneg.mpr nonneg
    omega

inductive WorkloadOpType
  | get
  | put
deriving DecidableEq, Repr

structure WorkloadOp where
  type : WorkloadOpType := .get
  key : Key := ""
  value : Value := ""
deriving DecidableEq, Repr

/-! ## Zipfian keys -/

structure ZipfianGenerator where
  cdf : List ℚ
  draws : Nat → ℚ

namespace ZipfianGenerator

def harmonic (math : DoubleMath) (alpha : ℚ) (count : Nat) : ℚ :=
  ((List.range count).map fun i => 1 / math.pow (i + 1) alpha).sum

/-- `none` is the write to `cdf_[num_keys - 1]` when there is no key. -/
def new (math : DoubleMath) (numKeys : Nat) (alpha : ℚ) (draws : Nat → ℚ) :
    Option ZipfianGenerator :=
  if numKeys = 0 then none
  else some {
    cdf := ((List.range (numKeys - 1)).map fun i =>
      ((List.range (i + 1)).map fun j =>
        1 / math.pow (j + 1) alpha / harmonic math alpha numKeys).sum) ++ [1]
    draws }

/-- `std::lower_bound`: the first place whose value is not below the draw. -/
def nextIndex (zipf : ZipfianGenerator) : Nat × ZipfianGenerator :=
  let u := zipf.draws 0
  (zipf.cdf.findIdx fun value => u ≤ value,
    { zipf with draws := fun i => zipf.draws (i + 1) })

def keyOf (index : Nat) : Key := "key_" ++ toString index

def nextKey (zipf : ZipfianGenerator) : Key × ZipfianGenerator :=
  let (index, zipf) := zipf.nextIndex
  (keyOf index, zipf)

end ZipfianGenerator

/-! ## The generator -/

structure WorkloadConfig where
  numKeys : Nat := 10000
  zipfAlpha : ℚ := 99 / 100
  writeRatio : ℚ := 1 / 20
  scanProbability : ℚ := 0
  scanLength : Nat := 500

/-- The probability with which a burst is started. -/
def WorkloadConfig.actualScanProb (config : WorkloadConfig) : ℚ :=
  let ratio := config.scanProbability
  let length : ℚ := config.scanLength
  if 0 < ratio ∧ ratio < 1 then ratio / (length * (1 - ratio) + ratio)
  else ratio

structure WorkloadGenerator where
  config : WorkloadConfig
  zipf : ZipfianGenerator
  draws : Nat → ℚ
  actualScanProb : ℚ
  scanRemaining : Nat
  scanOffset : Nat
  /-- `uint64_t`, counted as a natural number. -/
  opsGenerated : Nat

namespace WorkloadGenerator

/-- The seeds of the two random generators give the two streams of draws. -/
def new (math : DoubleMath) (config : WorkloadConfig)
    (zipfDraws draws : Nat → ℚ) : Option WorkloadGenerator :=
  (ZipfianGenerator.new math config.numKeys config.zipfAlpha zipfDraws).map
    fun zipf =>
      { config, zipf, draws
        actualScanProb := config.actualScanProb
        scanRemaining := 0
        scanOffset := 0
        opsGenerated := 0 }

/-- `uniform_(rng_)` -/
def uniform (generator : WorkloadGenerator) : ℚ × WorkloadGenerator :=
  (generator.draws 0,
    { generator with draws := fun i => generator.draws (i + 1) })

def scanKey (index : Nat) : Key := "scan_" ++ toString (index % uint32Size)

/-- `next` where it calls itself at most `depth` times. With more calls to make
it has no outcome. -/
def nextWithin (math : DoubleMath) :
    Nat → WorkloadGenerator → Option (WorkloadOp × WorkloadGenerator)
  | depth, generator =>
      let generator :=
        { generator with opsGenerated := generator.opsGenerated + 1 }
      if 0 < generator.scanRemaining then
        let scanRemaining := generator.scanRemaining - 1
        let key := scanKey (generator.scanOffset + scanRemaining)
        some ({ type := .get, key }, { generator with scanRemaining })
      else
        let (u, generator) := generator.uniform
        if u < generator.actualScanProb then
          let scanRemaining := generator.config.scanLength
          let (v, generator) := generator.uniform
          let scanOffset := math.toUint32 (v * generator.config.numKeys * 10)
          match depth with
          | 0 => none
          | depth + 1 =>
              nextWithin math depth { generator with scanRemaining, scanOffset }
        else
          let (key, zipf) := generator.zipf.nextKey
          let (w, generator) := { generator with zipf }.uniform
          if w < generator.config.writeRatio then
            let value := "val_" ++ toString generator.opsGenerated
            some ({ type := .put, key, value }, generator)
          else
            some ({ type := .get, key }, generator)

def generateBatch (math : DoubleMath) (depth : Nat) :
    Nat → WorkloadGenerator → Option (List WorkloadOp × WorkloadGenerator)
  | 0, generator => some ([], generator)
  | count + 1, generator => do
      let (op, generator) ← generator.nextWithin math depth
      let (ops, generator) ← generateBatch math depth count generator
      return (op :: ops, generator)

/-! ## The calls return -/

structure Sound (config : WorkloadConfig) (generator : WorkloadGenerator) :
    Prop where
  sameConfig : generator.config = config
  prob : generator.actualScanProb = config.actualScanProb
  remaining : generator.scanRemaining ≤ config.scanLength
  nonneg : ∀ i, 0 ≤ generator.draws i
  below_one : ∀ i, generator.draws i < 1

section Calls

variable {math : DoubleMath} {config : WorkloadConfig}
  {generator generator' : WorkloadGenerator} {depth : Nat} {op : WorkloadOp}

theorem new_sound {zipfDraws draws : Nat → ℚ}
    (nonneg : ∀ i, 0 ≤ draws i) (below_one : ∀ i, draws i < 1)
    (made : new math config zipfDraws draws = some generator) :
    generator.Sound config := by
  rcases Option.map_eq_some_iff.mp made with ⟨zipf, -, rfl⟩
  exact ⟨rfl, rfl, Nat.zero_le _, nonneg, below_one⟩

theorem new_eq_some (math : DoubleMath) {config : WorkloadConfig}
    (keys : 1 ≤ config.numKeys) (zipfDraws draws : Nat → ℚ) :
    ∃ start, new math config zipfDraws draws = some start := by
  rw [new, ZipfianGenerator.new, if_neg (by omega)]
  exact ⟨_, rfl⟩

theorem numKeys_of_new {zipfDraws draws : Nat → ℚ}
    (made : new math config zipfDraws draws = some generator) :
    1 ≤ config.numKeys := by
  rcases Option.map_eq_some_iff.mp made with ⟨zipf, made', -⟩
  rw [ZipfianGenerator.new] at made'
  split at made'
  · cases made'
  · omega

theorem nextWithin_inside (depth : Nat) {remaining : Nat}
    (inside : generator.scanRemaining = remaining + 1) :
    generator.nextWithin math depth = some
      ({ key := scanKey (generator.scanOffset + remaining) }, { generator with
        scanRemaining := remaining
        opsGenerated := generator.opsGenerated + 1 }) := by
  rw [nextWithin]
  simp [inside]

/-- The state in which a call that starts a burst calls itself. -/
def startBurst (math : DoubleMath) (generator : WorkloadGenerator) :
    WorkloadGenerator :=
  { generator with
    draws := fun i => generator.draws (i + 2)
    scanRemaining := generator.config.scanLength
    scanOffset := math.toUint32
      (generator.draws 1 * generator.config.numKeys * 10)
    opsGenerated := generator.opsGenerated + 1 }

theorem nextWithin_starts (depth : Nat) (outside : generator.scanRemaining = 0)
    (starts : generator.draws 0 < generator.actualScanProb) :
    generator.nextWithin math 0 = none ∧
      generator.nextWithin math (depth + 1) =
        (generator.startBurst math).nextWithin math depth := by
  constructor
  · rw [nextWithin]
    simp [outside, uniform, starts]
  · rw [nextWithin]
    simp [outside, uniform, starts, startBurst]

theorem nextWithin_single (math : DoubleMath) (depth : Nat)
    (outside : generator.scanRemaining = 0)
    (misses : generator.actualScanProb ≤ generator.draws 0) :
    ∃ op, op.key = generator.zipf.nextKey.1 ∧
      (op.type = .put ↔ generator.draws 1 < generator.config.writeRatio) ∧
      generator.nextWithin math depth = some (op, { generator with
        zipf := generator.zipf.nextKey.2
        draws := fun i => generator.draws (i + 2)
        opsGenerated := generator.opsGenerated + 1 }) := by
  have goesOn := not_lt.mpr misses
  by_cases writes : generator.draws 1 < generator.config.writeRatio
  · refine ⟨{ type := .put, key := generator.zipf.nextKey.1
              value := "val_" ++ toString (generator.opsGenerated + 1) },
      rfl, by simp [writes], ?_⟩
    rw [nextWithin]
    simp [outside, uniform, goesOn, writes]
  · refine ⟨{ key := generator.zipf.nextKey.1 }, rfl, by simp [writes], ?_⟩
    rw [nextWithin]
    simp [outside, uniform, goesOn, writes]

theorem next_cases (generator : WorkloadGenerator) :
    (∃ remaining, generator.scanRemaining = remaining + 1) ∨
    (generator.scanRemaining = 0 ∧
      generator.draws 0 < generator.actualScanProb) ∨
    (generator.scanRemaining = 0 ∧
      generator.actualScanProb ≤ generator.draws 0) := by
  cases generator.scanRemaining with
  | succ remaining => exact .inl ⟨remaining, rfl⟩
  | zero =>
      rcases lt_or_ge (generator.draws 0) generator.actualScanProb with
        starts | misses
      · exact .inr (.inl ⟨rfl, starts⟩)
      · exact .inr (.inr ⟨rfl, misses⟩)

theorem Sound.inside (sound : generator.Sound config) {remaining : Nat}
    (inside : generator.scanRemaining = remaining + 1) :
    Sound config { generator with
      scanRemaining := remaining
      opsGenerated := generator.opsGenerated + 1 } where
  sameConfig := sound.sameConfig
  prob := sound.prob
  remaining := by
    have within := sound.remaining
    change remaining ≤ config.scanLength
    omega
  nonneg := sound.nonneg
  below_one := sound.below_one

theorem Sound.started (sound : generator.Sound config) (math : DoubleMath) :
    (generator.startBurst math).Sound config where
  sameConfig := sound.sameConfig
  prob := sound.prob
  remaining := by rw [startBurst, sound.sameConfig]
  nonneg i := sound.nonneg (i + 2)
  below_one i := sound.below_one (i + 2)

theorem Sound.single (sound : generator.Sound config)
    (zipf : ZipfianGenerator) :
    Sound config { generator with
      zipf
      draws := fun i => generator.draws (i + 2)
      opsGenerated := generator.opsGenerated + 1 } :=
  { sound with
    nonneg := fun i => sound.nonneg (i + 2)
    below_one := fun i => sound.below_one (i + 2) }

theorem Sound.next (sound : generator.Sound config)
    (called : generator.nextWithin math depth = some (op, generator')) :
    generator'.Sound config := by
  induction depth generalizing generator with
  | zero =>
      rcases next_cases generator with
        ⟨remaining, inside⟩ | ⟨outside, starts⟩ | ⟨outside, misses⟩
      · rw [nextWithin_inside 0 inside] at called
        cases called
        exact sound.inside inside
      · rw [(nextWithin_starts 0 outside starts).1] at called
        cases called
      · rcases nextWithin_single math 0 outside misses with
          ⟨op, -, -, outcome⟩
        rw [outcome] at called
        cases called
        exact sound.single _
  | succ depth induction =>
      rcases next_cases generator with
        ⟨remaining, inside⟩ | ⟨outside, starts⟩ | ⟨outside, misses⟩
      · rw [nextWithin_inside _ inside] at called
        cases called
        exact sound.inside inside
      · rw [(nextWithin_starts depth outside starts).2] at called
        exact induction (sound.started math) called
      · rcases nextWithin_single math (depth + 1) outside misses with
          ⟨op, -, -, outcome⟩
        rw [outcome] at called
        cases called
        exact sound.single _

theorem Sound.returns (sound : generator.Sound config)
    (stops : 0 < config.scanLength ∨ config.scanProbability = 0) :
    ∃ outcome, generator.nextWithin math 1 = some outcome := by
  rcases next_cases generator with
    ⟨remaining, inside⟩ | ⟨outside, starts⟩ | ⟨outside, misses⟩
  · exact ⟨_, nextWithin_inside 1 inside⟩
  · rw [(nextWithin_starts 0 outside starts).2]
    rcases stops with positive | never
    · have length : (generator.startBurst math).scanRemaining =
          config.scanLength - 1 + 1 := by
        rw [startBurst, sound.sameConfig]
        exact (Nat.sub_add_cancel positive).symm
      exact ⟨_, nextWithin_inside 0 length⟩
    · -- no draw is below a probability of zero
      rw [sound.prob, WorkloadConfig.actualScanProb, never] at starts
      exact absurd starts (by simpa using sound.nonneg 0)
  · rcases nextWithin_single math 1 outside misses with ⟨op, -, -, outcome⟩
    exact ⟨_, outcome⟩

/-- A burst of length zero is certain to be followed by another one. -/
theorem Sound.diverges (sound : generator.Sound config)
    (empty : config.scanLength = 0) (positive : 0 < config.scanProbability)
    (below : config.scanProbability < 1) (depth : Nat) :
    generator.nextWithin math depth = none := by
  have certain : config.actualScanProb = 1 := by
    rw [WorkloadConfig.actualScanProb, if_pos ⟨positive, below⟩, empty]
    simp [positive.ne']
  have triggers : ∀ {generator : WorkloadGenerator}, generator.Sound config →
      generator.scanRemaining = 0 ∧
        generator.draws 0 < generator.actualScanProb := by
    intro generator sound
    have none := sound.remaining
    rw [sound.prob, certain]
    exact ⟨by omega, sound.below_one 0⟩
  induction depth generalizing generator with
  | zero =>
      rcases triggers sound with ⟨outside, starts⟩
      exact (nextWithin_starts 0 outside starts).1
  | succ depth induction =>
      rcases triggers sound with ⟨outside, starts⟩
      rw [(nextWithin_starts depth outside starts).2]
      exact induction (sound.started math)

end Calls

inductive Reachable (math : DoubleMath) (config : WorkloadConfig)
    (zipfDraws draws : Nat → ℚ) : WorkloadGenerator → Prop
  | new {generator} :
      WorkloadGenerator.new math config zipfDraws draws = some generator →
      Reachable math config zipfDraws draws generator
  | next {generator generator'} {depth : Nat} {op : WorkloadOp} :
      Reachable math config zipfDraws draws generator →
      generator.nextWithin math depth = some (op, generator') →
      Reachable math config zipfDraws draws generator'

theorem Reachable.sound {math : DoubleMath} {config : WorkloadConfig}
    {zipfDraws draws : Nat → ℚ} {generator : WorkloadGenerator}
    (reachable : Reachable math config zipfDraws draws generator)
    (nonneg : ∀ i, 0 ≤ draws i) (below_one : ∀ i, draws i < 1) :
    generator.Sound config := by
  induction reachable with
  | new made => exact new_sound nonneg below_one made
  | next reachable called sound => exact sound.next called

/-- Every call returns after at most one recursive call, unless bursts have no
length and are started at all. In that case no call ever returns. -/
theorem next_returns_iff (math : DoubleMath) {config : WorkloadConfig}
    (ratio_nonneg : 0 ≤ config.scanProbability)
    (ratio_lt : config.scanProbability < 1) {zipfDraws draws : Nat → ℚ}
    (nonneg : ∀ i, 0 ≤ draws i) (below_one : ∀ i, draws i < 1)
    {generator : WorkloadGenerator}
    (reachable : Reachable math config zipfDraws draws generator) :
    ((∃ outcome, generator.nextWithin math 1 = some outcome) ↔
      0 < config.scanLength ∨ config.scanProbability = 0) ∧
    (¬(0 < config.scanLength ∨ config.scanProbability = 0) →
      ∀ depth, generator.nextWithin math depth = none) := by
  have sound := reachable.sound nonneg below_one
  have diverges : ¬(0 < config.scanLength ∨ config.scanProbability = 0) →
      ∀ depth, generator.nextWithin math depth = none := by
    intro fails
    rw [not_or] at fails
    exact sound.diverges (Nat.eq_zero_of_not_pos fails.1)
      (lt_of_le_of_ne ratio_nonneg (Ne.symm fails.2)) ratio_lt
  refine ⟨⟨fun returns => ?_, sound.returns⟩, diverges⟩
  by_contra fails
  rcases returns with ⟨outcome, returned⟩
  rw [diverges fails 1] at returned
  cases returned

def sampleConfig : WorkloadConfig where
  numKeys := 2
  zipfAlpha := 1
  scanProbability := 1 / 2
  scanLength := 2

theorem next_returns_iff_sample :
    ∃ generator, new .sample sampleConfig (fun _ => 0) (fun _ => 0) =
        some generator ∧
      ((∃ outcome, generator.nextWithin .sample 1 = some outcome) ↔
        0 < sampleConfig.scanLength ∨ sampleConfig.scanProbability = 0) ∧
      (¬(0 < sampleConfig.scanLength ∨ sampleConfig.scanProbability = 0) →
        ∀ depth, generator.nextWithin .sample depth = none) :=
  ⟨_, rfl, next_returns_iff .sample (by norm_num [sampleConfig])
    (by norm_num [sampleConfig]) (fun _ => le_refl 0) (fun _ => one_pos)
    (.new rfl)⟩

/-- With bursts of length zero for half of the operations the first call never
returns. -/
theorem emptyBursts_diverge :
    ∃ generator, new .sample { sampleConfig with scanLength := 0 } (fun _ => 0)
        (fun _ => 0) = some generator ∧
      ∀ depth, generator.nextWithin .sample depth = none := by
  have made : ∃ generator, new .sample
      { sampleConfig with scanLength := 0 } (fun _ => 0) (fun _ => 0) =
        some generator := ⟨_, rfl⟩
  rcases made with ⟨generator, made⟩
  have sound := new_sound (fun _ => le_refl 0) (fun _ => one_pos) made
  exact ⟨generator, made, sound.diverges rfl (by norm_num [sampleConfig])
    (by norm_num [sampleConfig])⟩

end WorkloadGenerator

end Walde
