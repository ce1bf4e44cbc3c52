import Walde.WorkloadGenerator

namespace Walde

/-! # The YCSB workloads of the benchmarks

As for the generator of the engine's workloads, `double` arithmetic is taken
over the rationals, and what the random engines deliver is given as streams. -/

inductive BenchOpType
  | get
  | put
  | rmw
deriving DecidableEq, Repr

structure BenchOp where
  type : BenchOpType := .get
  key : Key := ""
  value : Value := ""
deriving DecidableEq, Repr

inductive YcsbWorkload
  | a
  | b
  | c
  | d
  | f
deriving DecidableEq, Repr

def subUint32 (left right : Nat) : Nat :=
  (left + uint32Size - right) % uint32Size

theorem subUint32_eq {left right : Nat} (le : right ≤ left)
    (fits : left < uint32Size) : subUint32 left right = left - right := by
  rw [subUint32, Nat.add_comm, Nat.add_sub_assoc le, Nat.add_mod_left,
    Nat.mod_eq_of_lt (by omega)]

/-! ## Keys -/

/-- The Zipfian generator of the benchmarks repeats the engine's. -/
abbrev BenchZipfian := ZipfianGenerator

namespace BenchZipfian

def new (math : DoubleMath) (numKeys : Nat) (alpha : ℚ) (draws : Nat → ℚ) :
    Option BenchZipfian :=
  ZipfianGenerator.new math numKeys alpha draws

def next (zipf : BenchZipfian) : Nat × BenchZipfian := zipf.nextIndex

/-- The last entry of the table is one, which no draw exceeds. -/
structure Ranged (numKeys : Nat) (zipf : BenchZipfian) : Prop where
  length : zipf.cdf.length = numKeys
  one_mem : (1 : ℚ) ∈ zipf.cdf
  below_one : ∀ i, zipf.draws i < 1

theorem new_ranged {math : DoubleMath} {numKeys : Nat} {alpha : ℚ}
    {draws : Nat → ℚ} {zipf : BenchZipfian}
    (made : new math numKeys alpha draws = some zipf)
    (below_one : ∀ i, draws i < 1) : Ranged numKeys zipf := by
  rw [new, ZipfianGenerator.new] at made
  split at made
  · cases made
  · cases made
    refine ⟨?_, by simp, below_one⟩
    simp only [List.length_append, List.length_map, List.length_range,
      List.length_singleton]
    omega

theorem Ranged.next {numKeys : Nat} {zipf : BenchZipfian}
    (ranged : Ranged numKeys zipf) :
    (BenchZipfian.next zipf).1 < numKeys ∧
      Ranged numKeys (BenchZipfian.next zipf).2 := by
  refine ⟨?_, ranged.length, ranged.one_mem, fun i => ranged.below_one (i + 1)⟩
  rw [← ranged.length]
  apply List.findIdx_lt_length_of_exists
  exact ⟨1, ranged.one_mem, by simpa using (ranged.below_one 0).le⟩

end BenchZipfian

/-- `dist_` picks a `uint32_t` up to `last`. -/
structure BenchUniform where
  last : Nat
  draws : Nat → Nat

namespace BenchUniform

def new (numKeys : Nat) (draws : Nat → Nat) : BenchUniform where
  last := subUint32 numKeys 1
  draws

def next (uniform : BenchUniform) : Nat × BenchUniform :=
  (uniform.draws 0, { uniform with draws := fun i => uniform.draws (i + 1) })

end BenchUniform

/-- Prefers the keys that were inserted last. -/
structure BenchLatestGen where
  zipf : BenchZipfian
  insertCount : Nat

namespace BenchLatestGen

def new (math : DoubleMath) (numKeys : Nat) (alpha : ℚ) (draws : Nat → ℚ) :
    Option BenchLatestGen :=
  (BenchZipfian.new math numKeys alpha draws).map fun zipf =>
    { zipf, insertCount := numKeys }

def next (latest : BenchLatestGen) : Nat × BenchLatestGen :=
  let (offset, zipf) := BenchZipfian.next latest.zipf
  let offset := if offset ≥ latest.insertCount then
      subUint32 latest.insertCount 1 else offset
  (subUint32 (subUint32 latest.insertCount 1) offset, { latest with zipf })

def recordInsert (latest : BenchLatestGen) : BenchLatestGen :=
  { latest with insertCount := (latest.insertCount + 1) % uint32Size }

/-- The number of keys and of those inserted since, all in 32 bits. -/
structure Ranged (numKeys inserted : Nat) (latest : BenchLatestGen) : Prop where
  zipf : BenchZipfian.Ranged numKeys latest.zipf
  insertCount : latest.insertCount = numKeys + inserted

theorem Ranged.next {numKeys inserted : Nat} {latest : BenchLatestGen}
    (ranged : latest.Ranged numKeys inserted)
    (fits : numKeys + inserted < uint32Size) :
    latest.next.1 < numKeys + inserted ∧
      latest.next.2.Ranged numKeys inserted := by
  rcases ranged.zipf.next with ⟨below, zipf⟩
  refine ⟨?_, zipf, ranged.insertCount⟩
  unfold BenchLatestGen.next
  dsimp only
  rw [ranged.insertCount, if_neg (by omega), subUint32_eq (by omega) fits,
    subUint32_eq (by omega) (by omega)]
  omega

theorem Ranged.recordInsert {numKeys inserted : Nat} {latest : BenchLatestGen}
    (ranged : latest.Ranged numKeys inserted)
    (fits : numKeys + (inserted + 1) < uint32Size) :
    latest.recordInsert.Ranged numKeys (inserted + 1) where
  zipf := ranged.zipf
  insertCount := by
    rw [BenchLatestGen.recordInsert, ranged.insertCount, Nat.add_assoc,
      Nat.mod_eq_of_lt fits]

end BenchLatestGen

/-! ## The generator -/

structure BenchWorkloadConfig where
  workload : YcsbWorkload := .c
  numKeys : Nat := 100000
  zipfAlpha : ℚ := 99 / 100
  useUniform : Bool := false

/-- What the four random engines deliver, each through its distribution. -/
structure BenchDraws where
  zipf : Nat → ℚ
  uniform : Nat → Nat
  latest : Nat → ℚ
  coin : Nat → ℚ

/-- The ranges that the distributions promise. -/
structure BenchDraws.InRange (numKeys : Nat) (draws : BenchDraws) : Prop where
  zipf : ∀ i, draws.zipf i < 1
  uniform : ∀ i, draws.uniform i ≤ subUint32 numKeys 1
  latest : ∀ i, draws.latest i < 1

structure BenchWorkloadGenerator where
  config : BenchWorkloadConfig
  zipf : BenchZipfian
  uniform : BenchUniform
  latest : BenchLatestGen
  coin : Nat → ℚ
  readRatio : ℚ
  opsGenerated : Nat

def YcsbWorkload.readRatio : YcsbWorkload → ℚ
  | .a => 50 / 100
  | .b => 95 / 100
  | .c => 1
  | .d => 95 / 100
  | .f => 50 / 100

namespace BenchWorkloadGenerator

def new (math : DoubleMath) (config : BenchWorkloadConfig) (draws : BenchDraws) :
    Option BenchWorkloadGenerator := do
  let zipf ← BenchZipfian.new math config.numKeys config.zipfAlpha draws.zipf
  let latest ←
    BenchLatestGen.new math config.numKeys config.zipfAlpha draws.latest
  return {
    config, zipf, latest
    uniform := .new config.numKeys draws.uniform
    coin := draws.coin
    readRatio := config.workload.readRatio
    opsGenerated := 0 }

/-- The key that is drawn before the coin is tossed. -/
def drawKey (generator : BenchWorkloadGenerator) :
    Nat × BenchWorkloadGenerator :=
  if generator.config.useUniform then
    let (index, uniform) := generator.uniform.next
    (index, { generator with uniform })
  else if generator.config.workload = .d then
    let (index, latest) := generator.latest.next
    (index, { generator with latest })
  else
    let (index, zipf) := BenchZipfian.next generator.zipf
    (index, { generator with zipf })

/-- The operation on the key that was drawn. D inserts another key instead. -/
def chooseOp (generator : BenchWorkloadGenerator) (keyIdx : Nat) :
    BenchOp × BenchWorkloadGenerator :=
  let key := ZipfianGenerator.keyOf keyIdx
  let r := generator.coin 0
  let generator := { generator with coin := fun i => generator.coin (i + 1) }
  if generator.config.workload = .f then
    if r < 50 / 100 then ({ type := .get, key }, generator)
    else
      let value := "rmw_" ++ toString generator.opsGenerated
      ({ type := .rmw, key, value }, generator)
  else if generator.config.workload = .d then
    if r < generator.readRatio then ({ type := .get, key }, generator)
    else
      let keyIdx := generator.latest.insertCount
      let latest := generator.latest.recordInsert
      let key := ZipfianGenerator.keyOf keyIdx
      let value := "val_" ++ toString generator.opsGenerated
      ({ type := .put, key, value }, { generator with latest })
  else
    if r < generator.readRatio then ({ type := .get, key }, generator)
    else
      let value := "val_" ++ toString generator.opsGenerated
      ({ type := .put, key, value }, generator)

def next (generator : BenchWorkloadGenerator) :
    BenchOp × BenchWorkloadGenerator :=
  let drawn := drawKey
    { generator with opsGenerated := generator.opsGenerated + 1 }
  drawn.2.chooseOp drawn.1

def generateBatch : Nat → BenchWorkloadGenerator →
    List BenchOp × BenchWorkloadGenerator
  | 0, generator => ([], generator)
  | count + 1, generator =>
      let (op, generator) := generator.next
      let (ops, generator) := generateBatch count generator
      (op :: ops, generator)

end BenchWorkloadGenerator

/-! ## What a workload asks for -/

namespace BenchWorkloadConfig

def inserted (config : BenchWorkloadConfig) (past : List BenchOp) : Nat :=
  if config.workload = .d then past.countP fun op => op.type = .put else 0

/-- An operation of the workload after those of the past: the coin decides
between a read and the other kind of operation; D inserts the next key, and
every other key is one that exists by then; a written value is a new one. -/
structure Allows (config : BenchWorkloadConfig) (coin : ℚ) (past : List BenchOp)
    (op : BenchOp) : Prop where
  type : op.type =
    if coin < config.workload.readRatio then .get
    else if config.workload = .f then .rmw else .put
  key : ∃ index, op.key = ZipfianGenerator.keyOf index ∧
    if config.workload = .d ∧ op.type = .put then
      index = config.numKeys + config.inserted past
    else index < config.numKeys + config.inserted past
  value : op.value = match op.type with
    | .get => ""
    | .put => "val_" ++ toString (past.length + 1)
    | .rmw => "rmw_" ++ toString (past.length + 1)

end BenchWorkloadConfig

namespace BenchWorkloadGenerator

/-- The sources of keys, after a number of insertions. -/
structure Ready (config : BenchWorkloadConfig) (inserted : Nat)
    (generator : BenchWorkloadGenerator) : Prop where
  sameConfig : generator.config = config
  zipf : BenchZipfian.Ranged config.numKeys generator.zipf
  uniform : ∀ i, generator.uniform.draws i < config.numKeys
  latest : generator.latest.Ranged config.numKeys inserted
  readRatio : generator.readRatio = config.workload.readRatio

/-- The state of a generator after the operations of the past. -/
structure Follows (config : BenchWorkloadConfig) (draws : BenchDraws)
    (past : List BenchOp) (generator : BenchWorkloadGenerator) : Prop where
  ready : generator.Ready config (config.inserted past)
  coin : ∀ i, generator.coin i = draws.coin (past.length + i)
  counted : generator.opsGenerated = past.length

section Follows

variable {math : DoubleMath} {config : BenchWorkloadConfig}
  {draws : BenchDraws} {past : List BenchOp}
  {generator : BenchWorkloadGenerator}

theorem new_follows (made : new math config draws = some generator)
    (inRange : draws.InRange config.numKeys)
    (fits : config.numKeys < uint32Size) :
    generator.Follows config draws [] := by
  rcases Option.bind_eq_some_iff.mp made with ⟨zipf, zipfMade, made⟩
  rcases Option.bind_eq_some_iff.mp made with ⟨latest, latestMade, equal⟩
  rcases Option.map_eq_some_iff.mp latestMade with ⟨zipf', zipfMade', rfl⟩
  have zipfRanged := BenchZipfian.new_ranged zipfMade inRange.zipf
  have latestRanged := BenchZipfian.new_ranged zipfMade' inRange.latest
  have positive : 1 ≤ config.numKeys := by
    rw [← zipfRanged.length]
    exact List.length_pos_of_mem zipfRanged.one_mem
  have none : config.inserted [] = 0 := by
    unfold BenchWorkloadConfig.inserted
    split <;> rfl
  cases equal
  refine ⟨⟨rfl, zipfRanged, fun i => ?_, ⟨latestRanged, ?_⟩, rfl⟩,
    fun i => ?_, rfl⟩
  · have drawn := inRange.uniform i
    rw [subUint32_eq positive fits] at drawn
    exact Nat.lt_of_le_of_lt drawn (by omega)
  · rw [none]
    rfl
  · rw [List.length_nil, Nat.zero_add]

theorem Ready.drawKey {inserted : Nat}
    (ready : generator.Ready config inserted)
    (room : config.workload = .d → config.numKeys + inserted < uint32Size) :
    generator.drawKey.1 < config.numKeys + inserted ∧
      generator.drawKey.2.Ready config inserted ∧
      generator.drawKey.2.coin = generator.coin ∧
      generator.drawKey.2.opsGenerated = generator.opsGenerated := by
  unfold BenchWorkloadGenerator.drawKey
  split
  · refine ⟨?_, { ready with uniform := fun i => ready.uniform (i + 1) },
      rfl, rfl⟩
    exact Nat.lt_add_right inserted (ready.uniform 0)
  · split
    · rename_i inserts
      rw [ready.sameConfig] at inserts
      rcases ready.latest.next (room inserts) with ⟨below, latest⟩
      exact ⟨below, { ready with latest }, rfl, rfl⟩
    · rcases ready.zipf.next with ⟨below, zipf⟩
      exact ⟨Nat.lt_add_right inserted below, { ready with zipf }, rfl, rfl⟩

theorem inserted_concat (config : BenchWorkloadConfig) (past : List BenchOp)
    (op : BenchOp) : config.inserted (past ++ [op]) = config.inserted past +
      if config.workload = .d ∧ op.type = .put then 1 else 0 := by
  unfold BenchWorkloadConfig.inserted
  by_cases inserts : config.workload = .d
  · rw [if_pos inserts, if_pos inserts, List.countP_append,
      List.countP_singleton]
    simp [inserts]
  · simp [inserts]

theorem inserted_le (config : BenchWorkloadConfig) (past : List BenchOp) :
    config.inserted past ≤ past.length := by
  unfold BenchWorkloadConfig.inserted
  split
  · exact List.countP_le_length
  · exact Nat.zero_le _

theorem Ready.follows_concat {op : BenchOp}
    (ready : generator.Ready config
      (config.inserted past + if config.workload = .d ∧ op.type = .put then 1
        else 0))
    (coin : ∀ i, generator.coin i = draws.coin (past.length + 1 + i))
    (counted : generator.opsGenerated = past.length + 1) :
    generator.Follows config draws (past ++ [op]) where
  ready := by rwa [inserted_concat]
  coin := by rwa [List.length_append]
  counted := by rwa [List.length_append]

theorem Ready.chooseOp {keyIdx : Nat}
    (ready : generator.Ready config (config.inserted past))
    (coin : ∀ i, generator.coin i = draws.coin (past.length + i))
    (counted : generator.opsGenerated = past.length + 1)
    (below : keyIdx < config.numKeys + config.inserted past)
    (room : config.workload = .d →
      config.numKeys + (past.length + 1) < uint32Size) :
    config.Allows (draws.coin past.length) past (generator.chooseOp keyIdx).1 ∧
      (generator.chooseOp keyIdx).2.Follows config draws
        (past ++ [(generator.chooseOp keyIdx).1]) := by
  have toss : generator.coin 0 = draws.coin past.length := coin 0
  have later : ∀ i, generator.coin (i + 1) =
      draws.coin (past.length + 1 + i) := by
    intro i
    rw [coin, Nat.add_assoc, Nat.add_comm 1 i]
  have sameWorkload := congrArg BenchWorkloadConfig.workload ready.sameConfig
  -- an operation on the key that was drawn
  have drawn : ∀ {op : BenchOp}, op.key = ZipfianGenerator.keyOf keyIdx →
      op.type = (if draws.coin past.length < config.workload.readRatio then .get
        else if config.workload = .f then .rmw else .put) →
      (op.value = match op.type with
        | .get => ""
        | .put => "val_" ++ toString generator.opsGenerated
        | .rmw => "rmw_" ++ toString generator.opsGenerated) →
      ¬(config.workload = .d ∧ op.type = .put) →
      config.Allows (draws.coin past.length) past op ∧
        Follows config draws (past ++ [op])
          { generator with coin := fun i => generator.coin (i + 1) } := by
    intro op key type value inserts
    rw [counted] at value
    refine ⟨⟨type, ⟨keyIdx, key, by rwa [if_neg inserts]⟩, value⟩,
      Ready.follows_concat ?_ later counted⟩
    rw [if_neg inserts]
    exact { ready with }
  unfold BenchWorkloadGenerator.chooseOp
  dsimp only
  rw [toss]
  by_cases isF : generator.config.workload = .f
  · rw [if_pos isF]
    rw [sameWorkload] at isF
    have ratio : config.workload.readRatio = 50 / 100 := by
      rw [isF, YcsbWorkload.readRatio]
    by_cases reads : draws.coin past.length < 50 / 100
    · rw [if_pos reads]
      apply drawn
      · rfl
      · rw [ratio, if_pos reads]
      · rfl
      · simp
    · rw [if_neg reads]
      apply drawn
      · rfl
      · rw [ratio, if_neg reads, if_pos isF]
      · rfl
      · simp
  · rw [if_neg isF]
    rw [sameWorkload] at isF
    have ratio : generator.readRatio = config.workload.readRatio :=
      ready.readRatio
    by_cases reads : draws.coin past.length < generator.readRatio
    · rw [if_pos reads, if_pos reads, ite_self]
      apply drawn
      · rfl
      · rw [← ratio, if_pos reads]
      · rfl
      · simp
    · rw [if_neg reads, if_neg reads]
      by_cases isD : generator.config.workload = .d
      · rw [if_pos isD]
        rw [sameWorkload] at isD
        refine ⟨⟨by rw [← ratio, if_neg reads, if_neg isF],
          ⟨_, rfl, by rw [if_pos ⟨isD, rfl⟩, ready.latest.insertCount]⟩,
          by rw [← counted]⟩, Ready.follows_concat ?_ later counted⟩
        rw [if_pos ⟨isD, rfl⟩]
        have within := inserted_le config past
        have enough := room isD
        exact { ready with latest := ready.latest.recordInsert (by omega) }
      · rw [if_neg isD]
        rw [sameWorkload] at isD
        apply drawn
        · rfl
        · rw [← ratio, if_neg reads, if_neg isF]
        · rfl
        · exact fun both => isD both.1

theorem Follows.next (follows : generator.Follows config draws past)
    (room : config.workload = .d →
      config.numKeys + (past.length + 1) < uint32Size) :
    config.Allows (draws.coin past.length) past generator.next.1 ∧
      generator.next.2.Follows config draws (past ++ [generator.next.1]) := by
  have within := inserted_le config past
  have counting : Ready config (config.inserted past) { generator with
      opsGenerated := generator.opsGenerated + 1 } := { follows.ready with }
  rcases counting.drawKey fun inserts => by have := room inserts; omega with
    ⟨below, ready, sameCoin, sameCount⟩
  apply ready.chooseOp _ _ below room
  · rw [sameCoin]
    exact follows.coin
  · rw [sameCount, follows.counted]

/-- A batch consists of operations that the workload allows, each after those
before it. -/
theorem Follows.generateBatch {count : Nat}
    (follows : generator.Follows config draws past)
    (room : config.workload = .d →
      config.numKeys + (past.length + count) < uint32Size) :
    (generator.generateBatch count).1.length = count ∧
      (generator.generateBatch count).2.Follows config draws
        (past ++ (generator.generateBatch count).1) ∧
      ∀ before op after,
        (generator.generateBatch count).1 = before ++ op :: after →
        config.Allows (draws.coin (past.length + before.length))
          (past ++ before) op := by
  induction count generalizing generator past with
  | zero =>
      refine ⟨rfl, by
        rwa [BenchWorkloadGenerator.generateBatch, List.append_nil], ?_⟩
      intro before op after split
      simp [BenchWorkloadGenerator.generateBatch] at split
  | succ count induction =>
      rcases follows.next fun inserts => by have := room inserts; omega with
        ⟨allowed, follows'⟩
      rcases induction follows' (by
        intro inserts
        have := room inserts
        rw [List.length_append, List.length_singleton]
        omega) with ⟨length, followsLast, rest⟩
      rw [BenchWorkloadGenerator.generateBatch]
      refine ⟨congrArg (· + 1) length, ?_, ?_⟩
      · rwa [List.append_assoc] at followsLast
      · intro before op after split
        cases before with
        | nil =>
            obtain ⟨rfl, -⟩ := List.cons.inj split
            rwa [List.append_nil]
        | cons first before =>
            obtain ⟨rfl, equal⟩ := List.cons.inj split
            have later := rest before op after equal
            rw [List.length_append, List.length_singleton] at later
            rw [List.length_cons, List.append_cons]
            rwa [Nat.add_assoc, Nat.add_comm 1] at later

end Follows

theorem generateBatch_follows {math : DoubleMath} {config : BenchWorkloadConfig}
    {draws : BenchDraws} {generator : BenchWorkloadGenerator}
    (made : new math config draws = some generator)
    (inRange : draws.InRange config.numKeys) {count : Nat}
    (fits : config.numKeys < uint32Size)
    (room : config.workload = .d → config.numKeys + count < uint32Size) :
    (generator.generateBatch count).1.length = count ∧
      (generator.generateBatch count).2.Follows config draws
        (generator.generateBatch count).1 ∧
      ∀ before op after,
        (generator.generateBatch count).1 = before ++ op :: after →
        config.Allows (draws.coin before.length) before op := by
  have follows := new_follows made inRange fits
  rcases follows.generateBatch (by
    intro inserts
    rw [List.length_nil, Nat.zero_add]
    exact room inserts) with ⟨length, followsLast, allowed⟩
  refine ⟨length, followsLast, ?_⟩
  intro before op after split
  have here := allowed before op after split
  rwa [List.length_nil, Nat.zero_add] at here

def sampleConfig : BenchWorkloadConfig where
  workload := .d
  numKeys := 2
  zipfAlpha := 1

def sampleDraws : BenchDraws where
  zipf _ := 0
  uniform _ := 0
  latest _ := 0
  coin i := (i % 2 : Nat)

end BenchWorkloadGenerator

end Walde
