import Walde.Tiers

namespace Walde

open Foundation

/-! # The sizes of L1 and L2

Each stripe keeps to its own capacity, which is clamped from below. A small L1
is also bounded by its slab. -/

/-- What the stripes of L1 can hold together: the configured capacity, unless
it is below three entries for each stripe. -/
def StripedCacheConfig.sizeBound (config : StripedCacheConfig) : Nat :=
  if 3 * kNumStripes ≤ config.totalCapacity then config.totalCapacity
  else min (3 * kNumStripes) (config.totalCapacity + kNumStripes)

theorem StripedCache.Valid.totalSize_le {xx : XxHash}
    {config : StripedCacheConfig} {demotionQueue : Bool}
    {policies : Fin kNumStripes → Policy} {cache : StripedCache}
    (valid : Valid xx config demotionQueue policies cache) :
    cache.totalSize ≤ config.sizeBound := by
  rcases valid.follows with ⟨views, lists, shows'⟩
  have inSlab := shows'.sum_size_le
  have each : ∀ i, (cache.stripe i).size ≤ config.perStripe := by
    intro i
    have bounded := (valid.bounded i).size_le
    rw [valid.config i] at bounded
    rw [shows'.size_eq i]
    exact bounded
  have inStripes : ∑ i, (cache.stripe i).size ≤
      kNumStripes * config.perStripe := by
    have sum := Finset.sum_le_card_nsmul Finset.univ _ _ fun i _ => each i
    rwa [Finset.card_univ, Fintype.card_fin, smul_eq_mul] at sum
  have wrapped : cache.totalSize ≤ ∑ i, (cache.stripe i).size := Nat.mod_le _ _
  refine wrapped.trans ?_
  generalize ∑ i, (cache.stripe i).size = total at inSlab inStripes
  simp only [StripedCacheConfig.perStripe, StripedCacheConfig.slabCapacity,
    kNumStripes, uint32Size] at inSlab inStripes
  unfold StripedCacheConfig.sizeBound kNumStripes
  split <;> omega

namespace CacheEngine

theorem Valid.l2Size_le {xx : XxHash} {config : CacheEngineConfig}
    {engine : CacheEngine} (valid : engine.Valid xx config) :
    engine.l2Size ≤ max kNumL2Stripes config.l2Capacity := by
  rcases valid.l2 with ⟨recency, l2⟩
  have each : ∀ i, Recency.size (engine.l2Stripes i).map ≤
      max 1 (config.l2Capacity / kNumL2Stripes) := by
    intro i
    rw [(l2.shows' i).size, ← (l2.shows' i).size_eq, ← valid.capacity]
    exact l2.within i
  have sum := Finset.sum_le_card_nsmul Finset.univ _ _ fun i _ => each i
  rw [Finset.card_univ, Fintype.card_fin, smul_eq_mul] at sum
  have wrapped : engine.l2Size ≤ _ := Nat.mod_le _ _
  simp only [kNumL2Stripes] at *
  omega

/-- The sizes in every state that a run reaches. -/
theorem run_sizes_le (xx : XxHash) {config : CacheEngineConfig}
    {backend : InMemoryBackend} {fresh : CacheEngine}
    (made : CacheEngine.new config backend = some fresh)
    (steps : List EngineStep) :
    ∃ replies engine, fresh.run xx steps = some (replies, engine) ∧
      engine.l1Size ≤ config.l1Config.sizeBound ∧
      engine.l2Size ≤ max kNumL2Stripes config.l2Capacity := by
  rcases (Valid.new made).run steps with ⟨replies, engine, ran, valid⟩
  rcases valid.l1 with ⟨policies, l1⟩
  exact ⟨replies, engine, ran, l1.totalSize_le, valid.l2Size_le⟩

theorem run_sizes_le_sample :
    ∃ fresh, CacheEngine.new .sample (.new ∅) = some fresh ∧
      ∃ replies engine, fresh.run .sample [.call (.put "k" "1"), .drain,
          .call (.get "k")] = some (replies, engine) ∧
        engine.l1Size ≤ CacheEngineConfig.sample.l1Config.sizeBound ∧
        engine.l2Size ≤ max kNumL2Stripes CacheEngineConfig.sample.l2Capacity := by
  have accepted : (CacheEngine.new .sample (.new ∅)).isSome := by
    decide +kernel
  rcases Option.isSome_iff_exists.mp accepted with ⟨fresh, made⟩
  exact ⟨fresh, made, run_sizes_le .sample made _⟩

def smallConfig : CacheEngineConfig where
  l1Config := { totalCapacity := 2 }
  l2Capacity := 0

theorem smallConfig_exceeded :
    ∃ fresh replies engine, CacheEngine.new smallConfig (.new ∅) = some fresh ∧
      fresh.run .sample [.call (.put "k" "1"), .call (.put "w" "1"),
        .call (.put "x" "1"), .call (.put "bu" "1"), .call (.put "bu" "1"),
        .drain, .drain, .drain] = some (replies, engine) ∧
      smallConfig.l1Config.totalCapacity < engine.l1Size ∧
      smallConfig.l2Capacity < engine.l2Size := by
  have sizes : ((CacheEngine.new smallConfig (.new ∅)).bind fun fresh =>
      (fresh.run .sample [.call (.put "k" "1"), .call (.put "w" "1"),
        .call (.put "x" "1"), .call (.put "bu" "1"), .call (.put "bu" "1"),
        .drain, .drain, .drain]).map fun outcome =>
      (outcome.2.l1Size, outcome.2.l2Size)) = some (3, 1) := by
    decide +kernel
  rcases Option.bind_eq_some_iff.mp sizes with ⟨fresh, made, sizes⟩
  rcases Option.map_eq_some_iff.mp sizes with ⟨⟨replies, engine⟩, ran, sizes⟩
  obtain ⟨l1, l2⟩ := Prod.mk.inj sizes
  refine ⟨fresh, replies, engine, made, ran, ?_, ?_⟩
  · rw [l1]
    decide
  · rw [l2]
    decide

end CacheEngine

end Walde
