import Walde.Tiers

namespace Walde

open Foundation

/-! # L1 against L2

Whether a key can be resident in both. A hit in L2 takes the key out of it; a
put leaves L2 alone, and the drainer does not look at L1. -/

namespace Tiers

def Exclusive (tiers : Tiers) : Prop :=
  ∀ key, tiers.l1 key = none ∨ tiers.l2 key = none

variable {before after : Tiers}

theorem Exclusive.l1Put (exclusive : before.Exclusive) {key : Key}
    {value : Value} (put : before.L1Put key value after)
    (apart : before.l2 key = none) : after.Exclusive := by
  intro other
  rw [put.l2]
  by_cases same : other = key
  · exact .inr (same ▸ apart)
  · rcases put.others same with kept | gone
    · rw [kept]
      exact exclusive other
    · exact .inl gone

theorem Exclusive.erase_l2 (exclusive : before.Exclusive) (key : Key) :
    Exclusive { before with l2 := Function.update before.l2 key none } := by
  intro other
  by_cases same : other = key
  · right
    rw [same]
    exact Function.update_self key none before.l2
  · refine (exclusive other).imp_right fun absent => ?_
    exact (Function.update_of_ne same _ _).trans absent

theorem Exclusive.erase_l1 (exclusive : before.Exclusive) (key : Key) :
    Exclusive { before with l1 := Function.update before.l1 key none } := by
  intro other
  by_cases same : other = key
  · left
    rw [same]
    exact Function.update_self key none before.l1
  · refine (exclusive other).imp_left fun absent => ?_
    exact (Function.update_of_ne same _ _).trans absent

theorem Exclusive.called (exclusive : before.Exclusive) {call : CacheCall}
    {reply : CacheReply} (called : before.Called call reply after)
    (apart : ∀ key value, call = .put key value → before.l2 key = none) :
    after.Exclusive := by
  cases called with
  | l1Hit => exact exclusive
  | @l2Hit key value after missed hit refilled =>
      exact (exclusive.erase_l2 key).l1Put refilled
        (Function.update_self key none before.l2)
  | backendHit missed missedL2 hit refilled =>
      exact exclusive.l1Put refilled missedL2
  | miss => exact exclusive
  | @put key value inserted after stored =>
      have written : Exclusive { before with
          backend := Function.update before.backend key (some value) } :=
        exclusive
      exact written.l1Put stored (apart key value rfl)
  | remove key => exact (exclusive.erase_l2 key).erase_l1 key

theorem Exclusive.drained (exclusive : before.Exclusive)
    {delivered : Option DemotionItem}
    (drained : before.Drained delivered after)
    (apart : ∀ item ∈ delivered, before.l1 item.key = none) :
    after.Exclusive := by
  cases drained with
  | nothing => exact exclusive
  | @item item rest l2 first own others =>
      intro other
      by_cases same : other = item.key
      · exact .inl (same ▸ apart item rfl)
      · rcases others other same with kept | gone
        · exact (exclusive other).imp_right fun absent => kept.trans absent
        · exact .inr gone

end Tiers

namespace CacheEngine

/-- No key is in a stripe of L1 and in a stripe of L2. -/
def Exclusive (engine : CacheEngine) : Prop :=
  ∀ key i j, key ∈ (engine.l1.stripe i).indexMap →
    key ∉ (engine.l2Stripes j).map

/-- When a key is put, L2 does not hold it; and when the drainer inserts a key
into L2, L1 does not hold it. -/
def StaysApart (xx : XxHash) (engine : CacheEngine) : EngineStep → Prop
  | .call (.put key _) => engine.l2Peek xx key = none
  | .call _ => True
  | .drain => ∀ item ∈ engine.drainer.pending.head?,
      engine.l1.peek xx item.key = none

instance (xx : XxHash) (engine : CacheEngine) (step : EngineStep) :
    Decidable (engine.StaysApart xx step) :=
  match step with
  | .call (.put key _) =>
      inferInstanceAs (Decidable (engine.l2Peek xx key = none))
  | .call (.get _) => .isTrue trivial
  | .call (.remove _) => .isTrue trivial
  | .drain => inferInstanceAs (Decidable (
      ∀ item ∈ engine.drainer.pending.head?,
        engine.l1.peek xx item.key = none))

section Runs

variable {xx : XxHash} {config : CacheEngineConfig} {engine : CacheEngine}

theorem Valid.l2Peek_ne_none (valid : engine.Valid xx config)
    {j : Fin kNumL2Stripes} {key : Key}
    (member : key ∈ (engine.l2Stripes j).map) :
    engine.l2Peek xx key ≠ none := by
  rcases valid.l2 with ⟨recency, l2⟩
  have listed : key ∈ recency j := (l2.shows' j).mem.mpr
    (Option.isSome_iff_exists.mp (AList.lookup_isSome.mpr member))
  rw [CacheEngine.l2Peek, l2.routed j key listed, ← (l2.shows' j).lookup]
  exact fun none => AList.lookup_eq_none.mp none listed

theorem Valid.exclusive (valid : engine.Valid xx config)
    (exclusive : (engine.tiers xx).Exclusive) : engine.Exclusive := by
  rcases valid.l1 with ⟨policies, l1⟩
  intro key i j inL1 inL2
  exact (exclusive key).elim (l1.resident inL1) (valid.l2Peek_ne_none inL2)

theorem keeps_exclusive (config : CacheEngineConfig) :
    (step xx).Keeps (StaysApart xx)
      (fun _ engine => engine.Valid xx config ∧ (engine.tiers xx).Exclusive)
      (fun _ _ _ => True) where
  step := by
    rintro past engine step ⟨valid, exclusive⟩ apart
    cases step with
    | call call =>
        rcases valid.call call with ⟨reply, engine', stepped, valid', called⟩
        refine ⟨some reply, engine', stepped, trivial, valid',
          exclusive.called called ?_⟩
        rintro key value rfl
        exact apart
    | drain =>
        rcases valid.drain with ⟨engine', stepped, valid', drained, -⟩
        rw [DemotionDrainer.step_fst] at drained
        exact ⟨none, engine', stepped, trivial, valid',
          exclusive.drained drained apart⟩

/-- While keys that L2 holds are not put, and the drainer inserts no key that
is back in L1, every state that a run reaches is exclusive. -/
theorem exclusive_of_staysApart (xx : XxHash) {config : CacheEngineConfig}
    {backend : InMemoryBackend} {engine : CacheEngine}
    (made : CacheEngine.new config backend = some engine)
    (steps : List EngineStep)
    (apart : (step xx).Along (StaysApart xx) steps engine) :
    ∀ before after, steps = before ++ after →
      ∃ replies engine', engine.run xx before = some (replies, engine') ∧
        engine'.Exclusive := by
  rintro before after rfl
  have valid : engine.Valid xx config := .new made
  have exclusive : (engine.tiers xx).Exclusive := by
    intro key
    rw [(new_tiers xx made).1]
    exact .inl rfl
  rcases (keeps_exclusive config).run [] ⟨valid, exclusive⟩
      apart.of_append with
    ⟨replies, engine', ran, ⟨valid', exclusive'⟩, -⟩
  exact ⟨replies, engine', ran, valid'.exclusive exclusive'⟩

end Runs

/-- `k` goes from L1 to L2 and back. -/
theorem exclusive_sample :
    ∃ engine, CacheEngine.new .sample (.new ∅) = some engine ∧
      ∀ before after, [EngineStep.call (.put "k" "1"), .call (.put "w" "1"),
          .call (.put "x" "1"), .call (.put "bu" "1"), .call (.put "bu" "1"),
          .drain, .drain, .drain, .call (.get "k")] = before ++ after →
        ∃ replies engine', engine.run .sample before =
            some (replies, engine') ∧ engine'.Exclusive := by
  have along : ∀ engine ∈ CacheEngine.new .sample (.new ∅),
      (step .sample).Along (StaysApart .sample) [.call (.put "k" "1"),
        .call (.put "w" "1"), .call (.put "x" "1"), .call (.put "bu" "1"),
        .call (.put "bu" "1"), .drain, .drain, .drain, .call (.get "k")]
        engine := by
    decide +kernel
  have accepted : (CacheEngine.new .sample (.new ∅)).isSome := by
    decide +kernel
  rcases Option.isSome_iff_exists.mp accepted with ⟨engine, made⟩
  exact ⟨engine, made,
    exclusive_of_staysApart .sample made _ (along engine made)⟩

/-- `k` is put again while L2 holds it. -/
theorem put_not_exclusive :
    ∃ engine replies engine', CacheEngine.new .sample (.new ∅) = some engine ∧
      engine.run .sample [.call (.put "k" "1"), .call (.put "w" "1"),
        .call (.put "x" "1"), .call (.put "bu" "1"), .call (.put "bu" "1"),
        .drain, .drain, .drain, .call (.put "k" "2")] =
          some (replies, engine') ∧
      ¬ engine'.Exclusive := by
  have both : ((CacheEngine.new .sample (.new ∅)).bind fun engine =>
      (engine.run .sample [.call (.put "k" "1"), .call (.put "w" "1"),
        .call (.put "x" "1"), .call (.put "bu" "1"), .call (.put "bu" "1"),
        .drain, .drain, .drain, .call (.put "k" "2")]).map fun outcome =>
      (((outcome.2.l1.stripe (StripedCache.route .sample "k")).indexMap.lookup
          "k").isSome,
        ((outcome.2.l2Stripes (l2StripeIndex .sample "k")).map.lookup
          "k").isSome)) = some (true, true) := by
    decide +kernel
  rcases Option.bind_eq_some_iff.mp both with ⟨engine, made, both⟩
  rcases Option.map_eq_some_iff.mp both with ⟨⟨replies, engine'⟩, ran, both⟩
  obtain ⟨inL1, inL2⟩ := Prod.mk.inj both
  exact ⟨engine, replies, engine', made, ran, fun exclusive =>
    exclusive "k" _ _ (AList.lookup_isSome.mp inL1) (AList.lookup_isSome.mp inL2)⟩

end CacheEngine

end Walde
