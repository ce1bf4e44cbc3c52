import Walde.Tiers

namespace Walde

open Foundation

/-! # Reads through the tiers

Whether the engine answers what the backend alone would answer. A put writes
the backend and L1, and leaves what L2, the queue and the drainer hold. -/

def EngineStep.putOf (key : Key) : EngineStep → Option Value
  | .call (.put other value) => if other = key then some value else none
  | _ => none

def lastPut (key : Key) (steps : List EngineStep) : Option Value :=
  steps.foldl (fun last step => (step.putOf key).or last) none

theorem lastPut_concat (key : Key) (steps : List EngineStep)
    (step : EngineStep) :
    lastPut key (steps ++ [step]) = (step.putOf key).or (lastPut key steps) := by
  rw [lastPut, List.foldl_append]
  rfl

/-- Every get of the run answers the most recent put of its key, or else what
the backend held at the start. -/
def CacheEngine.AnswersLikeBackend (xx : XxHash) (engine : CacheEngine)
    (steps : List EngineStep) : Prop :=
  ∃ replies engine', engine.run xx steps = some (replies, engine') ∧
    ∀ before key after, steps = before ++ .call (.get key) :: after →
      replies[before.length]? =
        some (some (.value ((lastPut key before).or (engine.backend.lookup key))))

/-! ## Coherence -/

namespace Tiers

/-- Every copy of a value is the one in the backend. -/
structure Coherent (tiers : Tiers) : Prop where
  l1 : ∀ key value, tiers.l1 key = some value → tiers.backend key = some value
  l2 : ∀ key value, tiers.l2 key = some value → tiers.backend key = some value
  inFlight : ∀ item ∈ tiers.inFlight, tiers.backend item.key = some item.value

def Fresh (tiers : Tiers) (key : Key) (value : Value) : Prop :=
  (∀ found ∈ tiers.l2 key, found = value) ∧
    ∀ item ∈ tiers.inFlight, item.key = key → item.value = value

variable {before after : Tiers}

theorem L1Put.coherent {key : Key} {value : Value}
    (put : before.L1Put key value after)
    (stored : before.backend key = some value)
    (l1 : ∀ other, other ≠ key → ∀ found, before.l1 other = some found →
      before.backend other = some found)
    (l2 : ∀ other found, before.l2 other = some found →
      before.backend other = some found)
    (inFlight : ∀ item ∈ before.inFlight,
      before.backend item.key = some item.value) :
    after.Coherent := by
  rcases put.inFlight with ⟨accepted, appended, evicted⟩
  refine ⟨?_, ?_, ?_⟩ <;> rw [put.backend]
  · intro other found here
    by_cases same : other = key
    · subst same
      rcases put.own with own | own <;> rw [own] at here
      · rw [← here]
        exact stored
      · cases here
    · rcases put.others same with kept | gone
      · exact l1 other same found (kept ▸ here)
      · rw [gone] at here
        cases here
  · rw [put.l2]
    exact l2
  · rw [appended]
    intro item member
    rcases List.mem_append.mp member with old | new
    · exact inFlight item old
    · rcases evicted item new with ⟨different, here⟩
      exact l1 item.key different item.value here

theorem Coherent.refill (coherent : before.Coherent) {key : Key} {value : Value}
    (put : before.L1Put key value after)
    (stored : before.backend key = some value) : after.Coherent :=
  put.coherent stored (fun other _ => coherent.l1 other) coherent.l2
    coherent.inFlight

/-- A put leaves the tiers coherent exactly if no older value is left behind. -/
theorem Coherent.put_iff (coherent : before.Coherent) {key : Key} {value : Value}
    (put : L1Put { before with
      backend := Function.update before.backend key (some value) } key value
        after) :
    after.Coherent ↔ before.Fresh key value := by
  constructor
  · intro coherent'
    rcases put.inFlight with ⟨accepted, appended, -⟩
    have backend : ∀ found, after.backend key = some found → found = value := by
      intro found equal
      rw [put.backend] at equal
      simpa [eq_comm] using equal
    constructor
    · intro found here
      exact backend found (coherent'.l2 key found (by rwa [put.l2]))
    · rintro item member rfl
      exact backend item.value (coherent'.inFlight item (by
        rw [appended]
        exact List.mem_append_left accepted member))
  · intro fresh
    have elsewhere : ∀ other found, before.backend other = some found →
        (other = key → found = value) →
        Function.update before.backend key (some value) other = some found := by
      intro other found here agrees
      by_cases same : other = key
      · rw [agrees same, same, Function.update_self]
      · rwa [Function.update_of_ne same]
    refine put.coherent (Function.update_self _ _ _) ?_ ?_ ?_
    · intro other different found here
      exact elsewhere other found (coherent.l1 other found here)
        fun same => absurd same different
    · intro other found here
      refine elsewhere other found (coherent.l2 other found here) ?_
      rintro rfl
      exact fresh.1 found here
    · intro item member
      exact elsewhere item.key item.value (coherent.inFlight item member)
        (fresh.2 item member)

theorem Coherent.called (coherent : before.Coherent) {call : CacheCall}
    {reply : CacheReply} (called : before.Called call reply after)
    (fresh : ∀ key value, call = .put key value → before.Fresh key value)
    (noRemove : ∀ key, call ≠ .remove key) :
    (∀ key, call = .get key → reply = .value (before.backend key)) ∧
      after.Coherent ∧ ∀ key, after.backend key =
        ((EngineStep.call call).putOf key).or (before.backend key) := by
  cases called with
  | @l1Hit key value hit =>
      refine ⟨?_, coherent, fun _ => rfl⟩
      rintro _ ⟨⟩
      rw [coherent.l1 key value hit]
  | @l2Hit key value after missed hit refilled =>
      have stored := coherent.l2 key value hit
      have moved : Coherent { before with
          l2 := Function.update before.l2 key none } := by
        refine ⟨coherent.l1, ?_, coherent.inFlight⟩
        intro other found here
        by_cases same : other = key
        · simp [same] at here
        · have kept : before.l2 other = some found := by
            simpa [Function.update_of_ne same] using here
          exact coherent.l2 other found kept
      refine ⟨?_, moved.refill refilled stored,
        fun _ => congrFun refilled.backend _⟩
      rintro _ ⟨⟩
      rw [stored]
  | @backendHit key value after missed missedL2 hit refilled =>
      refine ⟨?_, coherent.refill refilled hit,
        fun _ => congrFun refilled.backend _⟩
      rintro _ ⟨⟩
      rw [hit]
  | @miss key missed missedL2 missedAll =>
      refine ⟨?_, coherent, fun _ => rfl⟩
      rintro _ ⟨⟩
      rw [missedAll]
  | @put key value inserted after stored =>
      have coherent' := (coherent.put_iff stored).mpr (fresh key value rfl)
      refine ⟨by simp, coherent', fun other => ?_⟩
      rw [stored.backend]
      by_cases same : key = other
      · subst same
        simp [EngineStep.putOf]
      · rw [EngineStep.putOf, if_neg same]
        exact Function.update_of_ne (Ne.symm same) _ _
  | remove key => exact absurd rfl (noRemove key)

theorem Coherent.drained (coherent : before.Coherent)
    {delivered : Option DemotionItem}
    (drained : before.Drained delivered after) :
    after.Coherent ∧ after.backend = before.backend := by
  cases drained with
  | nothing => exact ⟨coherent, rfl⟩
  | @item item rest l2 first own others =>
      have inFlight := coherent.inFlight
      rw [first] at inFlight
      refine ⟨⟨coherent.l1, ?_, fun other member =>
        inFlight other (List.mem_cons_of_mem item member)⟩, rfl⟩
      intro key value here
      change l2 key = some value at here
      by_cases same : key = item.key
      · subst same
        rw [own] at here
        cases here
        exact inFlight item List.mem_cons_self
      · rcases others key same with kept | gone
        · exact coherent.l2 key value (kept ▸ here)
        · rw [gone] at here
          cases here

end Tiers

/-! ## Runs -/

namespace CacheEngine

/-- When a key is put, L2, the queue and the drainer hold no other value for
it. -/
def FreshPut (xx : XxHash) (engine : CacheEngine) : EngineStep → Prop
  | .call (.put key value) =>
      (∀ found ∈ engine.l2Peek xx key, found = value) ∧
        ∀ item ∈ engine.inFlight, item.key = key → item.value = value
  | _ => True

instance (xx : XxHash) (engine : CacheEngine) (step : EngineStep) :
    Decidable (engine.FreshPut xx step) :=
  match step with
  | .call (.put key value) => inferInstanceAs (Decidable (
      (∀ found ∈ engine.l2Peek xx key, found = value) ∧
        ∀ item ∈ engine.inFlight, item.key = key → item.value = value))
  | .call (.get _) => .isTrue trivial
  | .call (.remove _) => .isTrue trivial
  | .drain => .isTrue trivial

section Runs

variable {xx : XxHash}

theorem keeps_coherent (config : CacheEngineConfig) (initial : Key → Option Value) :
    (step xx).Keeps
      (fun engine step => engine.FreshPut xx step ∧
        ∀ key, step ≠ .call (.remove key))
      (fun past engine => engine.Valid xx config ∧
        (engine.tiers xx).Coherent ∧
        ∀ key, (engine.tiers xx).backend key =
          (lastPut key past).or (initial key))
      (fun past step reply => ∀ key, step = .call (.get key) →
        reply = some (.value ((lastPut key past).or (initial key)))) where
  step := by
    rintro past engine step ⟨valid, coherent, backend⟩ ⟨fresh, noRemove⟩
    have backendAfter : ∀ {tiers : Tiers},
        (∀ key, tiers.backend key =
          (step.putOf key).or ((engine.tiers xx).backend key)) →
        ∀ key, tiers.backend key =
          (lastPut key (past ++ [step])).or (initial key) := by
      intro tiers after key
      rw [after, backend, lastPut_concat, Option.or_assoc]
    cases step with
    | call call =>
        rcases valid.call call with ⟨reply, engine', stepped, valid', called⟩
        rcases coherent.called called
            (by
              rintro key value rfl
              exact fresh)
            (by
              rintro key rfl
              exact noRemove key rfl) with
          ⟨answers, coherent', backend'⟩
        refine ⟨some reply, engine', stepped, ?_, valid', coherent',
          backendAfter backend'⟩
        rintro key ⟨⟩
        rw [answers key rfl, backend]
    | drain =>
        rcases valid.drain with ⟨engine', stepped, valid', drained, -⟩
        rcases coherent.drained drained with ⟨coherent', backend'⟩
        refine ⟨none, engine', stepped, by simp, valid', coherent',
          backendAfter fun key => ?_⟩
        rw [backend']
        rfl

/-- While no put leaves an older value of its key behind, the tiers answer what
the backend alone would answer, wherever the drainer takes its steps. -/
theorem answersLikeBackend_of_freshPuts (xx : XxHash)
    {config : CacheEngineConfig} {backend : InMemoryBackend}
    {engine : CacheEngine}
    (made : CacheEngine.new config backend = some engine)
    (steps : List EngineStep)
    (getsAndPuts : ∀ key, EngineStep.call (.remove key) ∉ steps)
    (fresh : (step xx).Along (FreshPut xx) steps engine) :
    engine.AnswersLikeBackend xx steps := by
  have valid : engine.Valid xx config := .new made
  rcases new_tiers xx made with ⟨l1, l2, inFlight, -⟩
  have coherent : (engine.tiers xx).Coherent :=
    ⟨by simp [l1], by simp [l2], by simp [inFlight]⟩
  have along := fresh.mono fun state step member fresh =>
    (⟨fresh, fun key equal => getsAndPuts key (equal ▸ member)⟩ :
      FreshPut xx state step ∧ ∀ key, step ≠ .call (.remove key))
  rcases (keeps_coherent config engine.backend.lookup).run []
      ⟨valid, coherent, fun _ => rfl⟩ along with
    ⟨replies, engine', ran, -, answers⟩
  refine ⟨replies, engine', ran, fun before key after split => ?_⟩
  rcases answers before _ after split with ⟨reply, found, answer⟩
  rw [found, answer key rfl]
  rfl

/-- `k` is evicted from L1 and drained to L2, and found there. -/
theorem answersLikeBackend_sample :
    ∃ engine, CacheEngine.new .sample (.new ∅) = some engine ∧
      engine.AnswersLikeBackend .sample [.call (.put "k" "1"),
        .call (.put "w" "1"), .call (.put "x" "1"), .call (.put "bu" "1"),
        .call (.put "bu" "1"), .drain, .drain, .drain, .call (.get "k")] := by
  have along : ∀ engine ∈ CacheEngine.new .sample (.new ∅),
      (step .sample).Along (FreshPut .sample) [.call (.put "k" "1"),
        .call (.put "w" "1"), .call (.put "x" "1"), .call (.put "bu" "1"),
        .call (.put "bu" "1"), .drain, .drain, .drain, .call (.get "k")]
        engine := by
    decide +kernel
  have accepted : (CacheEngine.new .sample (.new ∅)).isSome := by
    decide +kernel
  rcases Option.isSome_iff_exists.mp accepted with ⟨engine, made⟩
  exact ⟨engine, made, answersLikeBackend_of_freshPuts .sample made _ (by simp)
    (along engine made)⟩

/-- `k` is evicted and drained as before, and two gets make its neighbours
hot. L1 does not let in the new value of `k`, and L2 still has the old one. -/
def rejectedPut : List EngineStep :=
  [.call (.put "k" "1"), .call (.put "w" "1"), .call (.put "x" "1"),
    .call (.put "bu" "1"), .call (.put "bu" "1"), .drain, .drain, .drain,
    .call (.get "w"), .call (.get "x"), .call (.put "k" "2"),
    .call (.get "k")]

theorem rejectedPut_stale :
    (∀ key, EngineStep.call (.remove key) ∉ rejectedPut) ∧
    ∃ engine, CacheEngine.new .sample (.new ∅) = some engine ∧
      ¬ engine.AnswersLikeBackend .sample rejectedPut := by
  have accepted : (CacheEngine.new .sample (.new ∅)).isSome := by
    decide +kernel
  rcases Option.isSome_iff_exists.mp accepted with ⟨engine, made⟩
  refine ⟨by simp [rejectedPut], engine, made, ?_⟩
  rintro ⟨replies, engine', ran, answers⟩
  have stale : ((CacheEngine.new .sample (.new ∅)).bind fun engine =>
      (engine.run .sample rejectedPut).map fun outcome => outcome.1[11]?) =
        some (some (some (.value (some "1")))) := by
    decide +kernel
  rw [made, Option.bind_some, ran, Option.map_some, Option.some.injEq] at stale
  have answer := answers (rejectedPut.take 11) "k" [] rfl
  have latest : lastPut "k" (rejectedPut.take 11) = some "2" := by decide
  rw [latest] at answer
  rw [List.length_take, show min 11 rejectedPut.length = 11 from rfl,
    stale] at answer
  simp at answer

end Runs

end CacheEngine

end Walde
