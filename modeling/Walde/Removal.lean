import Walde.Tiers

namespace Walde

open Foundation

/-! # What is left of a removed key

A removal clears L1, L2 and the backend. What it does not reach are the items
in flight. -/

namespace Tiers

structure Absent (tiers : Tiers) (key : Key) : Prop where
  l1 : tiers.l1 key = none
  l2 : tiers.l2 key = none
  backend : tiers.backend key = none
  inFlight : ∀ item ∈ tiers.inFlight, item.key ≠ key

variable {before after : Tiers} {key : Key}

theorem Absent.l1Put (absent : before.Absent key) {other : Key} {value : Value}
    (put : before.L1Put other value after) (different : key ≠ other) :
    after.Absent key := by
  rcases put.inFlight with ⟨accepted, appended, evicted⟩
  constructor
  · rcases put.others different with kept | gone
    · rw [kept, absent.l1]
    · exact gone
  · rw [put.l2, absent.l2]
  · rw [put.backend, absent.backend]
  · rw [appended]
    rintro item member rfl
    rcases List.mem_append.mp member with old | new
    · exact absent.inFlight item old rfl
    · rcases evicted item new with ⟨-, here⟩
      rw [absent.l1] at here
      cases here

theorem Absent.called (absent : before.Absent key) {call : CacheCall}
    {reply : CacheReply} (called : before.Called call reply after)
    (noPut : ∀ value, call ≠ .put key value) :
    (call = .get key → reply = .value none) ∧ after.Absent key := by
  cases called with
  | @l1Hit found value hit =>
      refine ⟨?_, absent⟩
      rintro ⟨⟩
      rw [absent.l1] at hit
      cases hit
  | @l2Hit found value after missed hit refilled =>
      have different : key ≠ found := by
        rintro rfl
        rw [absent.l2] at hit
        cases hit
      have moved : Absent { before with
          l2 := Function.update before.l2 found none } key := by
        refine ⟨absent.l1, ?_, absent.backend, absent.inFlight⟩
        exact (Function.update_of_ne different _ _).trans absent.l2
      refine ⟨?_, moved.l1Put refilled different⟩
      rintro ⟨⟩
      exact absurd rfl different
  | @backendHit found value after missed missedL2 hit refilled =>
      have different : key ≠ found := by
        rintro rfl
        rw [absent.backend] at hit
        cases hit
      refine ⟨?_, absent.l1Put refilled different⟩
      rintro ⟨⟩
      exact absurd rfl different
  | miss missed missedL2 missedAll => exact ⟨fun _ => rfl, absent⟩
  | @put found value inserted after stored =>
      have different : key ≠ found := by
        rintro rfl
        exact noPut value rfl
      have written : Absent { before with
          backend := Function.update before.backend found (some value) } key :=
        ⟨absent.l1, absent.l2,
          (Function.update_of_ne different _ _).trans absent.backend,
          absent.inFlight⟩
      exact ⟨by simp, written.l1Put stored different⟩
  | remove found =>
      have cleared : ∀ {held : Key → Option Value}, held key = none →
          Function.update held found none key = none := by
        intro held none
        by_cases same : key = found
        · rw [same, Function.update_self]
        · rw [Function.update_of_ne same, none]
      exact ⟨by simp, cleared absent.l1, cleared absent.l2,
        cleared absent.backend, absent.inFlight⟩

theorem Absent.drained (absent : before.Absent key)
    {delivered : Option DemotionItem}
    (drained : before.Drained delivered after) : after.Absent key := by
  cases drained with
  | nothing => exact absent
  | @item item rest l2 first own others =>
      have inFlight := absent.inFlight
      rw [first] at inFlight
      refine ⟨absent.l1, ?_, absent.backend, fun other member =>
        inFlight other (List.mem_cons_of_mem item member)⟩
      rcases others key (inFlight item List.mem_cons_self).symm with kept | gone
      · exact kept.trans absent.l2
      · exact gone

theorem removed_absent (tiers : Tiers) (key : Key)
    (landed : ∀ item ∈ tiers.inFlight, item.key ≠ key) :
    Absent { tiers with
      l1 := Function.update tiers.l1 key none
      l2 := Function.update tiers.l2 key none
      backend := Function.update tiers.backend key none } key :=
  ⟨Function.update_self _ _ _, Function.update_self _ _ _,
    Function.update_self _ _ _, landed⟩

end Tiers

namespace CacheEngine

/-- As long as the key is not put, no get of it finds a value. -/
def NeverFound (xx : XxHash) (engine : CacheEngine) (key : Key) : Prop :=
  ∀ later, (∀ value, EngineStep.call (.put key value) ∉ later) →
    ∃ replies engine', engine.run xx later = some (replies, engine') ∧
      ∀ before after, later = before ++ .call (.get key) :: after →
        replies[before.length]? = some (some (.value none))

section NeverFound

variable {xx : XxHash} {config : CacheEngineConfig} {engine : CacheEngine}

theorem keeps_absent (config : CacheEngineConfig) (key : Key) :
    (step xx).Keeps
      (fun _ step => ∀ value, step ≠ .call (.put key value))
      (fun _ engine => engine.Valid xx config ∧ (engine.tiers xx).Absent key)
      (fun _ step reply => step = .call (.get key) →
        reply = some (.value none)) where
  step := by
    rintro past engine step ⟨valid, absent⟩ noPut
    cases step with
    | call call =>
        rcases valid.call call with ⟨reply, engine', stepped, valid', called⟩
        rcases absent.called called (by
          rintro value rfl
          exact noPut value rfl) with ⟨answer, absent'⟩
        refine ⟨some reply, engine', stepped, ?_, valid', absent'⟩
        rintro ⟨⟩
        rw [answer rfl]
    | drain =>
        rcases valid.drain with ⟨engine', stepped, valid', drained, -⟩
        exact ⟨none, engine', stepped, by simp, valid', absent.drained drained⟩

theorem Valid.neverFound (valid : engine.Valid xx config) {key : Key}
    (absent : (engine.tiers xx).Absent key) : engine.NeverFound xx key := by
  intro later noPut
  have along : (CacheEngine.step xx).Along
      (fun _ step => ∀ value, step ≠ .call (.put key value)) later engine := by
    apply Machine.Along.of_forall
    rintro _ _ member value rfl
    exact noPut value member
  rcases (keeps_absent config key).run [] ⟨valid, absent⟩ along with
    ⟨replies, engine', ran, -, answers⟩
  refine ⟨replies, engine', ran, fun before after split => ?_⟩
  rcases answers before _ after split with ⟨reply, found, answer⟩
  rw [found, answer rfl]

/-- Steps of the drainer alone bring a key in flight to L2. -/
theorem Valid.drain_reaches (valid : engine.Valid xx config) {key : Key}
    (inFlight : ∃ item ∈ engine.inFlight, item.key = key) :
    ∃ count replies engine',
      engine.run xx (List.replicate count .drain) = some (replies, engine') ∧
      engine'.Valid xx config ∧
      (engine'.tiers xx).l1 = (engine.tiers xx).l1 ∧
      ∃ value, (engine'.tiers xx).l2 key = some value := by
  generalize items : engine.inFlight = pending at inFlight
  induction pending generalizing engine with
  | nil => simp at inFlight
  | cons first rest induction =>
      rcases valid.deliver items with
        ⟨count, replies, middle, ran, valid', drained⟩
      obtain ⟨own, l1, items'⟩ : (middle.tiers xx).l2 first.key =
          some first.value ∧ (middle.tiers xx).l1 = (engine.tiers xx).l1 ∧
          (middle.tiers xx).inFlight = rest := by
        have before : (engine.tiers xx).inFlight = first :: rest := items
        generalize middle.tiers xx = after at drained ⊢
        cases drained with
        | item head own others =>
            rw [before] at head
            exact ⟨own, rfl, (List.cons.inj head).2.symm⟩
      by_cases here : first.key = key
      · exact ⟨count, replies, middle, ran, valid', l1, first.value, here ▸ own⟩
      · have later : ∃ item ∈ rest, item.key = key := by
          rcases inFlight with ⟨item, member, same⟩
          rcases List.mem_cons.mp member with rfl | member
          · exact absurd same here
          · exact ⟨item, member, same⟩
        rcases induction valid' items' later with
          ⟨count', replies', engine', ran', valid'', l1', found⟩
        refine ⟨count + count', replies ++ replies', engine', ?_, valid'',
          l1'.trans l1, found⟩
        rw [List.replicate_add]
        exact Machine.run_append ran ran'

theorem Valid.found_of_inFlight (valid : engine.Valid xx config) {key : Key}
    (missed : (engine.tiers xx).l1 key = none)
    (inFlight : ∃ item ∈ engine.inFlight, item.key = key) :
    ¬ engine.NeverFound xx key := by
  intro never
  rcases valid.drain_reaches inFlight with
    ⟨count, replies, middle, ran, valid', l1, value, arrived⟩
  rcases valid'.call (.get key) with ⟨reply, engine', stepped, -, called⟩
  have found : reply = .value (some value) := by
    generalize middle.tiers xx = tiers at called l1 arrived
    generalize engine'.tiers xx = after at called
    have missed' : tiers.l1 key = none := by rw [l1, missed]
    cases called with
    | l1Hit hit => simp [missed'] at hit
    | l2Hit _ hit _ =>
        rw [arrived] at hit
        cases hit
        rfl
    | backendHit _ missedL2 _ _ => simp [arrived] at missedL2
    | miss _ missedL2 _ => simp [arrived] at missedL2
  have whole : engine.run xx (List.replicate count .drain ++
      [.call (.get key)]) = some (replies ++ [some reply], engine') :=
    Machine.run_append ran (Machine.run_cons stepped rfl)
  rcases never (List.replicate count .drain ++ [.call (.get key)]) (by
      simp) with ⟨replies', final, ran', answers⟩
  rw [whole] at ran'
  cases ran'
  have answer := answers (List.replicate count .drain) [] rfl
  rw [← Machine.run_length ran] at answer
  simp [found] at answer

/-- In every state that the engine reaches, a removal is final if and only if
the queue and the drainer hold no item of the key. -/
theorem remove_final_iff (xx : XxHash) {config : CacheEngineConfig}
    {backend : InMemoryBackend} {fresh engine : CacheEngine}
    (made : CacheEngine.new config backend = some fresh)
    (history : List EngineStep) {replies : List (Option CacheReply)}
    (reached : fresh.run xx history = some (replies, engine)) (key : Key) :
    ∃ reply removed,
      engine.step xx (.call (.remove key)) = some (some reply, removed) ∧
      (removed.NeverFound xx key ↔ ∀ item ∈ engine.inFlight, item.key ≠ key) := by
  have freshValid : fresh.Valid xx config := .new made
  rcases freshValid.run history with ⟨_, _, ran, valid⟩
  rw [reached] at ran
  cases ran
  rcases valid.call (.remove key) with
    ⟨reply, removed, stepped, valid', called⟩
  refine ⟨reply, removed, stepped, ?_⟩
  have cleared : removed.tiers xx = { engine.tiers xx with
      l1 := Function.update (engine.tiers xx).l1 key none
      l2 := Function.update (engine.tiers xx).l2 key none
      backend := Function.update (engine.tiers xx).backend key none } := by
    generalize removed.tiers xx = after at called
    cases called
    rfl
  have sameItems : removed.inFlight = engine.inFlight :=
    congrArg Tiers.inFlight cleared
  constructor
  · intro never item member same
    refine valid'.found_of_inFlight ?_ ?_ never
    · rw [cleared]
      exact Function.update_self _ _ _
    · exact ⟨item, sameItems ▸ member, same⟩
  · intro landed
    refine valid'.neverFound ?_
    rw [cleared]
    exact Tiers.removed_absent _ key landed

end NeverFound

/-- `k` is removed while the other keys of its stripe have not evicted it. -/
theorem remove_final_sample :
    ∃ fresh replies engine, CacheEngine.new .sample (.new ∅) = some fresh ∧
      fresh.run .sample [.call (.put "k" "1"), .call (.put "w" "1"), .drain] =
        some (replies, engine) ∧
      ∃ reply removed,
        engine.step .sample (.call (.remove "k")) = some (some reply, removed) ∧
        (removed.NeverFound .sample "k" ↔
          ∀ item ∈ engine.inFlight, item.key ≠ "k") := by
  have accepted : (CacheEngine.new .sample (.new ∅)).isSome := by
    decide +kernel
  rcases Option.isSome_iff_exists.mp accepted with ⟨fresh, made⟩
  have ran : ((CacheEngine.new .sample (.new ∅)).bind fun fresh =>
      fresh.run .sample [.call (.put "k" "1"), .call (.put "w" "1"),
        .drain]).isSome := by
    decide +kernel
  rw [made, Option.bind_some] at ran
  rcases Option.isSome_iff_exists.mp ran with ⟨⟨replies, engine⟩, reached⟩
  exact ⟨fresh, replies, engine, made, reached,
    remove_final_iff .sample made _ reached "k"⟩

/-- `k` is in the demotion queue when it is removed, and the drainer brings it
to L2 afterwards. -/
theorem remove_undone :
    ∃ fresh replies engine reply removed,
      CacheEngine.new .sample (.new ∅) = some fresh ∧
      fresh.run .sample [.call (.put "k" "1"), .call (.put "w" "1"),
        .call (.put "x" "1"), .call (.put "bu" "1"), .call (.put "bu" "1")] =
          some (replies, engine) ∧
      engine.step .sample (.call (.remove "k")) = some (some reply, removed) ∧
      ¬ removed.NeverFound .sample "k" := by
  have later : ((CacheEngine.new .sample (.new ∅)).bind fun fresh =>
      (fresh.run .sample [.call (.put "k" "1"), .call (.put "w" "1"),
        .call (.put "x" "1"), .call (.put "bu" "1"),
        .call (.put "bu" "1")]).bind fun reached =>
      (reached.2.step .sample (.call (.remove "k"))).bind fun removed =>
      (removed.2.run .sample [.drain, .drain, .drain,
        .call (.get "k")]).map fun outcome =>
      (removed.1.isSome, outcome.1[3]?)) =
        some (true, some (some (.value (some "1")))) := by
    decide +kernel
  rcases Option.bind_eq_some_iff.mp later with ⟨fresh, made, later⟩
  rcases Option.bind_eq_some_iff.mp later with
    ⟨⟨replies, engine⟩, reached, later⟩
  rcases Option.bind_eq_some_iff.mp later with
    ⟨⟨reply, removed⟩, stepped, later⟩
  rcases Option.map_eq_some_iff.mp later with ⟨⟨answers, final⟩, ran, answer⟩
  obtain ⟨replied, found⟩ := Prod.mk.inj answer
  rcases Option.isSome_iff_exists.mp replied with ⟨reply, rfl⟩
  refine ⟨fresh, replies, engine, reply, removed, made, reached, stepped, ?_⟩
  intro never
  rcases never [.drain, .drain, .drain, .call (.get "k")] (by simp) with
    ⟨answers', final', ran', none⟩
  rw [ran] at ran'
  cases ran'
  have missing := none [.drain, .drain, .drain] [] rfl
  exact absurd (found.symm.trans missing) (by decide)

end CacheEngine

end Walde
