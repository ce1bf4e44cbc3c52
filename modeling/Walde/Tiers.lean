import Walde.CacheEngine

namespace Walde

open Foundation

/-! # The tiers

What the engine holds for the keys, in each of the four places where a value
can be, and what one step of the engine may do to it. -/

structure Tiers where
  l1 : Key → Option Value
  l2 : Key → Option Value
  inFlight : List DemotionItem
  backend : Key → Option Value
  evictions : Nat

namespace Tiers

/-- A put into L1 gives up some residents; of the items that it offers to the
queue, some may drop. -/
inductive L1Put (before : Tiers) (key : Key) (value : Value) : Tiers → Prop
  | mk {l1 : Key → Option Value} {offered accepted : List DemotionItem}
      (effect : StripedCache.PutEffect before.l1 key value offered l1)
      (sublist : accepted.Sublist offered) :
      L1Put before key value { before with
        l1
        inFlight := before.inFlight ++ accepted
        evictions := before.evictions + offered.length }

section L1Put

variable {before after : Tiers} {key : Key} {value : Value}

theorem L1Put.l2 (put : before.L1Put key value after) :
    after.l2 = before.l2 := by
  cases put
  rfl

theorem L1Put.backend (put : before.L1Put key value after) :
    after.backend = before.backend := by
  cases put
  rfl

theorem L1Put.own (put : before.L1Put key value after) :
    after.l1 key = some value ∨ after.l1 key = none := by
  rcases put with ⟨effect, -⟩
  exact effect.own

theorem L1Put.others (put : before.L1Put key value after) {other : Key}
    (different : other ≠ key) :
    after.l1 other = before.l1 other ∨ after.l1 other = none := by
  rcases put with ⟨effect, -⟩
  exact effect.others other different

theorem L1Put.inFlight (put : before.L1Put key value after) :
    ∃ accepted, after.inFlight = before.inFlight ++ accepted ∧
      ∀ item ∈ accepted, item.key ≠ key ∧
        before.l1 item.key = some item.value := by
  rcases put with ⟨effect, sublist⟩
  refine ⟨_, rfl, fun item member => ?_⟩
  rcases effect.offered item (sublist.subset member) with ⟨different, here, -⟩
  exact ⟨different, here⟩

theorem L1Put.quiet (put : before.L1Put key value after)
    (noEviction : after.evictions = before.evictions) :
    after.inFlight = before.inFlight := by
  rcases put with @⟨l1, offered, accepted, effect, sublist⟩
  have none : offered = [] := by
    apply List.eq_nil_of_length_eq_zero
    exact Nat.add_left_cancel noEviction
  subst none
  rw [List.sublist_nil.mp sublist]
  exact List.append_nil before.inFlight

end L1Put

/-- What an instruction may do, as a predicate transformer. -/
def spec : InstrSpec EngineAnswer Tiers
  | .l1Get key, post, tiers => post (tiers.l1 key) tiers
  | .l1Put key value, post, tiers =>
      ∀ inserted after, tiers.L1Put key value after → post inserted after
  | .l1Remove key, post, tiers => post (tiers.l1 key).isSome
      { tiers with l1 := Function.update tiers.l1 key none }
  | .l2Get key, post, tiers => post (tiers.l2 key)
      { tiers with l2 := Function.update tiers.l2 key none }
  | .l2Remove key, post, tiers => post ()
      { tiers with l2 := Function.update tiers.l2 key none }
  | .backendGet key, post, tiers => post (tiers.backend key) tiers
  | .backendPut key value, post, tiers => post true
      { tiers with backend := Function.update tiers.backend key (some value) }
  | .backendRemove key, post, tiers => post (tiers.backend key).isSome
      { tiers with backend := Function.update tiers.backend key none }

section Rules

variable (key : Key) (tiers : Tiers)

theorem wp_l1Get (post : Option Value → Tiers → Prop) :
    (EngineProgram.l1Get key).wp spec post tiers ↔
      post (tiers.l1 key) tiers := Iff.rfl

theorem wp_l2Get (post : Option Value → Tiers → Prop) :
    (EngineProgram.l2Get key).wp spec post tiers ↔
      post (tiers.l2 key)
        { tiers with l2 := Function.update tiers.l2 key none } := Iff.rfl

theorem wp_backendGet (post : Option Value → Tiers → Prop) :
    (EngineProgram.backendGet key).wp spec post tiers ↔
      post (tiers.backend key) tiers := Iff.rfl

end Rules

/-- What a call of a single client may do, and what it answers. -/
inductive Called (before : Tiers) : CacheCall → CacheReply → Tiers → Prop
  | l1Hit {key : Key} {value : Value} (hit : before.l1 key = some value) :
      Called before (.get key) (.value (some value)) before
  | l2Hit {key : Key} {value : Value} {after : Tiers}
      (missed : before.l1 key = none) (hit : before.l2 key = some value)
      (refilled : L1Put { before with
        l2 := Function.update before.l2 key none } key value after) :
      Called before (.get key) (.value (some value)) after
  | backendHit {key : Key} {value : Value} {after : Tiers}
      (missed : before.l1 key = none) (missedL2 : before.l2 key = none)
      (hit : before.backend key = some value)
      (refilled : before.L1Put key value after) :
      Called before (.get key) (.value (some value)) after
  | miss {key : Key} (missed : before.l1 key = none)
      (missedL2 : before.l2 key = none) (missedAll : before.backend key = none) :
      Called before (.get key) (.value none) before
  | put {key : Key} {value : Value} {inserted : Bool} {after : Tiers}
      (stored : L1Put { before with
        backend := Function.update before.backend key (some value) } key value
          after) :
      Called before (.put key value) (.changed inserted) after
  | remove (key : Key) :
      Called before (.remove key)
        (.changed ((before.l1 key).isSome || (before.backend key).isSome))
        { before with
          l1 := Function.update before.l1 key none
          l2 := Function.update before.l2 key none
          backend := Function.update before.backend key none }

theorem request_called (tiers : Tiers) (call : CacheCall) :
    (CacheEngine.request call).wp spec (tiers.Called call) tiers := by
  cases call with
  | get key =>
      simp only [CacheEngine.request, CacheEngine.get, Program.wp_bind,
        wp_l1Get]
      cases inL1 : tiers.l1 key with
      | some value => exact .l1Hit inL1
      | none =>
          simp only [Program.wp_bind, wp_l2Get]
          cases inL2 : tiers.l2 key with
          | some value => exact fun _ after refilled => .l2Hit inL1 inL2 refilled
          | none =>
              have same : Function.update tiers.l2 key none = tiers.l2 :=
                Function.update_eq_self_iff.mpr inL2.symm
              simp only [Program.wp_bind, wp_backendGet, same]
              cases inBackend : tiers.backend key with
              | some value =>
                  exact fun _ after refilled =>
                    .backendHit inL1 inL2 inBackend refilled
              | none => exact .miss inL1 inL2 inBackend
  | put key value => exact fun _ after stored => .put stored
  | remove key => exact .remove key

/-- A step of the drainer moves the first item in flight to L2, where it may
push out another key, or moves nothing. -/
inductive Drained : Tiers → Option DemotionItem → Tiers → Prop
  | nothing (tiers : Tiers) : Drained tiers none tiers
  | item {before : Tiers} {item : DemotionItem} {rest : List DemotionItem}
      {l2 : Key → Option Value} (first : before.inFlight = item :: rest)
      (own : l2 item.key = some item.value)
      (others : ∀ other, other ≠ item.key → l2 other = before.l2 other ∨
        l2 other = none) :
      Drained before (some item) { before with inFlight := rest, l2 }

theorem Drained.evictions {before after : Tiers}
    {delivered : Option DemotionItem} (drained : before.Drained delivered after) :
    after.evictions = before.evictions := by
  cases drained <;> rfl

theorem Drained.eq_of_inFlight {before after : Tiers}
    {delivered : Option DemotionItem} (drained : before.Drained delivered after)
    (inFlight : before.inFlight = []) : after = before := by
  cases drained with
  | nothing => rfl
  | item first =>
      rw [inFlight] at first
      cases first

end Tiers

namespace CacheEngine

def tiers (xx : XxHash) (engine : CacheEngine) : Tiers where
  l1 := engine.l1.peek xx
  l2 := engine.l2Peek xx
  inFlight := engine.inFlight
  backend := engine.backend.lookup
  evictions := engine.l1.totalEvictions

/-- The stripes of L2 show `recency`, within their capacity, and every key is
in the stripe of its hash. -/
structure L2Valid (xx : XxHash) (capacity : Nat)
    (stripes : Fin kNumL2Stripes → L2Stripe)
    (recency : Fin kNumL2Stripes → AList fun _ : Key => Value) : Prop where
  shows' : ∀ i, (stripes i).Shows (recency i)
  routed : ∀ i, ∀ key ∈ recency i, l2StripeIndex xx key = i
  within : ∀ i, Recency.size (recency i) ≤ capacity

/-- A state the engine can be in while it is not being destroyed. -/
structure Valid (xx : XxHash) (config : CacheEngineConfig)
    (engine : CacheEngine) : Prop where
  l1 : ∃ policies, StripedCache.Valid xx config.l1Config true policies engine.l1
  queue : engine.demotionQueue.Sound
  live : engine.drainer.Live
  capacity : engine.l2CapacityPerStripe =
    max 1 (config.l2Capacity / kNumL2Stripes)
  l2 : ∃ recency, L2Valid xx engine.l2CapacityPerStripe engine.l2Stripes recency

section Valid

variable {xx : XxHash} {config : CacheEngineConfig} {engine : CacheEngine}

theorem Valid.new {backend : InMemoryBackend}
    (made : CacheEngine.new config backend = some engine) :
    engine.Valid xx config := by
  rcases Option.map_eq_some_iff.mp made with ⟨l1, l1Made, rfl⟩
  exact {
    l1 := ⟨_, .new l1Made⟩
    queue := DemotionQueue.new_sound config.demotionQueueSize_lt
    live := DemotionDrainer.new_live
    capacity := rfl
    l2 := ⟨fun _ => ∅, fun _ => L2Stripe.new_shows, by simp, by simp⟩ }

theorem new_tiers (xx : XxHash) {backend : InMemoryBackend}
    (made : CacheEngine.new config backend = some engine) :
    (engine.tiers xx).l1 = (fun _ => none) ∧
      (engine.tiers xx).l2 = (fun _ => none) ∧
      (engine.tiers xx).inFlight = [] ∧
      (engine.tiers xx).backend = backend.lookup := by
  rcases Option.map_eq_some_iff.mp made with ⟨l1, l1Made, rfl⟩
  have valid : StripedCache.Valid xx config.l1Config true _ l1 := .new l1Made
  refine ⟨?_, rfl, ?_, rfl⟩
  · funext key
    exact (valid.peek_eq key).trans rfl
  · simp [tiers, inFlight, DemotionDrainer.inFlight]

/-! ## L2 -/

section L2

variable {capacity : Nat} {stripes : Fin kNumL2Stripes → L2Stripe}
  {recency : Fin kNumL2Stripes → AList fun _ : Key => Value}

theorem L2Valid.update (valid : L2Valid xx capacity stripes recency)
    {i : Fin kNumL2Stripes} {stripe : L2Stripe}
    {list : AList fun _ : Key => Value} (shows' : stripe.Shows list)
    (routed : ∀ key ∈ list, l2StripeIndex xx key = i)
    (within : Recency.size list ≤ capacity) :
    L2Valid xx capacity (Function.update stripes i stripe)
      (Function.update recency i list) := by
  refine ⟨fun j => ?_, ?_, ?_⟩
  · by_cases same : j = i
    · subst same
      rwa [Function.update_self, Function.update_self]
    · rw [Function.update_of_ne same, Function.update_of_ne same]
      exact valid.shows' j
  · apply (Function.forall_update_iff recency fun j (list :
      AList fun _ : Key => Value) =>
        ∀ key ∈ list, l2StripeIndex xx key = j).mpr
    exact ⟨routed, fun j _ => valid.routed j⟩
  · apply (Function.forall_update_iff recency fun _ list =>
      Recency.size list ≤ capacity).mpr
    exact ⟨within, fun j _ => valid.within j⟩

theorem L2Valid.erase (valid : L2Valid xx capacity stripes recency) (key : Key)
    {stripe : L2Stripe}
    (shows' : stripe.Shows ((recency (l2StripeIndex xx key)).erase key)) :
    L2Valid xx capacity
      (Function.update stripes (l2StripeIndex xx key) stripe)
      (Function.update recency (l2StripeIndex xx key)
        ((recency (l2StripeIndex xx key)).erase key)) :=
  valid.update shows'
    (fun other member => valid.routed _ other (AList.mem_erase.mp member).2)
    (Recency.size_erase_le.trans (valid.within _))

end L2

theorem l2Peek_afterL2 {i : Fin kNumL2Stripes} {stripe : L2Stripe}
    {list : AList fun _ : Key => Value} (shows' : stripe.Shows list)
    (key : Key) :
    (engine.afterL2 i stripe).l2Peek xx key =
      if l2StripeIndex xx key = i then list.lookup key
      else engine.l2Peek xx key := by
  change (Function.update engine.l2Stripes i stripe _).peek key = _
  by_cases same : l2StripeIndex xx key = i
  · rw [if_pos same, same, Function.update_self, shows'.lookup]
  · rw [if_neg same, Function.update_of_ne same]
    rfl

/-! ## What an instruction does -/

theorem Valid.afterL1 (valid : engine.Valid xx config)
    {policies : Fin kNumStripes → Policy} {l1 : StripedCache}
    (l1Valid : StripedCache.Valid xx config.l1Config true policies l1)
    (offered : List DemotionItem) :
    (engine.afterL1 l1 offered).Valid xx config ∧
      ∃ accepted : List DemotionItem, accepted.Sublist offered ∧
        (engine.afterL1 l1 offered).tiers xx = { engine.tiers xx with
          l1 := l1.peek xx
          inFlight := (engine.tiers xx).inFlight ++ accepted
          evictions := l1.totalEvictions } := by
  rcases valid.queue.tryPush_all offered with
    ⟨queue, accepted, sublist, items⟩
  refine ⟨⟨⟨_, l1Valid⟩, queue, valid.live, valid.capacity, valid.l2⟩, accepted,
    sublist, ?_⟩
  have inFlight : (engine.afterL1 l1 offered).inFlight =
      engine.inFlight ++ accepted := by
    simp only [CacheEngine.inFlight, DemotionDrainer.inFlight,
      CacheEngine.afterL1, items, List.append_assoc]
  simp only [tiers, inFlight]
  rfl

theorem Valid.eraseL2 (valid : engine.Valid xx config)
    {recency : Fin kNumL2Stripes → AList fun _ : Key => Value}
    (l2 : L2Valid xx engine.l2CapacityPerStripe engine.l2Stripes recency)
    (key : Key) {stripe : L2Stripe}
    (shows' : stripe.Shows ((recency (l2StripeIndex xx key)).erase key)) :
    (engine.afterL2 (l2StripeIndex xx key) stripe).Valid xx config ∧
      (engine.afterL2 (l2StripeIndex xx key) stripe).tiers xx =
        { engine.tiers xx with
          l2 := Function.update (engine.tiers xx).l2 key none } := by
  refine ⟨⟨valid.l1, valid.queue, valid.live, valid.capacity, _,
    l2.erase key shows'⟩, ?_⟩
  have l2Peek : (engine.afterL2 (l2StripeIndex xx key) stripe).l2Peek xx =
      Function.update (engine.l2Peek xx) key none := by
    funext other
    rw [l2Peek_afterL2 shows']
    by_cases sameKey : other = key
    · subst sameKey
      rw [if_pos rfl, Function.update_self, AList.lookup_erase]
    · rw [Function.update_of_ne sameKey, AList.lookup_erase_ne sameKey]
      split
      · rename_i sameStripe
        rw [(l2.shows' _).lookup, ← sameStripe]
        rfl
      · rfl
  simp only [tiers, l2Peek]
  rfl

theorem Valid.withBackend (valid : engine.Valid xx config)
    (backend : InMemoryBackend) :
    Valid xx config { engine with backend } :=
  ⟨valid.l1, valid.queue, valid.live, valid.capacity, valid.l2⟩

theorem withBackend_tiers (backend : InMemoryBackend) :
    tiers xx { engine with backend } =
      { engine.tiers xx with backend := backend.lookup } := by
  simp only [tiers]
  rfl

theorem implements (xx : XxHash) (config : CacheEngineConfig) :
    Program.Implements (perform xx) Tiers.spec fun tiers engine =>
      engine.Valid xx config ∧ engine.tiers xx = tiers := by
  rintro instr post tiers engine ⟨valid, rfl⟩ holds
  rcases valid.l1 with ⟨policies, l1⟩
  rcases valid.l2 with ⟨recency, l2⟩
  cases instr with
  | l1Get key =>
      rcases l1.get key with ⟨l1', policies', got, l1', peek, evictions⟩
      rcases valid.afterL1 l1' [] with ⟨valid', accepted, sublist, after⟩
      refine ⟨_, _, _, by rw [perform, got]; rfl, ⟨valid', rfl⟩, ?_⟩
      rw [after, peek, evictions, List.sublist_nil.mp sublist, List.append_nil]
      exact holds
  | l1Put key value =>
      rcases l1.put key value with
        ⟨inserted, offered, l1', policies', put, l1', effect, evictions⟩
      rcases valid.afterL1 l1' offered with ⟨valid', accepted, sublist, after⟩
      refine ⟨_, _, _, by rw [perform, put]; rfl, ⟨valid', rfl⟩, ?_⟩
      rw [after, evictions rfl]
      exact holds inserted _ (.mk effect sublist)
  | l1Remove key =>
      rcases l1.remove key with ⟨l1', policies', removed, l1', peek, evictions⟩
      rcases valid.afterL1 l1' [] with ⟨valid', accepted, sublist, after⟩
      refine ⟨_, _, _, by rw [perform, removed]; rfl, ⟨valid', rfl⟩, ?_⟩
      rw [after, peek, evictions, List.sublist_nil.mp sublist, List.append_nil]
      exact holds
  | l2Get key =>
      rcases (l2.shows' (l2StripeIndex xx key)).get key with
        ⟨stripe, got, shows'⟩
      rcases valid.eraseL2 l2 key shows' with ⟨valid', after⟩
      refine ⟨_, _, _, by rw [perform, got]; rfl, ⟨valid', rfl⟩, ?_⟩
      rw [after, (l2.shows' _).lookup]
      exact holds
  | l2Remove key =>
      rcases valid.eraseL2 l2 key
        ((l2.shows' (l2StripeIndex xx key)).remove key) with ⟨valid', after⟩
      refine ⟨_, _, _, rfl, ⟨valid', rfl⟩, ?_⟩
      rw [after]
      exact holds
  | backendGet key =>
      exact ⟨_, _, { engine with backend := (engine.backend.get key).2 }, rfl,
        ⟨valid.withBackend _, rfl⟩, holds⟩
  | backendPut key value =>
      refine ⟨_, _, { engine with backend := (engine.backend.put key value).2 },
        rfl, ⟨valid.withBackend _, rfl⟩, ?_⟩
      rw [withBackend_tiers, InMemoryBackend.put_lookup]
      exact holds
  | backendRemove key =>
      refine ⟨(engine.backend.remove key).1, _,
        { engine with backend := (engine.backend.remove key).2 }, rfl,
        ⟨valid.withBackend _, rfl⟩, ?_⟩
      rcases engine.backend.remove_lookup key with ⟨removed, lookup⟩
      rw [withBackend_tiers, lookup, removed]
      exact holds

theorem Valid.perform (valid : engine.Valid xx config) {instr : EngineInstr}
    {answer : EngineAnswer instr} {engine' : CacheEngine}
    (handled : CacheEngine.perform xx instr engine = some (answer, engine')) :
    engine'.Valid xx config ∧ ∀ post, Tiers.spec instr post (engine.tiers xx) →
      post answer (engine'.tiers xx) := by
  have promise : ∀ post, Tiers.spec instr post (engine.tiers xx) →
      engine'.Valid xx config ∧ post answer (engine'.tiers xx) := by
    intro post holds
    rcases implements xx config instr post _ engine ⟨valid, rfl⟩ holds with
      ⟨answer', _, after, handled', ⟨valid', rfl⟩, holds'⟩
    rw [handled] at handled'
    cases handled'
    exact ⟨valid', holds'⟩
  have always : Tiers.spec instr (fun _ _ => True) (engine.tiers xx) := by
    cases instr with
    | l1Put key value => exact fun _ _ _ => trivial
    | _ => exact trivial
  exact ⟨(promise _ always).1, fun post holds => (promise post holds).2⟩

theorem Valid.call (valid : engine.Valid xx config) (call : CacheCall) :
    ∃ reply engine',
      engine.step xx (.call call) = some (some reply, engine') ∧
      engine'.Valid xx config ∧
      (engine.tiers xx).Called call reply (engine'.tiers xx) := by
  rcases Program.run_of_wp (implements xx config) ⟨valid, rfl⟩
      ((engine.tiers xx).request_called call) with
    ⟨reply, _, engine', ran, ⟨valid', rfl⟩, called⟩
  exact ⟨reply, engine', by rw [step, ran]; rfl, valid', called⟩

/-! ## What the drainer does -/

theorem Valid.drain (valid : engine.Valid xx config) :
    ∃ engine', engine.step xx .drain = some (none, engine') ∧
      engine'.Valid xx config ∧
      (engine.tiers xx).Drained
        (engine.drainer.step engine.demotionQueue).1 (engine'.tiers xx) ∧
      engine'.drainer = (engine.drainer.step engine.demotionQueue).2.1 := by
  rcases valid.l2 with ⟨recency, l2⟩
  rcases DemotionDrainer.step_inFlight valid.queue engine.drainer with
    ⟨queue, inFlight⟩
  have live := valid.live.step engine.demotionQueue
  rcases stepped : engine.drainer.step engine.demotionQueue with
    ⟨delivered, drainer, demotionQueue⟩
  rw [stepped] at queue inFlight live
  cases delivered with
  | none =>
      refine ⟨{ engine with drainer, demotionQueue }, ?_,
        ⟨valid.l1, queue, live, valid.capacity, recency, l2⟩, ?_, rfl⟩
      · simp [step, CacheEngine.drain, stepped]
      · have same : ({ engine with drainer, demotionQueue } :
            CacheEngine).tiers xx = engine.tiers xx := by
          simp only [tiers, CacheEngine.inFlight, inFlight]
          rfl
        rw [same]
        exact .nothing _
  | some item =>
      have positive : 0 < engine.l2CapacityPerStripe := by
        rw [valid.capacity]
        omega
      rcases (l2.shows' (l2StripeIndex xx item.key)).put positive item with
        ⟨stripe, put, shows'⟩
      have valid' : ({ engine with drainer, demotionQueue } :
          CacheEngine).Valid xx config :=
        ⟨valid.l1, queue, live, valid.capacity, recency, l2⟩
      refine ⟨afterL2 { engine with drainer, demotionQueue }
        (l2StripeIndex xx item.key) stripe, ?_, ?_, ?_, rfl⟩
      · simp [step, CacheEngine.drain, stepped, put]
      · refine ⟨valid.l1, queue, live, valid.capacity, _,
          l2.update shows' ?_ ?_⟩
        · intro other member
          rcases Recency.mem_of_mem_insertWithin member with rfl | member
          · rfl
          · exact l2.routed _ other member
        · exact Recency.size_insertWithin_le positive (l2.within _)
      · have after : tiers xx (afterL2 { engine with drainer, demotionQueue }
            (l2StripeIndex xx item.key) stripe) = { engine.tiers xx with
              inFlight := drainer.inFlight demotionQueue
              l2 := l2Peek xx (afterL2 { engine with drainer, demotionQueue }
                (l2StripeIndex xx item.key) stripe) } := by
          simp only [tiers]
          rfl
        rw [after]
        refine .item inFlight ?_ ?_
        · rw [l2Peek_afterL2 shows', if_pos rfl, Recency.lookup_insertWithin]
        · intro other different
          rw [l2Peek_afterL2 shows']
          split
          · rename_i sameStripe
            have before : (engine.tiers xx).l2 other =
                (recency (l2StripeIndex xx item.key)).lookup other := by
              rw [(l2.shows' _).lookup, ← sameStripe]
              rfl
            rw [before]
            exact Recency.lookup_insertWithin_ne different
          · exact .inl rfl

theorem Valid.drained (valid : engine.Valid xx config) {after : CacheEngine}
    (stepped : engine.drain xx = some after) :
    after.Valid xx config ∧
      (engine.tiers xx).Drained
        (engine.drainer.step engine.demotionQueue).1 (after.tiers xx) := by
  rcases valid.drain with ⟨engine', drainStep, valid', drained, -⟩
  rw [CacheEngine.step, stepped] at drainStep
  cases drainStep
  exact ⟨valid', drained⟩

/-! ## Runs -/

theorem Valid.step (valid : engine.Valid xx config) (step : EngineStep) :
    ∃ reply engine', engine.step xx step = some (reply, engine') ∧
      engine'.Valid xx config := by
  cases step with
  | call call =>
      rcases valid.call call with ⟨reply, engine', stepped, valid', -⟩
      exact ⟨some reply, engine', stepped, valid'⟩
  | drain =>
      rcases valid.drain with ⟨engine', stepped, valid', -⟩
      exact ⟨none, engine', stepped, valid'⟩

/-- No run faults. -/
theorem Valid.run (valid : engine.Valid xx config) (steps : List EngineStep) :
    ∃ replies engine', engine.run xx steps = some (replies, engine') ∧
      engine'.Valid xx config := by
  induction steps generalizing engine with
  | nil => exact ⟨[], engine, rfl, valid⟩
  | cons step rest induction =>
      rcases valid.step step with ⟨reply, middle, stepped, valid'⟩
      rcases induction valid' with ⟨replies, engine', ran, valid''⟩
      exact ⟨reply :: replies, engine', Machine.run_cons stepped ran, valid''⟩

/-- The drainer gets to the first item in flight. -/
theorem Valid.deliver (valid : engine.Valid xx config) {item : DemotionItem}
    {rest : List DemotionItem} (first : engine.inFlight = item :: rest) :
    ∃ count replies engine',
      engine.run xx (List.replicate count .drain) = some (replies, engine') ∧
      engine'.Valid xx config ∧
      (engine.tiers xx).Drained (some item) (engine'.tiers xx) := by
  induction far : engine.drainer.distance using Nat.strongRecOn
      generalizing engine with
  | ind distance induction =>
      rcases valid.drain with ⟨middle, stepped, valid', drained, drainer⟩
      have progress := valid.live.progress valid.queue
        (by
          intro none
          rw [CacheEngine.inFlight, none] at first
          cases first)
      rcases delivered : (engine.drainer.step engine.demotionQueue).1 with _ | found
      · rw [delivered] at drained progress
        have nearer : middle.drainer.distance < engine.drainer.distance := by
          rw [drainer]
          simpa using progress
        have same : middle.tiers xx = engine.tiers xx := by
          generalize middle.tiers xx = after at drained
          cases drained
          rfl
        have firstAfter : middle.inFlight = item :: rest :=
          (congrArg Tiers.inFlight same).trans first
        rcases induction middle.drainer.distance (far ▸ nearer) valid' firstAfter
            rfl with
          ⟨count, replies, engine', ran, valid'', drained'⟩
        exact ⟨count + 1, none :: replies, engine', Machine.run_cons stepped ran,
          valid'', same ▸ drained'⟩
      · rw [delivered] at drained
        have same : found = item := by
          generalize before : engine.tiers xx = tiers at drained
          have inFlight : tiers.inFlight = item :: rest := before ▸ first
          generalize middle.tiers xx = after at drained
          cases drained with
          | item head =>
              rw [inFlight] at head
              exact (List.cons.inj head).1.symm
        subst same
        exact ⟨1, [none], middle, Machine.run_cons stepped rfl, valid', drained⟩

end Valid

end CacheEngine

end Walde
