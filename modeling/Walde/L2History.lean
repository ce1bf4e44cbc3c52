import Walde.Coherence
import Walde.Foundation.RecencyLog

namespace Walde

open Foundation Foundation.Recency

/-! # The history of an L2 stripe

The steps that hold the lock of one stripe, in any order, and what can be seen
of each: which keys left, and which key was demoted. -/

namespace L2Stripe

inductive Step
  | insert (item : DemotionItem)
  | get (key : Key)
  | remove (key : Key)
deriving DecidableEq, Repr

def step (capacity : Nat) : Machine L2Stripe Step (Option Value)
  | stripe, .insert item =>
      (stripe.put capacity item).map fun after => (none, after)
  | stripe, .get key => stripe.get key
  | stripe, .remove key => some (none, stripe.remove key)

def entries (stripe : L2Stripe) : List Entry :=
  stripe.list.entries.map fun node => (node.2.key, node.2.value)

/-- The keys that were on the list before and are not in the map after. -/
def departed (before after : L2Stripe) : List Key :=
  (before.entries.map (·.1)).filter fun key => (after.map.lookup key).isNone

def Step.demoted : Step → List (Event Key Value)
  | .insert item => [.entered item.key item.value]
  | .get _ => []
  | .remove _ => []

def recorded (capacity : Nat) : Machine L2Stripe Step (List (Event Key Value))
  | stripe, next => (stripe.step capacity next).map fun outcome =>
      ((departed stripe outcome.2).map .left ++ next.demoted, outcome.2)

/-- The map is a bijection between the keys and the nodes of the list. -/
structure WellFormed (capacity : Nat) (stripe : L2Stripe) : Prop where
  map : ∀ key address, stripe.map.lookup key = some address ↔
    ∃ node, stripe.list.lookup address = some node ∧ node.key = key
  nodup : (stripe.entries.map (·.1)).Nodup
  size_eq : Recency.size stripe.map = stripe.entries.length
  size_le : stripe.entries.length ≤ capacity

section Shows

variable {stripe after : L2Stripe} {recency recency' : AList fun _ : Key => Value}
  {capacity : Nat}

theorem Shows.pairs (shows' : stripe.Shows recency) :
    Recency.pairs recency = stripe.entries := by
  rw [Recency.pairs, shows'.entries, List.map_map]
  rfl

theorem Shows.keys (shows' : stripe.Shows recency) :
    stripe.entries.map (·.1) = recency.keys := by
  rw [← shows'.pairs, Recency.pairs, List.map_map]
  rfl

theorem Shows.wellFormed (shows' : stripe.Shows recency)
    (within : Recency.size recency ≤ capacity) :
    stripe.WellFormed capacity := by
  have length : stripe.entries.length = Recency.size recency := by
    rw [← shows'.pairs, Recency.pairs, List.length_map]
    rfl
  refine ⟨shows'.map, ?_, ?_, ?_⟩
  · rw [shows'.keys]
    exact recency.keys_nodup
  · rw [length, shows'.size_eq, shows'.size]
  · rwa [length]

theorem Shows.departed_eq (shows' : stripe.Shows recency)
    (showsAfter : after.Shows recency') :
    departed stripe after = recency.keys.filter fun key => key ∉ recency' := by
  rw [departed, shows'.keys]
  apply List.filter_congr
  intro key _
  rw [Bool.eq_iff_iff, decide_eq_true_eq, showsAfter.mem]
  simp [Option.eq_none_iff_forall_ne_some]

end Shows

/-! ## Steps -/

/-- A stripe with a history: its list is what the history left standing. -/
structure Follows (capacity : Nat) (log : List (Event Key Value))
    (stripe : L2Stripe) (recency : AList fun _ : Key => Value) : Prop where
  shows' : stripe.Shows recency
  standing : Recency.pairs recency = Recency.standing log
  within : Recency.size recency ≤ capacity

section Follows

variable {capacity : Nat} {log : List (Event Key Value)} {stripe : L2Stripe}
  {recency : AList fun _ : Key => Value}

theorem Follows.entries (follows : stripe.Follows capacity log recency) :
    stripe.entries = Recency.standing log :=
  follows.shows'.pairs.symm.trans follows.standing

theorem Follows.lookup (follows : stripe.Follows capacity log recency)
    (key : Key) (value : Value) :
    recency.lookup key = some value ↔ Live log key value := by
  rw [← Recency.mem_pairs, follows.standing, mem_standing]

theorem Follows.erase (follows : stripe.Follows capacity log recency)
    {after : L2Stripe} {key : Key}
    (showsAfter : after.Shows (recency.erase key)) :
    after.Follows capacity (log ++ (departed stripe after).map .left)
      (recency.erase key) := by
  refine ⟨showsAfter, ?_, Recency.size_erase_le.trans follows.within⟩
  rw [follows.shows'.departed_eq showsAfter, keys_departed_erase]
  exact standing_erase key follows.standing

theorem Follows.get (follows : stripe.Follows capacity log recency)
    (key : Key) :
    ∃ after, stripe.step capacity (.get key) =
        some (recency.lookup key, after) ∧
      after.Follows capacity (log ++ (departed stripe after).map .left)
        (recency.erase key) := by
  rcases follows.shows'.get key with ⟨after, got, showsAfter⟩
  exact ⟨after, got, follows.erase showsAfter⟩

theorem Follows.remove (follows : stripe.Follows capacity log recency)
    (key : Key) :
    (stripe.remove key).Follows capacity
      (log ++ (departed stripe (stripe.remove key)).map .left)
      (recency.erase key) :=
  follows.erase (follows.shows'.remove key)

theorem Follows.insert (follows : stripe.Follows capacity log recency)
    (positive : 0 < capacity) (item : DemotionItem) :
    ∃ after, stripe.step capacity (.insert item) = some (none, after) ∧
      after.Follows capacity (log ++ ((departed stripe after).map .left ++
          [.entered item.key item.value]))
        (Recency.insertWithin capacity item.key item.value recency) := by
  rcases follows.shows'.put positive item with ⟨after, put, showsAfter⟩
  refine ⟨after, by rw [step, put, Option.map_some], showsAfter, ?_,
    Recency.size_insertWithin_le positive follows.within⟩
  rw [follows.shows'.departed_eq showsAfter]
  exact standing_insertWithin positive follows.standing

theorem Follows.recorded (follows : stripe.Follows capacity log recency)
    (positive : 0 < capacity) (next : Step) :
    ∃ events after recency', stripe.recorded capacity next =
        some (events, after) ∧
      after.Follows capacity (log ++ events) recency' := by
  cases next with
  | insert item =>
      rcases follows.insert positive item with ⟨after, stepped, follows'⟩
      refine ⟨_, after, _, ?_, follows'⟩
      rw [L2Stripe.recorded, stepped, Option.map_some]
      rfl
  | get key =>
      rcases follows.get key with ⟨after, stepped, follows'⟩
      refine ⟨_, after, recency.erase key,
        by rw [L2Stripe.recorded, stepped, Option.map_some], ?_⟩
      rw [Step.demoted, List.append_nil]
      exact follows'
  | remove key =>
      refine ⟨_, stripe.remove key, recency.erase key, rfl, ?_⟩
      rw [Step.demoted, List.append_nil]
      exact follows.remove key

theorem Follows.run (follows : stripe.Follows capacity log recency)
    (positive : 0 < capacity) (steps : List Step) :
    ∃ events last recency',
      (L2Stripe.recorded capacity).run steps stripe = some (events, last) ∧
      last.Follows capacity (log ++ events.flatten) recency' := by
  induction steps generalizing log stripe recency with
  | nil => exact ⟨[], stripe, recency, rfl, by simpa using follows⟩
  | cons next rest induction =>
      rcases follows.recorded positive next with
        ⟨events, middle, recency', stepped, follows'⟩
      rcases induction follows' with ⟨others, last, recency'', ran, follows''⟩
      refine ⟨events :: others, last, recency'', Machine.run_cons stepped ran, ?_⟩
      rw [List.flatten_cons, ← List.append_assoc]
      exact follows''

end Follows

/-- After any steps on a stripe, none of which faults, its list is what the
history left standing, the newest demotion first. The next lookup finds the
value of the last demotion of its key and takes it out. The next demotion goes
to the front; if its key is new and the stripe is full, exactly the key that
was demoted the longest ago leaves. -/
theorem history_correct {capacity : Nat} (positive : 1 ≤ capacity)
    (steps : List Step) :
    ∃ events stripe,
      (recorded capacity).run steps .new = some (events, stripe) ∧
      stripe.WellFormed capacity ∧
      stripe.entries = standing events.flatten ∧
      (∀ key, ∃ found after,
        stripe.step capacity (.get key) = some (found, after) ∧
        (∀ value, found = some value ↔ Live events.flatten key value) ∧
        after.entries = stripe.entries.filter (·.1 ≠ key)) ∧
      (∀ key, ∃ after,
        stripe.step capacity (.remove key) = some (none, after) ∧
        after.entries = stripe.entries.filter (·.1 ≠ key)) ∧
      ∀ item, ∃ after,
        stripe.step capacity (.insert item) = some (none, after) ∧
        after.entries.head? = some (item.key, item.value) ∧
        (item.key ∈ stripe.entries.map (·.1) ∨
            stripe.entries.length < capacity → departed stripe after = []) ∧
        (item.key ∉ stripe.entries.map (·.1) →
          stripe.entries.length = capacity →
            ∃ oldest, stripe.entries.getLast? = some oldest ∧
              departed stripe after = [oldest.1]) := by
  have start : L2Stripe.new.Follows capacity [] ∅ :=
    ⟨new_shows, rfl, Nat.zero_le _⟩
  rcases start.run positive steps with ⟨events, stripe, recency, ran, follows⟩
  rw [List.nil_append] at follows
  have erased : ∀ {after : L2Stripe} {key : Key},
      after.Shows (recency.erase key) →
      after.entries = stripe.entries.filter (·.1 ≠ key) := by
    intro after key showsAfter
    rw [← showsAfter.pairs, pairs_erase, follows.shows'.pairs]
  refine ⟨events, stripe, ran, follows.shows'.wellFormed follows.within,
    follows.entries, ?_, ?_, ?_⟩
  · intro key
    rcases follows.get key with ⟨after, stepped, follows'⟩
    exact ⟨_, after, stepped, follows.lookup key, erased follows'.shows'⟩
  · intro key
    exact ⟨_, rfl, erased (follows.remove key).shows'⟩
  · intro item
    rcases follows.insert positive item with ⟨after, stepped, follows'⟩
    have departures := follows.shows'.departed_eq follows'.shows'
    have length : stripe.entries.length = Recency.size recency := by
      rw [← follows.shows'.pairs, Recency.pairs, List.length_map]
      rfl
    refine ⟨after, stepped, ?_, ?_, ?_⟩
    · rw [follows'.entries, ← List.append_assoc, standing_concat]
      rfl
    · rw [follows.shows'.keys, length]
      intro room
      rw [insertWithin_of_room room, keys_departed_insert] at departures
      exact departures
    · rw [follows.shows'.keys, length]
      intro absent full
      rw [insertWithin_of_full absent full.ge] at departures
      cases last : recency.entries.getLast? with
      | none =>
          rw [Recency.size, List.getLast?_eq_none_iff.mp last,
            List.length_nil] at full
          omega
      | some oldest =>
          rw [keys_departed_full absent last] at departures
          refine ⟨(oldest.1, oldest.2), ?_, departures⟩
          rw [← follows.shows'.pairs, Recency.pairs, List.getLast?_map, last]
          rfl

theorem history_correct_sample :
    ∃ events stripe,
      (recorded 2).run [.insert ⟨"k", "1", 1⟩, .insert ⟨"w", "1", 1⟩,
        .insert ⟨"k", "2", 1⟩, .insert ⟨"x", "1", 1⟩, .remove "bu", .get "k"]
        .new = some (events, stripe) ∧
      stripe.WellFormed 2 ∧
      stripe.entries = standing events.flatten ∧
      (∀ key, ∃ found after,
        stripe.step 2 (.get key) = some (found, after) ∧
        (∀ value, found = some value ↔ Live events.flatten key value) ∧
        after.entries = stripe.entries.filter (·.1 ≠ key)) ∧
      (∀ key, ∃ after,
        stripe.step 2 (.remove key) = some (none, after) ∧
        after.entries = stripe.entries.filter (·.1 ≠ key)) ∧
      ∀ item, ∃ after,
        stripe.step 2 (.insert item) = some (none, after) ∧
        after.entries.head? = some (item.key, item.value) ∧
        (item.key ∈ stripe.entries.map (·.1) ∨
            stripe.entries.length < 2 → departed stripe after = []) ∧
        (item.key ∉ stripe.entries.map (·.1) →
          stripe.entries.length = 2 →
            ∃ oldest, stripe.entries.getLast? = some oldest ∧
              departed stripe after = [oldest.1]) :=
  history_correct (by decide) _

/-- The update of `"k"` saves it from the eviction. -/
example : ((recorded 2).run [.insert ⟨"k", "1", 1⟩, .insert ⟨"w", "1", 1⟩,
      .insert ⟨"k", "2", 1⟩, .insert ⟨"x", "1", 1⟩, .get "k"] .new).map
        (·.2.entries) = some [("x", "1")] := by
  decide

end L2Stripe

/-! ## The stripes of an engine -/

namespace CacheEngine

variable {xx : XxHash} {engine after : CacheEngine}

/-- A step of the engine is at most one step of a stripe. -/
theorem afterL2_step (engine : CacheEngine) {index : Fin kNumL2Stripes}
    {stripe : L2Stripe} (next : L2Stripe.Step) {reply : Option Value}
    (stepped : (engine.l2Stripes index).step engine.l2CapacityPerStripe next =
      some (reply, stripe)) (i : Fin kNumL2Stripes) :
    (engine.afterL2 index stripe).l2Stripes i = engine.l2Stripes i ∨
      ∃ next reply, (engine.l2Stripes i).step engine.l2CapacityPerStripe next =
        some (reply, (engine.afterL2 index stripe).l2Stripes i) := by
  by_cases same : i = index
  · subst same
    have here : (engine.afterL2 i stripe).l2Stripes i = stripe :=
      Function.update_self ..
    rw [here]
    exact .inr ⟨next, reply, stepped⟩
  · exact .inl (Function.update_of_ne same _ _)

theorem perform_l2Stripe {instr : EngineInstr} {answer : EngineAnswer instr}
    (performed : perform xx instr engine = some (answer, after))
    (i : Fin kNumL2Stripes) :
    after.l2CapacityPerStripe = engine.l2CapacityPerStripe ∧
      (after.l2Stripes i = engine.l2Stripes i ∨
        ∃ next reply, (engine.l2Stripes i).step engine.l2CapacityPerStripe
          next = some (reply, after.l2Stripes i)) := by
  cases instr with
  | l2Get key =>
      rcases Option.bind_eq_some_iff.mp performed with
        ⟨⟨found, stripe⟩, got, equal⟩
      cases equal
      exact ⟨rfl, afterL2_step engine (.get key) got i⟩
  | l2Remove key =>
      cases performed
      exact ⟨rfl, afterL2_step engine (.remove key) rfl i⟩
  | l1Get key =>
      rcases Option.bind_eq_some_iff.mp performed with ⟨outcome, -, equal⟩
      cases equal
      exact ⟨rfl, .inl rfl⟩
  | l1Put key value =>
      rcases Option.bind_eq_some_iff.mp performed with ⟨outcome, -, equal⟩
      cases equal
      exact ⟨rfl, .inl rfl⟩
  | l1Remove key =>
      rcases Option.bind_eq_some_iff.mp performed with ⟨outcome, -, equal⟩
      cases equal
      exact ⟨rfl, .inl rfl⟩
  | backendGet key =>
      cases performed
      exact ⟨rfl, .inl rfl⟩
  | backendPut key value =>
      cases performed
      exact ⟨rfl, .inl rfl⟩
  | backendRemove key =>
      cases performed
      exact ⟨rfl, .inl rfl⟩

theorem drain_l2Stripe (drained : engine.drain xx = some after)
    (i : Fin kNumL2Stripes) :
    after.l2CapacityPerStripe = engine.l2CapacityPerStripe ∧
      (after.l2Stripes i = engine.l2Stripes i ∨
        ∃ next reply, (engine.l2Stripes i).step engine.l2CapacityPerStripe
          next = some (reply, after.l2Stripes i)) := by
  unfold drain at drained
  rcases stepped : engine.drainer.step engine.demotionQueue with
    ⟨delivered, drainer, queue⟩
  simp only [stepped] at drained
  cases delivered with
  | none =>
      cases drained
      exact ⟨rfl, .inl rfl⟩
  | some item =>
      rcases Option.bind_eq_some_iff.mp drained with ⟨stripe, put, equal⟩
      cases equal
      refine ⟨rfl, ?_⟩
      have inserted : (engine.l2Stripes (l2StripeIndex xx item.key)).step
          engine.l2CapacityPerStripe (.insert item) = some (none, stripe) := by
        rw [L2Stripe.step, put, Option.map_some]
      exact afterL2_step { engine with drainer, demotionQueue := queue }
        (.insert item) inserted i

def L2Recorded (engine : CacheEngine) (capacity : Nat)
    (i : Fin kNumL2Stripes) : Prop :=
  engine.l2CapacityPerStripe = capacity ∧
    ∃ steps events, (L2Stripe.recorded capacity).run steps .new =
      some (events, engine.l2Stripes i)

theorem L2Recorded.extend {capacity : Nat} {i : Fin kNumL2Stripes}
    (recorded : engine.L2Recorded capacity i)
    (moved : after.l2CapacityPerStripe = engine.l2CapacityPerStripe ∧
      (after.l2Stripes i = engine.l2Stripes i ∨
        ∃ next reply, (engine.l2Stripes i).step engine.l2CapacityPerStripe
          next = some (reply, after.l2Stripes i))) :
    after.L2Recorded capacity i := by
  rcases recorded with ⟨rfl, steps, events, ran⟩
  rcases moved with ⟨same, kept | ⟨next, answer, moved⟩⟩
  · exact ⟨same, steps, events, by rw [kept, ran]⟩
  · have last : L2Stripe.recorded engine.l2CapacityPerStripe
        (engine.l2Stripes i) next = some
          (((engine.l2Stripes i).departed (after.l2Stripes i)).map .left ++
            next.demoted, after.l2Stripes i) := by
      rw [L2Stripe.recorded, moved, Option.map_some]
    exact ⟨same, steps ++ [next], _,
      Machine.run_append ran (Machine.run_cons last rfl)⟩

end CacheEngine

namespace EngineThreads

variable {Thread : Type} [DecidableEq Thread]

/-- Whatever the clients and the drainer do, every stripe of L2 has a history
of steps, and its list is what that history left standing. -/
theorem l2Stripe_follows (xx : XxHash) {config : CacheEngineConfig}
    {backend : InMemoryBackend} {fresh : CacheEngine}
    (made : CacheEngine.new config backend = some fresh)
    {moves : List (Threads.Move Thread CacheCall)}
    {replies : List (Option CacheReply)} {state : EngineThreads Thread}
    (ran : (machine xx).run moves (.start fresh) = some (replies, state))
    (i : Fin kNumL2Stripes) :
    ∃ steps events recency,
      (L2Stripe.recorded fresh.l2CapacityPerStripe).run steps .new =
        some (events, state.shared.l2Stripes i) ∧
      (state.shared.l2Stripes i).Follows fresh.l2CapacityPerStripe
        events.flatten recency := by
  have positive : 0 < fresh.l2CapacityPerStripe := by
    rcases Option.map_eq_some_iff.mp made with ⟨l1, -, rfl⟩
    exact Nat.le_max_left 1 _
  have start : L2Stripe.new.Follows fresh.l2CapacityPerStripe [] ∅ :=
    ⟨L2Stripe.new_shows, rfl, Nat.zero_le _⟩
  have step : ∀ (state : EngineThreads Thread)
      (move : Threads.Move Thread CacheCall) (reply : Option CacheReply)
      (after : EngineThreads Thread),
      state.shared.L2Recorded fresh.l2CapacityPerStripe i → True →
      machine xx state move = some (reply, after) →
      after.shared.L2Recorded fresh.l2CapacityPerStripe i := by
    intro state move reply after recorded _ stepped
    cases Threads.moved stepped with
    | enter call idle => exact recorded
    | leave busy => exact recorded
    | perform busy handled =>
        exact recorded.extend (CacheEngine.perform_l2Stripe handled i)
    | background drained =>
        exact recorded.extend (CacheEngine.drain_l2Stripe drained i)
  have first : fresh.L2Recorded fresh.l2CapacityPerStripe i := by
    rcases Option.map_eq_some_iff.mp made with ⟨l1, -, rfl⟩
    exact ⟨rfl, [], [], rfl⟩
  have history := Machine.run_preserves step first
    (.of_forall (fun _ _ _ => trivial) _) ran
  rcases history with ⟨-, steps, events, ran⟩
  rcases start.run positive steps with ⟨events', last, recency, ran', follows⟩
  rw [ran] at ran'
  cases ran'
  exact ⟨steps, events, recency, ran, follows⟩

/-- A get that looks for its key in every tier. -/
theorem l2Stripe_follows_sample :
    ∃ engine replies, ∃ state : EngineThreads Unit,
      CacheEngine.new .sample (.new ∅) = some engine ∧
      (machine .sample).run [.enter () (.get "w"), .perform (), .perform (),
        .background, .perform (), .leave ()] (.start engine) =
          some (replies, state) ∧
      ∀ i, ∃ steps events recency,
        (L2Stripe.recorded engine.l2CapacityPerStripe).run steps .new =
          some (events, state.shared.l2Stripes i) ∧
        (state.shared.l2Stripes i).Follows engine.l2CapacityPerStripe
          events.flatten recency := by
  have runs : ((CacheEngine.new .sample (.new ∅)).bind fun engine =>
      ((machine .sample).run [.enter () (.get "w"), .perform (), .perform (),
        .background, .perform (), .leave ()]
          (.start engine : EngineThreads Unit)).map fun outcome =>
            outcome.1.length) = some 6 := by
    decide +kernel
  rcases Option.bind_eq_some_iff.mp runs with ⟨engine, made, runs⟩
  rcases Option.map_eq_some_iff.mp runs with ⟨⟨replies, state⟩, ran, -⟩
  exact ⟨engine, replies, state, made, ran,
    fun i => l2Stripe_follows .sample made ran i⟩

end EngineThreads

end Walde
