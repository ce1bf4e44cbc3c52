import Walde.Coherence

namespace Walde

open Foundation

/-! # Where the values come from

A value moves from the backend to L1, through the queue and the batches of the
drainer to L2, and back, while the nodes and slots that it passes through serve
other keys before and after. -/

/-- A map that holds for every key only values that belong to it. -/
def Sourced (source : Key → Value → Prop) (held : Key → Option Value) : Prop :=
  ∀ key, ∀ value ∈ held key, source key value

section Sourced

variable {source : Key → Value → Prop} {held : Key → Option Value}

theorem Sourced.update (sourced : Sourced source held) {key : Key}
    {found : Option Value} (belongs : ∀ value ∈ found, source key value) :
    Sourced source (Function.update held key found) := by
  intro other value member
  by_cases same : other = key
  · subst same
    rw [Function.update_self] at member
    exact belongs value member
  · rw [Function.update_of_ne same] at member
    exact sourced other value member

theorem Sourced.erase (sourced : Sourced source held) (key : Key) :
    Sourced source (Function.update held key none) :=
  sourced.update (by simp)

theorem Sourced.of_kept (sourced : Sourced source held) {key : Key}
    {held' : Key → Option Value}
    (own : ∀ value ∈ held' key, source key value)
    (others : ∀ other, other ≠ key → held' other = held other ∨
      held' other = none) :
    Sourced source held' := by
  intro other value member
  by_cases same : other = key
  · subst same
    exact own value member
  · rcases others other same with kept | gone
    · rw [kept] at member
      exact sourced other value member
    · rw [gone] at member
      cases member

end Sourced

namespace Tiers

structure Sourced (source : Key → Value → Prop) (tiers : Tiers) : Prop where
  l1 : Walde.Sourced source tiers.l1
  l2 : Walde.Sourced source tiers.l2
  inFlight : ∀ item ∈ tiers.inFlight, source item.key item.value
  backend : Walde.Sourced source tiers.backend

variable {source : Key → Value → Prop} {tiers after : Tiers}

theorem Sourced.l1Put (sourced : tiers.Sourced source) {key : Key}
    {value : Value} (belongs : source key value)
    (put : tiers.L1Put key value after) : after.Sourced source := by
  have own : ∀ found ∈ after.l1 key, source key found := by
    intro found member
    rcases put.own with stored | gone
    · rw [stored] at member
      cases member
      exact belongs
    · rw [gone] at member
      cases member
  constructor
  · exact sourced.l1.of_kept own fun _ different => put.others different
  · rw [put.l2]
    exact sourced.l2
  · rcases put.inFlight with ⟨accepted, inFlight, evicted⟩
    intro item member
    rw [inFlight] at member
    rcases List.mem_append.mp member with member | member
    · exact sourced.inFlight item member
    · exact sourced.l1 item.key item.value (evicted item member).2
  · rw [put.backend]
    exact sourced.backend

theorem Sourced.drained (sourced : tiers.Sourced source)
    {delivered : Option DemotionItem}
    (drained : tiers.Drained delivered after) : after.Sourced source := by
  cases drained with
  | nothing => exact sourced
  | @item item rest l2 first own others =>
      have belongs : ∀ next ∈ item :: rest, source next.key next.value := by
        rw [← first]
        exact sourced.inFlight
      have stored : ∀ value ∈ l2 item.key, source item.key value := by
        intro value member
        rw [own] at member
        cases member
        exact belongs item List.mem_cons_self
      constructor
      · exact sourced.l1
      · exact sourced.l2.of_kept stored others
      · intro next member
        exact belongs next (List.mem_cons_of_mem item member)
      · exact sourced.backend

end Tiers

namespace EngineThreads

/-! ## What the clients pass on -/

def passesOn (source : Key → Value → Prop) :
    Threads.Contract CacheCall CacheReply EngineAnswer where
  asks
    | .l1Put key value => source key value
    | .backendPut key value => source key value
    | _ => True
  answers
    | .l1Get key, found => ∀ value ∈ found, source key value
    | .l2Get key, found => ∀ value ∈ found, source key value
    | .backendGet key, found => ∀ value ∈ found, source key value
    | _, _ => True
  replies
    | .get key, .value found => ∀ value ∈ found, source key value
    | _, _ => True

variable {source : Key → Value → Prop}

theorem request_obeys {call : CacheCall}
    (belongs : ∀ key value, call = .put key value → source key value) :
    (passesOn source).Obeys call (CacheEngine.request call) := by
  cases call with
  | get key =>
      refine ⟨trivial, fun inL1 known => ?_⟩
      cases inL1 with
      | some value => exact known
      | none =>
          refine ⟨trivial, fun inL2 known => ?_⟩
          cases inL2 with
          | some value => exact ⟨known value rfl, fun _ _ => known⟩
          | none =>
              refine ⟨trivial, fun inBackend known => ?_⟩
              cases inBackend with
              | some value => exact ⟨known value rfl, fun _ _ => known⟩
              | none => exact known
  | put key value =>
      have belongs := belongs key value rfl
      exact ⟨belongs, fun _ _ => ⟨belongs, fun _ _ => trivial⟩⟩
  | remove key =>
      exact ⟨trivial, fun _ _ => ⟨trivial, fun _ _ => ⟨trivial, fun _ _ =>
        trivial⟩⟩⟩

theorem sourced_instr {tiers after : Tiers} {instr : EngineInstr}
    {answer : EngineAnswer instr} (sourced : tiers.Sourced source)
    (asked : (passesOn source).asks instr)
    (did : ∀ post, Tiers.spec instr post tiers → post answer after) :
    (passesOn source).answers instr answer ∧ after.Sourced source := by
  apply did fun answer after =>
    (passesOn source).answers instr answer ∧ after.Sourced source
  cases instr with
  | l1Get key => exact ⟨sourced.l1 key, sourced⟩
  | l1Put key value => exact fun _ _ put => ⟨trivial, sourced.l1Put asked put⟩
  | l1Remove key =>
      exact ⟨trivial, { sourced with l1 := sourced.l1.erase key }⟩
  | l2Get key => exact ⟨sourced.l2 key, { sourced with
      l2 := sourced.l2.erase key }⟩
  | l2Remove key =>
      exact ⟨trivial, { sourced with l2 := sourced.l2.erase key }⟩
  | backendGet key => exact ⟨sourced.backend key, sourced⟩
  | backendPut key value =>
      have stored : Walde.Sourced source
          (Function.update tiers.backend key (some value)) := by
        apply sourced.backend.update
        intro found member
        cases member
        exact asked
      exact ⟨trivial, { sourced with backend := stored }⟩
  | backendRemove key =>
      exact ⟨trivial, { sourced with backend := sourced.backend.erase key }⟩

structure Clean (xx : XxHash) (config : CacheEngineConfig)
    (source : Key → Value → Prop) (engine : CacheEngine) : Prop where
  valid : engine.Valid xx config
  sourced : (engine.tiers xx).Sourced source

theorem served (xx : XxHash) (config : CacheEngineConfig)
    (source : Key → Value → Prop) :
    (passesOn source).Served (CacheEngine.perform xx) (CacheEngine.drain xx)
      (Clean xx config source) := by
  constructor
  · intro instr engine answer after clean asked handled
    rcases clean.valid.perform handled with ⟨valid, did⟩
    rcases sourced_instr clean.sourced asked did with ⟨answered, sourced⟩
    exact ⟨answered, valid, sourced⟩
  · intro engine after clean stepped
    rcases clean.valid.drained stepped with ⟨valid, drained⟩
    exact ⟨valid, clean.sourced.drained drained⟩

end EngineThreads

/-! ## A backend that others use too -/

/-- A move of a client or of the drainer, or a change that someone else makes
to the backend. -/
inductive SharedMove (Thread : Type)
  | own (move : Threads.Move Thread CacheCall)
  | elsewhere (backend : InMemoryBackend)

namespace EngineThreads

variable {Thread : Type} [DecidableEq Thread]

def sharedMachine (xx : XxHash) :
    Machine (EngineThreads Thread) (SharedMove Thread) (Option CacheReply)
  | state, .own move => machine xx state move
  | state, .elsewhere backend =>
      some (none, { state with shared := { state.shared with backend } })

/-- The backend held the value for the key in the beginning or got it from
someone else, or a client called `put` with it. -/
inductive Source (backend : InMemoryBackend) (moves : List (SharedMove Thread))
    (key : Key) (value : Value) : Prop
  | initial (held : backend.lookup key = some value)
  | put (thread : Thread)
      (entered : .own (.enter thread (.put key value)) ∈ moves)
  | elsewhere (other : InMemoryBackend) (changed : .elsewhere other ∈ moves)
      (held : other.lookup key = some value)

/-- The value is stored for the key, or a lookup of the key returns it. -/
inductive Appears (xx : XxHash) (state : EngineThreads Thread) (key : Key)
    (value : Value) : Prop
  | l1List (i : Fin kNumStripes) (place : Place)
      (listed : (key, value) ∈ state.shared.l1.entriesAt i place)
  | l1Index (i : Fin kNumStripes) (index : Nat)
      (found : (state.shared.l1.stripe i).indexMap.lookup key = some index)
      (stored : (state.shared.l1.slab.pool index).value = value)
  | l1Returned (after : CacheEngine)
      (got : CacheEngine.perform xx (.l1Get key) state.shared =
        some (some value, after))
  | queue (item : DemotionItem)
      (queued : item ∈ state.shared.demotionQueue.items)
      (sameKey : item.key = key) (sameValue : item.value = value)
  | batch (item : DemotionItem)
      (popped : item ∈ state.shared.drainer.pending)
      (sameKey : item.key = key) (sameValue : item.value = value)
  | l2List (i : Fin kNumL2Stripes) (address : Nat) (node : L2Node)
      (listed : (state.shared.l2Stripes i).list.lookup address = some node)
      (sameKey : node.key = key) (sameValue : node.value = value)
  | l2Map (i : Fin kNumL2Stripes) (address : Nat) (node : L2Node)
      (found : (state.shared.l2Stripes i).map.lookup key = some address)
      (listed : (state.shared.l2Stripes i).list.lookup address = some node)
      (sameValue : node.value = value)
  | l2Returned (after : CacheEngine)
      (got : CacheEngine.perform xx (.l2Get key) state.shared =
        some (some value, after))
  | returned (thread : Thread)
      (returning : (state.activity thread).returning =
        some (.get key, .value (some value)))

section Places

variable {xx : XxHash} {config : CacheEngineConfig} {engine : CacheEngine}
  {key : Key} {value : Value}

theorem peek_of_listed (valid : engine.Valid xx config) {i : Fin kNumStripes}
    {place : Place} (listed : (key, value) ∈ engine.l1.entriesAt i place) :
    engine.l1.peek xx key = some value := by
  rcases valid.l1 with ⟨policies, l1⟩
  rcases l1.follows with ⟨views, lists, shows'⟩
  rw [shows'.entriesAt] at listed
  have member : (key, value) ∈ (policies i).entries :=
    Policy.mem_entries_of_mem_entriesAt listed
  have routed : StripedCache.route xx key = i :=
    l1.routed i key (Policy.mem_keys.mpr ⟨value, member⟩)
  rw [l1.peek_eq_some, routed]
  exact member

theorem peek_of_indexed (valid : engine.Valid xx config) {i : Fin kNumStripes}
    {index : Nat}
    (found : (engine.l1.stripe i).indexMap.lookup key = some index) :
    engine.l1.peek xx key = some (engine.l1.slab.pool index).value := by
  rcases valid.l1 with ⟨policies, l1⟩
  rcases l1.follows with ⟨views, lists, shows'⟩
  have member := Policy.find_mem ((shows'.sim i).find_some found)
  have routed : StripedCache.route xx key = i :=
    l1.routed i key (Policy.mem_keys.mpr ⟨_, member⟩)
  rw [StripedCache.peek, routed, found]
  rfl

theorem l2Peek_of_listed (valid : engine.Valid xx config)
    {i : Fin kNumL2Stripes} {address : Nat} {node : L2Node}
    (listed : (engine.l2Stripes i).list.lookup address = some node) :
    engine.l2Peek xx node.key = some node.value := by
  rcases valid.l2 with ⟨recency, l2⟩
  have mapped := ((l2.shows' i).map node.key address).mpr ⟨node, listed, rfl⟩
  have routed : CacheEngine.l2StripeIndex xx node.key = i :=
    l2.routed i node.key ((l2.shows' i).mem.mpr ⟨address, mapped⟩)
  rw [CacheEngine.l2Peek, routed, L2Stripe.peek, mapped]
  simp [listed]

theorem l2Peek_of_mapped (valid : engine.Valid xx config)
    {i : Fin kNumL2Stripes} {address : Nat} {node : L2Node}
    (found : (engine.l2Stripes i).map.lookup key = some address)
    (listed : (engine.l2Stripes i).list.lookup address = some node) :
    engine.l2Peek xx key = some node.value := by
  rcases valid.l2 with ⟨recency, l2⟩
  rcases ((l2.shows' i).map key address).mp found with ⟨other, here, sameKey⟩
  rw [listed] at here
  cases here
  rw [← sameKey]
  exact l2Peek_of_listed valid listed

end Places

section Runs

variable {Thread : Type} [DecidableEq Thread] {xx : XxHash}
  {config : CacheEngineConfig} {source : Key → Value → Prop}
  {state after : EngineThreads Thread}

omit [DecidableEq Thread] in
/-- Whatever appears for a key in a state that keeps the contract belongs to
the key. -/
theorem source_of_appears
    (holds : (passesOn source).Holds (Clean xx config source) state) {key : Key}
    {value : Value} (appears : Appears xx state key value) :
    source key value := by
  have valid := holds.shared.valid
  have sourced := holds.shared.sourced
  have answered : ∀ {instr answer after}, (passesOn source).asks instr →
      CacheEngine.perform xx instr state.shared = some (answer, after) →
      (passesOn source).answers instr answer := by
    intro instr answer after asked handled
    exact ((served xx config source).handled holds.shared asked handled).1
  cases appears with
  | l1List i place listed =>
      exact sourced.l1 key value (peek_of_listed valid listed)
  | l1Index i index found stored =>
      rw [← stored]
      exact sourced.l1 key _ (peek_of_indexed valid found)
  | l1Returned after got =>
      exact @answered (.l1Get key) _ after trivial got value rfl
  | queue item queued sameKey sameValue =>
      rw [← sameKey, ← sameValue]
      exact sourced.inFlight item (List.mem_append_right _ queued)
  | batch item popped sameKey sameValue =>
      rw [← sameKey, ← sameValue]
      exact sourced.inFlight item (List.mem_append_left _ popped)
  | l2List i address node listed sameKey sameValue =>
      rw [← sameKey, ← sameValue]
      exact sourced.l2 node.key node.value (l2Peek_of_listed valid listed)
  | l2Map i address node found listed sameValue =>
      rw [← sameValue]
      exact sourced.l2 key node.value (l2Peek_of_mapped valid found listed)
  | l2Returned after got =>
      exact @answered (.l2Get key) _ after trivial got value rfl
  | returned thread returning => exact holds.returning returning value rfl

def Brings (source : Key → Value → Prop) : SharedMove Thread → Prop
  | .own (.enter _ (.put key value)) => source key value
  | .elsewhere backend => Sourced source backend.lookup
  | _ => True

theorem holds_step
    (holds : (passesOn source).Holds (Clean xx config source) state)
    {label : SharedMove Thread} (brings : Brings source label)
    {reply : Option CacheReply}
    (stepped : sharedMachine xx state label = some (reply, after)) :
    (passesOn source).Holds (Clean xx config source) after := by
  cases label with
  | own move =>
      refine holds.move (served xx config source) ?_ stepped
      intro thread call entered
      subst entered
      apply request_obeys
      intro key value put
      subst put
      exact brings
  | elsewhere backend =>
      cases stepped
      have clean := holds.shared
      have valid := clean.valid.withBackend backend
      have sourced : (CacheEngine.tiers xx
          { state.shared with backend }).Sourced source := by
        rw [CacheEngine.withBackend_tiers]
        exact { clean.sourced with backend := brings }
      exact ⟨⟨valid, sourced⟩, holds.obeys⟩

omit [DecidableEq Thread] in
theorem holds_start {backend : InMemoryBackend} {engine : CacheEngine}
    (made : CacheEngine.new config backend = some engine)
    (belongs : Sourced source backend.lookup) :
    (passesOn source).Holds (Clean xx config source)
      (.start engine : EngineThreads Thread) := by
  rcases CacheEngine.new_tiers xx made with ⟨l1, l2, inFlight, stored⟩
  refine Threads.Contract.Holds.start ⟨.new made, ?_⟩
  constructor
  · rw [l1]
    nofun
  · rw [l2]
    nofun
  · rw [inFlight]
    nofun
  · rw [stored]
    exact belongs

end Runs

/-- Whatever any number of clients, the drainer and the other users of the
backend did in any order: a value that L1, the queue or L2 has for a key was
put for that key before, or was in the backend for it. -/
theorem appears_source {Thread : Type} [DecidableEq Thread] (xx : XxHash)
    {config : CacheEngineConfig} {backend : InMemoryBackend}
    {engine : CacheEngine}
    (made : CacheEngine.new config backend = some engine)
    {moves : List (SharedMove Thread)} {replies : List (Option CacheReply)}
    {state : EngineThreads Thread}
    (ran : (sharedMachine xx).run moves (.start engine) =
      some (replies, state)) {key : Key} {value : Value}
    (appears : Appears xx state key value) :
    Source backend moves key value := by
  have brings : (sharedMachine xx).Along
      (fun _ label => Brings (Source backend moves) label) moves
      (.start engine) := by
    apply Machine.Along.of_forall
    intro _ label member
    cases label with
    | own move =>
        cases move with
        | enter thread call =>
            cases call with
            | put key value => exact .put thread member
            | _ => exact trivial
        | _ => exact trivial
    | elsewhere other => exact fun key value held => .elsewhere other member held
  have holds : (passesOn (Source backend moves)).Holds
      (Clean xx config (Source backend moves)) state :=
    Machine.run_preserves
      (fun _ _ _ _ holds brings stepped => holds_step holds brings stepped)
      (holds_start made fun _ _ held => .initial held) brings ran
  exact source_of_appears holds appears

/-- Two clients and someone else at the backend: the value that the get returns
was neither there in the beginning nor put by a client. -/
def sharedReads : List (SharedMove Bool) :=
  [.own (.enter false (.put "w" "1")), .own (.perform false),
    .own (.enter true (.get "k")), .elsewhere (.new (AList.singleton "k" "3")),
    .own (.perform true), .own (.perform true), .own (.perform true),
    .own (.perform false), .own (.perform true), .own (.leave false)]

theorem appears_source_sample :
    ∃ engine replies state, CacheEngine.new .sample (.new ∅) = some engine ∧
      (sharedMachine .sample).run sharedReads (.start engine) =
        some (replies, state) ∧
      (state.activity true).returning =
        some (.get "k", .value (some "3")) ∧
      Source (.new ∅) sharedReads "k" "3" := by
  have ran : ((CacheEngine.new .sample (.new ∅)).bind fun engine =>
      ((sharedMachine .sample).run sharedReads (.start engine)).map
        fun outcome => (outcome.2.activity true).returning) =
          some (some (.get "k", .value (some "3"))) := by
    decide +kernel
  rcases Option.bind_eq_some_iff.mp ran with ⟨engine, made, ran⟩
  rcases Option.map_eq_some_iff.mp ran with ⟨⟨replies, state⟩, ran, returning⟩
  exact ⟨engine, replies, state, made, ran, returning,
    appears_source .sample made ran (.returned true returning)⟩

end EngineThreads

end Walde
