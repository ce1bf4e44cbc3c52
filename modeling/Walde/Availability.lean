import Walde.Provenance

namespace Walde

open Foundation

/-! # Availability

What the backend has and nobody removes, every client finds. L1, the queue and
L2 may lose a value at any time, and a lookup in L2 takes it out of there. -/

theorem Tiers.Drained.backend {before after : Tiers}
    {delivered : Option DemotionItem} (drained : before.Drained delivered after) :
    after.backend = before.backend := by
  cases drained <;> rfl

namespace EngineThreads

section Stays

variable {Call Reply : Type}

/-- Nobody removes these keys from the backend, and every lookup there finds
them. -/
def stays (kept : Set Key) (replies : Call → Reply → Prop) :
    Threads.Contract Call Reply EngineAnswer where
  asks
    | .backendRemove key => key ∉ kept
    | _ => True
  answers
    | .backendGet key, found => key ∈ kept → found ≠ none
    | _, _ => True
  replies

/-- The backend has these keys. -/
structure Stored (xx : XxHash) (config : CacheEngineConfig) (kept : Set Key)
    (engine : CacheEngine) : Prop where
  valid : engine.Valid xx config
  held : ∀ key ∈ kept, engine.backend.lookup key ≠ none

variable {kept : Set Key} {replies : Call → Reply → Prop}

theorem stays_instr {tiers after : Tiers} {instr : EngineInstr}
    {answer : EngineAnswer instr} (held : ∀ key ∈ kept, tiers.backend key ≠ none)
    (asked : (stays kept replies).asks instr)
    (did : ∀ post, Tiers.spec instr post tiers → post answer after) :
    (stays kept replies).answers instr answer ∧
      ∀ key ∈ kept, after.backend key ≠ none := by
  apply did fun answer after => (stays kept replies).answers instr answer ∧
    ∀ key ∈ kept, after.backend key ≠ none
  cases instr with
  | l1Put other value =>
      intro inserted after put
      rw [put.backend]
      exact ⟨trivial, held⟩
  | backendGet other => exact ⟨held other, held⟩
  | backendPut other value =>
      refine ⟨trivial, fun key member => ?_⟩
      by_cases same : key = other
      · subst same
        simp
      · simpa only [Function.update_of_ne same] using held key member
  | backendRemove other =>
      refine ⟨trivial, fun key member => ?_⟩
      have different : key ≠ other := fun same => asked (same ▸ member)
      simpa only [Function.update_of_ne different] using held key member
  | _ => exact ⟨trivial, held⟩

theorem stays_served (xx : XxHash) (config : CacheEngineConfig) :
    (stays kept replies).Served (CacheEngine.perform xx) (CacheEngine.drain xx)
      (Stored xx config kept) := by
  constructor
  · intro instr engine answer after stored asked handled
    rcases stored.valid.perform handled with ⟨valid, did⟩
    rcases stays_instr stored.held asked did with ⟨answered, held⟩
    exact ⟨answered, valid, held⟩
  · intro engine after stored stepped
    rcases stored.valid.drained stepped with ⟨valid, drained⟩
    have same : after.backend.lookup = engine.backend.lookup := drained.backend
    refine ⟨valid, ?_⟩
    rw [same]
    exact stored.held

end Stays

/-! ## The clients -/

def findsKey (key : Key) : CacheCall → CacheReply → Prop
  | .get other, .value found => other = key → found ≠ none
  | _, _ => True

variable {key : Key}

theorem request_stays {call : CacheCall} (kept : call ≠ .remove key) :
    (stays {key} (findsKey key)).Obeys call (CacheEngine.request call) := by
  cases call with
  | get other =>
      refine ⟨trivial, fun inL1 _ => ?_⟩
      cases inL1 with
      | some value => exact fun _ => Option.some_ne_none value
      | none =>
          refine ⟨trivial, fun inL2 _ => ?_⟩
          cases inL2 with
          | some value =>
              exact ⟨trivial, fun _ _ _ => Option.some_ne_none value⟩
          | none =>
              refine ⟨trivial, fun inBackend known => ?_⟩
              cases inBackend with
              | some value =>
                  exact ⟨trivial, fun _ _ _ => Option.some_ne_none value⟩
              | none => exact known
  | put other value => exact ⟨trivial, fun _ _ => ⟨trivial, fun _ _ => trivial⟩⟩
  | remove other =>
      refine ⟨trivial, fun _ _ => ⟨trivial, fun _ _ => ⟨?_, fun _ _ => trivial⟩⟩⟩
      intro same
      exact kept (congrArg CacheCall.remove same)

/-- The calls that neither look the key up in the backend nor remove it there. -/
def Apart (key : Key) (call : CacheCall) : Prop :=
  call ≠ .get key ∧ call ≠ .remove key

def Elsewhere (key : Key) (instr : EngineInstr) : Prop :=
  instr ≠ .backendGet key ∧ instr ≠ .backendRemove key

theorem request_elsewhere {call : CacheCall} (apart : Apart key call) :
    (CacheEngine.request call).Uses (Elsewhere key) := by
  cases call with
  | get other =>
      have different : Elsewhere key (.backendGet other) :=
        ⟨fun same => apart.1 (by cases same; rfl), nofun⟩
      refine ⟨⟨nofun, nofun⟩, fun inL1 => ?_⟩
      cases inL1 with
      | some value => exact trivial
      | none =>
          refine ⟨⟨nofun, nofun⟩, fun inL2 => ?_⟩
          cases inL2 with
          | some value => exact ⟨⟨nofun, nofun⟩, fun _ => trivial⟩
          | none =>
              refine ⟨different, fun inBackend => ?_⟩
              cases inBackend with
              | some value => exact ⟨⟨nofun, nofun⟩, fun _ => trivial⟩
              | none => exact trivial
  | put other value =>
      exact ⟨⟨nofun, nofun⟩, fun _ => ⟨⟨nofun, nofun⟩, fun _ => trivial⟩⟩
  | remove other =>
      have different : Elsewhere key (.backendRemove other) :=
        ⟨nofun, fun same => apart.2 (by cases same; rfl)⟩
      exact ⟨⟨nofun, nofun⟩, fun _ => ⟨⟨nofun, nofun⟩, fun _ =>
        ⟨different, fun _ => trivial⟩⟩⟩

theorem obeys_of_elsewhere {call : CacheCall} (apart : Apart key call)
    {program : EngineProgram CacheReply} (uses : program.Uses (Elsewhere key)) :
    (stays {key} (findsKey key)).Obeys call program := by
  induction program with
  | pure reply =>
      cases call with
      | get other =>
          cases reply with
          | value found => exact fun same => absurd (same ▸ rfl) apart.1
          | changed result => exact trivial
      | _ => exact trivial
  | call instr next induction =>
      refine ⟨?_, fun answer _ => induction answer (uses.2 answer)⟩
      cases instr with
      | backendRemove other =>
          exact fun same => uses.1.2 (congrArg EngineInstr.backendRemove same)
      | _ => exact trivial

section Runs

variable {Thread : Type} [DecidableEq Thread] {xx : XxHash}
  {config : CacheEngineConfig}

structure Separate (xx : XxHash) (config : CacheEngineConfig) (key : Key)
    (state : EngineThreads Thread) : Prop where
  valid : state.shared.Valid xx config
  elsewhere : Threads.Everywhere
    (fun call program => Apart key call → program.Uses (Elsewhere key)) state

omit [DecidableEq Thread] in
theorem Separate.start {backend : InMemoryBackend} {engine : CacheEngine}
    (made : CacheEngine.new config backend = some engine) :
    Separate xx config key (.start engine : EngineThreads Thread) :=
  ⟨.new made, .start engine⟩

theorem Separate.move {state after : EngineThreads Thread}
    (separate : Separate xx config key state)
    {move : Threads.Move Thread CacheCall} {reply : Option CacheReply}
    (ran : machine xx state move = some (reply, after)) :
    Separate xx config key after := by
  constructor
  · cases Threads.moved ran with
    | enter call idle => exact separate.valid
    | perform busy handled => exact (separate.valid.perform handled).1
    | leave busy => exact separate.valid
    | background stepped => exact (separate.valid.drained stepped).1
  · exact separate.elsewhere.move (fun _ => request_elsewhere)
      (fun uses answer apart => (uses apart).2 answer) ran

/-- From any point on at which the backend has a key and no client is in the
middle of a get or a remove of it: whatever any number of clients and the
drainer do in any order, as long as no client removes the key, every get of it
that begins comes back with a value. -/
theorem get_found {backend : InMemoryBackend} {engine : CacheEngine}
    (made : CacheEngine.new config backend = some engine)
    {before : List (Threads.Move Thread CacheCall)}
    {replies : List (Option CacheReply)} {middle : EngineThreads Thread}
    (ran : (machine xx).run before (.start engine) = some (replies, middle))
    (held : middle.shared.backend.lookup key ≠ none)
    (apart : ∀ thread call program,
      middle.activity thread = .busy call program → Apart key call)
    {moves : List (Threads.Move Thread CacheCall)}
    (kept : ∀ thread, .enter thread (.remove key) ∉ moves)
    {replies' : List (Option CacheReply)} {last : EngineThreads Thread}
    (ran' : (machine xx).run moves middle = some (replies', last))
    {thread : Thread} {found : Option Value}
    (returning : (last.activity thread).returning =
      some (.get key, .value found)) : found ≠ none := by
  have reached : Separate xx config key middle :=
    Machine.run_preserves (fun _ _ _ _ separate _ stepped =>
      separate.move stepped) (.start made) (.of_forall (fun _ _ _ => trivial) _)
      ran
  have holds : (stays {key} (findsKey key)).Holds (Stored xx config {key})
      middle := by
    refine ⟨⟨reached.valid, ?_⟩, fun thread call program busy => ?_⟩
    · rintro _ rfl
      exact held
    · have here := apart thread call program busy
      exact obeys_of_elsewhere here
        (reached.elsewhere thread call program busy here)
  have along : (machine xx).Along (fun _ move => ∀ {thread call},
      move = .enter thread call → call ≠ .remove key) moves middle := by
    apply Machine.Along.of_forall
    rintro _ move member thread call rfl rfl
    exact kept thread member
  have final : (stays {key} (findsKey key)).Holds (Stored xx config {key}) last :=
    Machine.run_preserves (fun _ _ _ _ holds condition stepped =>
      holds.move (stays_served xx config)
        (fun entered => request_stays (condition entered)) stepped)
      holds along ran'
  exact final.returning returning rfl

end Runs

/-- A put, and then another client's get next to one more put. -/
theorem get_found_sample :
    ∃ engine replies middle replies' last found,
      CacheEngine.new .sample (.new ∅) = some engine ∧
      (machine .sample).run [.enter false (.put "k" "1"), .perform false,
        .perform false, .leave false] (.start engine) =
          some (replies, middle) ∧
      (machine .sample).run [.enter true (.get "k"), .enter false (.put "k" "2"),
        .perform false, .perform true] middle = some (replies', last) ∧
      (last.activity true).returning = some (.get "k", .value found) ∧
      found ≠ none := by
  have ran : ((CacheEngine.new .sample (.new ∅)).bind fun engine =>
      ((machine .sample).run [.enter false (.put "k" "1"), .perform false,
        .perform false, .leave false] (.start engine)).bind fun outcome =>
      if outcome.2.AtRest ∧ outcome.2.shared.backend.lookup "k" ≠ none then
        ((machine .sample).run [.enter true (.get "k"),
          .enter false (.put "k" "2"), .perform false, .perform true]
          outcome.2).map fun outcome => (outcome.2.activity true).returning
      else none) = some (some (.get "k", .value (some "1"))) := by
    decide +kernel
  rcases Option.bind_eq_some_iff.mp ran with ⟨engine, made, ran⟩
  rcases Option.bind_eq_some_iff.mp ran with ⟨⟨replies, middle⟩, before, ran⟩
  split at ran
  · rename_i rested
    rcases Option.map_eq_some_iff.mp ran with ⟨⟨replies', last⟩, after, returning⟩
    have apart : ∀ thread call program,
        middle.activity thread = .busy call program → Apart "k" call := by
      intro thread call program busy
      rw [rested.1.activity_eq] at busy
      cases busy
    exact ⟨engine, replies, middle, replies', last, _, made, before, after,
      returning, get_found made before rested.2 apart (by simp) after returning⟩
  · cases ran

end EngineThreads

end Walde
