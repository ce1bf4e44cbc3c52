import Walde.Foundation.Threads
import Walde.Tiers

namespace Walde

open Foundation

/-! # L1 against the backend, under many clients

No lock is held between the steps of a call, so the calls of different clients
interleave step by step. -/

abbrev EngineThreads (Thread : Type) :=
  Threads.State Thread CacheCall CacheReply CacheEngine EngineAnswer

namespace EngineThreads

variable {Thread : Type}

def machine [DecidableEq Thread] (xx : XxHash) :
    Machine (EngineThreads Thread) (Threads.Move Thread CacheCall)
      (Option CacheReply) :=
  Threads.machine (CacheEngine.perform xx) CacheEngine.request
    (CacheEngine.drain xx)

/-- Whether the first instruction comes between two steps of another client
that is about to perform the second: it writes another value to the backend, or
removes it there, before the put into L1; or it puts a key into L1 that is on
its way out of the backend. -/
def Disturbs : EngineInstr → EngineInstr → Prop
  | .backendPut key value, .l1Put other held => key = other ∧ held ≠ value
  | .backendRemove key, .l1Put other _ => key = other
  | .l1Put key _, .l2Remove other => key = other
  | .l1Put key _, .backendRemove other => key = other
  | _, _ => False

instance (instr pending : EngineInstr) : Decidable (Disturbs instr pending) := by
  unfold Disturbs
  split <;> infer_instance

def Undisturbed (state : EngineThreads Thread) :
    Threads.Move Thread CacheCall → Prop
  | .perform thread => ∀ other, other ≠ thread →
      ∀ instr ∈ state.head thread, ∀ pending ∈ state.head other,
        ¬ Disturbs instr pending
  | _ => True

instance [Fintype Thread] [DecidableEq Thread] (state : EngineThreads Thread)
    (move : Threads.Move Thread CacheCall) :
    Decidable (Undisturbed state move) :=
  match move with
  | .perform thread => inferInstanceAs (Decidable (∀ other, other ≠ thread →
      ∀ instr ∈ state.head thread, ∀ pending ∈ state.head other,
        ¬ Disturbs instr pending))
  | .enter _ _ => .isTrue trivial
  | .leave _ => .isTrue trivial
  | .background => .isTrue trivial

/-! ## What the clients rely on -/

/-- A client that is about to put a value into L1 relies on finding it in the
backend, and one that removes a key relies on L1 not to get it back. It is
known that L2 holds nothing. -/
def outline : Threads.Outline EngineAnswer Tiers where
  pre
    | .l1Put key value, tiers => tiers.backend key = some value
    | .l2Remove key, tiers => tiers.l1 key = none
    | .backendRemove key, tiers => tiers.l1 key = none
    | _, _ => True
  post
    | .l1Remove key, _, tiers => tiers.l1 key = none
    | .l2Get _, found, _ => found = none
    | .l2Remove key, _, tiers => tiers.l1 key = none
    | .backendGet key, found, tiers => tiers.backend key = found
    | .backendPut key value, _, tiers => tiers.backend key = some value
    | _, _, _ => True

theorem request_covered (call : CacheCall) (tiers : Tiers) :
    outline.Covers (CacheEngine.request call) tiers := by
  cases call with
  | get key =>
      refine ⟨trivial, fun inL1 middle _ => ?_⟩
      cases inL1 with
      | some value => exact trivial
      | none =>
          refine ⟨trivial, fun inL2 later missed => ?_⟩
          obtain rfl : inL2 = none := missed
          refine ⟨trivial, fun inBackend last found => ?_⟩
          cases inBackend with
          | some value => exact ⟨found, fun _ _ _ => trivial⟩
          | none => exact trivial
  | put key value =>
      exact ⟨trivial, fun _ _ stored => ⟨stored, fun _ _ _ => trivial⟩⟩
  | remove key =>
      refine ⟨trivial, fun _ _ gone => ⟨gone, fun _ _ stillGone => ?_⟩⟩
      exact ⟨stillGone, fun _ _ _ => trivial⟩

/-- In what is left of a call, a put into the backend is followed by the put of
the same value into L1. -/
def WritesThrough : EngineProgram CacheReply → Prop
  | .pure _ => True
  | .call instr next => ∀ answer, WritesThrough (next answer) ∧
      ∀ key value, instr = .backendPut key value →
        (next answer).head = some (.l1Put key value)

theorem request_writesThrough (call : CacheCall) :
    WritesThrough (CacheEngine.request call) := by
  cases call with
  | get key =>
      refine fun inL1 => ⟨?_, by simp⟩
      cases inL1 with
      | some value => exact trivial
      | none =>
          refine fun inL2 => ⟨?_, by simp⟩
          cases inL2 with
          | some value => exact fun _ => ⟨trivial, by simp⟩
          | none =>
              refine fun inBackend => ⟨?_, by simp⟩
              cases inBackend with
              | some value => exact fun _ => ⟨trivial, by simp⟩
              | none => exact trivial
  | put key value =>
      refine fun _ => ⟨fun _ => ⟨trivial, by simp⟩, ?_⟩
      rintro _ _ ⟨⟩
      rfl
  | remove key =>
      exact fun _ => ⟨fun _ => ⟨fun _ => ⟨trivial, by simp⟩, by simp⟩, by simp⟩

/-! ## One instruction -/

section Instr

variable {tiers after : Tiers} {instr : EngineInstr}
  {answer : EngineAnswer instr}

theorem evictions_le
    (did : ∀ post, Tiers.spec instr post tiers → post answer after) :
    tiers.evictions ≤ after.evictions := by
  apply did fun _ after => tiers.evictions ≤ after.evictions
  cases instr with
  | l1Put key value =>
      rintro inserted after ⟨effect, sublist⟩
      exact Nat.le_add_right _ _
  | _ => exact Nat.le_refl _

theorem stays_empty
    (did : ∀ post, Tiers.spec instr post tiers → post answer after)
    (noEviction : after.evictions = tiers.evictions)
    (l2 : ∀ key, tiers.l2 key = none) (inFlight : tiers.inFlight = []) :
    (∀ key, after.l2 key = none) ∧ after.inFlight = [] := by
  have cleared : ∀ key other, Function.update tiers.l2 key none other = none :=
    fun key => (Function.forall_update_iff tiers.l2 fun _ found =>
      found = none).mpr ⟨rfl, fun other _ => l2 other⟩
  refine did (fun _ after => after.evictions = tiers.evictions →
    (∀ key, after.l2 key = none) ∧ after.inFlight = []) ?_ noEviction
  cases instr with
  | l1Put key value =>
      intro inserted after put quiet
      rw [put.l2, put.quiet quiet]
      exact ⟨l2, inFlight⟩
  | l2Get key => exact fun _ => ⟨cleared key, inFlight⟩
  | l2Remove key => exact fun _ => ⟨cleared key, inFlight⟩
  | _ => exact fun _ => ⟨l2, inFlight⟩

theorem known
    (did : ∀ post, Tiers.spec instr post tiers → post answer after)
    (l2 : ∀ key, tiers.l2 key = none) (relied : outline.pre instr tiers) :
    outline.post instr answer after := by
  apply did fun answer after => outline.post instr answer after
  cases instr with
  | l1Get key => exact trivial
  | l1Put key value => exact fun _ _ _ => trivial
  | l1Remove key => exact Function.update_self key none tiers.l1
  | l2Get key => exact l2 key
  | l2Remove key => exact relied
  | backendGet key => exact rfl
  | backendPut key value => exact Function.update_self key _ tiers.backend
  | backendRemove key => exact trivial

/-- A step that does not disturb a client leaves it what it relies on. -/
theorem undisturbed_pre
    (did : ∀ post, Tiers.spec instr post tiers → post answer after)
    {pending : EngineInstr} (apart : ¬ Disturbs instr pending)
    (relied : outline.pre pending tiers) : outline.pre pending after := by
  apply did fun _ after => outline.pre pending after
  cases instr with
  | l1Put key value =>
      intro inserted after put
      have gone : ∀ other, key ≠ other → tiers.l1 other = none →
          after.l1 other = none := by
        intro other different absent
        rcases put.others (Ne.symm different) with kept | gone
        · rw [kept, absent]
        · exact gone
      cases pending with
      | l1Put other held => exact (congrFun put.backend other).trans relied
      | l2Remove other => exact gone other apart relied
      | backendRemove other => exact gone other apart relied
      | _ => exact trivial
  | l1Remove key =>
      have gone : ∀ other, tiers.l1 other = none →
          Function.update tiers.l1 key none other = none := by
        intro other absent
        by_cases same : other = key
        · rw [same, Function.update_self]
        · rw [Function.update_of_ne same, absent]
      cases pending with
      | l1Put other held => exact relied
      | l2Remove other => exact gone other relied
      | backendRemove other => exact gone other relied
      | _ => exact trivial
  | backendPut key value =>
      cases pending with
      | l1Put other held =>
          change Function.update tiers.backend key (some value) other = some held
          by_cases same : key = other
          · have equal : held = value := by
              by_contra different
              exact apart ⟨same, different⟩
            rw [same, Function.update_self, equal]
          · rw [Function.update_of_ne (Ne.symm same)]
            exact relied
      | l2Remove other => exact relied
      | backendRemove other => exact relied
      | _ => exact trivial
  | backendRemove key =>
      cases pending with
      | l1Put other held =>
          exact (Function.update_of_ne (Ne.symm apart) _ _).trans relied
      | l2Remove other => exact relied
      | backendRemove other => exact relied
      | _ => exact trivial
  | l1Get key => exact relied
  | backendGet key => exact relied
  | l2Get key =>
      cases pending with
      | l1Put other held => exact relied
      | l2Remove other => exact relied
      | backendRemove other => exact relied
      | _ => exact trivial
  | l2Remove key =>
      cases pending with
      | l1Put other held => exact relied
      | l2Remove other => exact relied
      | backendRemove other => exact relied
      | _ => exact trivial

theorem l1_after
    (did : ∀ post, Tiers.spec instr post tiers → post answer after)
    (relied : outline.pre instr tiers) {key : Key} {value : Value}
    (held : after.l1 key = some value) :
    (tiers.l1 key = some value ∧ after.backend key = tiers.backend key ∧
        ∀ put, instr ≠ .l1Put key put) ∨
      after.backend key = some value ∨
      ∃ written, instr = .backendPut key written := by
  refine did (fun _ after => after.l1 key = some value →
    (tiers.l1 key = some value ∧ after.backend key = tiers.backend key ∧
        ∀ put, instr ≠ .l1Put key put) ∨
      after.backend key = some value ∨
      ∃ written, instr = .backendPut key written) ?_ held
  cases instr with
  | l1Put other put =>
      intro inserted after stored held
      by_cases same : key = other
      · subst same
        right
        left
        rcases stored.own with own | own <;> rw [own] at held
        · rw [stored.backend, ← held]
          exact relied
        · cases held
      · left
        rcases stored.others same with kept | gone
        · refine ⟨kept.symm.trans held, congrFun stored.backend key, ?_⟩
          rintro _ ⟨⟩
          exact same rfl
        · rw [gone] at held
          cases held
  | l1Remove other =>
      intro held
      by_cases same : key = other
      · simp [same] at held
      · exact .inl ⟨by simpa [Function.update_of_ne same] using held, rfl,
          by simp⟩
  | backendPut other written =>
      intro held
      by_cases same : key = other
      · exact .inr (.inr ⟨written, by rw [same]⟩)
      · exact .inl ⟨held, Function.update_of_ne same _ _, by simp⟩
  | backendRemove other =>
      intro held
      by_cases same : key = other
      · subst same
        exact absurd (held.symm.trans relied) (Option.some_ne_none value)
      · exact .inl ⟨held, Function.update_of_ne same _ _, by simp⟩
  | _ => exact fun held => .inl ⟨held, rfl, by simp⟩

end Instr

/-! ## All clients -/

section Settled

variable {xx : XxHash} {config : CacheEngineConfig}
  {state after : EngineThreads Thread}

/-- What holds while nothing was evicted: L1 agrees with the backend, but for
the keys that some client is about to put into L1. -/
structure Settled (xx : XxHash) (state : EngineThreads Thread) : Prop where
  l2 : ∀ key, (state.shared.tiers xx).l2 key = none
  inFlight : (state.shared.tiers xx).inFlight = []
  outline : outline.Holds (CacheEngine.tiers xx) state
  writes : ∀ thread call program, state.activity thread = .busy call program →
    WritesThrough program
  l1 : ∀ key value, (state.shared.tiers xx).l1 key = some value →
    (state.shared.tiers xx).backend key = some value ∨
      ∃ thread held, state.head thread = some (.l1Put key held)

theorem Settled.everywhere (settled : Settled xx state) :
    Threads.Everywhere (fun _ => WritesThrough) state :=
  settled.writes

theorem Settled.of_tiers_eq (settled : Settled xx state) {shared : CacheEngine}
    (same : shared.tiers xx = state.shared.tiers xx) :
    Settled xx { state with shared } where
  l2 := by simpa only [same] using settled.l2
  inFlight := by simpa only [same] using settled.inFlight
  outline := settled.outline.shared fun _ _ _ relied => same ▸ relied
  writes := settled.writes
  l1 := by
    simp only [same]
    exact settled.l1

structure Sound (xx : XxHash) (config : CacheEngineConfig)
    (state : EngineThreads Thread) : Prop where
  valid : state.shared.Valid xx config
  settled : state.shared.l1.totalEvictions = 0 → Settled xx state

theorem Sound.start {backend : InMemoryBackend} {engine : CacheEngine}
    (made : CacheEngine.new config backend = some engine) :
    Sound xx config (Threads.State.start engine : EngineThreads Thread) := by
  rcases CacheEngine.new_tiers xx made with ⟨l1, l2, inFlight, -⟩
  refine ⟨.new made, fun _ => ⟨fun key => congrFun l2 key, inFlight, ?_, ?_, ?_⟩⟩
  · rintro thread call program ⟨⟩
  · rintro thread call program ⟨⟩
  · intro key value held
    exact absurd (held.symm.trans (congrFun l1 key)) (Option.some_ne_none value)

variable [DecidableEq Thread]

theorem Settled.update (settled : Settled xx state) (thread : Thread)
    {activity : Threads.Activity CacheCall CacheReply EngineAnswer}
    (covered : ∀ call program, activity = .busy call program →
      EngineThreads.outline.Covers program (state.shared.tiers xx) ∧
        WritesThrough program)
    (noPut : ∀ key held, state.head thread ≠ some (.l1Put key held)) :
    Settled xx { state with
      activity := Function.update state.activity thread activity } where
  l2 := settled.l2
  inFlight := settled.inFlight
  outline := settled.outline.update thread fun call program equal =>
    (covered call program equal).1
  writes := settled.everywhere.update state.shared thread
    fun call program equal => (covered call program equal).2
  l1 := by
    intro key value held
    refine (settled.l1 key value held).imp_right ?_
    rintro ⟨other, put, head⟩
    have different : other ≠ thread := by
      rintro rfl
      exact noPut key put head
    refine ⟨other, put, ?_⟩
    rw [Threads.State.head_update_of_ne _ _ _ _ different]
    exact head

theorem Settled.perform (settled : Settled xx state)
    (valid : state.shared.Valid xx config) {thread : Thread} {call : CacheCall}
    {instr : EngineInstr} {next : EngineAnswer instr → EngineProgram CacheReply}
    (busy : state.activity thread = .busy call (.call instr next))
    {answer : EngineAnswer instr} {shared : CacheEngine}
    (handled : CacheEngine.perform xx instr state.shared = some (answer, shared))
    (undisturbed : Undisturbed state (.perform thread))
    (noEviction : (shared.tiers xx).evictions =
      (state.shared.tiers xx).evictions) :
    Settled xx ⟨shared, Function.update state.activity thread
      (.busy call (next answer))⟩ := by
  have did := (valid.perform handled).2
  have head : state.head thread = some instr := Threads.State.head_of_busy busy
  have relied := settled.outline.pre head
  have through := settled.writes thread call _ busy answer
  rcases stays_empty did noEviction settled.l2 settled.inFlight with
    ⟨l2, inFlight⟩
  refine ⟨l2, inFlight, ?_, ?_, ?_⟩
  · refine settled.outline.perform busy (known did settled.l2 relied) ?_
    intro other different pending pendingHead
    exact undisturbed_pre did
      (undisturbed other different instr head pending pendingHead)
  · apply settled.everywhere.update
    intro _ _ here
    cases here
    exact through.1
  · intro key value held
    rcases l1_after did relied held with ⟨before, kept, noPut⟩ | agrees |
        ⟨written, rfl⟩
    · rcases settled.l1 key value before with agrees | ⟨other, put, otherHead⟩
      · exact .inl (kept.trans agrees)
      · right
        have different : other ≠ thread := by
          rintro rfl
          rw [head] at otherHead
          exact noPut put (Option.some.inj otherHead)
        refine ⟨other, put, ?_⟩
        rw [Threads.State.head_update_of_ne _ _ _ _ different]
        exact otherHead
    · exact .inl agrees
    · right
      refine ⟨thread, written, ?_⟩
      rw [Threads.State.head_update_self]
      exact through.2 key written rfl

theorem Sound.move (sound : Sound xx config state)
    {move : Threads.Move Thread CacheCall} {reply : Option CacheReply}
    (undisturbed : Undisturbed state move)
    (ran : machine xx state move = some (reply, after)) :
    Sound xx config after := by
  cases Threads.moved ran with
  | @enter thread call idle =>
      refine ⟨sound.valid, fun none => (sound.settled none).update thread ?_ ?_⟩
      · rintro _ _ ⟨⟩
        exact ⟨request_covered call _, request_writesThrough call⟩
      · intro key held
        rw [Threads.State.head_of_idle idle]
        exact Option.some_ne_none _ ∘ Eq.symm
  | @perform thread call instr next answer shared busy handled =>
      have did := (sound.valid.perform handled).2
      refine ⟨(sound.valid.perform handled).1, fun none => ?_⟩
      have before : state.shared.l1.totalEvictions = 0 :=
        Nat.eq_zero_of_le_zero ((evictions_le did).trans_eq none)
      exact (sound.settled before).perform sound.valid busy handled undisturbed
        (none.trans before.symm)
  | @leave thread call reply busy =>
      refine ⟨sound.valid, fun none => (sound.settled none).update thread ?_ ?_⟩
      · rintro _ _ ⟨⟩
      · intro key held
        rw [Threads.State.head_of_busy busy]
        exact Option.some_ne_none _ ∘ Eq.symm
  | @background shared stepped =>
      rcases sound.valid.drained stepped with ⟨valid', drained⟩
      refine ⟨valid', fun none => ?_⟩
      have before : state.shared.l1.totalEvictions = 0 :=
        drained.evictions.symm.trans none
      have settled := sound.settled before
      exact settled.of_tiers_eq (drained.eq_of_inFlight settled.inFlight)

/-- L1 and the backend under any number of clients, in every state in which no
client is in the middle of a call: if no client disturbed another one and
nothing was evicted from L1, every key in L1 has the value that the backend
holds for it. -/
theorem coherent_at_rest (xx : XxHash) {config : CacheEngineConfig}
    {backend : InMemoryBackend} {engine : CacheEngine}
    (made : CacheEngine.new config backend = some engine)
    (moves : List (Threads.Move Thread CacheCall))
    {replies : List (Option CacheReply)} {state : EngineThreads Thread}
    (ran : (machine xx).run moves (.start engine) = some (replies, state))
    (undisturbed : (machine xx).Along Undisturbed moves (.start engine))
    (noEviction : state.shared.l1.totalEvictions = 0)
    (atRest : state.AtRest) :
    ∀ i, ∀ key ∈ (state.shared.l1.stripe i).indexMap, ∃ value,
      state.shared.l1.peek xx key = some value ∧
      state.shared.backend.lookup key = some value := by
  have sound : Sound xx config state :=
    Machine.run_preserves
      (fun _ _ _ _ sound undisturbed ran => sound.move undisturbed ran)
      (.start made) undisturbed ran
  intro i key member
  rcases sound.valid.l1 with ⟨policies, l1⟩
  rcases Option.ne_none_iff_exists'.mp (l1.resident member) with ⟨value, held⟩
  refine ⟨value, held, ?_⟩
  rcases (sound.settled noEviction).l1 key value held with
    agrees | ⟨thread, put, head⟩
  · exact agrees
  · rw [atRest.head_eq_none thread] at head
    cases head

end Settled

/-- Two clients: a put of `k`, and a get of `k` that finds the value in the
backend before the put into L1. -/
def putAndGet : List (Threads.Move Bool CacheCall) :=
  [.enter false (.put "k" "1"), .enter true (.get "k"), .perform false,
    .perform true, .perform true, .perform true, .perform false, .leave false,
    .perform true, .leave true]

theorem coherent_at_rest_sample :
    ∃ engine replies state, CacheEngine.new .sample (.new ∅) = some engine ∧
      (machine .sample).run putAndGet (.start engine) = some (replies, state) ∧
      ∀ i, ∀ key ∈ (state.shared.l1.stripe i).indexMap, ∃ value,
        state.shared.l1.peek .sample key = some value ∧
        state.shared.backend.lookup key = some value := by
  have ran : ((CacheEngine.new .sample (.new ∅)).bind fun engine =>
      ((machine .sample).run putAndGet (.start engine)).map fun outcome =>
        (outcome.2.shared.l1.totalEvictions, decide outcome.2.AtRest)) =
          some (0, true) := by
    decide +kernel
  have along : ∀ engine ∈ CacheEngine.new .sample (.new ∅),
      (machine .sample).Along Undisturbed putAndGet (.start engine) := by
    decide +kernel
  rcases Option.bind_eq_some_iff.mp ran with ⟨engine, made, ran⟩
  rcases Option.map_eq_some_iff.mp ran with ⟨⟨replies, state⟩, ran, final⟩
  obtain ⟨noEviction, atRest⟩ := Prod.mk.inj final
  exact ⟨engine, replies, state, made, ran, coherent_at_rest .sample made _ ran
    (along engine made) noEviction (of_decide_eq_true atRest)⟩

/-- Two clients put different values of `k`. The first to write the backend is
the last to write L1. -/
def crossedPuts : List (Threads.Move Bool CacheCall) :=
  [.enter false (.put "k" "1"), .perform false, .enter true (.put "k" "2"),
    .perform true, .perform true, .leave true, .perform false, .leave false]

theorem crossedPuts_incoherent :
    ∃ engine replies state, CacheEngine.new .sample (.new ∅) = some engine ∧
      (machine .sample).run crossedPuts (.start engine) =
        some (replies, state) ∧
      state.shared.l1.totalEvictions = 0 ∧ state.AtRest ∧
      ¬ ∀ i, ∀ key ∈ (state.shared.l1.stripe i).indexMap, ∃ value,
        state.shared.l1.peek .sample key = some value ∧
        state.shared.backend.lookup key = some value := by
  have ran : ((CacheEngine.new .sample (.new ∅)).bind fun engine =>
      ((machine .sample).run crossedPuts (.start engine)).map fun outcome =>
        ((outcome.2.shared.l1.totalEvictions, decide outcome.2.AtRest),
          ((outcome.2.shared.l1.stripe
            (StripedCache.route .sample "k")).indexMap.lookup "k").isSome,
          outcome.2.shared.l1.peek .sample "k",
          outcome.2.shared.backend.lookup "k")) =
            some ((0, true), true, some "1", some "2") := by
    decide +kernel
  rcases Option.bind_eq_some_iff.mp ran with ⟨engine, made, ran⟩
  rcases Option.map_eq_some_iff.mp ran with ⟨⟨replies, state⟩, ran, final⟩
  obtain ⟨calm, resident, inL1, inBackend⟩ : (_ ∧ _) ∧ _ ∧ _ ∧ _ := by
    simpa only [Prod.mk.injEq] using final
  refine ⟨engine, replies, state, made, ran, calm.1,
    of_decide_eq_true calm.2, fun coherent => ?_⟩
  rcases coherent _ "k" (AList.lookup_isSome.mp resident) with
    ⟨value, held, stored⟩
  rw [inL1] at held
  rw [inBackend, ← held] at stored
  exact absurd stored (by decide)

end EngineThreads

end Walde
