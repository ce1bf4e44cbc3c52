import Walde.BatchGet
import Walde.Foundation.Threads

namespace Walde

open Foundation

/-! # Batch gets among other clients

A batch gives up the mutex of a stripe after each of its gets, so the calls of
other clients come between two gets on the same stripe. -/

inductive ClientCall
  | single (call : CacheCall)
  | batch (keys : List Key)
deriving DecidableEq, Repr

inductive ClientReply
  | single (result : CallResult)
  | batch (results : List (Option Value))
deriving DecidableEq, Repr

abbrev StripedClients (Thread : Type) :=
  Threads.State Thread ClientCall ClientReply StripedCache
    fun _ : LockedCall => CallResult

namespace StripedClients

section Definitions

variable {Thread : Type} (xx : XxHash) (route : Key → Fin kNumStripes)

def request : ClientCall → StripedProgram ClientReply
  | .single call => do
      let result ← Program.perform ((route call.key, call) : LockedCall)
      return .single result
  | .batch keys => do
      let results ← StripedCache.batchGet route keys
      return .batch results

def machine [DecidableEq Thread] :
    Machine (StripedClients Thread) (Threads.Move Thread ClientCall)
      (Option ClientReply) :=
  Threads.machine (StripedCache.handler xx) (request route) fun _ => none

def answer (cache : StripedCache) (s : Fin kNumStripes) (key : Key) :
    Option Value :=
  ((cache.stripe s).indexMap.lookup key).map fun index =>
    (cache.slab.pool index).value

/-- Every batch that returns has, for each stripe, results that the stripe would
have given all at once in some state that the batch has seen. -/
def BatchConsistent [DecidableEq Thread] (cache : StripedCache)
    (moves : List (Threads.Move Thread ClientCall)) : Prop :=
  ∀ before thread after, moves = before ++ .leave thread :: after →
    ∀ passed state keys results,
      (machine xx route).run before (.start cache) = some (passed, state) →
      (state.activity thread).returning =
        some (.batch keys, .batch results) →
      ∀ s, ∃ early late seen witness, before = early ++ late ∧
        (∀ call, .enter thread call ∉ late) ∧
        (machine xx route).run early (.start cache) = some (seen, witness) ∧
        ∀ idx : Fin keys.length, route (keys.get idx) = s →
          results[idx]? = some (answer witness.shared s (keys.get idx))

def reading (keys : List Key)
    (rest : List (Fin kNumStripes × Fin keys.length))
    (results : StripedCache.Results keys) : StripedProgram ClientReply := do
  let results ← StripedCache.readEach keys rest results
  return .batch (List.ofFn results)

/-- A key that a batch has read from a stripe where it has more to read. -/
def Between (keys : List Key)
    (rest : List (Fin kNumStripes × Fin keys.length)) (s : Fin kNumStripes)
    (idx : Fin keys.length) : Prop :=
  route (keys.get idx) = s ∧ (s, idx) ∉ rest ∧ ∃ other, (s, other) ∈ rest

/-- A put or a remove leaves the answers of a stripe for the keys that a batch
has read from it, as long as the batch has more keys of the stripe to read. -/
def Undisturbed (state : StripedClients Thread) :
    Threads.Move Thread ClientCall → Prop
  | .perform thread => ∀ instr ∈ state.head thread,
      (∀ key, instr.2 ≠ .get key) →
      ∀ outcome ∈ StripedCache.handler xx instr state.shared,
      ∀ other keys rest results,
        state.activity other = .busy (.batch keys)
          (reading keys rest results) →
        ∀ s idx, Between route keys rest s idx →
          answer outcome.2 s (keys.get idx) =
            answer state.shared s (keys.get idx)
  | _ => True

end Definitions

/-! ## What a locked step does to the answers -/

section Answers

variable {xx : XxHash} {capacity : Nat} {cache cache' : StripedCache}
  {policies : Fin kNumStripes → Policy}

theorem answer_eq (follows : cache.Follows capacity policies)
    (s : Fin kNumStripes) (key : Key) :
    answer cache s key = (policies s).find key := by
  rcases follows with ⟨views, lists, shows'⟩
  exact shows'.find s key

theorem answer_other (follows : cache.Follows capacity policies)
    {s : Fin kNumStripes} {call : CacheCall} {result : CallResult}
    (stepped : StripedCache.handler xx (s, call) cache = some (result, cache'))
    {other : Fin kNumStripes} (different : other ≠ s) (key : Key) :
    answer cache' other key = answer cache other key := by
  rcases follows.called SlabAllocator.lawful stepped with ⟨slot, -, follows'⟩
  rw [answer_eq follows', answer_eq follows, Function.update_of_ne different]

theorem answer_get (follows : cache.Follows capacity policies)
    {s : Fin kNumStripes} {key : Key} {result : CallResult}
    (stepped : StripedCache.handler xx (s, .get key) cache =
      some (result, cache')) :
    result.1.found = answer cache s key ∧ answer cache' = answer cache := by
  rcases follows.called SlabAllocator.lawful stepped with ⟨slot, rfl, follows'⟩
  constructor
  · rw [answer_eq follows]
    exact Policy.get_fst xx (policies s) key
  · funext other wanted
    by_cases same : other = s
    · subst same
      rw [answer_eq follows', answer_eq follows, Function.update_self]
      rcases follows with ⟨views, lists, shows'⟩
      exact congrFun ((shows'.distinct other).find_perm
        (Policy.get_perm xx (policies other) key)) wanted
    · exact answer_other follows stepped same wanted

end Answers

/-! ## The invariant -/

section Invariant

variable {Thread : Type} {xx : XxHash} {route : Key → Fin kNumStripes}
  {cache : StripedCache} {keys : List Key}
  {rest : List (Fin kNumStripes × Fin keys.length)}
  {results : StripedCache.Results keys}

def Agrees (route : Key → Fin kNumStripes) (keys : List Key)
    (rest : List (Fin kNumStripes × Fin keys.length))
    (results : StripedCache.Results keys) (s : Fin kNumStripes)
    (cache : StripedCache) : Prop :=
  ∀ idx, route (keys.get idx) = s → (s, idx) ∉ rest →
    results idx = answer cache s (keys.get idx)

def Agreed [DecidableEq Thread] (xx : XxHash)
    (route : Key → Fin kNumStripes) (cache : StripedCache)
    (past : List (Threads.Move Thread ClientCall)) (thread : Thread)
    (keys : List Key) (rest : List (Fin kNumStripes × Fin keys.length))
    (results : StripedCache.Results keys) (s : Fin kNumStripes) : Prop :=
  ∃ early late seen witness, past = early ++ late ∧
    (∀ call, .enter thread call ∉ late) ∧
    (machine xx route).run early (.start cache) = some (seen, witness) ∧
    Agrees route keys rest results s witness.shared

structure Tracks [DecidableEq Thread] (xx : XxHash)
    (route : Key → Fin kNumStripes) (cache : StripedCache)
    (past : List (Threads.Move Thread ClientCall)) (shared : StripedCache)
    (thread : Thread) (keys : List Key)
    (rest : List (Fin kNumStripes × Fin keys.length))
    (results : StripedCache.Results keys) : Prop where
  routed : ∀ position ∈ rest, route (keys.get position.2) = position.1
  stripe : ∀ s, Agrees route keys rest results s shared ∨
    (∀ idx, (s, idx) ∉ rest) ∧
      Agreed xx route cache past thread keys rest results s

structure Sound [DecidableEq Thread] (xx : XxHash)
    (route : Key → Fin kNumStripes) (capacity : Nat) (cache : StripedCache)
    (past : List (Threads.Move Thread ClientCall))
    (state : StripedClients Thread) : Prop where
  reached : ∃ replies,
    (machine xx route).run past (.start cache) = some (replies, state)
  shared : ∃ policies, state.shared.Follows capacity policies
  batch : ∀ thread keys program,
    state.activity thread = .busy (.batch keys) program →
    ∃ rest results, program = reading keys rest results ∧
      Tracks xx route cache past state.shared thread keys rest results

variable [DecidableEq Thread] {capacity : Nat}
  {past : List (Threads.Move Thread ClientCall)}
  {shared shared' : StripedCache} {state : StripedClients Thread}
  {thread : Thread} {s : Fin kNumStripes}

theorem Agreed.extend
    (agreed : Agreed xx route cache past thread keys rest results s)
    {move : Threads.Move Thread ClientCall}
    (inside : ∀ call, move ≠ .enter thread call) :
    Agreed xx route cache (past ++ [move]) thread keys rest results s := by
  rcases agreed with ⟨early, late, seen, witness, rfl, noEnter, ran, agrees⟩
  refine ⟨early, late ++ [move], seen, witness, by simp, ?_, ran, agrees⟩
  intro call member
  rcases List.mem_append.mp member with old | new
  · exact noEnter call old
  · exact inside call (List.mem_singleton.mp new).symm

theorem Sound.now (sound : Sound xx route capacity cache past state)
    (agrees : Agrees route keys rest results s state.shared) :
    Agreed xx route cache past thread keys rest results s := by
  rcases sound.reached with ⟨replies, ran⟩
  exact ⟨past, [], replies, state, by simp, by simp, ran, agrees⟩

theorem Tracks.stay (sound : Sound xx route capacity cache past state)
    (tracks : Tracks xx route cache past state.shared thread keys rest results)
    {move : Threads.Move Thread ClientCall}
    (inside : ∀ call, move ≠ .enter thread call)
    (kept : ∀ s idx, Between route keys rest s idx →
      answer shared' s (keys.get idx) =
        answer state.shared s (keys.get idx)) :
    Tracks xx route cache (past ++ [move]) shared' thread keys rest
      results := by
  refine ⟨tracks.routed, fun s => ?_⟩
  rcases tracks.stripe s with agrees | ⟨finished, agreed⟩
  · by_cases more : ∃ other, (s, other) ∈ rest
    · left
      intro idx here read
      rw [kept s idx ⟨here, read, more⟩]
      exact agrees idx here read
    · right
      exact ⟨fun idx member => more ⟨idx, member⟩,
        (sound.now agrees).extend inside⟩
  · right
    exact ⟨finished, agreed.extend inside⟩

theorem Tracks.read {idx : Fin keys.length}
    (tracks : Tracks xx route cache past shared thread keys
      ((s, idx) :: rest) results)
    (same : answer shared' = answer shared)
    {move : Threads.Move Thread ClientCall}
    (inside : ∀ call, move ≠ .enter thread call) :
    Tracks xx route cache (past ++ [move]) shared' thread keys rest
      (Function.update results idx (answer shared s (keys.get idx))) := by
  have here : route (keys.get idx) = s :=
    tracks.routed (s, idx) List.mem_cons_self
  refine ⟨fun position member =>
    tracks.routed position (List.mem_cons_of_mem _ member), fun other => ?_⟩
  rcases tracks.stripe other with agrees | ⟨finished, agreed⟩
  · left
    intro wanted there read
    rw [same]
    by_cases equal : wanted = idx
    · subst equal
      rw [Function.update_self, ← there, here]
    · rw [Function.update_of_ne equal]
      apply agrees wanted there
      intro member
      rcases List.mem_cons.mp member with first | member
      · exact equal (Prod.mk.inj first).2
      · exact read member
  · right
    have different : other ≠ s := by
      rintro rfl
      exact finished idx List.mem_cons_self
    refine ⟨fun wanted member =>
      finished wanted (List.mem_cons_of_mem _ member), ?_⟩
    rcases agreed.extend inside with
      ⟨early, late, seen, witness, split, noEnter, ran, agrees⟩
    refine ⟨early, late, seen, witness, split, noEnter, ran, ?_⟩
    intro wanted there read
    have away : wanted ≠ idx := by
      rintro rfl
      exact different (there.symm.trans here)
    rw [Function.update_of_ne away]
    exact agrees wanted there (finished wanted)

theorem Tracks.start : Tracks xx route cache past shared thread keys
    (StripedCache.batchOrder route keys) fun _ => none where
  routed position member := StripedCache.mem_batchOrder.mp member
  stripe s := by
    left
    intro idx here read
    exact absurd (StripedCache.mem_batchOrder.mpr here) read

theorem request_batch (keys : List Key) :
    request route (.batch keys) =
      reading keys (StripedCache.batchOrder route keys) fun _ => none := by
  simp only [request, reading, StripedCache.batchGet_eq, bind_assoc,
    pure_bind]

theorem reading_call {instr : LockedCall}
    {next : CallResult → StripedProgram ClientReply}
    (program : Program.call instr next = reading keys rest results) :
    ∃ s idx others, rest = (s, idx) :: others ∧
      instr = (s, .get (keys.get idx)) ∧
      ∀ result, next result =
        reading keys others (Function.update results idx result.1.found) := by
  cases rest with
  | nil => cases program
  | cons position others =>
      rcases position with ⟨s, idx⟩
      have equal : Program.call instr next =
          .call ((s, .get (keys.get idx)) : LockedCall) fun result =>
            reading keys others
              (Function.update results idx result.1.found) := program
      cases equal
      exact ⟨s, idx, others, rfl, rfl, fun _ => rfl⟩

theorem reading_pure {reply : ClientReply}
    (program : Program.pure reply = reading keys rest results) :
    rest = [] ∧ reply = .batch (List.ofFn results) := by
  cases rest with
  | nil =>
      cases program
      exact ⟨rfl, rfl⟩
  | cons position others =>
      rcases position with ⟨s, idx⟩
      cases program

theorem Sound.start {config : StripedCacheConfig} {demotionQueue : Bool}
    (made : StripedCache.new config demotionQueue = some cache) :
    Sound xx route config.slabCapacity cache []
      (.start cache : StripedClients Thread) where
  reached := ⟨[], rfl⟩
  shared := ⟨_, StripeSystem.new_follows (Nat.mod_lt _ (by decide)) made⟩
  batch _ _ _ busy := nomatch busy

theorem Sound.move (sound : Sound xx route capacity cache past state)
    {move : Threads.Move Thread ClientCall}
    (undisturbed : Undisturbed xx route state move)
    {reply : Option ClientReply} {after : StripedClients Thread}
    (ran : machine xx route state move = some (reply, after)) :
    Sound xx route capacity cache (past ++ [move]) after := by
  have reached : ∃ replies, (machine xx route).run (past ++ [move])
      (.start cache) = some (replies, after) := by
    rcases sound.reached with ⟨replies, before⟩
    exact ⟨_, Machine.run_append before (Machine.run_cons ran rfl)⟩
  rcases sound.shared with ⟨policies, follows⟩
  cases Threads.moved ran with
  | enter call idle =>
      rename_i thread
      refine ⟨reached, sound.shared, ?_⟩
      intro other keys program busy
      rcases Threads.busy_update busy with ⟨-, entered⟩ | ⟨different, before⟩
      · cases entered
        exact ⟨_, _, request_batch keys, .start⟩
      · rcases sound.batch other keys program before with
          ⟨rest, results, equal, tracks⟩
        refine ⟨rest, results, equal,
          tracks.stay sound ?_ fun _ _ _ => rfl⟩
        intro call' equal
        exact different (Threads.Move.enter.inj equal).1.symm
  | @perform thread call instr next result shared busy stepped =>
      rcases follows.called SlabAllocator.lawful stepped with ⟨slot, -, follows'⟩
      refine ⟨reached, ⟨_, follows'⟩, ?_⟩
      intro other keys program otherBusy
      rcases Threads.busy_update otherBusy with ⟨rfl, went⟩ | ⟨-, before⟩
      · cases went
        rcases sound.batch other keys _ busy with
          ⟨rest, results, equal, tracks⟩
        rcases reading_call equal with ⟨s, idx, others, rfl, rfl, program⟩
        rcases answer_get follows stepped with ⟨found, kept⟩
        refine ⟨others, _, program result, ?_⟩
        rw [found]
        exact tracks.read kept (by simp)
      · rcases sound.batch other keys program before with
          ⟨rest, results, rfl, tracks⟩
        refine ⟨rest, results, rfl, tracks.stay sound (by simp) ?_⟩
        intro s idx between
        have head : state.head thread = some instr :=
          Threads.State.head_of_busy busy
        by_cases isGet : ∃ key, instr.2 = .get key
        · rcases instr with ⟨target, pending⟩
          rcases isGet with ⟨key, rfl⟩
          rw [(answer_get follows stepped).2]
        · exact undisturbed instr head (not_exists.mp isGet) (result, shared)
            stepped other keys rest results before s idx between
  | @leave thread call reply busy =>
      refine ⟨reached, sound.shared, ?_⟩
      intro other keys program otherBusy
      rcases Threads.busy_update otherBusy with ⟨-, left⟩ | ⟨-, before⟩
      · cases left
      · rcases sound.batch other keys program before with
          ⟨rest, results, equal, tracks⟩
        exact ⟨rest, results, equal, tracks.stay sound (by simp)
          fun _ _ _ => rfl⟩
  | background stepped => cases stepped

theorem Sound.returns (sound : Sound xx route capacity cache past state)
    {results : List (Option Value)}
    (returning : (state.activity thread).returning =
      some (.batch keys, .batch results)) (s : Fin kNumStripes) :
    ∃ early late seen witness, past = early ++ late ∧
      (∀ call, .enter thread call ∉ late) ∧
      (machine xx route).run early (.start cache) = some (seen, witness) ∧
      ∀ idx : Fin keys.length, route (keys.get idx) = s →
        results[idx]? = some (answer witness.shared s (keys.get idx)) := by
  have busy := Threads.Activity.returning_eq_some returning
  rcases sound.batch thread keys _ busy with ⟨rest, found, equal, tracks⟩
  rcases reading_pure equal with ⟨rfl, filled⟩
  cases filled
  have agreed : Agreed xx route cache past thread keys [] found s := by
    rcases tracks.stripe s with agrees | ⟨-, agreed⟩
    · exact sound.now agrees
    · exact agreed
  rcases agreed with ⟨early, late, seen, witness, split, noEnter, ran, agrees⟩
  refine ⟨early, late, seen, witness, split, noEnter, ran, ?_⟩
  intro idx here
  rw [← agrees idx here List.not_mem_nil]
  simp

/-- As long as nothing disturbs a batch between two gets on a stripe, batches
are consistent stripe by stripe. -/
theorem batchConsistent_of_undisturbed (xx : XxHash)
    (route : Key → Fin kNumStripes) {config : StripedCacheConfig}
    {demotionQueue : Bool}
    (made : StripedCache.new config demotionQueue = some cache)
    (moves : List (Threads.Move Thread ClientCall))
    (undisturbed : (machine xx route).Along (Undisturbed xx route) moves
      (.start cache)) :
    BatchConsistent xx route cache moves := by
  rintro before thread after rfl passed state keys results ran returning s
  have sound : Sound xx route config.slabCapacity cache before state :=
    Machine.run_preserves_past
      (fun _ _ _ _ _ sound undisturbed ran => sound.move undisturbed ran)
      [] (.start made) undisturbed.of_append ran
  exact sound.returns returning s

end Invariant

/-! ## Two clients -/

/-- A get, or a step while the other client is not inside a call. -/
def Calm (state : StripedClients Bool) :
    Threads.Move Bool ClientCall → Prop
  | .perform thread => ∀ instr ∈ state.head thread,
      instr.2 = .get instr.2.key ∨
        (state.activity (!thread)).isIdle = true
  | _ => True

instance (state : StripedClients Bool) :
    (move : Threads.Move Bool ClientCall) → Decidable (Calm state move)
  | .perform thread => inferInstanceAs (Decidable
      (∀ instr ∈ state.head thread, instr.2 = .get instr.2.key ∨
        (state.activity (!thread)).isIdle = true))
  | .enter _ _ => .isTrue trivial
  | .leave _ => .isTrue trivial
  | .background => .isTrue trivial

theorem Calm.undisturbed {xx : XxHash} {route : Key → Fin kNumStripes}
    {state : StripedClients Bool} {move : Threads.Move Bool ClientCall}
    (calm : Calm state move) : Undisturbed xx route state move := by
  cases move with
  | perform thread =>
      intro instr head notGet outcome _ other keys rest results busy s idx _
      exfalso
      rcases calm instr head with isGet | idle
      · exact notGet _ isGet
      · by_cases same : other = thread
        · subst same
          rw [Option.mem_def, Threads.State.head, busy] at head
          cases rest with
          | nil => cases head
          | cons position others =>
              cases head
              exact notGet _ rfl
        · rw [← Bool.eq_not_of_ne same, busy] at idle
          cases idle
  | enter _ _ => trivial
  | leave _ => trivial
  | background => trivial

def calmBatch : List (Threads.Move Bool ClientCall) :=
  [.enter true (.single (.put "k" "1")), .perform true, .leave true,
    .enter false (.batch ["k", "w", "k"]), .perform false,
    .enter true (.single (.get "k")), .perform true, .perform false,
    .perform false, .leave false]

theorem batchConsistent_sample :
    ∃ cache replies last, StripedCache.new .sample true = some cache ∧
      (machine .sample (StripedCache.route .sample)).run calmBatch
        (.start cache) = some (replies, last) ∧
      replies.getLast? = some (some (.batch [some "1", none, some "1"])) ∧
      BatchConsistent .sample (StripedCache.route .sample) cache calmBatch := by
  have ran : ((StripedCache.new .sample true).bind fun cache =>
      ((machine .sample (StripedCache.route .sample)).run calmBatch
        (.start cache)).map fun outcome => outcome.1.getLast?) =
          some (some (some (.batch [some "1", none, some "1"]))) := by
    decide +kernel
  have calm : ∀ cache ∈ StripedCache.new .sample true,
      (machine .sample (StripedCache.route .sample)).Along Calm calmBatch
        (.start cache) := by
    decide +kernel
  rcases Option.bind_eq_some_iff.mp ran with ⟨cache, made, ran⟩
  rcases Option.map_eq_some_iff.mp ran with ⟨⟨replies, last⟩, ran, final⟩
  exact ⟨cache, replies, last, made, ran, final,
    batchConsistent_of_undisturbed .sample _ made _
      ((calm cache made).mono fun _ _ _ calm => calm.undisturbed)⟩

/-- A put between the two gets of a key that is listed twice. -/
def tornBatch : List (Threads.Move Bool ClientCall) :=
  [.enter false (.batch ["k", "k"]), .perform false,
    .enter true (.single (.put "k" "1")), .perform true, .perform false]

theorem tornBatch_inconsistent :
    ∃ cache replies last, StripedCache.new .sample true = some cache ∧
      (machine .sample (StripedCache.route .sample)).run
        (tornBatch ++ [.leave false]) (.start cache) = some (replies, last) ∧
      replies.getLast? = some (some (.batch [none, some "1"])) ∧
      ¬ BatchConsistent .sample (StripedCache.route .sample) cache
        (tornBatch ++ [.leave false]) := by
  have ran : ((StripedCache.new .sample true).bind fun cache =>
      ((machine .sample (StripedCache.route .sample)).run
        (tornBatch ++ [.leave false]) (.start cache)).map fun outcome =>
          outcome.1.getLast?) = some (some (some (.batch [none, some "1"]))) := by
    decide +kernel
  have torn : ((StripedCache.new .sample true).bind fun cache =>
      ((machine .sample (StripedCache.route .sample)).run tornBatch
        (.start cache)).map fun outcome =>
          (outcome.2.activity false).returning) =
        some (some (.batch ["k", "k"], .batch [none, some "1"])) := by
    decide +kernel
  rcases Option.bind_eq_some_iff.mp ran with ⟨cache, made, ran⟩
  rcases Option.map_eq_some_iff.mp ran with ⟨⟨replies, last⟩, ran, final⟩
  rw [made, Option.bind_some] at torn
  rcases Option.map_eq_some_iff.mp torn with
    ⟨⟨passed, state⟩, before, returning⟩
  refine ⟨cache, replies, last, made, ran, final, fun consistent => ?_⟩
  rcases consistent tornBatch false [] rfl passed state ["k", "k"] _ before
      returning (StripedCache.route .sample "k") with
    ⟨early, late, seen, witness, -, -, -, agrees⟩
  have first := agrees 0 rfl
  have second := agrees 1 rfl
  have impossible := first.trans second.symm
  cases impossible

end StripedClients

end Walde
