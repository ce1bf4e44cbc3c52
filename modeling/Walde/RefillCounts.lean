import Walde.Accounting
import Walde.CounterWrap

namespace Walde

open Foundation Foundation.CountMin

/-! # What reading counts

A miss counts nothing, but a get that finds its value below L1 puts it into L1,
and this put counts the key like any other. -/

namespace EngineInstr

def asksL1 (instr : EngineInstr) (keys : List Key) : Prop :=
  ∀ call, instr.l1Call = some call → call.key ∈ keys

def refills (key : Key) : EngineInstr → Bool
  | .l1Put other _ => other = key
  | _ => false

end EngineInstr

def CacheEngine.operations (xx : XxHash) (i : Fin kNumStripes)
    (engine : CacheEngine) (instr : EngineInstr) : List (Operation Key) :=
  match instr.l1Call with
  | some call =>
      if StripedCache.route xx call.key = i then
        (engine.l1.stripe i).operations call
      else []
  | none => []

/-- L1 follows policies, and the counters of stripe `i` are what some
operations made of them. -/
def StripedCache.Sketched (xx : XxHash) (capacity : Nat) (i : Fin kNumStripes)
    (operations : List (Operation Key)) (cache : StripedCache) : Prop :=
  ∃ policies, cache.Follows capacity policies ∧
    (policies i).table =
      tableAfter uint32Size 4 (Policy.column xx) operations

namespace StripedCache

variable {xx : XxHash} {capacity : Nat} {i : Fin kNumStripes}
  {operations : List (Operation Key)} {cache : StripedCache}

theorem Sketched.new {config : StripedCacheConfig} {demotionQueue : Bool}
    (made : StripedCache.new config demotionQueue = some cache) :
    Sketched xx config.slabCapacity i [] cache :=
  ⟨_, StripeSystem.new_follows (Nat.mod_lt _ (by decide)) made, rfl⟩

theorem Sketched.call (sketched : Sketched xx capacity i operations cache)
    {call : CacheCall} {result : CallResult} {after : StripedCache}
    (called : cache.call xx call = some (result, after)) :
    Sketched xx capacity i (operations ++
      if route xx call.key = i then (cache.stripe i).operations call else [])
      after := by
  rcases sketched with ⟨policies, follows, table⟩
  rcases follows.called SlabAllocator.lawful called with ⟨slot, -, follows'⟩
  refine ⟨_, follows', ?_⟩
  rcases follows with ⟨views, lists, shows'⟩
  rw [shows'.update_table xx i, table, tableAfter, tableAfter,
    List.foldl_append]

theorem Sketched.miss (sketched : Sketched xx capacity i operations cache)
    {key : Key} {offered : List DemotionItem} {after : StripedCache}
    (missed : cache.get xx key = some ((none, offered), after)) :
    (cache.stripe (route xx key)).operations (.get key) = [] := by
  rcases sketched with ⟨policies, follows, -⟩
  have called := call_get xx cache key
  rw [missed, Option.map_some] at called
  rcases follows.called SlabAllocator.lawful called with ⟨slot, answered, -⟩
  rcases follows with ⟨views, lists, shows'⟩
  have reply : CacheReply.value none =
      .value ((policies (route xx key)).get xx key).1 :=
    congrArg (·.1) answered
  rw [Policy.get_fst, CacheReply.value.injEq] at reply
  rw [shows'.operations]
  exact if_neg (Policy.find_eq_none.mp reply.symm)

end StripedCache

/-! ## What an instruction counts -/

namespace CacheStripe

variable {stripe : CacheStripe} {done : List (Operation Key)} {call : CacheCall}

theorem recent_operations {other : Key}
    (member : other ∈ recent (done ++ stripe.operations call)) :
    other ∈ recent done ∨ other = call.key := by
  cases call with
  | get key =>
      rw [operations] at member
      split at member
      · simpa [Operation.onRecent, CacheCall.key] using member
      · exact .inl (by simpa using member)
  | put key value =>
      rw [operations] at member
      split at member
      · rw [List.append_cons, recent_concat, recent_concat] at member
        simpa [Operation.onRecent, CacheCall.key] using member
      · simpa [Operation.onRecent, CacheCall.key] using member
  | remove key => exact .inl (by simpa [operations] using member)

theorem tally_operations (key : Key) :
    tally (· = key) (done ++ stripe.operations call) ≤
      tally (· = key) done + if call.key = key then 1 else 0 := by
  have increment : tally (· = key) (done ++ [.increment call.key]) =
      tally (· = key) done + if call.key = key then 1 else 0 := by
    rw [tally_concat, Operation.onTally]
    split <;> rfl
  cases call with
  | get other =>
      rw [operations]
      split
      · exact increment.le
      · rw [List.append_nil]
        exact Nat.le_add_right _ _
  | put other value =>
      rw [operations]
      split
      · rw [List.append_cons, tally_concat]
        exact (Nat.div_le_self _ _).trans increment.le
      · exact increment.le
  | remove other =>
      rw [operations, List.append_nil]
      exact Nat.le_add_right _ _

end CacheStripe

namespace CacheEngine

variable {xx : XxHash} {capacity : Nat} {i : Fin kNumStripes}
  {done : List (Operation Key)} {engine after : CacheEngine}
  {instr : EngineInstr} {answer : EngineAnswer instr}

theorem perform_sketched
    (sketched : StripedCache.Sketched xx capacity i done engine.l1)
    (handled : perform xx instr engine = some (answer, after)) :
    StripedCache.Sketched xx capacity i
      (done ++ engine.operations xx i instr) after.l1 := by
  rw [operations]
  cases isCall : instr.l1Call with
  | some call =>
      rcases perform_l1 handled isCall with ⟨reply, offered, l1, called, rfl, -⟩
      exact sketched.call called
  | none =>
      rw [(perform_other handled isCall).1, List.append_nil]
      exact sketched

theorem recent_operations {keys : List Key} (asks : instr.asksL1 keys)
    (within : ∀ other ∈ recent done, other ∈ keys) :
    ∀ other ∈ recent (done ++ engine.operations xx i instr), other ∈ keys := by
  intro other member
  rw [operations] at member
  split at member
  · rename_i call isCall
    split at member
    · rcases CacheStripe.recent_operations member with before | rfl
      · exact within other before
      · exact asks call isCall
    · rw [List.append_nil] at member
      exact within other member
  · rw [List.append_nil] at member
    exact within other member

/-- Only refills add to the counter of a key that no get finds in L1. -/
theorem tally_operations {key : Key}
    (sketched : StripedCache.Sketched xx capacity i done engine.l1)
    (missed : instr = .l1Get key →
      ∀ outcome ∈ perform xx (.l1Get key) engine, outcome.1 = none)
    (handled : perform xx instr engine = some (answer, after)) :
    tally (· = key) (done ++ engine.operations xx i instr) ≤
      tally (· = key) done + (instr.refills key).toNat := by
  have nothing : ∀ {call}, instr.l1Call = some call →
      (engine.l1.stripe (StripedCache.route xx call.key)).operations call = [] →
      tally (· = key) (done ++ engine.operations xx i instr) ≤
        tally (· = key) done + (instr.refills key).toNat := by
    intro call isCall silent
    have none : engine.operations xx i instr = [] := by
      rw [operations, isCall]
      dsimp only
      split
      · rename_i here
        rw [← here]
        exact silent
      · rfl
    rw [none, List.append_nil]
    exact Nat.le_add_right _ _
  have counted : ∀ {call}, instr.l1Call = some call →
      (if call.key = key then 1 else 0) ≤ (instr.refills key).toNat →
      tally (· = key) (done ++ engine.operations xx i instr) ≤
        tally (· = key) done + (instr.refills key).toNat := by
    intro call isCall known
    rw [operations, isCall]
    dsimp only
    split
    · exact (CacheStripe.tally_operations key).trans
        (Nat.add_le_add_left known _)
    · rw [List.append_nil]
      exact Nat.le_add_right _ _
  cases instr with
  | l1Get other =>
      by_cases same : other = key
      · subst same
        have unfound := missed rfl _ handled
        rcases Option.bind_eq_some_iff.mp handled with
          ⟨⟨⟨found, offered⟩, l1⟩, got, equal⟩
        cases equal
        cases unfound
        exact nothing rfl (sketched.miss got)
      · exact counted rfl (by simp [CacheCall.key, same])
  | l1Put other value =>
      refine counted rfl ?_
      by_cases same : other = key <;>
        simp [CacheCall.key, EngineInstr.refills, same]
  | l1Remove other => exact nothing rfl rfl
  | _ =>
      change tally (· = key) (done ++ []) ≤ _
      rw [List.append_nil]
      exact Nat.le_add_right _ _

end CacheEngine

/-! ## Runs of gets -/

namespace EngineThreads

variable {Thread : Type}

def operations (xx : XxHash) (i : Fin kNumStripes)
    (state : EngineThreads Thread) (move : Threads.Move Thread CacheCall) :
    List (Operation Key) :=
  match performed state move with
  | some instr => state.shared.operations xx i instr
  | none => []

def Missed (xx : XxHash) (key : Key) (state : EngineThreads Thread)
    (move : Threads.Move Thread CacheCall) : Prop :=
  performed state move = some (.l1Get key) →
    ∀ outcome ∈ CacheEngine.perform xx (.l1Get key) state.shared,
      outcome.1 = none

instance (xx : XxHash) (key : Key) (state : EngineThreads Thread)
    (move : Threads.Move Thread CacheCall) :
    Decidable (Missed xx key state move) := by
  unfold Missed
  infer_instance

def reads (keys : List Key) :
    Threads.Contract CacheCall CacheReply EngineAnswer where
  asks instr := instr.asksL1 keys
  answers _ _ := True
  replies _ _ := True

theorem get_obeys {keys : List Key} {key : Key} (member : key ∈ keys) :
    (reads keys).Obeys (.get key) (CacheEngine.request (.get key)) := by
  have asks : ∀ {call : CacheCall}, call.key = key → ∀ other,
      some call = some other → other.key ∈ keys := by
    rintro call rfl other same
    cases same
    exact member
  refine ⟨asks rfl, fun inL1 _ => ?_⟩
  cases inL1 with
  | some value => trivial
  | none =>
      refine ⟨nofun, fun inL2 _ => ?_⟩
      cases inL2 with
      | some value => exact ⟨asks rfl, fun _ _ => trivial⟩
      | none =>
          refine ⟨nofun, fun inBackend _ => ?_⟩
          cases inBackend with
          | some value => exact ⟨asks rfl, fun _ _ => trivial⟩
          | none => trivial

/-- What holds in the middle of a run of gets of some keys: the sketch of the
stripe of `key` has counted nothing but these keys, and `key` at most as often
as it was put back into L1. -/
structure Reading (xx : XxHash) (capacity : Nat) (keys : List Key) (key : Key)
    (done : List (Operation Key)) (refilled : Nat)
    (state : EngineThreads Thread) : Prop where
  obeys : Threads.Everywhere (reads keys).Obeys state
  sketched : StripedCache.Sketched xx capacity (StripedCache.route xx key) done
    state.shared.l1
  within : ∀ other ∈ recent done, other ∈ keys
  counted : tally (· = key) done ≤ refilled

/-- Clients come with gets of these keys, and no get finds `key` in L1. -/
def OnlyMisses (xx : XxHash) (keys : List Key) (key : Key)
    (state : EngineThreads Thread) (move : Threads.Move Thread CacheCall) :
    Prop :=
  (∀ thread call, move = .enter thread call →
    ∃ other ∈ keys, call = .get other) ∧ Missed xx key state move

theorem Reading.move [DecidableEq Thread] {xx : XxHash} {capacity : Nat}
    {keys : List Key} {key : Key} {done : List (Operation Key)} {refilled : Nat}
    {state after : EngineThreads Thread}
    {move : Threads.Move Thread CacheCall} {reply : Option CacheReply}
    (reading : Reading xx capacity keys key done refilled state)
    (condition : OnlyMisses xx keys key state move)
    (ran : machine xx state move = some (reply, after)) :
    Reading xx capacity keys key
      (done ++ operations xx (StripedCache.route xx key) state move)
      (refilled + performs (fun _ instr => instr.refills key) state move)
      after := by
  have still : ∀ {activity : Thread → _}, Threads.Everywhere (reads keys).Obeys
      (⟨state.shared, activity⟩ : EngineThreads Thread) →
      Reading xx capacity keys key (done ++ []) (refilled + 0)
        (⟨state.shared, activity⟩ : EngineThreads Thread) := by
    intro activity obeys
    rw [List.append_nil, Nat.add_zero]
    exact ⟨obeys, reading.sketched, reading.within, reading.counted⟩
  cases Threads.moved ran with
  | @enter thread call idle =>
      rcases condition.1 thread call rfl with ⟨other, member, rfl⟩
      refine still (reading.obeys.update _ thread ?_)
      intro _ _ busy
      cases busy
      exact get_obeys member
  | @perform thread call instr next answer shared busy handled =>
      have head : state.head thread = some instr :=
        Threads.State.head_of_busy busy
      rcases reading.obeys thread call _ busy with ⟨asks, goesOn⟩
      have unfound : instr = .l1Get key →
          ∀ outcome ∈ CacheEngine.perform xx (.l1Get key) state.shared,
            outcome.1 = none := by
        rintro rfl
        exact condition.2 head
      simp only [operations, performs, performed, head]
      refine ⟨?_, ?_, ?_, ?_⟩
      · apply reading.obeys.update
        intro _ _ here
        cases here
        exact goesOn answer trivial
      · exact CacheEngine.perform_sketched reading.sketched handled
      · exact CacheEngine.recent_operations asks reading.within
      · exact (CacheEngine.tally_operations reading.sketched unfound
          handled).trans (Nat.add_le_add_right reading.counted _)
  | @leave thread call reply busy =>
      refine still (reading.obeys.update _ thread ?_)
      intro _ _ idle
      cases idle
  | @background shared stepped =>
      change Reading xx capacity keys key (done ++ []) (refilled + 0) _
      rw [List.append_nil, Nat.add_zero]
      refine ⟨reading.obeys, ?_, reading.within, reading.counted⟩
      change StripedCache.Sketched _ _ _ _ shared.l1
      rw [(CacheEngine.drain_kept stepped).1]
      exact reading.sketched

def entersWith : Threads.Move Thread CacheCall → Option Key
  | .enter _ call => some call.key
  | _ => none

/-- While clients only get, and no get finds `key` in L1, the estimate of `key`
counts its refills: at most one for each put with which a get of `key` ends that
found it below L1, halved at every decay. Misses count nothing. -/
theorem estimate_counts_refills {Thread : Type} [DecidableEq Thread]
    (xx : XxHash) {config : CacheEngineConfig}
    {store : AList fun _ : Key => Value} {engine : CacheEngine}
    (made : CacheEngine.new config (.new store) = some engine)
    {moves : List (Threads.Move Thread CacheCall)}
    {replies : List (Option CacheReply)} {state : EngineThreads Thread}
    (ran : (machine xx).run moves (.start engine) = some (replies, state))
    (reading : ∀ thread call, .enter thread call ∈ moves → call.isGet = true)
    {key : Key}
    (missed : (machine xx).Along (Missed xx key) moves (.start engine))
    {row : Nat} (rowLt : row < 4)
    (alone : ∀ thread other, .enter thread (.get other) ∈ moves →
      other ≠ key → CountMinSketch.columns xx 512 other row ≠
        CountMinSketch.columns xx 512 key row) :
    let i := StripedCache.route xx key
    let counted := (machine xx).log (operations xx i) moves (.start engine)
    let estimate := (state.shared.l1.stripe i).cms.estimate xx key
    estimate ≤ tally (· = key) counted ∧
    tally (· = key) counted ≤ (machine xx).tally
      (performs fun _ instr => instr.refills key) moves (.start engine) ∧
    ((recent counted).length < uint32Size →
      estimate = tally (· = key) counted) := by
  intro i counted estimate
  have gets : ∀ move ∈ moves, ∀ thread call, move = .enter thread call →
      ∃ other ∈ moves.filterMap entersWith, call = .get other := by
    rintro move member thread call rfl
    have isGet := reading thread call member
    cases call with
    | get other =>
        exact ⟨other, List.mem_filterMap.mpr ⟨_, member, rfl⟩, rfl⟩
    | put other value => cases isGet
    | remove other => cases isGet
  have start : Reading xx config.l1Config.slabCapacity
      (moves.filterMap entersWith) key [] 0
      (.start engine : EngineThreads Thread) := by
    rcases Option.map_eq_some_iff.mp made with ⟨l1, l1Made, rfl⟩
    exact ⟨.start _, .new l1Made, by simp [recent], Nat.le_refl _⟩
  have along : (machine xx).Along
      (OnlyMisses xx (moves.filterMap entersWith) key) moves (.start engine) :=
    missed.mono fun state move member missed => ⟨gets move member, missed⟩
  have final := Machine.run_log Reading.move start along ran
  rw [List.nil_append, Nat.zero_add] at final
  rcases final.sketched with ⟨policies, ⟨views, lists, shows'⟩, table⟩
  have frequency : estimate = (tableAfter uint32Size 4 (Policy.column xx)
      counted).least (uint32Size - 1) 4 (Policy.column xx key) := by
    rw [← table]
    exact (shows'.sim i).shows'.frequency xx key
  have apart : ∀ other ∈ recent counted, other ≠ key →
      Policy.column xx other row ≠ Policy.column xx key row := by
    intro other member different
    rcases List.mem_filterMap.mp (final.within other member) with
      ⟨move, moved, entered⟩
    cases move with
    | enter thread call =>
        rcases gets _ moved thread call rfl with ⟨found, -, rfl⟩
        cases entered
        exact alone thread _ moved different
    | perform thread => cases entered
    | leave thread => cases entered
    | background => cases entered
  have above : estimate ≤ tally (· = key) counted := by
    rw [frequency]
    exact least_le_tally rowLt apart
  refine ⟨above, final.counted, fun few => Nat.le_antisymm above ?_⟩
  rw [frequency]
  exact tally_le_least few key

def refillingGet : List (Threads.Move Bool CacheCall) :=
  [.enter false (.get "k"), .perform false, .perform false, .background,
    .perform false, .perform false, .leave false]

theorem refillingGet_run :
    ∃ engine replies, ∃ state : EngineThreads Bool,
      CacheEngine.new .sample (.new (AList.insert "k" "1" ∅)) = some engine ∧
      (machine .sample).run refillingGet (.start engine) =
        some (replies, state) ∧
      (machine .sample).Along (Missed .sample "k") refillingGet
        (.start engine) ∧
      (state.shared.l1.stripe (StripedCache.route .sample "k")).cms.estimate
        .sample "k" = 1 := by
  have ran : ((CacheEngine.new .sample (.new (AList.insert "k" "1" ∅))).bind
      fun engine =>
        ((machine .sample).run refillingGet (.start engine)).map fun outcome =>
          (decide ((machine .sample).Along (Missed .sample "k") refillingGet
              (.start engine)),
            (outcome.2.shared.l1.stripe
              (StripedCache.route .sample "k")).cms.estimate .sample "k")) =
        some (true, 1) := by
    decide +kernel
  rcases Option.bind_eq_some_iff.mp ran with ⟨engine, made, ran⟩
  rcases Option.map_eq_some_iff.mp ran with ⟨⟨replies, state⟩, ran, final⟩
  obtain ⟨missed, counted⟩ : _ ∧ _ := by
    simpa only [Prod.mk.injEq] using final
  exact ⟨engine, replies, state, made, ran, of_decide_eq_true missed, counted⟩

theorem refillingGet_only {thread : Bool} {call : CacheCall}
    (member : .enter thread call ∈ refillingGet) : call = .get "k" := by
  have shape : thread = false ∧ call = .get "k" := by
    simpa [refillingGet] using member
  exact shape.2

/-- The only get of the only key misses L1, and the key has an estimate of
one. -/
theorem refillingGet_counts :
    ∃ engine replies, ∃ state : EngineThreads Bool,
      CacheEngine.new .sample (.new (AList.insert "k" "1" ∅)) = some engine ∧
      (machine .sample).run refillingGet (.start engine) =
        some (replies, state) ∧
      (∀ thread call, .enter thread call ∈ refillingGet →
        call = .get "k") ∧
      (machine .sample).Along (Missed .sample "k") refillingGet
        (.start engine) ∧
      (state.shared.l1.stripe (StripedCache.route .sample "k")).cms.estimate
        .sample "k" ≠ 0 := by
  rcases refillingGet_run with ⟨engine, replies, state, made, ran, missed, one⟩
  refine ⟨engine, replies, state, made, ran,
    fun _ _ member => refillingGet_only member, missed, ?_⟩
  rw [one]
  decide

theorem estimate_counts_refills_sample :
    ∃ engine replies, ∃ state : EngineThreads Bool,
      CacheEngine.new .sample (.new (AList.insert "k" "1" ∅)) = some engine ∧
      (machine .sample).run refillingGet (.start engine) =
        some (replies, state) ∧
      let i := StripedCache.route .sample "k"
      let counted := (machine .sample).log (operations .sample i) refillingGet
        (.start engine)
      let estimate := (state.shared.l1.stripe i).cms.estimate .sample "k"
      estimate ≤ tally (· = "k") counted ∧
      tally (· = "k") counted ≤ (machine .sample).tally
        (performs fun _ instr => instr.refills "k") refillingGet
          (.start engine) ∧
      ((recent counted).length < uint32Size →
        estimate = tally (· = "k") counted) := by
  rcases refillingGet_run with ⟨engine, replies, state, made, ran, missed, -⟩
  refine ⟨engine, replies, state, made, ran, ?_⟩
  refine estimate_counts_refills .sample made ran ?_ missed
    (by decide : 0 < 4) ?_
  · intro thread call member
    rw [refillingGet_only member]
    rfl
  · intro thread other member different
    exact absurd (CacheCall.get.inj (refillingGet_only member)) different

end EngineThreads

end Walde
