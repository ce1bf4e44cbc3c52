import Mathlib.Data.List.ReduceOption
import Walde.Accounting
import Walde.Availability
import Walde.BaselineReplay
import Walde.Foundation.Completion
import Walde.Foundation.Shares
import Walde.LookupPath

namespace Walde

open Foundation

/-! # The threads of the benchmarks

Any number of benchmark threads and the drainer on one engine. -/

inductive BenchCall
  | warmUp (op : BenchOp)
  | measured (op : BenchOp)
deriving DecidableEq, Repr

def BenchCall.toMeasure : BenchCall → Option BenchOp
  | .warmUp _ => none
  | .measured op => some op

/-- A measured operation, and the path in its breakdown. -/
structure Measured where
  op : BenchOp
  path : LatencyPath
deriving DecidableEq, Repr

abbrev BenchThreads (Thread : Type) :=
  Threads.State Thread BenchCall (Option Measured) CacheEngine EngineAnswer

namespace BenchThreads

open CacheEngine

def warmUp (op : BenchOp) : EngineProgram Unit :=
  match op.type with
  | .put | .rmw => do
      let _ ← put op.key op.value
  | .get => do
      let _ ← get op.key

/-- A breakdown starts with the path of a miss. -/
def measured (op : BenchOp) : EngineProgram Measured :=
  match op.type with
  | .put => do
      let (_, path) ← (putPath op.key op.value).run .miss
      return ⟨op, path⟩
  | .rmw => do
      let (_, path) ← (getPath op.key).run .miss
      let _ ← put op.key op.value
      return ⟨op, path⟩
  | .get => do
      let (_, path) ← (getPath op.key).run .miss
      return ⟨op, path⟩

def request : BenchCall → EngineProgram (Option Measured)
  | .warmUp op => do
      warmUp op
      return none
  | .measured op => do
      let outcome ← measured op
      return some outcome

variable {Thread : Type}

def machine [DecidableEq Thread] (xx : XxHash) :
    Machine (BenchThreads Thread) (Threads.Move Thread BenchCall)
      (Option (Option Measured)) :=
  Threads.machine (perform xx) request (drain xx)

def measuredOf (replies : List (Option (Option Measured))) : List Measured :=
  replies.filterMap Option.join

end BenchThreads

/-! ## Paths and counters -/

inductive LookupCounter
  | l1Hits
  | l1Misses
  | l2Hits
  | l2Misses
  | backendReads
deriving DecidableEq, Repr

namespace LookupCounter

def value : LookupCounter → CacheEngine → Nat
  | .l1Hits => CacheEngine.l1Hits
  | .l1Misses => CacheEngine.l1Misses
  | .l2Hits => CacheEngine.l2Hits
  | .l2Misses => CacheEngine.l2Misses
  | .backendReads => CacheEngine.backendReads

def counts : LookupCounter → LatencyPath → Bool
  | .l1Hits, path => path = .l1Hit
  | .l1Misses, path => path ≠ .l1Hit
  | .l2Hits, path => path = .l2Hit
  | .l2Misses, path => path = .backendHit ∨ path = .miss
  | .backendReads, path => path = .backendHit ∨ path = .miss

def raisedBy (counter : LookupCounter) :
    (instr : EngineInstr) → EngineAnswer instr → Bool
  | .l1Get _, some _ => counter = .l1Hits
  | .l1Get _, none => counter = .l1Misses
  | .l2Get _, some _ => counter = .l2Hits
  | .l2Get _, none => counter = .l2Misses
  | .backendGet _, _ => counter = .backendReads
  | _, _ => false

def countsMeasured (counter : LookupCounter) (measured : Measured) : Bool :=
  measured.op.isRead && counter.counts measured.path

theorem value_perform {xx : XxHash} {config : CacheEngineConfig}
    {engine after : CacheEngine} {instr : EngineInstr}
    {answer : EngineAnswer instr} (valid : engine.Valid xx config)
    (handled : CacheEngine.perform xx instr engine = some (answer, after))
    (counter : LookupCounter) :
    counter.value after =
      counter.value engine + (counter.raisedBy instr answer).toNat := by
  have l1 := valid.perform_lookups handled .l1
  have l2 := valid.perform_lookups handled .l2
  have backend := valid.perform_lookups handled .backend
  simp only [CacheEngine.lookups, CacheEngine.referred] at l1 l2 backend
  cases instr with
  | l1Get key | l2Get key =>
      cases answer <;> cases counter <;>
        simp [EngineInstr.looksIn, EngineInstr.goesOnTo, value, raisedBy]
          at l1 l2 backend ⊢ <;>
        omega
  | _ =>
      cases counter <;>
        simp [EngineInstr.looksIn, EngineInstr.goesOnTo, value, raisedBy]
          at l1 l2 backend ⊢ <;>
        omega

theorem value_drain {xx : XxHash} {engine after : CacheEngine}
    (drained : engine.drain xx = some after) (counter : LookupCounter) :
    counter.value after = counter.value engine := by
  have kept := (CacheEngine.drain_kept drained).2.2.2
  have l1 := kept .l1
  have l2 := kept .l2
  have backend := kept .backend
  simp only [CacheEngine.lookups, CacheEngine.referred] at l1 l2 backend
  cases counter <;> simp only [value] <;> omega

end LookupCounter

namespace BenchThreads

/-! ## What a call has counted -/

def settled : EngineProgram (Option Measured) → Option Measured
  | .pure outcome => outcome
  | .call (.l1Put _ _) next => settled (next false)
  | .call (.backendPut _ _) next => settled (next true)
  | .call _ _ => none

def hasCounted (counter : LookupCounter) :
    EngineProgram (Option Measured) → Bool
  | .call (.l2Get _) _ => counter = .l1Misses
  | .call (.backendGet _) _ => counter = .l1Misses ∨ counter = .l2Misses
  | program => (settled program).any counter.countsMeasured

def share (counter : LookupCounter) :
    Threads.Share (Option Measured) EngineAnswer where
  raises instr answer := (counter.raisedBy instr answer).toNat
  raised program := (hasCounted counter program).toNat

theorem share_of (xx : XxHash) (config : CacheEngineConfig)
    (counter : LookupCounter) :
    (share counter).Of (CacheEngine.perform xx) (CacheEngine.drain xx)
      (CacheEngine.Valid xx config) counter.value := by
  constructor
  · intro instr engine answer after valid handled
    exact ⟨(valid.perform handled).1, counter.value_perform valid handled⟩
  · intro engine after valid stepped
    exact ⟨(valid.drained stepped).1, counter.value_drain stepped⟩

theorem tells_getPath (counter : LookupCounter) (op : BenchOp)
    (read : op.isRead = true)
    {next : Option Value × LatencyPath → EngineProgram (Option Measured)}
    (settles : ∀ outcome, settled (next outcome) = some ⟨op, outcome.2⟩)
    (counted : ∀ outcome, hasCounted counter (next outcome) =
      counter.counts outcome.2)
    (tells : ∀ outcome, (share counter).Tells (next outcome)) :
    (share counter).raised
        ((CacheEngine.getPath op.key).run .miss >>= next) = 0 ∧
      (share counter).Tells
        ((CacheEngine.getPath op.key).run .miss >>= next) := by
  -- What is left of the call, with or without the put into L1.
  have raised : ∀ outcome,
      (share counter).raised (next outcome) = (counter.counts outcome.2).toNat :=
    fun outcome => congrArg Bool.toNat (counted outcome)
  have refilled : ∀ (value : Value) (outcome : Option Value × LatencyPath),
      (share counter).raised
          (.call (.l1Put op.key value) fun _ => next outcome) =
        (counter.counts outcome.2).toNat := by
    intro value outcome
    change ((settled (next outcome)).any counter.countsMeasured).toNat = _
    rw [settles, Option.any_some, LookupCounter.countsMeasured, read,
      Bool.true_and]
  have refills : ∀ (value : Value) (outcome : Option Value × LatencyPath),
      (share counter).Tells
        (.call (.l1Put op.key value) fun _ => next outcome) := by
    intro value outcome _
    refine ⟨?_, tells outcome⟩
    rw [raised, refilled]
    rfl
  refine ⟨rfl, fun inL1 => ?_⟩
  cases inL1 with
  | some value =>
      refine ⟨(raised (some value, .l1Hit)).trans ?_, tells _⟩
      cases counter <;> rfl
  | none =>
      refine ⟨by cases counter <;> rfl, fun inL2 => ?_⟩
      cases inL2 with
      | some value =>
          refine ⟨(refilled value (some value, .l2Hit)).trans ?_, refills _ _⟩
          cases counter <;> rfl
      | none =>
          refine ⟨by cases counter <;> rfl, fun inBackend => ?_⟩
          cases inBackend with
          | some value =>
              refine ⟨(refilled value (some value, .backendHit)).trans ?_,
                refills _ _⟩
              cases counter <;> rfl
          | none =>
              refine ⟨(raised (none, .miss)).trans ?_, tells _⟩
              cases counter <;> rfl

theorem tells_measured (counter : LookupCounter) (op : BenchOp) :
    (share counter).raised (request (.measured op)) = 0 ∧
      (share counter).Tells (request (.measured op)) := by
  rcases op with ⟨type, key, value⟩
  cases type with
  | put => exact ⟨rfl, fun _ => ⟨rfl, fun _ => ⟨rfl, trivial⟩⟩⟩
  | get =>
      simp only [request, measured, bind_assoc]
      apply tells_getPath counter ⟨.get, key, value⟩ rfl
      · exact fun _ => rfl
      · exact fun _ => rfl
      · exact fun _ => trivial
  | rmw =>
      simp only [request, measured, bind_assoc]
      apply tells_getPath counter ⟨.rmw, key, value⟩ rfl
      · exact fun _ => rfl
      · exact fun _ => rfl
      · exact fun _ _ => ⟨rfl, fun _ => ⟨rfl, trivial⟩⟩

/-! ## What a measured operation replies -/

/-- A read of one of these keys does not miss, and what is no read leaves the
breakdown as it was. -/
def reports (kept : Set Key) : BenchCall → Option Measured → Prop
  | .warmUp _, reply => reply = none
  | .measured op, reply => ∃ path, reply = some ⟨op, path⟩ ∧
      (op.isRead = true → op.key ∈ kept → path ≠ .miss) ∧
      (op.isRead = false → path = .miss)

section Reports

variable {kept : Set Key} {call : BenchCall} {key : Key} {value : Value}

theorem obeys_put {next : Bool → EngineProgram (Option Measured)}
    (rest : ∀ inserted,
      (EngineThreads.stays kept (reports kept)).Obeys call (next inserted)) :
    (EngineThreads.stays kept (reports kept)).Obeys call
      (CacheEngine.put key value >>= next) :=
  ⟨trivial, fun _ _ => ⟨trivial, fun inserted _ => rest inserted⟩⟩

theorem obeys_get {next : Option Value → EngineProgram (Option Measured)}
    (rest : ∀ found,
      (EngineThreads.stays kept (reports kept)).Obeys call (next found)) :
    (EngineThreads.stays kept (reports kept)).Obeys call
      (CacheEngine.get key >>= next) := by
  refine ⟨trivial, fun inL1 _ => ?_⟩
  cases inL1 with
  | some value => exact rest _
  | none =>
      refine ⟨trivial, fun inL2 _ => ?_⟩
      cases inL2 with
      | some value => exact ⟨trivial, fun _ _ => rest _⟩
      | none =>
          refine ⟨trivial, fun inBackend _ => ?_⟩
          cases inBackend with
          | some value => exact ⟨trivial, fun _ _ => rest _⟩
          | none => exact rest _

theorem obeys_getPath
    {next : Option Value × LatencyPath → EngineProgram (Option Measured)}
    (rest : ∀ outcome, (key ∈ kept → outcome.2 ≠ .miss) →
      (EngineThreads.stays kept (reports kept)).Obeys call (next outcome)) :
    (EngineThreads.stays kept (reports kept)).Obeys call
      ((CacheEngine.getPath key).run .miss >>= next) := by
  refine ⟨trivial, fun inL1 _ => ?_⟩
  cases inL1 with
  | some value => exact rest (some value, .l1Hit) fun _ => nofun
  | none =>
      refine ⟨trivial, fun inL2 _ => ?_⟩
      cases inL2 with
      | some value =>
          exact ⟨trivial, fun _ _ => rest (some value, .l2Hit) fun _ => nofun⟩
      | none =>
          refine ⟨trivial, fun inBackend known => ?_⟩
          cases inBackend with
          | some value =>
              exact ⟨trivial, fun _ _ =>
                rest (some value, .backendHit) fun _ => nofun⟩
          | none =>
              exact rest (none, .miss) fun member => absurd rfl (known member)

theorem request_reports (kept : Set Key) (call : BenchCall) :
    (EngineThreads.stays kept (reports kept)).Obeys call (request call) := by
  rcases call with ⟨type, key, value⟩ | ⟨type, key, value⟩
  · cases type with
    | put => exact obeys_put fun _ => rfl
    | rmw => exact obeys_put fun _ => rfl
    | get =>
        simp only [request, warmUp, bind_assoc]
        exact obeys_get fun _ => rfl
  · cases type with
    | put =>
        exact ⟨trivial, fun _ _ => ⟨trivial, fun _ _ =>
          ⟨.miss, rfl, nofun, fun _ => rfl⟩⟩⟩
    | get =>
        simp only [request, measured, bind_assoc]
        exact obeys_getPath fun outcome found =>
          ⟨outcome.2, rfl, fun _ => found, nofun⟩
    | rmw =>
        simp only [request, measured, bind_assoc]
        exact obeys_getPath fun outcome found =>
          obeys_put fun _ => ⟨outcome.2, rfl, fun _ => found, nofun⟩

end Reports

/-! ## Runs -/

section Runs

variable {Thread : Type} [DecidableEq Thread] {xx : XxHash}
  {config : CacheEngineConfig}

def opsOf (moves : List (Threads.Move Thread BenchCall)) : List BenchOp :=
  (moves.filterMap Threads.Move.entered).filterMap BenchCall.toMeasure

theorem ops_of_reports {kept : Set Key}
    {done : List (BenchCall × Option Measured)}
    (reported : ∀ pair ∈ done, reports kept pair.1 pair.2) :
    (done.map Prod.snd).reduceOption.map Measured.op =
      (done.map Prod.fst).filterMap BenchCall.toMeasure := by
  induction done with
  | nil => rfl
  | cons pair rest induction =>
      have others := induction fun pair member =>
        reported pair (List.mem_cons_of_mem _ member)
      have here := reported pair List.mem_cons_self
      rcases pair with ⟨call, reply⟩
      cases call with
      | warmUp op =>
          obtain rfl : reply = none := here
          exact others
      | measured op =>
          rcases here with ⟨path, rfl, -⟩
          exact congrArg (op :: ·) others

theorem shares_of_replies (counter : LookupCounter)
    (replies : List (Option (Option Measured))) :
    (replies.map (share counter).reply).sum =
      (measuredOf replies).countP counter.countsMeasured := by
  have shares : (share counter).reply =
      fun reply => (reply.join.any counter.countsMeasured).toNat := by
    funext reply
    cases reply <;> rfl
  rw [shares, Machine.sum_toNat, measuredOf, List.countP_filterMap]
  apply List.countP_congr
  intro reply _
  cases reply.join <;> rfl

section FromRest

variable {backend : InMemoryBackend} {engine : CacheEngine}
  (made : CacheEngine.new config backend = some engine)
  {warm : List (Threads.Move Thread BenchCall)}
  {replies replies' : List (Option (Option Measured))}
  {middle last : BenchThreads Thread}
  (warmed : (machine xx).run warm (.start engine) = some (replies, middle))
  {moves : List (Threads.Move Thread BenchCall)}
  (ran : (machine xx).run moves middle = some (replies', last))
  (fromRest : middle.AtRest) (toRest : last.AtRest)

include made warmed

theorem valid_of_warmed : middle.shared.Valid xx config := by
  have reached : (EngineThreads.stays ∅ (reports ∅)).Holds
      (EngineThreads.Stored xx config ∅) middle :=
    Machine.run_preserves (fun _ _ _ _ holds _ stepped =>
      holds.move (EngineThreads.stays_served xx config)
        (fun _ => request_reports ∅ _) stepped)
      (.start ⟨.new made, nofun⟩) (.of_forall (fun _ _ _ => trivial) _) warmed
  exact reached.shared.valid

include ran fromRest toRest

/-- Every operation that was given has replied, and of keys that the backend
had. -/
theorem reported_of_run :
    ∃ done : List (BenchCall × Option Measured),
      measuredOf replies' = (done.map Prod.snd).reduceOption ∧
      (∀ pair ∈ done, reports {key | middle.shared.backend.lookup key ≠ none}
        pair.1 pair.2) ∧
      (done.map Prod.fst).Perm (moves.filterMap Threads.Move.entered) := by
  let kept : Set Key := {key | middle.shared.backend.lookup key ≠ none}
  have holds : (EngineThreads.stays kept (reports kept)).Holds
      (EngineThreads.Stored xx config kept) middle :=
    ⟨⟨valid_of_warmed made warmed, fun _ member => member⟩,
      fromRest.everywhere _⟩
  rcases holds.run_matches (EngineThreads.stays_served xx config)
      (fun _ call _ => request_reports kept call) ran fromRest toRest with
    ⟨done, replied, reported, calls⟩
  refine ⟨done, ?_, reported, calls⟩
  rw [replied, measuredOf, List.reduceOption, List.reduceOption,
    List.filterMap_filterMap]
  rfl

theorem measured_ops_perm :
    ((measuredOf replies').map Measured.op).Perm (opsOf moves) := by
  rcases reported_of_run made warmed ran fromRest toRest with
    ⟨done, measuredAs, reported, calls⟩
  rw [measuredAs, ops_of_reports reported]
  exact calls.filterMap _

theorem path_of_measured {outcome : Measured}
    (member : outcome ∈ measuredOf replies') :
    (outcome.op.isRead = true →
      middle.shared.backend.lookup outcome.op.key ≠ none →
        outcome.path ≠ .miss) ∧
    (outcome.op.isRead = false → outcome.path = .miss) := by
  rcases reported_of_run made warmed ran fromRest toRest with
    ⟨done, measuredAs, reported, -⟩
  rw [measuredAs] at member
  rcases List.mem_map.mp (List.reduceOption_mem_iff.mp member) with
    ⟨⟨call, reply⟩, inDone, rfl⟩
  have here := reported _ inDone
  cases call with
  | warmUp op => cases here
  | measured op =>
      rcases here with ⟨path, equal, found⟩
      cases equal
      exact found

theorem counter_eq_of_run
    (measuring : ∀ thread op, .enter thread (.warmUp op) ∉ moves)
    (counter : LookupCounter) :
    counter.value last.shared = counter.value middle.shared +
      (measuredOf replies').countP counter.countsMeasured := by
  have sharing : (share counter).Holds (CacheEngine.Valid xx config) middle :=
    ⟨valid_of_warmed made warmed, fromRest.everywhere _⟩
  have counted := sharing.run (share_of xx config counter)
    (fun thread call entered => by
      cases call with
      | warmUp op => exact absurd entered (measuring thread op)
      | measured op => exact tells_measured counter op)
    ran fromRest toRest
  rw [counted, shares_of_replies]

end FromRest

/-- Any number of threads warm an engine up. Then any number of them measure
operations, next to each other and to the drainer, and come to rest. The
operations that were measured are the ones that were given, in some order.
Every counter has grown by the paths that count on it, and no read of a key that
the backend had has missed. -/
theorem paths_counted {backend : InMemoryBackend} {engine : CacheEngine}
    (made : CacheEngine.new config backend = some engine)
    {warm : List (Threads.Move Thread BenchCall)}
    {replies : List (Option (Option Measured))} {middle : BenchThreads Thread}
    (warmed : (machine xx).run warm (.start engine) = some (replies, middle))
    (fromRest : middle.AtRest)
    {moves : List (Threads.Move Thread BenchCall)}
    (measuring : ∀ thread op, .enter thread (.warmUp op) ∉ moves)
    {replies' : List (Option (Option Measured))} {last : BenchThreads Thread}
    (ran : (machine xx).run moves middle = some (replies', last))
    (toRest : last.AtRest) :
    ((measuredOf replies').map Measured.op).Perm (opsOf moves) ∧
      (∀ counter : LookupCounter, counter.value last.shared =
        counter.value middle.shared +
          (measuredOf replies').countP counter.countsMeasured) ∧
      ∀ outcome ∈ measuredOf replies',
        (outcome.op.isRead = true →
          middle.shared.backend.lookup outcome.op.key ≠ none →
            outcome.path ≠ .miss) ∧
        (outcome.op.isRead = false → outcome.path = .miss) := by
  refine ⟨?_, ?_, ?_⟩
  · exact measured_ops_perm made warmed ran fromRest toRest
  · exact counter_eq_of_run made warmed ran fromRest toRest measuring
  · exact fun _ => path_of_measured made warmed ran fromRest toRest

end Runs

/-- A read-modify-write comes in between the steps of a read that misses. -/
theorem paths_counted_sample :
    ∃ engine replies middle replies' last,
      CacheEngine.new .sample (.new ∅) = some engine ∧
      (machine .sample).run [.enter false (.warmUp ⟨.put, "k", "1"⟩),
        .perform false, .perform false, .leave false] (.start engine) =
          some (replies, middle) ∧
      (machine .sample).run [.enter false (.measured ⟨.get, "w", ""⟩),
        .perform false, .enter true (.measured ⟨.rmw, "k", "2"⟩),
        .perform true, .background, .perform false, .perform true,
        .perform false, .perform true, .leave true, .leave false] middle =
          some (replies', last) ∧
      measuredOf replies' = [⟨⟨.rmw, "k", "2"⟩, .l1Hit⟩,
        ⟨⟨.get, "w", ""⟩, .miss⟩] ∧
      last.shared.l1Misses = middle.shared.l1Misses + 1 := by
  have ran : ((CacheEngine.new .sample (.new ∅)).bind fun engine =>
      ((machine .sample).run [.enter false (.warmUp ⟨.put, "k", "1"⟩),
        .perform false, .perform false, .leave false]
        (.start engine : BenchThreads Bool)).bind fun outcome =>
      if outcome.2.AtRest then
        ((machine .sample).run [.enter false (.measured ⟨.get, "w", ""⟩),
          .perform false, .enter true (.measured ⟨.rmw, "k", "2"⟩),
          .perform true, .background, .perform false, .perform true,
          .perform false, .perform true, .leave true, .leave false]
          outcome.2).bind fun final =>
            if final.2.AtRest then some (measuredOf final.1) else none
      else none) = some [⟨⟨.rmw, "k", "2"⟩, .l1Hit⟩,
        ⟨⟨.get, "w", ""⟩, .miss⟩] := by
    decide +kernel
  rcases Option.bind_eq_some_iff.mp ran with ⟨engine, made, ran⟩
  rcases Option.bind_eq_some_iff.mp ran with ⟨⟨replies, middle⟩, warmed, ran⟩
  split at ran
  · rename_i fromRest
    rcases Option.bind_eq_some_iff.mp ran with ⟨⟨replies', last⟩, measured, ran⟩
    split at ran
    · rename_i toRest
      have paths := Option.some.inj ran
      have counted := (paths_counted made warmed fromRest (by simp) measured
        toRest).2.1 .l1Misses
      rw [paths] at counted
      exact ⟨engine, replies, middle, replies', last, made, warmed, measured,
        paths, counted⟩
    · cases ran
  · cases ran

end BenchThreads

end Walde
