import Walde.Tiers
import Walde.TimedStripe

namespace Walde

open Foundation

/-! # The instrumented calls of the engine -/

/-! ## L1 -/

namespace StripeSystem

variable {count : Nat} {α : Type}

def performWith (allocator : Pool.Allocator SlabAllocator CacheNode)
    (system : StripeSystem count) (i : Fin count)
    (program : Timed SlabProgram (α × CacheStripe)) (watch : Stopwatch) :
    Option (((α × Stopwatch) × List DemotionItem) × StripeSystem count) :=
  system.perform allocator i do
    let ((answer, stripe), watch) ← program.run watch
    return ((answer, watch), stripe)

theorem performWith_erases {allocator : Pool.Allocator SlabAllocator CacheNode}
    {system : StripeSystem count} {i : Fin count}
    {program : Timed SlabProgram (α × CacheStripe)}
    {plain : SlabProgram (α × CacheStripe)} (erases : Erases program plain)
    (watch : Stopwatch) :
    (system.performWith allocator i program watch).map
        (Prod.map (Prod.map Prod.fst id) id) =
      system.perform allocator i plain := by
  rw [← erases watch]
  simp only [performWith, perform, map_eq_pure_bind, Program.run_bind,
    Option.map_bind]
  rfl

end StripeSystem

namespace StripedCache

def getWith (xx : XxHash) (cache : StripedCache) (key : Key) :
    Stopwatch →
      Option (((Option Value × Stopwatch) × List DemotionItem) × StripedCache) :=
  cache.performWith SlabAllocator.allocator (route xx key)
    ((cache.stripe (route xx key)).getWith xx key)

def putWith (xx : XxHash) (cache : StripedCache) (key : Key) (value : Value) :
    Stopwatch →
      Option (((Bool × Stopwatch) × List DemotionItem) × StripedCache) :=
  cache.performWith SlabAllocator.allocator (route xx key)
    ((cache.stripe (route xx key)).putWith xx key value)

theorem getWith_erases (xx : XxHash) (cache : StripedCache) (key : Key)
    (watch : Stopwatch) :
    (cache.getWith xx key watch).map (Prod.map (Prod.map Prod.fst id) id) =
      cache.get xx key :=
  StripeSystem.performWith_erases
    ((cache.stripe (route xx key)).getWith_erases xx key) watch

theorem putWith_erases (xx : XxHash) (cache : StripedCache) (key : Key)
    (value : Value) (watch : Stopwatch) :
    (cache.putWith xx key value watch).map
        (Prod.map (Prod.map Prod.fst id) id) =
      cache.put xx key value :=
  StripeSystem.performWith_erases
    ((cache.stripe (route xx key)).putWith_erases xx key value) watch

end StripedCache

/-! ## The engine -/

abbrev EngineStateM := StateT CacheEngine Option

namespace CacheEngine

open Timed

def instruction (xx : XxHash) (instr : EngineInstr) :
    EngineStateM (EngineAnswer instr) :=
  perform xx instr

def exec (xx : XxHash) {α : Type} (program : EngineProgram α) : EngineStateM α :=
  program.run (perform xx)

def l1GetWith (xx : XxHash) (key : Key) : Timed EngineStateM (Option Value) :=
  fun watch engine => do
    let (((found, watch), offered), l1) ← engine.l1.getWith xx key watch
    return ((found, watch), engine.afterL1 l1 offered)

def l1PutWith (xx : XxHash) (key : Key) (value : Value) :
    Timed EngineStateM Bool :=
  fun watch engine => do
    let (((inserted, watch), offered), l1) ←
      engine.l1.putWith xx key value watch
    return ((inserted, watch), engine.afterL1 l1 offered)

def l2GetWith (xx : XxHash) (key : Key) : Timed EngineStateM (Option Value) := do
  let start ← startTimer
  let found ← instruction xx (.l2Get key)
  stopTimer start fun ns bd => { bd with l2Ns := ns }
  return found

def getWith (xx : XxHash) (key : Key) : Timed EngineStateM (Option Value) := do
  match ← l1GetWith xx key with
  | some value => do
      record fun bd => { bd with path := .l1Hit }
      return some value
  | none =>
      match ← l2GetWith xx key with
      | some value => do
          record fun bd => { bd with path := .l2Hit }
          let _ ← l1PutWith xx key value
          return some value
      | none =>
          if ← hasBreakdown then do
            let backendStart ← now
            let found ← instruction xx (.backendGet key)
            let backendEnd ← now
            record fun bd => { bd with backendNs := backendEnd - backendStart }
            match found with
            | some value => do
                record fun bd => { bd with path := .backendHit }
                let _ ← l1PutWith xx key value
                return some value
            | none => do
                record fun bd => { bd with path := .miss }
                return none
          else
            match ← instruction xx (.backendGet key) with
            | some value => do
                let _ ← l1PutWith xx key value
                return some value
            | none => return none

def putWith (xx : XxHash) (key : Key) (value : Value) :
    Timed EngineStateM Bool := do
  let _ ← instruction xx (.backendPut key value)
  l1PutWith xx key value

def requestWith (xx : XxHash) : CacheCall → Timed EngineStateM CacheReply
  | .get key => do
      let found ← getWith xx key
      return .value found
  | .put key value => do
      let inserted ← putWith xx key value
      return .changed inserted
  | .remove key => do
      let removed ← exec xx (remove key)
      return .changed removed

/-! ## The timers do not change what happens -/

@[simp] theorem exec_bind (xx : XxHash) {α β : Type} (program : EngineProgram α)
    (next : α → EngineProgram β) :
    exec xx (program >>= next) =
      exec xx program >>= fun result => exec xx (next result) :=
  funext fun engine => Program.run_bind (perform xx) program next engine

@[simp] theorem exec_perform (xx : XxHash) (instr : EngineInstr) :
    exec xx (Program.perform instr) = instruction xx instr :=
  funext fun engine => Program.run_perform (perform xx) instr engine

theorem l1GetWith_erases (xx : XxHash) (key : Key) :
    Erases (l1GetWith xx key) (instruction xx (.l1Get key)) := by
  intro watch
  funext engine
  change ((l1GetWith xx key watch engine).bind fun outcome =>
    some (outcome.1.1, outcome.2)) = _
  rw [instruction, perform, ← engine.l1.getWith_erases xx key watch, l1GetWith]
  cases engine.l1.getWith xx key watch <;> rfl

theorem l1PutWith_erases (xx : XxHash) (key : Key) (value : Value) :
    Erases (l1PutWith xx key value) (instruction xx (.l1Put key value)) := by
  intro watch
  funext engine
  change ((l1PutWith xx key value watch engine).bind fun outcome =>
    some (outcome.1.1, outcome.2)) = _
  rw [instruction, perform, ← engine.l1.putWith_erases xx key value watch,
    l1PutWith]
  cases engine.l1.putWith xx key value watch <;> rfl

theorem l2GetWith_erases (xx : XxHash) (key : Key) :
    Erases (l2GetWith xx key) (instruction xx (.l2Get key)) := by
  rw [← bind_pure (instruction xx (.l2Get key))]
  apply Erases.note startTimer_silent
  intro start
  apply (Erases.lift _).bind
  intro found
  apply Erases.note (stopTimer_silent _ _)
  intro _
  exact .pure found

theorem refill_erases (xx : XxHash) (key : Key) (value : Value) :
    Erases (do
        let _ ← l1PutWith xx key value
        return some value)
      (exec xx do
        let _ ← EngineProgram.l1Put key value
        return some value) := by
  rw [exec_bind, EngineProgram.l1Put, exec_perform]
  exact (l1PutWith_erases xx key value).bind fun _ => .pure _

theorem getWith_erases (xx : XxHash) (key : Key) :
    Erases (getWith xx key) (exec xx (get key)) := by
  rw [get, exec_bind, EngineProgram.l1Get, exec_perform]
  apply (l1GetWith_erases xx key).bind
  intro inL1
  cases inL1 with
  | some value =>
      apply Erases.note (record_silent _)
      intro _
      exact .pure _
  | none =>
      rw [exec_bind, EngineProgram.l2Get, exec_perform]
      apply (l2GetWith_erases xx key).bind
      intro inL2
      cases inL2 with
      | some value =>
          apply Erases.note (record_silent _)
          intro _
          exact refill_erases xx key value
      | none =>
          rw [exec_bind, EngineProgram.backendGet, exec_perform]
          apply erases_of_both
          · apply Erases.note now_silent
            intro backendStart
            apply (Erases.lift _).bind
            intro found
            apply erases_clocked
            intro backendEnd
            cases found with
            | some value =>
                apply Erases.note (record_silent _)
                intro _
                exact refill_erases xx key value
            | none =>
                apply Erases.note (record_silent _)
                intro _
                exact .pure _
          · apply (Erases.lift _).bind
            intro found
            cases found with
            | some value => exact refill_erases xx key value
            | none => exact .pure _

theorem putWith_erases (xx : XxHash) (key : Key) (value : Value) :
    Erases (putWith xx key value) (exec xx (put key value)) := by
  rw [put, exec_bind, EngineProgram.backendPut, exec_perform]
  apply (Erases.lift _).bind
  intro _
  rw [EngineProgram.l1Put, exec_perform]
  exact l1PutWith_erases xx key value

theorem requestWith_erases (xx : XxHash) (call : CacheCall) :
    Erases (requestWith xx call) (exec xx (request call)) := by
  cases call with
  | get key =>
      rw [request, exec_bind]
      exact (getWith_erases xx key).bind fun _ => .pure _
  | put key value =>
      rw [request, exec_bind]
      exact (putWith_erases xx key value).bind fun _ => .pure _
  | remove key =>
      rw [request, exec_bind]
      exact (Erases.lift _).bind fun _ => .pure _

end CacheEngine

/-! ## Runs -/

inductive TimedStep
  | call (call : CacheCall) (breakdown : Option LatencyBreakdown)
  | drain
deriving DecidableEq, Repr

/-- The same step with a null pointer. -/
def TimedStep.untimed : TimedStep → TimedStep
  | .call request _ => .call request none
  | .drain => .drain

def TimedStep.plain : TimedStep → EngineStep
  | .call request _ => .call request
  | .drain => .drain

namespace CacheEngine

def timedStep (xx : XxHash) :
    Machine (CacheEngine × (Nat → Int)) TimedStep
      (Option (CacheReply × Option LatencyBreakdown))
  | (engine, readings), .call call breakdown => do
      let ((reply, watch), engine) ←
        (requestWith xx call).run ⟨readings, breakdown⟩ engine
      return (some (reply, watch.breakdown), (engine, watch.readings))
  | (engine, readings), .drain => do
      let engine ← engine.drain xx
      return (none, (engine, readings))

theorem timedStep_project (xx : XxHash) (state : CacheEngine × (Nat → Int))
    (first : TimedStep) :
    (timedStep xx state first).map
        (Prod.map (Option.map Prod.fst) Prod.fst) =
      state.1.step xx first.plain := by
  rcases state with ⟨engine, readings⟩
  cases first with
  | call call breakdown =>
      have erased := congrFun
        (requestWith_erases xx call ⟨readings, breakdown⟩) engine
      change ((requestWith xx call ⟨readings, breakdown⟩ engine).bind
        fun outcome => some (outcome.1.1, outcome.2)) =
          (request call).run (perform xx) engine at erased
      rw [TimedStep.plain, step, ← erased]
      unfold timedStep
      change Option.map _ ((requestWith xx call ⟨readings, breakdown⟩
        engine).bind _) = _
      cases requestWith xx call ⟨readings, breakdown⟩ engine <;> rfl
  | drain =>
      change Option.map _ ((engine.drain xx).bind _) =
        (engine.drain xx).bind _
      cases engine.drain xx <;> rfl

/-- A run with timers is a run without them that also reads the clock. -/
theorem timedRun_project (xx : XxHash) (steps : List TimedStep)
    (engine : CacheEngine) (readings : Nat → Int) :
    ((timedStep xx).run steps (engine, readings)).map
        (Prod.map (List.map (Option.map Prod.fst)) Prod.fst) =
      engine.run xx (steps.map TimedStep.plain) :=
  Machine.run_project (timedStep_project xx) steps (engine, readings)

/-- Whichever calls pass a breakdown and whatever the clock reads, the replies
and the engine are those of the run in which no call passes one. -/
theorem timers_invisible (xx : XxHash) {config : CacheEngineConfig}
    {backend : InMemoryBackend} {engine : CacheEngine}
    (made : CacheEngine.new config backend = some engine)
    (steps : List TimedStep) (readings readings' : Nat → Int) :
    ∃ timed clock untimed clock' last,
      (timedStep xx).run steps (engine, readings) =
        some (timed, (last, clock)) ∧
      (timedStep xx).run (steps.map TimedStep.untimed) (engine, readings') =
        some (untimed, (last, clock')) ∧
      timed.map (Option.map Prod.fst) = untimed.map (Option.map Prod.fst) := by
  have samePlain : (steps.map TimedStep.untimed).map TimedStep.plain =
      steps.map TimedStep.plain := by
    rw [List.map_map]
    apply List.map_congr_left
    intro step _
    cases step <;> rfl
  rcases (Valid.new made : engine.Valid xx config).run
      (steps.map TimedStep.plain) with ⟨replies, last, ran, -⟩
  have timed := timedRun_project xx steps engine readings
  have untimed := timedRun_project xx (steps.map TimedStep.untimed) engine
    readings'
  rw [ran] at timed
  rw [samePlain, ran] at untimed
  rcases Option.map_eq_some_iff.mp timed with
    ⟨⟨timedReplies, _, clock⟩, timedRan, equal⟩
  rcases Option.map_eq_some_iff.mp untimed with
    ⟨⟨untimedReplies, _, clock'⟩, untimedRan, equal'⟩
  obtain ⟨same, rfl⟩ := Prod.mk.inj equal
  obtain ⟨same', sameLast⟩ := Prod.mk.inj equal'
  subst sameLast
  exact ⟨timedReplies, clock, untimedReplies, clock', _, timedRan, untimedRan,
    same.trans same'.symm⟩

theorem timers_invisible_sample :
    ∃ engine, CacheEngine.new .sample (.new ∅) = some engine ∧
      ∃ timed clock untimed clock' last,
        (timedStep .sample).run [.call (.put "k" "1") (some {}), .drain,
            .call (.get "k") none, .call (.get "w") (some {})]
            (engine, fun i => i) = some (timed, (last, clock)) ∧
        (timedStep .sample).run [.call (.put "k" "1") none, .drain,
            .call (.get "k") none, .call (.get "w") none]
            (engine, fun _ => 0) = some (untimed, (last, clock')) ∧
        timed.map (Option.map Prod.fst) =
          untimed.map (Option.map Prod.fst) := by
  have accepted : ∃ engine, CacheEngine.new .sample (.new ∅) = some engine := by
    have made : (CacheEngine.new .sample (.new ∅)).isSome = true := by
      decide +kernel
    exact Option.isSome_iff_exists.mp made
  rcases accepted with ⟨engine, made⟩
  exact ⟨engine, made, timers_invisible .sample made _ _ _⟩

end CacheEngine

end Walde
