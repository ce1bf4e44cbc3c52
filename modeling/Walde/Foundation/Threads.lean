import Mathlib.Data.Fintype.Basic
import Mathlib.Logic.Function.Basic
import Walde.Foundation.Machine
import Walde.Foundation.Program

namespace Foundation

def Program.head {Instr : Type} {Answer : Instr → Type} {α : Type} :
    Program Answer α → Option Instr
  | .pure _ => none
  | .call instr _ => some instr

namespace Threads

/-! # Threads on a shared state

Every thread runs one call at a time, as a program over atomic instructions.
The instructions of different threads come in any order, and the environment
may step between any two of them. -/

section Definitions

variable {Thread Call Reply σ Instr : Type} {Answer : Instr → Type}

inductive Activity (Call Reply : Type) {Instr : Type}
    (Answer : Instr → Type) where
  | idle
  | busy (call : Call) (program : Program Answer Reply)

def Activity.head : Activity Call Reply Answer → Option Instr
  | .idle => none
  | .busy _ program => program.head

def Activity.isIdle : Activity Call Reply Answer → Bool
  | .idle => true
  | .busy _ _ => false

def Activity.returning : Activity Call Reply Answer → Option (Call × Reply)
  | .busy call (.pure reply) => some (call, reply)
  | _ => none

theorem Activity.returning_eq_some {activity : Activity Call Reply Answer}
    {call : Call} {reply : Reply}
    (returning : activity.returning = some (call, reply)) :
    activity = .busy call (.pure reply) := by
  cases activity with
  | idle => cases returning
  | busy other program =>
      cases program with
      | pure result =>
          cases returning
          rfl
      | call instr next => cases returning

structure State (Thread Call Reply σ : Type) {Instr : Type}
    (Answer : Instr → Type) where
  shared : σ
  activity : Thread → Activity Call Reply Answer

def State.start (shared : σ) : State Thread Call Reply σ Answer where
  shared
  activity := fun _ => .idle

def State.head (state : State Thread Call Reply σ Answer) (thread : Thread) :
    Option Instr :=
  (state.activity thread).head

def State.AtRest (state : State Thread Call Reply σ Answer) : Prop :=
  ∀ thread, (state.activity thread).isIdle = true

instance [Fintype Thread] (state : State Thread Call Reply σ Answer) :
    Decidable state.AtRest :=
  inferInstanceAs (Decidable (∀ thread, (state.activity thread).isIdle = true))

inductive Move (Thread Call : Type)
  | enter (thread : Thread) (call : Call)
  | perform (thread : Thread)
  | leave (thread : Thread)
  | background
deriving DecidableEq, Repr

def Move.mover : Move Thread Call → Option Thread
  | .enter thread _ => some thread
  | .perform thread => some thread
  | .leave thread => some thread
  | .background => none

variable [DecidableEq Thread]

/-- One move of an interleaving; `none` is a move that is not possible, or a
fault. A thread that leaves gives its reply. -/
def machine (handler : Handler Answer σ) (body : Call → Program Answer Reply)
    (background : σ → Option σ) :
    Machine (State Thread Call Reply σ Answer) (Move Thread Call) (Option Reply)
  | state, .enter thread call =>
      match state.activity thread with
      | .idle => some (none, { state with
          activity := Function.update state.activity thread
            (.busy call (body call)) })
      | .busy _ _ => none
  | state, .perform thread =>
      match state.activity thread with
      | .busy call (.call instr next) => do
          let (answer, shared) ← handler instr state.shared
          return (none, {
            shared
            activity := Function.update state.activity thread
              (.busy call (next answer)) })
      | _ => none
  | state, .leave thread =>
      match state.activity thread with
      | .busy _ (.pure reply) => some (some reply, { state with
          activity := Function.update state.activity thread .idle })
      | _ => none
  | state, .background => do
      let shared ← background state.shared
      return (none, { state with shared })

end Definitions

section Moves

variable {Thread Call Reply σ Instr : Type} {Answer : Instr → Type}
  [DecidableEq Thread] {handler : Handler Answer σ}
  {body : Call → Program Answer Reply} {background : σ → Option σ}
  {state after : State Thread Call Reply σ Answer}

inductive Moved (handler : Handler Answer σ) (body : Call → Program Answer Reply)
    (background : σ → Option σ) (state : State Thread Call Reply σ Answer) :
    Move Thread Call → State Thread Call Reply σ Answer → Prop
  | enter {thread : Thread} (call : Call)
      (idle : state.activity thread = .idle) :
      Moved handler body background state (.enter thread call) { state with
        activity := Function.update state.activity thread
          (.busy call (body call)) }
  | perform {thread : Thread} {call : Call} {instr : Instr}
      {next : Answer instr → Program Answer Reply} {answer : Answer instr}
      {shared : σ}
      (busy : state.activity thread = .busy call (.call instr next))
      (handled : handler instr state.shared = some (answer, shared)) :
      Moved handler body background state (.perform thread) {
        shared
        activity := Function.update state.activity thread
          (.busy call (next answer)) }
  | leave {thread : Thread} {call : Call} {reply : Reply}
      (busy : state.activity thread = .busy call (.pure reply)) :
      Moved handler body background state (.leave thread) { state with
        activity := Function.update state.activity thread .idle }
  | background {shared : σ} (stepped : background state.shared = some shared) :
      Moved handler body background state .background { state with shared }

theorem moved {move : Move Thread Call} {reply : Option Reply}
    (ran : machine handler body background state move = some (reply, after)) :
    Moved handler body background state move after := by
  cases move with
  | enter thread call =>
      simp only [machine] at ran
      split at ran
      · cases ran
        exact .enter call ‹_›
      · cases ran
  | perform thread =>
      simp only [machine] at ran
      split at ran
      · rcases Option.bind_eq_some_iff.mp ran with
          ⟨⟨answer, shared⟩, handled, equal⟩
        cases equal
        exact .perform ‹_› handled
      · cases ran
  | leave thread =>
      simp only [machine] at ran
      split at ran
      · cases ran
        exact .leave ‹_›
      · cases ran
  | background =>
      rcases Option.bind_eq_some_iff.mp ran with ⟨shared, stepped, equal⟩
      cases equal
      exact .background stepped

end Moves

section Head

variable {Thread Call Reply σ Instr : Type} {Answer : Instr → Type}
  {state : State Thread Call Reply σ Answer} {thread : Thread}

theorem State.head_of_idle (idle : state.activity thread = .idle) :
    state.head thread = none := by
  rw [State.head, idle]
  rfl

theorem State.head_of_busy {call : Call} {program : Program Answer Reply}
    (busy : state.activity thread = .busy call program) :
    state.head thread = program.head := by
  rw [State.head, busy]
  rfl

theorem State.AtRest.activity_eq (atRest : state.AtRest) (thread : Thread) :
    state.activity thread = .idle := by
  have idle := atRest thread
  cases activity : state.activity thread with
  | idle => rfl
  | busy call program =>
      rw [activity] at idle
      cases idle

theorem State.AtRest.head_eq_none (atRest : state.AtRest) (thread : Thread) :
    state.head thread = none := by
  have idle := atRest thread
  cases activity : state.activity thread with
  | idle => exact State.head_of_idle activity
  | busy call program =>
      rw [activity] at idle
      cases idle

end Head

section Update

variable {Thread Call Reply σ Instr : Type} {Answer : Instr → Type}
  [DecidableEq Thread] (shared : σ)
  (activities : Thread → Activity Call Reply Answer) (thread : Thread)
  (activity : Activity Call Reply Answer)

@[simp] theorem State.head_update_self :
    State.head ⟨shared, Function.update activities thread activity⟩ thread =
      activity.head := by
  simp [State.head]

@[simp] theorem State.head_update_of_ne {other : Thread}
    (different : other ≠ thread) :
    State.head ⟨shared, Function.update activities thread activity⟩ other =
      (activities other).head := by
  simp [State.head, different]

variable {activities thread activity}

theorem busy_update {other : Thread} {call : Call}
    {program : Program Answer Reply}
    (busy : Function.update activities thread activity other =
      .busy call program) :
    (other = thread ∧ activity = .busy call program) ∨
      (other ≠ thread ∧ activities other = .busy call program) := by
  by_cases same : other = thread
  · rw [same, Function.update_self] at busy
    exact .inl ⟨same, busy⟩
  · rw [Function.update_of_ne same] at busy
    exact .inr ⟨same, busy⟩

end Update

/-! ## Proof outlines

What a thread relies on when it is about to perform an instruction, and what it
knows right after. The first must survive the moves of the other threads. -/

structure Outline {Instr : Type} (Answer : Instr → Type) (τ : Type) where
  pre : Instr → τ → Prop
  post : (instr : Instr) → Answer instr → τ → Prop

namespace Outline

variable {Thread Call Reply σ τ Instr : Type} {Answer : Instr → Type}
  {outline : Outline Answer τ}

def spec (outline : Outline Answer τ) : InstrSpec Answer τ :=
  fun instr post view => outline.pre instr view ∧
    ∀ answer view', outline.post instr answer view' → post answer view'

/-- In a state that looks like `view`, the rest of a program has all that it
relies on. -/
def Covers (outline : Outline Answer τ) (program : Program Answer Reply)
    (view : τ) : Prop :=
  program.wp outline.spec (fun _ _ => True) view

theorem Covers.pre {program : Program Answer Reply} {view : τ}
    (covers : outline.Covers program view) {instr : Instr}
    (head : program.head = some instr) : outline.pre instr view := by
  cases program with
  | pure reply => cases head
  | call first next =>
      cases head
      exact covers.1

theorem Covers.next {instr : Instr} {next : Answer instr → Program Answer Reply}
    {view view' : τ} (covers : outline.Covers (.call instr next) view)
    {answer : Answer instr} (known : outline.post instr answer view') :
    outline.Covers (next answer) view' :=
  covers.2 answer view' known

theorem Covers.stable {program : Program Answer Reply} {view view' : τ}
    (covers : outline.Covers program view)
    (undisturbed : ∀ instr ∈ program.head, outline.pre instr view →
      outline.pre instr view') :
    outline.Covers program view' := by
  cases program with
  | pure reply => exact trivial
  | call instr next => exact ⟨undisturbed instr rfl covers.1, covers.2⟩

def Holds (outline : Outline Answer τ) (view : σ → τ)
    (state : State Thread Call Reply σ Answer) : Prop :=
  ∀ thread call program, state.activity thread = .busy call program →
    outline.Covers program (view state.shared)

variable {view : σ → τ} {state : State Thread Call Reply σ Answer}

theorem Holds.pre (holds : outline.Holds view state) {thread : Thread}
    {instr : Instr} (head : state.head thread = some instr) :
    outline.pre instr (view state.shared) := by
  cases busy : state.activity thread with
  | idle =>
      rw [State.head_of_idle busy] at head
      cases head
  | busy call program =>
      rw [State.head_of_busy busy] at head
      exact (holds thread call program busy).pre head

theorem Holds.shared (holds : outline.Holds view state) {shared : σ}
    (undisturbed : ∀ thread, ∀ instr ∈ state.head thread,
      outline.pre instr (view state.shared) → outline.pre instr (view shared)) :
    outline.Holds view { state with shared } := by
  intro thread call program busy
  refine (holds thread call program busy).stable fun instr head => ?_
  exact undisturbed thread instr ((State.head_of_busy busy).trans head)

variable [DecidableEq Thread]

theorem Holds.update (holds : outline.Holds view state) (thread : Thread)
    {activity : Activity Call Reply Answer}
    (here : ∀ call program, activity = .busy call program →
      outline.Covers program (view state.shared)) :
    outline.Holds view { state with
      activity := Function.update state.activity thread activity } := by
  intro other call program busy
  rcases busy_update busy with ⟨-, changed⟩ | ⟨-, before⟩
  · exact here call program changed
  · exact holds other call program before

/-- The thread that performs an instruction establishes what it knows after it,
and must take nothing from the threads that are about to move. -/
theorem Holds.perform (holds : outline.Holds view state) {thread : Thread}
    {call : Call} {instr : Instr} {next : Answer instr → Program Answer Reply}
    (busy : state.activity thread = .busy call (.call instr next))
    {answer : Answer instr} {shared : σ}
    (known : outline.post instr answer (view shared))
    (undisturbed : ∀ other, other ≠ thread → ∀ pending ∈ state.head other,
      outline.pre pending (view state.shared) →
        outline.pre pending (view shared)) :
    outline.Holds view {
      shared
      activity := Function.update state.activity thread
        (.busy call (next answer)) } := by
  intro other otherCall program otherBusy
  rcases busy_update otherBusy with ⟨-, changed⟩ | ⟨different, before⟩
  · cases changed
    exact (holds thread call _ busy).next known
  · refine (holds other otherCall program before).stable fun pending head => ?_
    exact undisturbed other different pending
      ((State.head_of_busy before).trans head)

end Outline

/-! ## What is left of every call -/

section Everywhere

variable {Thread Call Reply σ Instr : Type} {Answer : Instr → Type}

def Everywhere (holds : Call → Program Answer Reply → Prop)
    (state : State Thread Call Reply σ Answer) : Prop :=
  ∀ thread call program, state.activity thread = .busy call program →
    holds call program

variable {holds : Call → Program Answer Reply → Prop}
  {state after : State Thread Call Reply σ Answer}

theorem Everywhere.start (shared : σ) :
    Everywhere holds (.start shared : State Thread Call Reply σ Answer) := nofun

variable [DecidableEq Thread]

theorem Everywhere.update (everywhere : Everywhere holds state) (shared : σ)
    (thread : Thread) {activity : Activity Call Reply Answer}
    (here : ∀ call program, activity = .busy call program →
      holds call program) :
    Everywhere holds ⟨shared,
      Function.update state.activity thread activity⟩ := by
  intro other call program busy
  rcases busy_update busy with ⟨-, changed⟩ | ⟨-, before⟩
  · exact here call program changed
  · exact everywhere other call program before

/-- What holds of every body, and of the rest of a program whenever it holds of
the program, holds throughout. -/
theorem Everywhere.move (everywhere : Everywhere holds state)
    {handler : Handler Answer σ} {body : Call → Program Answer Reply}
    {background : σ → Option σ} (enters : ∀ call, holds call (body call))
    (goesOn : ∀ {call instr next}, holds call (.call instr next) →
      ∀ answer, holds call (next answer))
    {move : Move Thread Call} {reply : Option Reply}
    (ran : machine handler body background state move = some (reply, after)) :
    Everywhere holds after := by
  cases moved ran with
  | @enter thread call idle =>
      apply everywhere.update
      intro _ _ busy
      cases busy
      exact enters call
  | @perform thread call instr next answer shared busy handled =>
      apply everywhere.update
      intro _ _ here
      cases here
      exact goesOn (everywhere thread call _ busy) answer
  | @leave thread call reply busy =>
      apply everywhere.update
      nofun
  | @background shared stepped => exact everywhere

end Everywhere

/-! ## Contracts

What a program may ask for, may be told and may reply, whatever the state. As
long as the answers keep the contract, every thread does. -/

structure Contract (Call Reply : Type) {Instr : Type}
    (Answer : Instr → Type) where
  asks : Instr → Prop
  answers : (instr : Instr) → Answer instr → Prop
  replies : Call → Reply → Prop

namespace Contract

variable {Thread Call Reply σ Instr : Type} {Answer : Instr → Type}
  (contract : Contract Call Reply Answer)

/-- What is left of a call keeps the contract as long as it is kept to it. -/
def Obeys (call : Call) : Program Answer Reply → Prop
  | .pure reply => contract.replies call reply
  | .call instr next => contract.asks instr ∧
      ∀ answer, contract.answers instr answer → Obeys call (next answer)

/-- Every instruction that may be asked for gets an answer of the contract, and
the invariant stays. -/
structure Served (handler : Handler Answer σ) (background : σ → Option σ)
    (Inv : σ → Prop) : Prop where
  handled : ∀ {instr state answer after}, Inv state → contract.asks instr →
    handler instr state = some (answer, after) →
      contract.answers instr answer ∧ Inv after
  background : ∀ {state after}, Inv state → background state = some after →
    Inv after

structure Holds (Inv : σ → Prop) (state : State Thread Call Reply σ Answer) :
    Prop where
  shared : Inv state.shared
  obeys : Everywhere contract.Obeys state

variable {contract} {Inv : σ → Prop} {state after : State Thread Call Reply σ Answer}

theorem Holds.start {shared : σ} (inv : Inv shared) :
    contract.Holds Inv (.start shared : State Thread Call Reply σ Answer) :=
  ⟨inv, .start shared⟩

theorem Holds.returning (holds : contract.Holds Inv state) {thread : Thread}
    {call : Call} {reply : Reply}
    (returning : (state.activity thread).returning = some (call, reply)) :
    contract.replies call reply :=
  holds.obeys thread call _ (Activity.returning_eq_some returning)

variable [DecidableEq Thread] {handler : Handler Answer σ}
  {body : Call → Program Answer Reply} {background : σ → Option σ}

theorem Holds.move (holds : contract.Holds Inv state)
    (served : contract.Served handler background Inv)
    {move : Move Thread Call} {reply : Option Reply}
    (enters : ∀ {thread call}, move = .enter thread call →
      contract.Obeys call (body call))
    (ran : machine handler body background state move = some (reply, after)) :
    contract.Holds Inv after := by
  cases moved ran with
  | @enter thread call idle =>
      refine ⟨holds.shared, holds.obeys.update _ thread ?_⟩
      intro _ _ busy
      cases busy
      exact enters rfl
  | @perform thread call instr next answer shared busy handled =>
      rcases holds.obeys thread call _ busy with ⟨asked, goesOn⟩
      rcases served.handled holds.shared asked handled with ⟨answered, inv⟩
      refine ⟨inv, holds.obeys.update _ thread ?_⟩
      intro _ _ busy
      cases busy
      exact goesOn answer answered
  | @leave thread call reply busy =>
      exact ⟨holds.shared, holds.obeys.update _ thread nofun⟩
  | @background shared stepped =>
      exact ⟨served.background holds.shared stepped, holds.obeys⟩

end Contract

end Threads

end Foundation
