import Mathlib.Data.Option.Basic

namespace Foundation

/-! # Programs over atomic instructions

A program is a tree of calls to atomic instructions. Whoever runs it decides
what an instruction does: a handler runs it alone to its end, and a scheduler
may place the instructions of other programs between two of its own. -/

inductive Program {Instr : Type} (Answer : Instr → Type) (α : Type) : Type
  | pure (result : α)
  | call (instr : Instr) (next : Answer instr → Program Answer α)

/-- One atomic instruction on a shared state. `none` is a fault: a failed
assertion or undefined behaviour. -/
abbrev Handler {Instr : Type} (Answer : Instr → Type) (σ : Type) :=
  (instr : Instr) → σ → Option (Answer instr × σ)

/-- What an instruction is known to do, as a predicate transformer. -/
abbrev InstrSpec {Instr : Type} (Answer : Instr → Type) (σ : Type) :=
  (instr : Instr) → (Answer instr → σ → Prop) → σ → Prop

namespace Program

variable {Instr : Type} {Answer : Instr → Type} {α β σ τ : Type}

def bind : Program Answer α → (α → Program Answer β) → Program Answer β
  | .pure result, next => next result
  | .call instr rest, next => .call instr fun answer => (rest answer).bind next

instance : Monad (Program Answer) where
  pure := Program.pure
  bind := Program.bind

theorem bind_pure_self (program : Program Answer α) :
    program.bind .pure = program := by
  induction program with
  | pure result => rfl
  | call instr rest induction => exact congrArg (call instr) (funext induction)

theorem bind_bind {γ : Type} (program : Program Answer α)
    (next : α → Program Answer β) (last : β → Program Answer γ) :
    (program.bind next).bind last =
      program.bind fun result => (next result).bind last := by
  induction program with
  | pure result => rfl
  | call instr rest induction => exact congrArg (call instr) (funext induction)

instance : LawfulMonad (Program Answer) :=
  LawfulMonad.mk' _ bind_pure_self (fun _ _ => rfl) bind_bind

def perform (instr : Instr) : Program Answer (Answer instr) :=
  .call instr .pure

def result : Program Answer α → Option α
  | .pure result => some result
  | .call _ _ => none

theorem result_eq_some {program : Program Answer α} {result : α}
    (finished : program.result = some result) : program = .pure result := by
  cases program with
  | pure other =>
      cases finished
      rfl
  | call instr next => cases finished

/-! ## Running a program alone -/

def run (handler : Handler Answer σ) : Program Answer α → σ → Option (α × σ)
  | .pure result, state => some (result, state)
  | .call instr next, state =>
      (handler instr state).bind fun reply => (next reply.1).run handler reply.2

@[simp] theorem run_pure (handler : Handler Answer σ) (result : α) (state : σ) :
    (Pure.pure result : Program Answer α).run handler state =
      some (result, state) := rfl

@[simp] theorem run_bind (handler : Handler Answer σ) (program : Program Answer α)
    (next : α → Program Answer β) (state : σ) :
    (program >>= next).run handler state =
      (program.run handler state).bind fun reply =>
        (next reply.1).run handler reply.2 := by
  induction program generalizing state with
  | pure result => rfl
  | call instr rest induction =>
      change (handler instr state).bind
          (fun reply => (rest reply.1 >>= next).run handler reply.2) = _
      simp only [induction, run, Option.bind_assoc]

@[simp] theorem run_perform (handler : Handler Answer σ) (instr : Instr)
    (state : σ) :
    (perform instr : Program Answer (Answer instr)).run handler state =
      handler instr state := by
  cases reply : handler instr state <;> simp [perform, run, reply]

/-- A handler that agrees with another one wherever it does not fault runs
every program it can finish in the same way. -/
theorem run_of_refines {strict loose : Handler Answer σ}
    (refines : ∀ instr state reply, strict instr state = some reply →
      loose instr state = some reply)
    (program : Program Answer α) {state : σ} {outcome : α × σ}
    (ran : program.run strict state = some outcome) :
    program.run loose state = some outcome := by
  induction program generalizing state with
  | pure result => exact ran
  | call instr rest induction =>
      rcases Option.bind_eq_some_iff.mp ran with ⟨reply, handled, ran⟩
      rw [run, refines instr state reply handled]
      exact induction reply.1 ran

/-! ## Weakest preconditions -/

/-- The states from which `program` ends without a fault in a state that
satisfies `post`, as far as the instruction specification promises. -/
def wp (spec : InstrSpec Answer σ) : Program Answer α → (α → σ → Prop) →
    σ → Prop
  | .pure result, post, state => post result state
  | .call instr next, post, state =>
      spec instr (fun answer state => (next answer).wp spec post state) state

@[simp] theorem wp_pure (spec : InstrSpec Answer σ) (result : α)
    (post : α → σ → Prop) (state : σ) :
    (Pure.pure result : Program Answer α).wp spec post state ↔
      post result state := Iff.rfl

@[simp] theorem wp_bind (spec : InstrSpec Answer σ) (program : Program Answer α)
    (next : α → Program Answer β) (post : β → σ → Prop) (state : σ) :
    (program >>= next).wp spec post state ↔
      program.wp spec (fun result => (next result).wp spec post) state := by
  induction program generalizing state with
  | pure result => exact Iff.rfl
  | call instr rest induction =>
      have same : (fun answer state =>
          (rest answer >>= next).wp spec post state) =
          fun answer state => (rest answer).wp spec
            (fun result => (next result).wp spec post) state := by
        funext answer state
        exact propext (induction answer state)
      change spec instr (fun answer state =>
        (rest answer >>= next).wp spec post state) state ↔ _
      rw [same]
      exact Iff.rfl

/-- An instruction specification is monotone when a weaker postcondition never
asks for more. -/
def Monotone (spec : InstrSpec Answer σ) : Prop :=
  ∀ instr post post' state, (∀ answer state, post answer state →
    post' answer state) → spec instr post state → spec instr post' state

theorem wp_mono {spec : InstrSpec Answer σ} (monotone : Monotone spec)
    {program : Program Answer α} {post post' : α → σ → Prop} {state : σ}
    (holds : program.wp spec post state)
    (weaker : ∀ result state, post result state → post' result state) :
    program.wp spec post' state := by
  induction program generalizing state with
  | pure result => exact weaker result state holds
  | call instr rest induction =>
      exact monotone instr _ _ state
        (fun answer state => induction answer) holds

/-! ## Adequacy -/

/-- The handler does what the specification promises, where `Sim` relates the
state the specification talks about to the state the handler works on. -/
def Implements (handler : Handler Answer τ) (spec : InstrSpec Answer σ)
    (Sim : σ → τ → Prop) : Prop :=
  ∀ instr post state concrete, Sim state concrete → spec instr post state →
    ∃ answer state' concrete', handler instr concrete = some (answer, concrete') ∧
      Sim state' concrete' ∧ post answer state'

/-- A program whose weakest precondition holds runs to its end without a fault
and establishes its postcondition. -/
theorem run_of_wp {handler : Handler Answer τ} {spec : InstrSpec Answer σ}
    {Sim : σ → τ → Prop} (implements : Implements handler spec Sim)
    {program : Program Answer α} {post : α → σ → Prop} {state : σ}
    {concrete : τ} (related : Sim state concrete)
    (holds : program.wp spec post state) :
    ∃ result state' concrete', program.run handler concrete =
        some (result, concrete') ∧
      Sim state' concrete' ∧ post result state' := by
  induction program generalizing state concrete with
  | pure result => exact ⟨result, state, concrete, rfl, related, holds⟩
  | call instr rest induction =>
      rcases implements instr _ state concrete related holds with
        ⟨answer, middle, concreteMiddle, handled, related, holds⟩
      rcases induction answer related holds with
        ⟨result, final, concreteFinal, ran, related, holds⟩
      refine ⟨result, final, concreteFinal, ?_, related, holds⟩
      rw [run, handled]
      exact ran

/-! ## Programs that need some of the instructions only -/

def Uses (kind : Instr → Prop) : Program Answer α → Prop
  | .pure _ => True
  | .call instr next => kind instr ∧ ∀ answer, (next answer).Uses kind

theorem uses_pure (kind : Instr → Prop) (result : α) :
    (Pure.pure result : Program Answer α).Uses kind := trivial

theorem uses_perform {kind : Instr → Prop} {instr : Instr}
    (allowed : kind instr) :
    (perform instr : Program Answer (Answer instr)).Uses kind :=
  ⟨allowed, fun _ => trivial⟩

theorem Uses.bind {kind : Instr → Prop} {program : Program Answer α}
    {next : α → Program Answer β} (uses : program.Uses kind)
    (rest : ∀ result, (next result).Uses kind) :
    (program >>= next).Uses kind := by
  induction program with
  | pure result => exact rest result
  | call instr next induction =>
      exact ⟨uses.1, fun answer => induction answer (uses.2 answer)⟩

/-- The adequacy of weakest preconditions asks of the handler only what the
program uses. -/
theorem Uses.run_of_wp {kind : Instr → Prop} {handler : Handler Answer τ}
    {spec : InstrSpec Answer σ} {Sim : σ → τ → Prop}
    (implements : ∀ instr, kind instr → ∀ post state concrete,
      Sim state concrete → spec instr post state →
      ∃ answer state' concrete',
        handler instr concrete = some (answer, concrete') ∧
        Sim state' concrete' ∧ post answer state')
    {program : Program Answer α} (uses : program.Uses kind)
    {post : α → σ → Prop} {state : σ} {concrete : τ}
    (related : Sim state concrete) (holds : program.wp spec post state) :
    ∃ result state' concrete', program.run handler concrete =
        some (result, concrete') ∧
      Sim state' concrete' ∧ post result state' := by
  induction program generalizing state concrete with
  | pure result => exact ⟨result, state, concrete, rfl, related, holds⟩
  | call instr rest induction =>
      rcases implements instr uses.1 _ state concrete related holds with
        ⟨answer, middle, concreteMiddle, handled, related, holds⟩
      rcases induction answer (uses.2 answer) related holds with
        ⟨result, final, concreteFinal, ran, related, holds⟩
      refine ⟨result, final, concreteFinal, ?_, related, holds⟩
      rw [run, handled]
      exact ran

/-! ## Whatever the instructions answer -/

def Always (post : α → Prop) : Program Answer α → Prop
  | .pure result => post result
  | .call _ next => ∀ answer, (next answer).Always post

section Always

variable {post : α → Prop} {program : Program Answer α}

@[simp] theorem always_bind {post : β → Prop} (program : Program Answer α)
    (next : α → Program Answer β) :
    (program >>= next).Always post ↔
      program.Always fun result => (next result).Always post := by
  induction program with
  | pure result => exact Iff.rfl
  | call instr rest induction => exact forall_congr' induction

theorem Always.of_forall (always : ∀ result, post result)
    (program : Program Answer α) : program.Always post := by
  induction program with
  | pure result => exact always result
  | call instr next induction => exact induction

theorem Always.mono {post' : α → Prop} (always : program.Always post)
    (weaker : ∀ result, post result → post' result) : program.Always post' := by
  induction program with
  | pure result => exact weaker result always
  | call instr next induction => exact fun answer => induction answer (always answer)

theorem Always.run (always : program.Always post) {handler : Handler Answer σ}
    {state : σ} {outcome : α × σ}
    (ran : program.run handler state = some outcome) : post outcome.1 := by
  induction program generalizing state with
  | pure result =>
      cases ran
      exact always
  | call instr next induction =>
      rcases Option.bind_eq_some_iff.mp ran with ⟨reply, -, ran⟩
      exact induction reply.1 (always reply.1) ran

theorem Always.bind_congr (always : program.Always post)
    {next next' : α → Program Answer β}
    (same : ∀ result, post result → next result = next' result) :
    program >>= next = program >>= next' := by
  induction program with
  | pure result => exact same result always
  | call instr rest induction =>
      exact congrArg (call instr)
        (funext fun answer => induction answer (always answer))

end Always

end Program

end Foundation
