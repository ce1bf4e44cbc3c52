import Mathlib.Data.List.ReduceOption
import Walde.Foundation.Completion

namespace Foundation

/-! # Serial histories

The instructions that threads perform, one after the other as they come. From
rest to rest they are those of the calls that were completed, in some order. -/

section Programs

variable {Instr σ : Type} {Answer : Instr → Type} {α : Type}

/-- The instructions that lead from a program to what is left of it, with the
answers that they got. -/
inductive Program.Performs :
    Program Answer α → List (Sigma Answer) → Program Answer α → Prop
  | stop (program : Program Answer α) : Performs program [] program
  | perform {instr : Instr} {next : Answer instr → Program Answer α}
      {answer : Answer instr} {rest : List (Sigma Answer)}
      {left : Program Answer α} (performs : Performs (next answer) rest left) :
      Performs (.call instr next) (⟨instr, answer⟩ :: rest) left

theorem Program.Performs.concat {program : Program Answer α}
    {past : List (Sigma Answer)} {instr : Instr}
    {next : Answer instr → Program Answer α}
    (performs : program.Performs past (.call instr next))
    (answer : Answer instr) :
    program.Performs (past ++ [⟨instr, answer⟩]) (next answer) := by
  generalize reached : Program.call instr next = left at performs
  induction performs with
  | stop program =>
      subst reached
      exact .perform (.stop _)
  | perform performs induction => exact .perform (induction reached)

/-- One instruction after the other. -/
inductive Serial (handler : Handler Answer σ) :
    List (Sigma Answer) → σ → σ → Prop
  | nil (state : σ) : Serial handler [] state state
  | cons {instr : Instr} {answer : Answer instr}
      {history : List (Sigma Answer)} {state middle last : σ}
      (handled : handler instr state = some (answer, middle))
      (serial : Serial handler history middle last) :
      Serial handler (⟨instr, answer⟩ :: history) state last

theorem Serial.append {handler : Handler Answer σ}
    {history history' : List (Sigma Answer)} {state middle last : σ}
    (serial : Serial handler history state middle)
    (serial' : Serial handler history' middle last) :
    Serial handler (history ++ history') state last := by
  induction serial with
  | nil state => exact serial'
  | cons handled serial induction => exact .cons handled (induction serial')

/-- The rule for counters: each instruction raises the counter by what its
answer is worth, as long as an invariant holds. -/
theorem Serial.counts {handler : Handler Answer σ} {Inv : σ → Prop}
    {counter : σ → Nat} {kind : Sigma Answer → Bool}
    (step : ∀ instr answer state after, Inv state →
      handler instr state = some (answer, after) → Inv after ∧
        counter after = counter state + (kind ⟨instr, answer⟩).toNat)
    {history : List (Sigma Answer)} {state last : σ} (inv : Inv state)
    (serial : Serial handler history state last) :
    Inv last ∧ counter last = counter state + history.countP kind := by
  induction serial with
  | nil state => exact ⟨inv, rfl⟩
  | @cons instr answer history state middle last handled serial induction =>
      rcases step _ _ _ _ inv handled with ⟨inv', raised⟩
      rcases induction inv' with ⟨inv'', counted⟩
      refine ⟨inv'', ?_⟩
      rw [counted, raised, List.countP_cons, Nat.add_assoc,
        Nat.add_comm (Bool.toNat _)]
      cases kind ⟨instr, answer⟩ <;> rfl

end Programs

namespace Threads

variable {Thread Call Reply σ Instr : Type} {Answer : Instr → Type}

structure Completed (Call Reply : Type) {Instr : Type}
    (Answer : Instr → Type) where
  call : Call
  performed : List (Sigma Answer)
  reply : Reply

def Completed.Made (body : Call → Program Answer Reply)
    (one : Completed Call Reply Answer) : Prop :=
  (body one.call).Performs one.performed (.pure one.reply)

def Activity.Began (body : Call → Program Answer Reply)
    (past : List (Sigma Answer)) : Activity Call Reply Answer → Prop
  | .idle => past = []
  | .busy call program => (body call).Performs past program

/-- The instructions from one state to another, the calls that are entered and
those that are completed on the way. `past` is what each thread has performed
for its call before. -/
structure Passage (handler : Handler Answer σ)
    (body : Call → Program Answer Reply) (clients : Finset Thread)
    (past : Thread → List (Sigma Answer))
    (state : State Thread Call Reply σ Answer) (history : List (Sigma Answer))
    (entered : List Call) (done : List (Completed Call Reply Answer))
    (past' : Thread → List (Sigma Answer))
    (after : State Thread Call Reply σ Answer) : Prop where
  serial : Serial handler history state.shared after.shared
  made : ∀ one ∈ done, one.Made body
  performed : (∑ thread ∈ clients, (past' thread : Multiset (Sigma Answer))) +
      ↑(done.flatMap Completed.performed) =
    (∑ thread ∈ clients, (past thread : Multiset (Sigma Answer))) + ↑history
  calls : after.calls clients + ↑(done.map Completed.call) =
    state.calls clients + ↑entered
  began : ∀ thread, (after.activity thread).Began body (past' thread)

variable {handler : Handler Answer σ} {body : Call → Program Answer Reply}
  {clients : Finset Thread} {past past' past'' : Thread → List (Sigma Answer)}
  {state middle after last : State Thread Call Reply σ Answer}

theorem Passage.nil
    (began : ∀ thread, (state.activity thread).Began body (past thread)) :
    Passage handler body clients past state [] [] [] past state where
  serial := .nil _
  made := List.forall_mem_nil _
  performed := rfl
  calls := rfl
  began

theorem Passage.append {history history' : List (Sigma Answer)}
    {entered entered' : List Call}
    {done done' : List (Completed Call Reply Answer)}
    (first : Passage handler body clients past state history entered done past'
      middle)
    (second : Passage handler body clients past' middle history' entered' done'
      past'' after) :
    Passage handler body clients past state (history ++ history')
      (entered ++ entered') (done ++ done') past'' after where
  serial := first.serial.append second.serial
  made one member := by
    rcases List.mem_append.mp member with inFirst | inSecond
    · exact first.made one inFirst
    · exact second.made one inSecond
  performed := by
    rw [List.flatMap_append, ← Multiset.coe_add, ← Multiset.coe_add,
      add_left_comm, second.performed, ← add_assoc, ← add_assoc,
      ← first.performed, add_comm (Multiset.ofList _)]
  calls := by
    rw [List.map_append, ← Multiset.coe_add, ← Multiset.coe_add, add_left_comm,
      second.calls, ← add_assoc, ← add_assoc, ← first.calls,
      add_comm (Multiset.ofList _)]
  began := second.began

variable [DecidableEq Thread]

theorem began_update
    (began : ∀ thread, (state.activity thread).Began body (past thread))
    (shared : σ) (thread : Thread) {activity : Activity Call Reply Answer}
    {more : List (Sigma Answer)} (here : activity.Began body more) :
    ∀ other, (State.activity ⟨shared,
        Function.update state.activity thread activity⟩ other).Began body
      (Function.update past thread more other) := by
  intro other
  by_cases same : other = thread
  · subst same
    simpa only [Function.update_self] using here
  · simpa only [Function.update_of_ne same] using began other

theorem performed_update {thread : Thread} (member : thread ∈ clients)
    {more gain loss : List (Sigma Answer)}
    (here : more ++ loss = past thread ++ gain) :
    (∑ other ∈ clients,
        (Function.update past thread more other : Multiset (Sigma Answer))) +
        ↑loss =
      (∑ other ∈ clients, (past other : Multiset (Sigma Answer))) + ↑gain := by
  apply sum_gain_of_mem member
  · rw [Function.update_self, Multiset.coe_add, here, Multiset.coe_add]
  · intro other different
    rw [Function.update_of_ne different]

theorem passage_of_move
    (began : ∀ thread, (state.activity thread).Began body (past thread))
    {move : Move Thread Call} {reply : Option Reply}
    (known : ∀ thread ∈ move.mover, thread ∈ clients)
    (ran : machine handler body (fun _ => none) state move =
      some (reply, after)) :
    ∃ history done past', done.map Completed.reply = reply.toList ∧
      Passage handler body clients past state history move.entered.toList done
        past' after := by
  cases move with
  | enter thread call =>
      simp only [machine] at ran
      split at ran
      · rename_i idle
        cases ran
        have nothing := began thread
        rw [idle, Activity.Began] at nothing
        refine ⟨[], [], Function.update past thread [], rfl, .nil _,
          List.forall_mem_nil _, performed_update (known thread rfl) ?_,
          State.calls_update (known thread rfl) _ ?_,
          began_update began _ thread (.stop _)⟩
        · rw [nothing]
          rfl
        · rw [idle]
          exact add_comm _ _
      · cases ran
  | perform thread =>
      simp only [machine] at ran
      split at ran
      · rename_i call instr next busy
        rcases Option.bind_eq_some_iff.mp ran with
          ⟨⟨answer, shared⟩, handled, equal⟩
        cases equal
        have performs := began thread
        rw [busy, Activity.Began] at performs
        refine ⟨[⟨instr, answer⟩], [],
          Function.update past thread (past thread ++ [⟨instr, answer⟩]), rfl,
          .cons handled (.nil _), List.forall_mem_nil _,
          performed_update (known thread rfl) (List.append_nil _),
          State.calls_update (known thread rfl) _ ?_, ?_⟩
        · rw [busy]
          rfl
        · exact began_update began _ thread (performs.concat answer)
      · cases ran
  | leave thread =>
      simp only [machine] at ran
      split at ran
      · rename_i call result busy
        cases ran
        have performs := began thread
        rw [busy, Activity.Began] at performs
        refine ⟨[], [⟨call, past thread, result⟩],
          Function.update past thread [], rfl, .nil _, ?_, ?_,
          State.calls_update (known thread rfl) _ ?_,
          began_update began _ thread rfl⟩
        · intro one member
          rw [List.mem_singleton.mp member]
          exact performs
        · apply performed_update (known thread rfl)
          rw [List.flatMap_singleton, List.nil_append, List.append_nil]
        · rw [busy]
          exact add_comm _ _
      · cases ran
  | background => cases ran

theorem passage_of_run
    (began : ∀ thread, (state.activity thread).Began body (past thread))
    {moves : List (Move Thread Call)} {replies : List (Option Reply)}
    (known : ∀ move ∈ moves, ∀ thread ∈ move.mover, thread ∈ clients)
    (ran : (machine handler body fun _ => none).run moves state =
      some (replies, last)) :
    ∃ history done past', done.map Completed.reply = replies.reduceOption ∧
      Passage handler body clients past state history
        (moves.filterMap Move.entered) done past' last := by
  induction moves generalizing state past replies with
  | nil =>
      cases ran
      exact ⟨[], [], past, rfl, .nil began⟩
  | cons move rest induction =>
      rcases Machine.run_cons_eq_some ran with
        ⟨reply, middle, others, stepped, ranRest, rfl⟩
      rcases passage_of_move began (known move List.mem_cons_self) stepped with
        ⟨history, done, past', replied, first⟩
      rcases induction first.began
          (fun move member => known move (List.mem_cons_of_mem _ member))
          ranRest with
        ⟨history', done', past'', replied', second⟩
      refine ⟨history ++ history', done ++ done', past'', ?_, ?_⟩
      · rw [List.map_append, replied, replied']
        cases reply with
        | none => rfl
        | some result => rfl
      · rw [Move.entered_cons]
        exact first.append second

/-- From rest to rest: the calls that were entered are completed, and all that
they have performed was performed one after the other. -/
theorem serial_of_run {moves : List (Move Thread Call)}
    {replies : List (Option Reply)}
    (ran : (machine handler body fun _ => none).run moves state =
      some (replies, last))
    (fromRest : state.AtRest) (toRest : last.AtRest) :
    ∃ (history : List (Sigma Answer))
      (done : List (Completed Call Reply Answer)),
      Serial handler history state.shared last.shared ∧
      done.map Completed.reply = replies.reduceOption ∧
      (∀ one ∈ done, one.Made body) ∧
      (done.map Completed.call).Perm (moves.filterMap Move.entered) ∧
      (done.flatMap Completed.performed).Perm history := by
  -- The threads that move in the run.
  let clients := (moves.filterMap Move.mover).toFinset
  have known : ∀ move ∈ moves, ∀ thread ∈ move.mover, thread ∈ clients := by
    intro move member thread mover
    rw [List.mem_toFinset, List.mem_filterMap]
    exact ⟨move, member, mover⟩
  have began : ∀ thread, (state.activity thread).Began body [] := by
    intro thread
    rw [fromRest.activity_eq]
    rfl
  rcases passage_of_run began known ran with
    ⟨history, done, past', replied, passage⟩
  have nothing : ∀ thread, past' thread = [] := by
    intro thread
    have began := passage.began thread
    rwa [toRest.activity_eq] at began
  have performed := passage.performed
  have calls := passage.calls
  simp only [nothing, Multiset.coe_nil, Finset.sum_const_zero,
    zero_add] at performed
  rw [fromRest.calls, toRest.calls, zero_add, zero_add] at calls
  exact ⟨history, done, passage.serial, replied, passage.made,
    Multiset.coe_eq_coe.mp calls, Multiset.coe_eq_coe.mp performed⟩

end Threads

end Foundation
