import Walde.Foundation.Completion

namespace Foundation.Threads

/-! # One client next to the background

When no other thread makes calls and what the background does cannot be seen,
the calls take effect one after the other, and each is answered as if it ran
alone. -/

variable {Thread Call Reply σ τ Instr : Type} {Answer : Instr → Type}

/-- What calls do and may reply when they run alone. -/
structure Effects (Call Reply τ : Type) where
  effect : τ → Call → τ
  allowed : τ → Call → Reply → Prop

namespace Effects

variable (effects : Effects Call Reply τ)

def Answers : τ → List (Call × Reply) → Prop
  | _, [] => True
  | view, (call, reply) :: rest =>
      effects.allowed view call reply ∧ Answers (effects.effect view call) rest

def after (view : τ) (calls : List Call) : τ :=
  calls.foldl effects.effect view

variable {effects} {view : τ}

theorem Answers.append {done others : List (Call × Reply)}
    (answers : effects.Answers view done)
    (rest : effects.Answers (effects.after view (done.map Prod.fst)) others) :
    effects.Answers view (done ++ others) := by
  induction done generalizing view with
  | nil => exact rest
  | cons pair done induction => exact ⟨answers.1, induction answers.2 rest⟩

end Effects

def Activity.pending : Activity Call Reply Answer → List Call
  | .idle => []
  | .busy call _ => [call]

section SoleClient

variable {spec : InstrSpec Answer τ} {Sim : τ → σ → Prop}
  {effects : Effects Call Reply τ} {handler : Handler Answer σ}
  {body : Call → Program Answer Reply} {background : σ → Option σ}
  {client : Thread} {start : τ} {state after last : State Thread Call Reply σ Answer}

/-- A call that was made in `start` is on its way to its effect and its reply. -/
def Activity.Answering (spec : InstrSpec Answer τ)
    (effects : Effects Call Reply τ) (start : τ) :
    Activity Call Reply Answer → τ → Prop
  | .idle, view => view = start
  | .busy call program, view => program.wp spec
      (fun reply last => effects.allowed start call reply ∧
        last = effects.effect start call) view

def Alone (spec : InstrSpec Answer τ) (Sim : τ → σ → Prop)
    (effects : Effects Call Reply τ) (client : Thread) (start : τ)
    (state : State Thread Call Reply σ Answer) : Prop :=
  ∃ view, Sim view state.shared ∧
    (state.activity client).Answering spec effects start view

theorem pending_of_atRest (atRest : state.AtRest) (client : Thread) :
    (state.activity client).pending = [] := by
  rw [atRest.activity_eq]
  rfl

theorem Alone.atRest (alone : Alone spec Sim effects client start state)
    (atRest : state.AtRest) : Sim start state.shared := by
  rcases alone with ⟨view, related, answering⟩
  rw [atRest.activity_eq] at answering
  exact (show view = start from answering) ▸ related

theorem Alone.of_atRest (atRest : state.AtRest) (related : Sim start state.shared) :
    Alone spec Sim effects client start state := by
  refine ⟨start, related, ?_⟩
  rw [atRest.activity_eq]
  rfl

variable [DecidableEq Thread]

theorem Alone.move (alone : Alone spec Sim effects client start state)
    (implements : Program.Implements handler spec Sim)
    (unseen : ∀ {view shared shared'}, Sim view shared →
      background shared = some shared' → Sim view shared')
    {move : Move Thread Call} (own : ∀ thread ∈ move.mover, thread = client)
    (takesEffect : ∀ call ∈ move.entered, ∀ start, (body call).wp spec
      (fun reply last => effects.allowed start call reply ∧
        last = effects.effect start call) start)
    {reply : Option Reply}
    (ran : machine handler body background state move = some (reply, after)) :
    ∃ done : List (Call × Reply), effects.Answers start done ∧
      done.map Prod.snd = reply.toList ∧
      done.map Prod.fst ++ (after.activity client).pending =
        (state.activity client).pending ++ move.entered.toList ∧
      Alone spec Sim effects client (effects.after start (done.map Prod.fst))
        after := by
  rcases alone with ⟨view, related, answering⟩
  cases move with
  | enter thread call =>
      obtain rfl : thread = client := own thread rfl
      simp only [machine] at ran
      split at ran
      · rename_i idle
        cases ran
        rw [idle] at answering ⊢
        obtain rfl : view = start := answering
        refine ⟨[], trivial, rfl, ?_, view, related, ?_⟩
        · simp only [Function.update_self]
          rfl
        · simp only [Function.update_self]
          exact takesEffect call rfl view
      · cases ran
  | perform thread =>
      obtain rfl : thread = client := own thread rfl
      simp only [machine] at ran
      split at ran
      · rename_i call instr next busy
        rcases Option.bind_eq_some_iff.mp ran with
          ⟨⟨answer, shared⟩, handled, equal⟩
        cases equal
        rw [busy] at answering ⊢
        rcases implements instr _ view state.shared related answering with
          ⟨answer', view', shared', handled', related', answering'⟩
        rw [handled] at handled'
        cases handled'
        refine ⟨[], trivial, rfl, ?_, view', related', ?_⟩
        · simp only [Function.update_self]
          rfl
        · simp only [Function.update_self]
          exact answering'
      · cases ran
  | leave thread =>
      obtain rfl : thread = client := own thread rfl
      simp only [machine] at ran
      split at ran
      · rename_i call result busy
        cases ran
        rw [busy] at answering ⊢
        rcases answering with ⟨allowed, rfl⟩
        refine ⟨[(call, result)], ⟨allowed, trivial⟩, rfl, ?_, _, related, ?_⟩
        · simp only [Function.update_self]
          rfl
        · simp only [Function.update_self]
          rfl
      · cases ran
  | background =>
      rcases Option.bind_eq_some_iff.mp ran with ⟨shared, stepped, equal⟩
      cases equal
      exact ⟨[], trivial, rfl, (List.append_nil _).symm, view,
        unseen related stepped, answering⟩

/-- The calls of a client that is alone with the background take effect in the
order in which it makes them. -/
theorem Alone.run (alone : Alone spec Sim effects client start state)
    (implements : Program.Implements handler spec Sim)
    (unseen : ∀ {view shared shared'}, Sim view shared →
      background shared = some shared' → Sim view shared')
    {moves : List (Move Thread Call)}
    (own : ∀ move ∈ moves, ∀ thread ∈ move.mover, thread = client)
    (takesEffect : ∀ call ∈ moves.filterMap Move.entered, ∀ start,
      (body call).wp spec (fun reply last => effects.allowed start call reply ∧
        last = effects.effect start call) start)
    {replies : List (Option Reply)}
    (ran : (machine handler body background).run moves state =
      some (replies, last)) :
    ∃ done : List (Call × Reply), effects.Answers start done ∧
      done.map Prod.snd = replies.reduceOption ∧
      done.map Prod.fst ++ (last.activity client).pending =
        (state.activity client).pending ++ moves.filterMap Move.entered ∧
      Alone spec Sim effects client (effects.after start (done.map Prod.fst))
        last := by
  induction moves generalizing state start replies with
  | nil =>
      cases ran
      exact ⟨[], trivial, rfl, (List.append_nil _).symm, alone⟩
  | cons move rest induction =>
      rcases Machine.run_cons_eq_some ran with
        ⟨reply, middle, others, stepped, ranRest, rfl⟩
      rw [Move.entered_cons] at takesEffect
      rcases alone.move implements unseen (own move List.mem_cons_self)
          (fun call entered => takesEffect call
            (List.mem_append_left _ (Option.mem_toList.mpr entered)))
          stepped with ⟨first, answers, replied, calls, moved⟩
      rcases induction moved
          (fun move member => own move (List.mem_cons_of_mem _ member))
          (fun call member => takesEffect call
            (List.mem_append_right _ member)) ranRest with
        ⟨done, answersRest, repliedRest, callsRest, movedRest⟩
      refine ⟨first ++ done, answers.append answersRest, ?_, ?_, ?_⟩
      · rw [List.map_append, replied, repliedRest]
        cases reply <;> rfl
      · rw [List.map_append, List.append_assoc, callsRest, ← List.append_assoc,
          calls, List.append_assoc, Move.entered_cons]
      · rw [List.map_append, Effects.after, List.foldl_append]
        exact movedRest

theorem Alone.run_answers (fromRest : state.AtRest)
    (related : Sim start state.shared)
    (implements : Program.Implements handler spec Sim)
    (unseen : ∀ {view shared shared'}, Sim view shared →
      background shared = some shared' → Sim view shared')
    {moves : List (Move Thread Call)}
    (own : ∀ move ∈ moves, ∀ thread ∈ move.mover, thread = client)
    (takesEffect : ∀ call ∈ moves.filterMap Move.entered, ∀ start,
      (body call).wp spec (fun reply last => effects.allowed start call reply ∧
        last = effects.effect start call) start)
    {replies : List (Option Reply)}
    (ran : (machine handler body background).run moves state =
      some (replies, last)) (toRest : last.AtRest) :
    ∃ done : List (Call × Reply), effects.Answers start done ∧
      done.map Prod.snd = replies.reduceOption ∧
      done.map Prod.fst = moves.filterMap Move.entered ∧
      Sim (effects.after start (moves.filterMap Move.entered)) last.shared := by
  have alone : Alone spec Sim effects client start state :=
    .of_atRest fromRest related
  rcases alone.run implements unseen own takesEffect ran with
    ⟨done, answers, replied, calls, alone⟩
  rw [pending_of_atRest fromRest, pending_of_atRest toRest, List.append_nil,
    List.nil_append] at calls
  exact ⟨done, answers, replied, calls, calls ▸ alone.atRest toRest⟩

end SoleClient

end Foundation.Threads
