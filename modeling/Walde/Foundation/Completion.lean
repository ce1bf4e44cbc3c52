import Walde.Foundation.Ledger
import Walde.Foundation.Threads

namespace Foundation.Threads

/-! # The calls that a run completes

From rest to rest every call that was entered is completed once, with a reply
that its contract allows. -/

variable {Thread Call Reply σ Instr : Type} {Answer : Instr → Type}

def Move.entered : Move Thread Call → Option Call
  | .enter _ call => some call
  | _ => none

theorem Move.entered_cons (move : Move Thread Call)
    (rest : List (Move Thread Call)) :
    (move :: rest).filterMap Move.entered =
      move.entered.toList ++ rest.filterMap Move.entered := by
  rw [List.filterMap_cons]
  cases move.entered <;> rfl

def Activity.call : Activity Call Reply Answer → Multiset Call
  | .idle => 0
  | .busy call _ => {call}

variable {state after last : State Thread Call Reply σ Answer}
  {clients : Finset Thread}

def State.calls (state : State Thread Call Reply σ Answer)
    (clients : Finset Thread) : Multiset Call :=
  ∑ thread ∈ clients, (state.activity thread).call

theorem State.AtRest.calls (atRest : state.AtRest) (clients : Finset Thread) :
    state.calls clients = 0 := by
  apply Finset.sum_eq_zero
  intro thread _
  rw [atRest.activity_eq]
  rfl

theorem State.AtRest.everywhere (atRest : state.AtRest)
    (holds : Call → Program Answer Reply → Prop) : Everywhere holds state := by
  intro thread call program busy
  rw [atRest.activity_eq] at busy
  cases busy

variable [DecidableEq Thread]

theorem State.calls_update {thread : Thread} (member : thread ∈ clients)
    (shared : σ) {activity : Activity Call Reply Answer}
    {gain loss : Multiset Call}
    (here : activity.call + loss = (state.activity thread).call + gain) :
    State.calls ⟨shared, Function.update state.activity thread activity⟩
        clients + loss =
      state.calls clients + gain := by
  apply sum_gain_of_mem member
  · simpa only [Function.update_self] using here
  · intro other different
    simp only [Function.update_of_ne different]

namespace Contract

variable {contract : Contract Call Reply Answer} {Inv : σ → Prop}
  {handler : Handler Answer σ} {body : Call → Program Answer Reply}
  {background : σ → Option σ}

theorem Holds.completes (holds : contract.Holds Inv state)
    {move : Move Thread Call} {reply : Option Reply}
    (known : ∀ thread ∈ move.mover, thread ∈ clients)
    (ran : machine handler body background state move = some (reply, after)) :
    ∃ done : List (Call × Reply), done.map Prod.snd = reply.toList ∧
      (∀ pair ∈ done, contract.replies pair.1 pair.2) ∧
      after.calls clients + ↑(done.map Prod.fst) =
        state.calls clients + ↑move.entered.toList := by
  cases move with
  | enter thread call =>
      simp only [machine] at ran
      split at ran
      · rename_i idle
        cases ran
        refine ⟨[], rfl, List.forall_mem_nil _,
          State.calls_update (known thread rfl) _ ?_⟩
        rw [idle]
        exact add_comm _ _
      · cases ran
  | perform thread =>
      simp only [machine] at ran
      split at ran
      · rename_i busy
        rcases Option.bind_eq_some_iff.mp ran with ⟨outcome, -, equal⟩
        cases equal
        refine ⟨[], rfl, List.forall_mem_nil _,
          State.calls_update (known thread rfl) _ ?_⟩
        rw [busy]
        rfl
      · cases ran
  | leave thread =>
      simp only [machine] at ran
      split at ran
      · rename_i call result busy
        cases ran
        refine ⟨[(call, result)], rfl, ?_,
          State.calls_update (known thread rfl) _ ?_⟩
        · intro pair member
          rw [List.mem_singleton.mp member]
          exact holds.obeys thread call _ busy
        · rw [busy]
          exact add_comm _ _
      · cases ran
  | background =>
      rcases Option.bind_eq_some_iff.mp ran with ⟨shared, -, equal⟩
      cases equal
      exact ⟨[], rfl, List.forall_mem_nil _, rfl⟩

theorem Holds.run_completes (holds : contract.Holds Inv state)
    (served : contract.Served handler background Inv)
    {moves : List (Move Thread Call)}
    (enters : ∀ thread call, .enter thread call ∈ moves →
      contract.Obeys call (body call))
    (known : ∀ move ∈ moves, ∀ thread ∈ move.mover, thread ∈ clients)
    {replies : List (Option Reply)}
    (ran : (machine handler body background).run moves state =
      some (replies, last)) :
    ∃ done : List (Call × Reply), done.map Prod.snd = replies.reduceOption ∧
      (∀ pair ∈ done, contract.replies pair.1 pair.2) ∧
      last.calls clients + ↑(done.map Prod.fst) =
        state.calls clients + ↑(moves.filterMap Move.entered) := by
  induction moves generalizing state replies with
  | nil =>
      cases ran
      exact ⟨[], rfl, List.forall_mem_nil _, rfl⟩
  | cons move rest induction =>
      rcases Machine.run_cons_eq_some ran with
        ⟨reply, middle, others, stepped, ranRest, rfl⟩
      rcases holds.completes (known move List.mem_cons_self) stepped with
        ⟨first, firstReplies, firstKept, firstCalls⟩
      have holds' := holds.move served
        (fun {thread call} entered =>
          enters thread call (entered ▸ List.mem_cons_self)) stepped
      rcases induction holds'
          (fun thread call member =>
            enters thread call (List.mem_cons_of_mem _ member))
          (fun move member => known move (List.mem_cons_of_mem _ member))
          ranRest with
        ⟨done, doneReplies, doneKept, doneCalls⟩
      refine ⟨first ++ done, ?_, ?_, ?_⟩
      · rw [List.map_append, firstReplies, doneReplies]
        cases reply with
        | none => rfl
        | some result => rfl
      · intro pair member
        rcases List.mem_append.mp member with inFirst | inDone
        · exact firstKept pair inFirst
        · exact doneKept pair inDone
      · rw [Move.entered_cons, List.map_append, ← Multiset.coe_add,
          ← Multiset.coe_add]
        calc last.calls clients + (↑(first.map Prod.fst) + ↑(done.map Prod.fst))
            = middle.calls clients + ↑(rest.filterMap Move.entered) +
                ↑(first.map Prod.fst) := by
              rw [← doneCalls, add_left_comm, add_comm]
          _ = state.calls clients + (↑move.entered.toList +
                ↑(rest.filterMap Move.entered)) := by
              rw [add_right_comm, firstCalls, add_assoc]

/-- From rest to rest. -/
theorem Holds.run_matches (holds : contract.Holds Inv state)
    (served : contract.Served handler background Inv)
    {moves : List (Move Thread Call)}
    (enters : ∀ thread call, .enter thread call ∈ moves →
      contract.Obeys call (body call))
    {replies : List (Option Reply)}
    (ran : (machine handler body background).run moves state =
      some (replies, last))
    (fromRest : state.AtRest) (toRest : last.AtRest) :
    ∃ done : List (Call × Reply), done.map Prod.snd = replies.reduceOption ∧
      (∀ pair ∈ done, contract.replies pair.1 pair.2) ∧
      (done.map Prod.fst).Perm (moves.filterMap Move.entered) := by
  -- The threads that move in the run.
  let clients := (moves.filterMap Move.mover).toFinset
  have known : ∀ move ∈ moves, ∀ thread ∈ move.mover, thread ∈ clients := by
    intro move member thread mover
    rw [List.mem_toFinset, List.mem_filterMap]
    exact ⟨move, member, mover⟩
  rcases holds.run_completes served enters known ran with
    ⟨done, replied, kept, calls⟩
  refine ⟨done, replied, kept, Multiset.coe_eq_coe.mp ?_⟩
  rwa [fromRest.calls, toRest.calls, zero_add, zero_add] at calls

end Contract

end Foundation.Threads
