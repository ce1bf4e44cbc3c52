import Walde.Foundation.Ledger
import Walde.Foundation.Threads

namespace Foundation.Threads

/-! # Shares in a counter

A counter that only instructions raise. How far a call has raised it can be
told from what is left of the call. -/

/-- How far an instruction raises a counter, and how far a call has raised it of
which a program is left. -/
structure Share (Reply : Type) {Instr : Type} (Answer : Instr → Type) where
  raises : (instr : Instr) → Answer instr → Nat
  raised : Program Answer Reply → Nat

namespace Share

variable {Thread Call Reply σ Instr : Type} {Answer : Instr → Type}

/-- With every instruction, what is told of the call grows by as much as the
counter. -/
def Tells (share : Share Reply Answer) : Program Answer Reply → Prop
  | .pure _ => True
  | .call instr next => ∀ answer,
      share.raised (next answer) =
        share.raised (.call instr next) + share.raises instr answer ∧
      share.Tells (next answer)

/-- A share of a counter, while an invariant holds. -/
structure Of (share : Share Reply Answer) (handler : Handler Answer σ)
    (background : σ → Option σ) (Inv : σ → Prop) (counter : σ → Nat) :
    Prop where
  handled : ∀ {instr state answer after}, Inv state →
    handler instr state = some (answer, after) →
      Inv after ∧ counter after = counter state + share.raises instr answer
  background : ∀ {state after}, Inv state → background state = some after →
    Inv after ∧ counter after = counter state

def activity (share : Share Reply Answer) : Activity Call Reply Answer → Nat
  | .idle => 0
  | .busy _ program => share.raised program

def reply (share : Share Reply Answer) : Option Reply → Nat
  | some result => share.raised (.pure result)
  | none => 0

structure Holds (share : Share Reply Answer) (Inv : σ → Prop)
    (state : State Thread Call Reply σ Answer) : Prop where
  shared : Inv state.shared
  tells : Everywhere (fun _ => share.Tells) state

variable {share : Share Reply Answer} {Inv : σ → Prop}
  {state after last : State Thread Call Reply σ Answer} {clients : Finset Thread}

def inProgress (share : Share Reply Answer) (clients : Finset Thread)
    (state : State Thread Call Reply σ Answer) : Nat :=
  ∑ thread ∈ clients, share.activity (state.activity thread)

theorem inProgress_atRest (atRest : state.AtRest) :
    share.inProgress clients state = 0 := by
  apply Finset.sum_eq_zero
  intro thread _
  rw [atRest.activity_eq]
  rfl

variable [DecidableEq Thread]

theorem inProgress_update {thread : Thread} (member : thread ∈ clients)
    (shared : σ) {activity : Activity Call Reply Answer} {gain loss : Nat}
    (here : share.activity activity + loss =
      share.activity (state.activity thread) + gain) :
    share.inProgress clients
        ⟨shared, Function.update state.activity thread activity⟩ + loss =
      share.inProgress clients state + gain := by
  apply sum_gain_of_mem member
  · simpa only [Function.update_self] using here
  · intro other different
    simp only [Function.update_of_ne different]

variable {handler : Handler Answer σ} {body : Call → Program Answer Reply}
  {background : σ → Option σ} {counter : σ → Nat}

theorem result_of_move {move : Move Thread Call} {result : Option Reply}
    (ran : machine handler body background state move = some (result, after)) :
    match move with
    | .leave thread => ∃ call reply, result = some reply ∧
        state.activity thread = .busy call (.pure reply)
    | _ => result = none := by
  cases move with
  | enter thread call =>
      simp only [machine] at ran
      split at ran
      · cases ran
        rfl
      · cases ran
  | perform thread =>
      simp only [machine] at ran
      split at ran
      · rcases Option.bind_eq_some_iff.mp ran with ⟨_, -, equal⟩
        cases equal
        rfl
      · cases ran
  | leave thread =>
      simp only [machine] at ran
      split at ran
      · cases ran
        exact ⟨_, _, rfl, ‹_›⟩
      · cases ran
  | background =>
      rcases Option.bind_eq_some_iff.mp ran with ⟨_, -, equal⟩
      cases equal
      rfl

theorem Holds.move (holds : share.Holds Inv state)
    (of : share.Of handler background Inv counter) {move : Move Thread Call}
    {result : Option Reply}
    (enters : ∀ {thread call}, move = .enter thread call →
      share.raised (body call) = 0 ∧ share.Tells (body call))
    (known : ∀ thread ∈ move.mover, thread ∈ clients)
    (ran : machine handler body background state move = some (result, after)) :
    share.Holds Inv after ∧
      counter after.shared + share.inProgress clients state =
        counter state.shared + share.inProgress clients after +
          share.reply result := by
  have replied := result_of_move ran
  cases moved ran with
  | @enter thread call idle =>
      rcases enters rfl with ⟨fresh, tells⟩
      constructor
      · refine ⟨holds.shared, holds.tells.update _ thread fun _ _ busy => ?_⟩
        cases busy
        exact tells
      · have sums := inProgress_update (known thread rfl) state.shared
          (show share.activity (.busy call (body call)) + 0 =
            share.activity (state.activity thread) + 0 by
              rw [idle]
              exact fresh)
        rw [show result = none from replied, reply]
        change counter state.shared + _ = counter state.shared + _ + 0
        omega
  | @perform thread call instr next answer shared busy handled =>
      rcases holds.tells thread call _ busy answer with ⟨grows, tells⟩
      rcases of.handled holds.shared handled with ⟨inv, raised⟩
      constructor
      · refine ⟨inv, holds.tells.update _ thread fun _ _ busy => ?_⟩
        cases busy
        exact tells
      · have sums := inProgress_update (known thread rfl) shared
          (show share.activity (.busy call (next answer)) + 0 =
            share.activity (state.activity thread) +
              share.raises instr answer by
              rw [busy]
              exact grows)
        rw [show result = none from replied, reply]
        simp only [raised]
        omega
  | @leave thread call left busy =>
      constructor
      · exact ⟨holds.shared, holds.tells.update _ thread nofun⟩
      · rcases replied with ⟨call', left', rfl, busy'⟩
        rw [busy] at busy'
        cases busy'
        have sums := inProgress_update (known thread rfl) state.shared
          (show share.activity (Activity.idle : Activity Call Reply Answer) +
              share.raised (.pure left) =
            share.activity (state.activity thread) + 0 by
              rw [busy]
              exact Nat.add_comm _ _)
        rw [reply]
        change counter state.shared + _ = counter state.shared + _ + _
        omega
  | @background shared stepped =>
      rcases of.background holds.shared stepped with ⟨inv, same⟩
      refine ⟨⟨inv, holds.tells⟩, ?_⟩
      rw [show result = none from replied, reply]
      simp only [same]
      rfl

/-- From rest to rest, the counter grows by the shares of the calls that left. -/
theorem Holds.run (holds : share.Holds Inv state)
    (of : share.Of handler background Inv counter)
    {moves : List (Move Thread Call)} {replies : List (Option Reply)}
    (enters : ∀ thread call, .enter thread call ∈ moves →
      share.raised (body call) = 0 ∧ share.Tells (body call))
    (ran : (machine handler body background).run moves state =
      some (replies, last))
    (fromRest : state.AtRest) (toRest : last.AtRest) :
    counter last.shared =
      counter state.shared + (replies.map share.reply).sum := by
  -- The shares are summed up over the threads that move in the run.
  have along : (machine handler body background).Along (fun _ move =>
      (∀ {thread call}, move = .enter thread call →
        share.raised (body call) = 0 ∧ share.Tells (body call)) ∧
      ∀ thread ∈ move.mover, thread ∈ (moves.filterMap Move.mover).toFinset)
      moves state := by
    apply Machine.Along.of_forall
    intro _ move member
    constructor
    · intro thread call entered
      exact enters thread call (entered ▸ member)
    · intro thread mover
      rw [List.mem_toFinset, List.mem_filterMap]
      exact ⟨move, member, mover⟩
  have balance := Machine.weigh_run
    (fun holds condition stepped =>
      Holds.move holds of condition.1 condition.2 stepped) holds along ran
  rwa [inProgress_atRest fromRest, inProgress_atRest toRest, Nat.add_zero,
    Nat.add_zero] at balance

end Share

end Foundation.Threads
