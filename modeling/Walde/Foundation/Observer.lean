import Mathlib.Algebra.GroupWithZero.Nat
import Walde.Foundation.Ledger
import Walde.Foundation.Program

namespace Foundation.Observer

/-! # Loading counters while they move

An observer loads counters one after the other, and the steps of a machine come
between its loads in any order. A machine may count before, between and after
the loads of one counter. -/

section Definitions

variable {σ Label Reply ι α : Type}

/-- The machine, what is left of the observer's program, and what its loads of
each counter found so far. -/
structure State (σ ι α : Type) where
  shared : σ
  program : Program (fun _ : ι => Nat) α
  found : ι → List Nat

def State.start (shared : σ) (program : Program (fun _ : ι => Nat) α) :
    State σ ι α where
  shared
  program
  found := fun _ => []

def State.loads (state : State σ ι α) (counter : ι) : Nat :=
  (state.found counter).length

inductive Move (Label : Type)
  | step (label : Label)
  | load
deriving DecidableEq, Repr

variable [DecidableEq ι]

def State.loaded (state : State σ ι α) (counter : ι) (got : Nat)
    (program : Program (fun _ : ι => Nat) α) : State σ ι α :=
  { state with
    program
    found := Function.update state.found counter
      (state.found counter ++ [got]) }

def machine (watched : Machine σ Label Reply) (value : ι → σ → Nat) :
    Machine (State σ ι α) (Move Label) (Option Reply)
  | state, .step label => do
      let (reply, shared) ← watched state.shared label
      return (some reply, { state with shared })
  | state, .load =>
      match state.program with
      | .call counter next =>
          let got := value counter state.shared
          some (none, state.loaded counter got (next got))
      | .pure _ => none

/-- The loop that adds up counters. -/
def sumFrom (total : Nat) : List ι → Program (fun _ : ι => Nat) Nat
  | [] => return total
  | counter :: rest => do
      let found ← Program.perform counter
      sumFrom (total + found) rest

/-- The operand of a sum that is evaluated first, where a language leaves this
open. -/
inductive SumOrder
  | leftFirst
  | rightFirst
deriving DecidableEq, Repr

def add (left right : Program (fun _ : ι => Nat) Nat) :
    SumOrder → Program (fun _ : ι => Nat) Nat
  | .leftFirst => do
      let x ← left
      let y ← right
      return x + y
  | .rightFirst => do
      let y ← right
      let x ← left
      return x + y

/-- What load number `n` of a counter finds, or would find now. -/
def State.sight (value : ι → σ → Nat) (counter : ι) (n : Nat)
    (state : State σ ι α) : Nat :=
  (state.found counter)[n]?.getD (value counter state.shared)

/-- One for a step that counts on a counter, when `kind` holds of the counter and
of how often it was loaded. -/
def during (counts : σ → Label → Option ι) (kind : ι → Nat → Bool)
    (state : State σ ι α) : Move Label → Nat
  | .step label =>
      match counts state.shared label with
      | some counter => (kind counter (state.loads counter)).toNat
      | none => 0
  | .load => 0

end Definitions

@[simp] theorem State.sight_start {σ ι α : Type} (value : ι → σ → Nat)
    (shared : σ) (program : Program (fun _ : ι => Nat) α) (counter : ι)
    (n : Nat) :
    (State.start shared program).sight value counter n =
      value counter shared := rfl

section Loaded

variable {σ ι α : Type} [DecidableEq ι] (state : State σ ι α) (counter : ι)
  (got : Nat) (program : Program (fun _ : ι => Nat) α)

@[simp] theorem State.loaded_shared :
    (state.loaded counter got program).shared = state.shared := rfl

@[simp] theorem State.loaded_program :
    (state.loaded counter got program).program = program := rfl

@[simp] theorem State.loaded_found_self :
    (state.loaded counter got program).found counter =
      state.found counter ++ [got] :=
  Function.update_self _ _ _

variable {counter} in
@[simp] theorem State.loaded_found_of_ne {other : ι}
    (different : other ≠ counter) :
    (state.loaded counter got program).found other = state.found other :=
  Function.update_of_ne different _ _

theorem State.loads_loaded :
    (state.loaded counter got program).loads =
      Function.update state.loads counter (state.loads counter + 1) := by
  funext other
  by_cases same : other = counter
  · subst same
    simp [State.loads]
  · simp [State.loads, same]

end Loaded

section Moves

variable {σ Label Reply ι α : Type} [DecidableEq ι]
  {watched : Machine σ Label Reply} {value : ι → σ → Nat}
  {state after : State σ ι α} {move : Move Label} {reply : Option Reply}

inductive Moved (watched : Machine σ Label Reply) (value : ι → σ → Nat)
    (state : State σ ι α) : Move Label → State σ ι α → Prop
  | step {label : Label} {reply : Reply} {shared : σ}
      (stepped : watched state.shared label = some (reply, shared)) :
      Moved watched value state (.step label) { state with shared }
  | load {counter : ι} {next : Nat → Program (fun _ : ι => Nat) α}
      (about : state.program = .call counter next) :
      Moved watched value state .load
        (state.loaded counter (value counter state.shared)
          (next (value counter state.shared)))

theorem moved (ran : machine watched value state move = some (reply, after)) :
    Moved watched value state move after := by
  cases move with
  | step label =>
      rcases Option.bind_eq_some_iff.mp ran with ⟨⟨_, shared⟩, stepped, equal⟩
      cases equal
      exact .step stepped
  | load =>
      simp only [machine] at ran
      split at ran
      · cases ran
        exact .load ‹_›
      · cases ran

/-! ## What the loads find -/

theorem sight_move {counts : σ → Label → Option ι}
    (adds : ∀ {label reply shared},
      watched state.shared label = some (reply, shared) → ∀ counter,
      value counter shared = value counter state.shared +
        if counts state.shared label = some counter then 1 else 0)
    (ran : machine watched value state move = some (reply, after))
    (counter : ι) (n : Nat) :
    after.sight value counter n = state.sight value counter n +
      during counts (fun other loads => other = counter ∧ loads ≤ n)
        state move := by
  cases moved ran with
  | @step label reply shared stepped =>
      cases counted : counts state.shared label with
      | none => simp [State.sight, during, adds stepped counter, counted]
      | some other =>
          by_cases same : other = counter
          · subst same
            simp only [State.sight, during, adds stepped other, counted,
              true_and]
            by_cases come : n < state.loads other
            · rw [List.getElem?_eq_getElem come]
              simp [come]
            · have before : state.loads other ≤ n := Nat.not_lt.mp come
              rw [List.getElem?_eq_none before]
              simp [before]
          · simp [State.sight, during, adds stepped counter, counted, same]
  | @load other next about =>
      simp only [State.sight, during, Nat.add_zero]
      by_cases same : counter = other
      · subst same
        rw [State.loaded_found_self, List.getElem?_append]
        split
        · rfl
        · rename_i notCome
          rw [List.getElem?_eq_none (Nat.not_lt.mp notCome)]
          cases n - (state.found counter).length <;> rfl
      · rw [State.loaded_found_of_ne _ _ _ same, State.loaded_shared]

theorem found_extends (ran : machine watched value state move =
      some (reply, after)) (counter : ι) :
    state.found counter <+: after.found counter := by
  cases moved ran with
  | step stepped => exact List.prefix_refl _
  | @load other next about =>
      by_cases same : counter = other
      · subst same
        rw [State.loaded_found_self]
        exact List.prefix_append _ _
      · rw [State.loaded_found_of_ne _ _ _ same]

end Moves

/-! ## Runs -/

section Runs

variable {σ Label Reply ι α : Type} [DecidableEq ι]
  {watched : Machine σ Label Reply} {value : ι → σ → Nat}
  {state last : State σ ι α} {moves : List (Move Label)}
  {replies : List (Option Reply)}

theorem run_prefix (ran : (machine watched value).run moves state =
      some (replies, last)) (counter : ι) :
    state.found counter <+: last.found counter := by
  induction moves generalizing state replies with
  | nil =>
      cases ran
      exact List.prefix_refl _
  | cons move rest induction =>
      rcases Machine.run_cons_eq_some ran with
        ⟨reply, middle, others, stepped, ranRest, -⟩
      exact (found_extends stepped counter).trans (induction ranRest)

/-- What load number `n` of a counter finds is what the counter was at the start
and what the steps before this load counted. -/
theorem sight_run {counts : σ → Label → Option ι} {Inv : σ → Prop}
    (step : ∀ {before label reply shared}, Inv before →
      watched before label = some (reply, shared) →
      Inv shared ∧ ∀ counter, value counter shared = value counter before +
        if counts before label = some counter then 1 else 0)
    (inv : Inv state.shared)
    (ran : (machine watched value).run moves state = some (replies, last))
    (counter : ι) (n : Nat) :
    last.sight value counter n = state.sight value counter n +
      (machine watched value).tally
        (during counts fun other loads => other = counter ∧ loads ≤ n)
        moves state := by
  induction moves generalizing state replies with
  | nil =>
      cases ran
      rfl
  | cons move rest induction =>
      rcases Machine.run_cons_eq_some ran with
        ⟨reply, middle, others, stepped, ranRest, -⟩
      have inv' : Inv middle.shared := by
        cases moved stepped with
        | step handled => exact (step inv handled).1
        | load about => exact inv
      rw [induction inv' ranRest, Machine.tally_cons _ stepped,
        sight_move (fun stepped => (step inv stepped).2) stepped counter n,
        Nat.add_assoc]

def replay (sight : ι → Nat → Nat) :
    Handler (fun _ : ι => Nat) (ι → Nat)
  | counter, loads => some (sight counter (loads counter),
      Function.update loads counter (loads counter + 1))

theorem run_replay
    (ran : (machine watched value).run moves state = some (replies, last))
    {result : α} (finished : last.program = .pure result) :
    state.program.run (replay fun counter => last.sight value counter)
      state.loads = some (result, last.loads) := by
  induction moves generalizing state replies with
  | nil =>
      cases ran
      rw [finished]
      rfl
  | cons move rest induction =>
      rcases Machine.run_cons_eq_some ran with
        ⟨reply, middle, others, stepped, ranRest, -⟩
      have played := induction ranRest
      cases moved stepped with
      | step stepped => exact played
      | @load counter next about =>
          have sight : last.sight value counter (state.loads counter) =
              value counter state.shared := by
            have kept := run_prefix ranRest counter
            rw [State.loaded_found_self] at kept
            rcases kept with ⟨later, equal⟩
            simp [State.sight, State.loads, ← equal]
          rw [State.loaded_program, State.loads_loaded] at played
          rw [about, Program.run, replay, Option.bind_some, sight]
          exact played

end Runs

/-! ## Sums -/

section Sums

variable {ι : Type} [DecidableEq ι]

/-- A program that loads each of the counters once and returns their sum. -/
def Adds (program : Program (fun _ : ι => Nat) Nat) (counters : List ι) :
    Prop :=
  ∀ sight loads, program.run (replay sight) loads = some
    ((counters.map fun counter => sight counter (loads counter)).sum,
      fun counter => loads counter + counters.count counter)

theorem run_sumFrom (sight : ι → Nat → Nat) {counters : List ι}
    (nodup : counters.Nodup) (total : Nat) (loads : ι → Nat) :
    (sumFrom total counters).run (replay sight) loads = some
      (total + (counters.map fun counter =>
          sight counter (loads counter)).sum,
        fun counter => loads counter + counters.count counter) := by
  induction counters generalizing total loads with
  | nil => rfl
  | cons counter rest induction =>
      obtain ⟨fresh, nodup⟩ := List.nodup_cons.mp nodup
      have others : rest.map (fun other => sight other
            (Function.update loads counter (loads counter + 1) other)) =
          rest.map fun other => sight other (loads other) := by
        apply List.map_congr_left
        intro other member
        rw [Function.update_of_ne (ne_of_mem_of_not_mem member fresh)]
      rw [sumFrom, Program.run_bind, Program.run_perform, replay,
        Option.bind_some, induction nodup, others, List.map_cons,
        List.sum_cons, Nat.add_assoc]
      congr 2
      funext other
      by_cases same : other = counter
      · subst same
        simp only [Function.update_self, List.count_cons_self]
        omega
      · simp only [Function.update_of_ne same,
          List.count_cons_of_ne (Ne.symm same)]

theorem Adds.sumFrom {counters : List ι} (nodup : counters.Nodup) :
    Adds (sumFrom 0 counters) counters := by
  intro sight loads
  rw [run_sumFrom sight nodup, Nat.zero_add]

theorem map_sight_apart {first second : List ι} (apart : first.Disjoint second)
    (sight : ι → Nat → Nat) (loads : ι → Nat) :
    second.map (fun counter =>
        sight counter (loads counter + first.count counter)) =
      second.map fun counter => sight counter (loads counter) := by
  apply List.map_congr_left
  intro counter member
  rw [List.count_eq_zero_of_not_mem fun member' => apart member' member,
    Nat.add_zero]

theorem Adds.add {left right : Program (fun _ : ι => Nat) Nat}
    {counters counters' : List ι} (adds : Adds left counters)
    (adds' : Adds right counters') (apart : counters.Disjoint counters')
    (order : SumOrder) :
    Adds (add left right order) (counters ++ counters') := by
  intro sight loads
  cases order with
  | leftFirst =>
      rw [Observer.add, Program.run_bind, adds, Option.bind_some,
        Program.run_bind, adds', Option.bind_some, Program.run_pure,
        map_sight_apart apart, List.map_append, List.sum_append]
      congr 2
      funext counter
      simp only [List.count_append, Nat.add_assoc]
  | rightFirst =>
      rw [Observer.add, Program.run_bind, adds', Option.bind_some,
        Program.run_bind, adds, Option.bind_some, Program.run_pure,
        map_sight_apart apart.symm, List.map_append, List.sum_append]
      congr 2
      funext counter
      simp only [List.count_append]
      omega

end Sums

/-! ## Kinds of steps -/

section Kinds

variable {σ Label Reply ι α : Type} [DecidableEq ι]
  {watched : Machine σ Label Reply} {value : ι → σ → Nat}
  {counts : σ → Label → Option ι} {state last : State σ ι α}
  {moves : List (Move Label)}

theorem sum_tally_during (kinds : List (ι → Nat → Bool)) :
    (kinds.map fun kind => (machine watched value).tally
        (during counts kind) moves state).sum =
      (machine watched value).tally (fun state move =>
        (kinds.map fun kind => during counts kind state move).sum)
        moves state := by
  induction kinds with
  | nil => exact (Machine.tally_zero moves state).symm
  | cons kind rest induction =>
      simp only [List.map_cons, List.sum_cons, induction, Machine.tally_add]

variable (watched value counts state moves) in
theorem tally_during_congr (kinds kinds' : List (ι → Nat → Bool))
    (same : ∀ counter loads,
      (kinds.map fun kind => (kind counter loads).toNat).sum =
        (kinds'.map fun kind => (kind counter loads).toNat).sum) :
    (kinds.map fun kind => (machine watched value).tally
        (during counts kind) moves state).sum =
      (kinds'.map fun kind => (machine watched value).tally
        (during counts kind) moves state).sum := by
  rw [sum_tally_during, sum_tally_during]
  congr 1
  funext state move
  cases move with
  | step label =>
      cases counted : counts state.shared label with
      | none => simp [during, counted]
      | some counter => simpa only [during, counted] using same counter _
  | load => simp [during]

/-- Together, some loads find what their counters were at the start and what the
steps before them counted. -/
theorem sight_sum (sight : ∀ counter n, last.sight value counter n =
      state.sight value counter n + (machine watched value).tally
        (during counts fun other loads => other = counter ∧ loads ≤ n)
        moves state)
    {counters : List ι} (nodup : counters.Nodup) (n : ι → Nat) :
    (counters.map fun counter => last.sight value counter (n counter)).sum =
      (counters.map fun counter =>
          state.sight value counter (n counter)).sum +
        (machine watched value).tally (during counts fun counter loads =>
          counter ∈ counters ∧ loads ≤ n counter) moves state := by
  have one : ∀ other loads, (counters.map fun counter =>
      (decide (other = counter ∧ loads ≤ n counter)).toNat).sum =
        (decide (other ∈ counters ∧ loads ≤ n other)).toNat := by
    intro other loads
    induction counters with
    | nil => simp
    | cons counter rest induction =>
        obtain ⟨fresh, nodup⟩ := List.nodup_cons.mp nodup
        rw [List.map_cons, List.sum_cons, induction nodup]
        by_cases same : other = counter
        · subst same
          simp [fresh]
        · simp [same]
  have together : (counters.map fun counter => (machine watched value).tally
        (during counts fun other loads =>
          other = counter ∧ loads ≤ n counter) moves state).sum =
      (machine watched value).tally (during counts fun counter loads =>
        counter ∈ counters ∧ loads ≤ n counter) moves state := by
    have same := tally_during_congr watched value counts state moves
      (counters.map fun counter other loads =>
        decide (other = counter ∧ loads ≤ n counter))
      [fun counter loads => counter ∈ counters ∧ loads ≤ n counter]
      (by simpa [List.map_map, Function.comp_def] using one)
    simpa [List.map_map, Function.comp_def] using same
  rw [← together, ← List.sum_map_add]
  simp only [sight]

end Kinds

end Foundation.Observer
