import Mathlib.Data.Fintype.BigOperators
import Walde.Foundation.Components
import Walde.Foundation.Ledger

namespace Foundation.Family

/-! # Families of machines

A label is addressed to one member of the family, which alone takes the step. -/

open Components

variable {ι Label Reply σ : Type} [DecidableEq ι]

def machine (member : Machine σ Label Reply) :
    Machine (ι → σ) (ι × Label) Reply
  | states, (i, label) => do
      let (reply, state) ← member (states i) label
      return (reply, Function.update states i state)

section Step

variable {member : Machine σ Label Reply} {states last : ι → σ} {i : ι}
  {label : Label} {reply : Reply} {state : σ}

theorem step (stepped : member (states i) label = some (reply, state)) :
    machine member states (i, label) =
      some (reply, Function.update states i state) := by
  rw [machine, stepped]
  rfl

theorem step_eq_some
    (stepped : machine member states (i, label) = some (reply, last)) :
    ∃ state, member (states i) label = some (reply, state) ∧
      last = Function.update states i state := by
  rcases Option.bind_eq_some_iff.mp stepped with ⟨⟨_, state⟩, found, equal⟩
  cases equal
  exact ⟨state, found, rfl⟩

@[simp] theorem resultsOf_cons_self (calls : List (ι × Label))
    (results : List Reply) :
    resultsOf i ((i, label) :: calls) (reply :: results) =
      reply :: resultsOf i calls results :=
  addressed_cons_self i reply _

theorem resultsOf_cons_of_ne {j : ι} (different : i ≠ j)
    (calls : List (ι × Label)) (results : List Reply) :
    resultsOf j ((i, label) :: calls) (reply :: results) =
      resultsOf j calls results :=
  addressed_cons_of_ne different reply _

end Step

/-! ## Runs -/

section Runs

variable {member : Machine σ Label Reply} {calls calls' : List (ι × Label)}
  {states last : ι → σ} {results : List Reply}

/-- Each member does in the family what it does alone. -/
theorem members_of_run
    (ran : (machine member).run calls states = some (results, last)) (i : ι) :
    member.run (addressed i calls) (states i) =
      some (resultsOf i calls results, last i) := by
  induction calls generalizing states results with
  | nil =>
      cases ran
      rfl
  | cons head rest induction =>
      rcases head with ⟨j, label⟩
      rcases Machine.run_cons_eq_some ran with
        ⟨reply, middle, others, stepped, ranRest, rfl⟩
      rcases step_eq_some stepped with ⟨state, alone, rfl⟩
      have after := induction ranRest
      by_cases same : j = i
      · subst same
        rw [Function.update_self] at after
        rw [addressed_cons_self, resultsOf_cons_self]
        exact Machine.run_cons alone after
      · rw [Function.update_of_ne (Ne.symm same)] at after
        rw [addressed_cons_of_ne same, resultsOf_cons_of_ne same]
        exact after

theorem run_of_members {replies : ι → List Reply}
    (ran : ∀ i, member.run (addressed i calls) (states i) =
      some (replies i, last i)) :
    ∃ results, (machine member).run calls states = some (results, last) ∧
      ∀ i, resultsOf i calls results = replies i := by
  induction calls generalizing states replies with
  | nil =>
      have still : ∀ i, [] = replies i ∧ states i = last i := fun i =>
        Prod.mk.inj (Option.some.inj (ran i))
      obtain rfl : states = last := funext fun i => (still i).2
      exact ⟨[], rfl, fun i => (still i).1⟩
  | cons head rest induction =>
      rcases head with ⟨j, label⟩
      have own := ran j
      rw [addressed_cons_self] at own
      rcases Machine.run_cons_eq_some own with
        ⟨reply, state, others, stepped, ranRest, split⟩
      have restRan : ∀ i, member.run (addressed i rest)
          (Function.update states j state i) =
            some (Function.update replies j others i, last i) := by
        intro i
        by_cases same : i = j
        · subst same
          rw [Function.update_self, Function.update_self]
          exact ranRest
        · have alone := ran i
          rw [addressed_cons_of_ne (Ne.symm same)] at alone
          rw [Function.update_of_ne same, Function.update_of_ne same]
          exact alone
      rcases induction restRan with ⟨results, familyRan, answers⟩
      refine ⟨reply :: results, Machine.run_cons (step stepped) familyRan, ?_⟩
      intro i
      by_cases same : j = i
      · subst same
        rw [resultsOf_cons_self, answers, Function.update_self, split]
      · rw [resultsOf_cons_of_ne same, answers,
          Function.update_of_ne (Ne.symm same)]

/-- The order between members shows neither in the replies nor in the states. -/
theorem run_perm (same : ∀ i, addressed i calls = addressed i calls')
    (ran : (machine member).run calls states = some (results, last)) :
    ∃ results', (machine member).run calls' states = some (results', last) ∧
      (answered calls results).Perm (answered calls' results') := by
  have alone : ∀ i, member.run (addressed i calls') (states i) =
      some (resultsOf i calls results, last i) := by
    intro i
    rw [← same]
    exact members_of_run ran i
  rcases run_of_members alone with ⟨results', ran', answers⟩
  refine ⟨results', ran', perm_of_addressed fun i => ?_⟩
  rw [addressed_answered, addressed_answered, same, answers]

end Runs

/-! ## Sums over the members -/

section Sums

variable [Fintype ι]

theorem sum_update (measure : σ → Nat) (states : ι → σ) (i : ι) (state : σ) :
    (∑ j, measure (Function.update states i state j)) + measure (states i) =
      (∑ j, measure (states j)) + measure state := by
  apply sum_gain_of_mem (Finset.mem_univ i)
  · rw [Function.update_self]
    exact Nat.add_comm _ _
  · intro j different
    rw [Function.update_of_ne different]

theorem sum_countP_resultsOf (kind : Reply → Bool) {calls : List (ι × Label)}
    {results : List Reply} (length : results.length = calls.length) :
    ∑ i, (resultsOf i calls results).countP kind = results.countP kind := by
  induction calls generalizing results with
  | nil =>
      rw [List.length_eq_zero_iff.mp length]
      exact Finset.sum_const_zero
  | cons head rest induction =>
      rcases head with ⟨j, label⟩
      rcases List.exists_cons_of_length_eq_add_one length with
        ⟨reply, others, rfl⟩
      have later := induction (Nat.succ.inj length)
      rw [List.countP_cons, ← later]
      apply (Nat.add_zero _).symm.trans
      apply sum_gain_of_mem (Finset.mem_univ j)
      · rw [resultsOf_cons_self, List.countP_cons, Nat.add_zero]
      · intro i different
        rw [resultsOf_cons_of_ne (Ne.symm different)]

end Sums

end Foundation.Family
