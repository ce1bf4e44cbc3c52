import Mathlib.Data.List.Zip
import Mathlib.Logic.Function.Basic

namespace Foundation

/-! # Independent components

A family of components, each with a state of its own. A call is addressed to one
of them, and what it does depends on the state of that one alone. -/

namespace Components

variable {ι Call Result σ : Type} [DecidableEq ι]

def addressed (i : ι) (calls : List (ι × Call)) : List Call :=
  (calls.filter fun call => call.1 = i).map (·.2)

def resultsOf (i : ι) (calls : List (ι × Call)) (results : List Result) :
    List Result :=
  addressed i ((calls.map (·.1)).zip results)

def run (step : Call → σ → Result × σ) : List Call → σ → List Result × σ
  | [], state => ([], state)
  | call :: rest, state =>
      let after := step call state
      let final := run step rest after.2
      (after.1 :: final.1, final.2)

def runAll (step : Call → σ → Result × σ) :
    List (ι × Call) → (ι → σ) → List Result × (ι → σ)
  | [], states => ([], states)
  | (i, call) :: rest, states =>
      let after := step call (states i)
      let final := runAll step rest (Function.update states i after.2)
      (after.1 :: final.1, final.2)

@[simp] theorem addressed_nil (i : ι) :
    addressed i ([] : List (ι × Call)) = [] := rfl

@[simp] theorem addressed_cons_self (i : ι) (call : Call)
    (rest : List (ι × Call)) :
    addressed i ((i, call) :: rest) = call :: addressed i rest := by
  simp [addressed]

theorem addressed_cons_of_ne {i j : ι} (different : i ≠ j) (call : Call)
    (rest : List (ι × Call)) :
    addressed j ((i, call) :: rest) = addressed j rest := by
  simp [addressed, different]

theorem addressed_append (i : ι) (first second : List (ι × Call)) :
    addressed i (first ++ second) = addressed i first ++ addressed i second := by
  simp [addressed]

section RunAll

variable (step : Call → σ → Result × σ)

@[simp] theorem runAll_length (calls : List (ι × Call)) (states : ι → σ) :
    (runAll step calls states).1.length = calls.length := by
  induction calls generalizing states with
  | nil => rfl
  | cons call rest induction => exact congrArg (· + 1) (induction _)

theorem runAll_state (calls : List (ι × Call)) (states : ι → σ) (i : ι) :
    (runAll step calls states).2 i =
      (run step (addressed i calls) (states i)).2 := by
  induction calls generalizing states with
  | nil => rfl
  | cons head rest induction =>
      rcases head with ⟨j, call⟩
      simp only [runAll]
      rw [induction]
      by_cases same : j = i
      · subst same
        rw [Function.update_self, addressed_cons_self]
        rfl
      · rw [Function.update_of_ne (Ne.symm same), addressed_cons_of_ne same]

theorem runAll_results (calls : List (ι × Call)) (states : ι → σ) (i : ι) :
    resultsOf i calls (runAll step calls states).1 =
      (run step (addressed i calls) (states i)).1 := by
  induction calls generalizing states with
  | nil => rfl
  | cons head rest induction =>
      rcases head with ⟨j, call⟩
      have rest' := induction (Function.update states j (step call (states j)).2)
      simp only [runAll, resultsOf, List.map_cons, List.zip_cons_cons]
      simp only [resultsOf] at rest'
      by_cases same : j = i
      · subst same
        rw [addressed_cons_self, addressed_cons_self, rest', Function.update_self]
        rfl
      · rw [addressed_cons_of_ne same, addressed_cons_of_ne same, rest',
          Function.update_of_ne (Ne.symm same)]

theorem runAll_single (i : ι) (calls : List Call) (states : ι → σ) :
    runAll step (calls.map fun call => (i, call)) states =
      ((run step calls (states i)).1,
        Function.update states i (run step calls (states i)).2) := by
  induction calls generalizing states with
  | nil => exact Prod.ext rfl (Function.update_eq_self i states).symm
  | cons call rest induction =>
      simp only [List.map_cons, runAll, run, induction, Function.update_self,
        Function.update_idem]

/-- Calls of different components commute. -/
theorem runAll_swap {i j : ι} (different : i ≠ j) (first second : Call)
    (states : ι → σ) :
    (runAll step [(j, second), (i, first)] states).2 =
        (runAll step [(i, first), (j, second)] states).2 ∧
      (runAll step [(j, second), (i, first)] states).1 =
        (runAll step [(i, first), (j, second)] states).1.reverse := by
  simp only [runAll, Function.update_of_ne different,
    Function.update_of_ne (Ne.symm different)]
  exact ⟨Function.update_comm (Ne.symm different) _ _ _, rfl⟩

theorem runAll_map {Call' : Type} (transform : Call' → Call)
    (calls : List (ι × Call')) (states : ι → σ) :
    runAll step (calls.map fun call => (call.1, transform call.2)) states =
      runAll (fun call => step (transform call)) calls states := by
  induction calls generalizing states with
  | nil => rfl
  | cons head rest induction =>
      simp only [List.map_cons, runAll, induction]

end RunAll

/-! ## The order between components -/

theorem count_addressed [DecidableEq Call] (i : ι) (call : Call)
    (calls : List (ι × Call)) :
    (addressed i calls).count call = calls.count (i, call) := by
  induction calls with
  | nil => rfl
  | cons head rest induction =>
      rcases head with ⟨j, other⟩
      by_cases same : j = i
      · subst same
        simp [List.count_cons, induction]
      · rw [addressed_cons_of_ne same, induction, List.count_cons_of_ne]
        intro equal
        exact same (Prod.mk.inj equal).1

theorem perm_of_addressed {calls calls' : List (ι × Call)}
    (same : ∀ i, addressed i calls = addressed i calls') :
    calls.Perm calls' := by
  classical
  apply List.perm_iff_count.mpr
  rintro ⟨i, call⟩
  rw [← count_addressed, ← count_addressed, same]

def answered (calls : List (ι × Call)) (results : List Result) :
    List (ι × Call × Result) :=
  calls.zipWith (fun call result => (call.1, call.2, result)) results

theorem addressed_answered (i : ι) (calls : List (ι × Call))
    (results : List Result) : addressed i (answered calls results) =
      (addressed i calls).zip (resultsOf i calls results) := by
  induction calls generalizing results with
  | nil => rfl
  | cons head rest induction =>
      rcases head with ⟨j, call⟩
      cases results with
      | nil => simp [answered, resultsOf]
      | cons result results =>
          simp only [answered, resultsOf, List.zipWith_cons_cons, List.map_cons,
            List.zip_cons_cons]
          by_cases same : j = i
          · subst same
            simp only [addressed_cons_self, List.zip_cons_cons]
            exact congrArg _ (induction results)
          · simp only [addressed_cons_of_ne same]
            exact induction results

/-- Every call has the same result in whatever order the components take their
turns. -/
theorem runAll_perm (step : Call → σ → Result × σ)
    {calls calls' : List (ι × Call)}
    (same : ∀ i, addressed i calls = addressed i calls') (states : ι → σ) :
    (answered calls (runAll step calls states).1).Perm
      (answered calls' (runAll step calls' states).1) := by
  apply perm_of_addressed
  intro i
  rw [addressed_answered, addressed_answered, runAll_results, runAll_results,
    same]

theorem runAll_state_eq (step : Call → σ → Result × σ)
    {calls calls' : List (ι × Call)}
    (same : ∀ i, addressed i calls = addressed i calls') (states : ι → σ) :
    (runAll step calls states).2 = (runAll step calls' states).2 := by
  funext i
  rw [runAll_state, runAll_state, same]

omit [DecidableEq ι] in
theorem answered_calls {calls : List (ι × Call)} {results : List Result}
    (length : results.length = calls.length) :
    (answered calls results).map (fun answer => answer.2.1) =
      calls.map (·.2) := by
  induction calls generalizing results with
  | nil => rfl
  | cons call rest induction =>
      cases results with
      | nil => cases length
      | cons result results =>
          exact congrArg _ (induction (Nat.succ.inj length))

theorem addressed_flatMap {components : List ι} (nodup : components.Nodup)
    (group : ι → List Call) {i : ι} (member : i ∈ components) :
    addressed i (components.flatMap fun j =>
      (group j).map fun call => (j, call)) = group i := by
  have own : ∀ j, addressed i ((group j).map fun call => (j, call)) =
      if j = i then group i else [] := by
    intro j
    by_cases same : j = i
    · subst same
      simp [addressed, List.filter_map, Function.comp_def]
    · simp [addressed, same, List.filter_map, Function.comp_def]
  induction components with
  | nil => cases member
  | cons head rest induction =>
      rw [List.flatMap_cons, addressed_append, own]
      have fresh := (List.nodup_cons.mp nodup).1
      rcases List.mem_cons.mp member with rfl | member
      · have others : addressed i (rest.flatMap fun j =>
            (group j).map fun call => (j, call)) = [] := by
          rw [addressed, List.map_eq_nil_iff, List.filter_eq_nil_iff]
          intro call inside
          rcases List.mem_flatMap.mp inside with ⟨j, inRest, inside⟩
          rcases List.mem_map.mp inside with ⟨_, -, rfl⟩
          simp only [decide_eq_true_eq]
          rintro rfl
          exact fresh inRest
        rw [others, if_pos rfl, List.append_nil]
      · have different : head ≠ i := by
          rintro rfl
          exact fresh member
        rw [if_neg different, List.nil_append]
        exact induction (List.nodup_cons.mp nodup).2 member

end Components

end Foundation
