import Mathlib.Data.List.Basic

namespace Foundation

/-! # Actions that leave no trace

When some actions cannot be told from doing nothing, a run looks like one
without them. -/

/-- States that look alike, and the actions that matter. The invariant `Inv`
holds of all states, as long as the actions are `allowed`. -/
structure Unwinding {σ Action : Type} (next : σ → Action → σ)
    (allowed : Action → Prop) (matters : Action → Bool) (Inv : σ → Prop)
    (Alike : σ → σ → Prop) : Prop where
  refl : ∀ state, Alike state state
  symm : ∀ {state state'}, Alike state state' → Alike state' state
  trans : ∀ {first second third}, Alike first second → Alike second third →
    Alike first third
  keeps : ∀ {state action}, Inv state → allowed action →
    Inv (next state action)
  step : ∀ {state state' action}, Inv state → Inv state' → allowed action →
    Alike state state' → Alike (next state action) (next state' action)
  skip : ∀ {state action}, Inv state → allowed action →
    matters action = false → Alike (next state action) state

namespace Unwinding

variable {σ Action : Type} {next : σ → Action → σ} {allowed : Action → Prop}
  {matters : Action → Bool} {Inv : σ → Prop} {Alike : σ → σ → Prop}
  {state state' : σ} {actions actions' : List Action}

/-- A run looks like the run without the actions that do not matter. -/
theorem foldl_filter (unwinding : Unwinding next allowed matters Inv Alike)
    (inv : Inv state) (inv' : Inv state') (alike : Alike state state')
    (permitted : ∀ action ∈ actions, allowed action) :
    Alike (actions.foldl next state)
      ((actions.filter matters).foldl next state') := by
  induction actions generalizing state state' with
  | nil => exact alike
  | cons action rest induction =>
      have here := permitted action List.mem_cons_self
      have later : ∀ action ∈ rest, allowed action :=
        fun action member => permitted action (List.mem_cons_of_mem _ member)
      rw [List.foldl_cons]
      cases counts : matters action with
      | true =>
          rw [List.filter_cons_of_pos counts, List.foldl_cons]
          exact induction (unwinding.keeps inv here)
            (unwinding.keeps inv' here) (unwinding.step inv inv' here alike) later
      | false =>
          rw [List.filter_cons_of_neg (by simp [counts])]
          exact induction (unwinding.keeps inv here) inv'
            (unwinding.trans (unwinding.skip inv here counts) alike) later

/-- Runs with the same actions that matter look alike. -/
theorem foldl_alike (unwinding : Unwinding next allowed matters Inv Alike)
    (inv : Inv state) (permitted : ∀ action ∈ actions, allowed action)
    (permitted' : ∀ action ∈ actions', allowed action)
    (same : actions'.filter matters = actions.filter matters) :
    Alike (actions.foldl next state) (actions'.foldl next state) := by
  have first := unwinding.foldl_filter inv inv (unwinding.refl state) permitted
  have second := unwinding.foldl_filter inv inv (unwinding.refl state) permitted'
  rw [same] at second
  exact unwinding.trans first (unwinding.symm second)

end Unwinding

end Foundation
