import Mathlib.Data.List.Basic
import Mathlib.Data.Option.Basic

namespace Foundation

/-! # Runs of a labelled machine -/

/-- What a machine does on a label: a reply and the next state, or a fault. -/
abbrev Machine (σ Label Reply : Type) := σ → Label → Option (Reply × σ)

namespace Machine

variable {σ Label Reply : Type} {machine : Machine σ Label Reply}

def run (machine : Machine σ Label Reply) :
    List Label → σ → Option (List Reply × σ)
  | [], state => some ([], state)
  | label :: rest, state => do
      let (reply, state) ← machine state label
      let (replies, state) ← run machine rest state
      return (reply :: replies, state)

theorem run_cons {label : Label} {rest : List Label} {state middle last : σ}
    {reply : Reply} {replies : List Reply}
    (stepped : machine state label = some (reply, middle))
    (ran : machine.run rest middle = some (replies, last)) :
    machine.run (label :: rest) state = some (reply :: replies, last) := by
  simp only [run, stepped, ran, Option.bind_eq_bind, Option.bind_some]
  rfl

theorem run_cons_eq_some {label : Label} {rest : List Label} {state last : σ}
    {replies : List Reply}
    (ran : machine.run (label :: rest) state = some (replies, last)) :
    ∃ reply middle others, machine state label = some (reply, middle) ∧
      machine.run rest middle = some (others, last) ∧
      replies = reply :: others := by
  rcases Option.bind_eq_some_iff.mp ran with ⟨⟨reply, middle⟩, stepped, ran⟩
  rcases Option.bind_eq_some_iff.mp ran with ⟨⟨others, last'⟩, ran, equal⟩
  cases equal
  exact ⟨reply, middle, others, stepped, ran, rfl⟩

theorem run_length {labels : List Label} {state last : σ}
    {replies : List Reply}
    (ran : machine.run labels state = some (replies, last)) :
    replies.length = labels.length := by
  induction labels generalizing state replies with
  | nil =>
      cases ran
      rfl
  | cons label rest induction =>
      rcases run_cons_eq_some ran with
        ⟨reply, after, others, stepped, ranRest, rfl⟩
      rw [List.length_cons, List.length_cons, induction ranRest]

theorem run_append {first second : List Label} {state middle last : σ}
    {replies replies' : List Reply}
    (ran : machine.run first state = some (replies, middle))
    (ran' : machine.run second middle = some (replies', last)) :
    machine.run (first ++ second) state = some (replies ++ replies', last) := by
  induction first generalizing state replies with
  | nil =>
      cases ran
      exact ran'
  | cons label rest induction =>
      rcases run_cons_eq_some ran with
        ⟨reply, after, others, stepped, ranRest, rfl⟩
      exact run_cons stepped (induction ranRest)

def Along (machine : Machine σ Label Reply) (condition : σ → Label → Prop) :
    List Label → σ → Prop
  | [], _ => True
  | label :: rest, state => condition state label ∧
      ∀ outcome ∈ machine state label, machine.Along condition rest outcome.2

instance decidableAlong (machine : Machine σ Label Reply)
    (condition : σ → Label → Prop)
    [∀ state label, Decidable (condition state label)] :
    ∀ labels state, Decidable (machine.Along condition labels state)
  | [], _ => .isTrue trivial
  | label :: rest, state =>
      have := decidableAlong machine condition rest
      inferInstanceAs (Decidable (condition state label ∧
        ∀ outcome ∈ machine state label,
          machine.Along condition rest outcome.2))

theorem Along.mono {condition condition' : σ → Label → Prop}
    {labels : List Label} {state : σ}
    (along : machine.Along condition labels state)
    (weaker : ∀ state, ∀ label ∈ labels, condition state label →
      condition' state label) :
    machine.Along condition' labels state := by
  induction labels generalizing state with
  | nil => trivial
  | cons label rest induction =>
      refine ⟨weaker state label List.mem_cons_self along.1, ?_⟩
      intro outcome stepped
      exact induction (along.2 outcome stepped) fun state other member =>
        weaker state other (List.mem_cons_of_mem label member)

theorem Along.of_append {condition : σ → Label → Prop}
    {first second : List Label} {state : σ}
    (along : machine.Along condition (first ++ second) state) :
    machine.Along condition first state := by
  induction first generalizing state with
  | nil => trivial
  | cons label rest induction =>
      exact ⟨along.1, fun outcome stepped => induction (along.2 outcome stepped)⟩

theorem Along.of_forall {condition : σ → Label → Prop} {labels : List Label}
    (always : ∀ state, ∀ label ∈ labels, condition state label) (state : σ) :
    machine.Along condition labels state := by
  induction labels generalizing state with
  | nil => trivial
  | cons label rest induction =>
      refine ⟨always state label List.mem_cons_self, fun outcome _ => ?_⟩
      exact induction (fun state other member =>
        always state other (List.mem_cons_of_mem label member)) outcome.2

/-- The rule for runs: an invariant of the steps taken so far and the state. A
step that meets the condition does not fault, gives a good reply and keeps the
invariant. -/
structure Keeps (machine : Machine σ Label Reply)
    (condition : σ → Label → Prop) (Inv : List Label → σ → Prop)
    (Good : List Label → Label → Reply → Prop) : Prop where
  step : ∀ past state label, Inv past state → condition state label →
    ∃ reply after, machine state label = some (reply, after) ∧
      Good past label reply ∧ Inv (past ++ [label]) after

theorem Keeps.run {condition : σ → Label → Prop} {Inv : List Label → σ → Prop}
    {Good : List Label → Label → Reply → Prop}
    (keeps : machine.Keeps condition Inv Good) (past : List Label)
    {labels : List Label} {state : σ} (inv : Inv past state)
    (along : machine.Along condition labels state) :
    ∃ replies last, machine.run labels state = some (replies, last) ∧
      Inv (past ++ labels) last ∧
      ∀ before label after, labels = before ++ label :: after →
        ∃ reply, replies[before.length]? = some reply ∧
          Good (past ++ before) label reply := by
  induction labels generalizing past state with
  | nil =>
      refine ⟨[], state, rfl, by rwa [List.append_nil], ?_⟩
      intro before label after impossible
      simp at impossible
  | cons head rest induction =>
      rcases keeps.step past state head inv along.1 with
        ⟨reply, middle, stepped, good, inv'⟩
      rcases induction _ inv' (along.2 (reply, middle) stepped) with
        ⟨replies, last, ran, final, goods⟩
      refine ⟨reply :: replies, last, run_cons stepped ran, by simpa using final,
        ?_⟩
      intro before label after split
      cases before with
      | nil =>
          obtain ⟨rfl, rfl⟩ := List.cons.inj split
          exact ⟨reply, rfl, by rwa [List.append_nil]⟩
      | cons first before =>
          obtain ⟨rfl, rfl⟩ := List.cons.inj split
          rcases goods before label after rfl with ⟨answer, found, good⟩
          exact ⟨answer, by simpa using found, by simpa using good⟩

/-- The rule for runs that are known to end: whatever a step reaches keeps the
invariant. -/
theorem run_preserves {condition : σ → Label → Prop} {Inv : σ → Prop}
    (step : ∀ state label reply after, Inv state → condition state label →
      machine state label = some (reply, after) → Inv after)
    {labels : List Label} {state last : σ} {replies : List Reply}
    (inv : Inv state) (along : machine.Along condition labels state)
    (ran : machine.run labels state = some (replies, last)) : Inv last := by
  induction labels generalizing state replies with
  | nil =>
      cases ran
      exact inv
  | cons label rest induction =>
      rcases run_cons_eq_some ran with
        ⟨reply, middle, others, stepped, ranRest, -⟩
      exact induction (step state label reply middle inv along.1 stepped)
        (along.2 (reply, middle) stepped) ranRest

/-- The same with an invariant that also speaks of the steps taken so far. -/
theorem run_preserves_past {condition : σ → Label → Prop}
    {Inv : List Label → σ → Prop}
    (step : ∀ past state label reply after, Inv past state →
      condition state label → machine state label = some (reply, after) →
      Inv (past ++ [label]) after)
    (past : List Label) {labels : List Label} {state last : σ}
    {replies : List Reply} (inv : Inv past state)
    (along : machine.Along condition labels state)
    (ran : machine.run labels state = some (replies, last)) :
    Inv (past ++ labels) last := by
  induction labels generalizing past state replies with
  | nil =>
      cases ran
      rwa [List.append_nil]
  | cons label rest induction =>
      rcases run_cons_eq_some ran with
        ⟨reply, middle, others, stepped, ranRest, -⟩
      rw [List.append_cons]
      exact induction (past ++ [label])
        (step past state label reply middle inv along.1 stepped)
        (along.2 (reply, middle) stepped) ranRest

/-! ## Two machines -/

section Simulation

variable {τ : Type} {machine' : Machine τ Label Reply} {Rel : σ → τ → Prop}

/-- Two machines that answer every label alike and stay related make the same
runs. -/
theorem run_simulates
    (step : ∀ state state' label, Rel state state' →
      ∃ reply after after', machine state label = some (reply, after) ∧
        machine' state' label = some (reply, after') ∧ Rel after after')
    {state : σ} {state' : τ} (related : Rel state state')
    (labels : List Label) :
    ∃ replies last last', machine.run labels state = some (replies, last) ∧
      machine'.run labels state' = some (replies, last') ∧ Rel last last' := by
  induction labels generalizing state state' with
  | nil => exact ⟨[], state, state', rfl, rfl, related⟩
  | cons label rest induction =>
      rcases step state state' label related with
        ⟨reply, middle, middle', stepped, stepped', related⟩
      rcases induction related with
        ⟨replies, last, last', ran, ran', related⟩
      exact ⟨reply :: replies, last, last', run_cons stepped ran,
        run_cons stepped' ran', related⟩

end Simulation

section Projection

variable {τ Label' Reply' : Type} {machine' : Machine τ Label' Reply'}

theorem run_project {label : Label → Label'} {reply : Reply → Reply'}
    {project : σ → τ}
    (step : ∀ state first, (machine state first).map (Prod.map reply project) =
      machine' (project state) (label first)) (labels : List Label)
    (state : σ) :
    (machine.run labels state).map (Prod.map (List.map reply) project) =
      machine'.run (labels.map label) (project state) := by
  induction labels generalizing state with
  | nil => rfl
  | cons first rest induction =>
      simp only [run, List.map_cons, ← step, Option.bind_eq_bind,
        Option.map_bind, Option.bind_map]
      apply Option.bind_congr
      intro outcome _
      simp only [Function.comp_apply, Prod.map_snd, ← induction,
        Option.map_bind, Option.bind_map]
      rfl

end Projection

end Machine

end Foundation
