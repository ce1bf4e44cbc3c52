import Mathlib.Control.Basic
import Walde.Foundation.Program

namespace Foundation

/-! # Computations with notes

A computation that keeps notes next to its work. Where the notes never change
what it does, they can be erased. -/

section Erasure

variable {Notes : Type} {m : Type → Type} [Monad m] {α β : Type}

/-- Whatever the notes are, the computation does what `plain` does. -/
def Erases (noted : StateT Notes m α) (plain : m α) : Prop :=
  ∀ notes, Prod.fst <$> noted.run notes = plain

def Silent (noted : StateT Notes m α) : Prop :=
  ∀ notes, ∃ outcome, noted.run notes = pure outcome

theorem Silent.modifyGet (change : Notes → α × Notes) :
    Silent (modifyGet change : StateT Notes m α) :=
  fun notes => ⟨change notes, rfl⟩

theorem Silent.pure (result : α) : Silent (pure result : StateT Notes m α) :=
  fun notes => ⟨(result, notes), rfl⟩

variable [LawfulMonad m]

theorem Silent.bind {noted : StateT Notes m α}
    {next : α → StateT Notes m β} (silent : Silent noted)
    (rest : ∀ result, Silent (next result)) : Silent (noted >>= next) := by
  intro notes
  rcases silent notes with ⟨⟨result, notes'⟩, ran⟩
  rcases rest result notes' with ⟨outcome, ran'⟩
  refine ⟨outcome, ?_⟩
  rw [StateT.run_bind, ran, pure_bind, ran']

theorem Erases.pure (result : α) :
    Erases (pure result : StateT Notes m α) (Pure.pure result) := by
  intro notes
  rw [StateT.run_pure, map_pure]

theorem Erases.lift (plain : m α) :
    Erases (liftM plain : StateT Notes m α) plain := by
  intro notes
  simp [liftM]

theorem Erases.bind {noted : StateT Notes m α} {plain : m α}
    {next : α → StateT Notes m β} {plainNext : α → m β}
    (erases : Erases noted plain)
    (rest : ∀ result, Erases (next result) (plainNext result)) :
    Erases (noted >>= next) (plain >>= plainNext) := by
  intro notes
  rw [StateT.run_bind, map_bind, ← erases notes, bind_map_left]
  exact bind_congr fun outcome => rest outcome.1 outcome.2

theorem Erases.note {noted : StateT Notes m α}
    {next : α → StateT Notes m β} {plain : m β} (silent : Silent noted)
    (rest : ∀ result, Erases (next result) plain) :
    Erases (noted >>= next) plain := by
  intro notes
  rcases silent notes with ⟨⟨result, notes'⟩, ran⟩
  rw [StateT.run_bind, ran, pure_bind]
  exact rest result notes'

/-- A computation with notes ends where the one without them does. -/
theorem Erases.outcome {σ : Type} {noted : StateT Notes (StateT σ Option) α}
    {plain : StateT σ Option α} (erases : Erases noted plain) {state : σ}
    {result : α} {state' : σ} (ran : plain.run state = some (result, state'))
    (notes : Notes) :
    ∃ notes', (noted.run notes).run state = some ((result, notes'), state') := by
  have erased := congrFun (erases notes) state
  change ((noted.run notes).run state).bind
    (fun outcome => some (outcome.1.1, outcome.2)) = plain.run state at erased
  rw [ran] at erased
  rcases Option.bind_eq_some_iff.mp erased with
    ⟨⟨⟨_, notes'⟩, _⟩, completed, same⟩
  cases same
  exact ⟨notes', completed⟩

end Erasure

/-! ## Completed computations -/

section Completed

variable {Notes σ α β : Type} {notes notes' : Notes} {state state' : σ}
  {result : α}

theorem bind_completed {noted : StateT Notes (StateT σ Option) α}
    {next : α → StateT Notes (StateT σ Option) β}
    {outcome : Option ((β × Notes) × σ)}
    (first : noted notes state = some ((result, notes'), state'))
    (rest : next result notes' state' = outcome) :
    (noted >>= next) notes state = outcome := by
  change (noted notes state).bind _ = outcome
  rw [first]
  exact rest

theorem lift_completed {plain : StateT σ Option α}
    (ran : plain state = some (result, state')) :
    (liftM plain : StateT Notes (StateT σ Option) α) notes state =
      some ((result, notes), state') := by
  change (plain state).bind _ = _
  rw [ran]
  rfl

end Completed

/-! ## Computations that follow a program

A computation with notes, next to a program that keeps a view of the notes
only. -/

section Follows

variable {Notes View Instr σ α β : Type} {Answer : Instr → Type}

/-- Wherever the notes show a view, the computation ends as the program does
that is run alone, and the notes show what the program says. -/
def Follows (handler : Handler Answer σ) (Inv : σ → Prop)
    (shows' : Notes → View → Prop) (noted : StateT Notes (StateT σ Option) α)
    (program : StateT View (Program Answer) α) : Prop :=
  ∀ ⦃notes view state⦄, shows' notes view → Inv state →
    ∃ result notes' view' state',
      noted notes state = some ((result, notes'), state') ∧
      (program view).run handler state = some ((result, view'), state') ∧
      shows' notes' view' ∧ Inv state'

variable {handler : Handler Answer σ} {Inv : σ → Prop}
  {shows' : Notes → View → Prop}

theorem Follows.pure (result : α) :
    Follows handler Inv shows' (pure result) (pure result) := by
  intro notes view state shown inv
  exact ⟨result, notes, view, state, rfl, rfl, shown, inv⟩

theorem Follows.bind {noted : StateT Notes (StateT σ Option) α}
    {program : StateT View (Program Answer) α}
    {next : α → StateT Notes (StateT σ Option) β}
    {programNext : α → StateT View (Program Answer) β}
    (follows : Follows handler Inv shows' noted program)
    (rest : ∀ result,
      Follows handler Inv shows' (next result) (programNext result)) :
    Follows handler Inv shows' (noted >>= next) (program >>= programNext) := by
  intro notes view state shown inv
  rcases follows shown inv with
    ⟨result, notes', view', state', completed, ran, shown', inv'⟩
  rcases rest result shown' inv' with
    ⟨last, notes'', view'', state'', completed', ran', shown'', inv''⟩
  refine ⟨last, notes'', view'', state'', bind_completed completed completed',
    ?_, shown'', inv''⟩
  change (program view >>= fun outcome =>
    programNext outcome.1 outcome.2).run handler state = _
  rw [Program.run_bind, ran]
  exact ran'

theorem Follows.note {change : Notes → α × Notes}
    {next : α → StateT Notes (StateT σ Option) β}
    {program : StateT View (Program Answer) β}
    (kept : ∀ notes view, shows' notes view → shows' (change notes).2 view)
    (rest : ∀ result, Follows handler Inv shows' (next result) program) :
    Follows handler Inv shows' (modifyGet change >>= next) program := by
  intro notes view state shown inv
  exact rest (change notes).1 (kept notes view shown) inv

theorem Follows.set {change : Notes → Notes} {view : View}
    {next : Unit → StateT Notes (StateT σ Option) β}
    {programNext : PUnit → StateT View (Program Answer) β}
    (shown : ∀ notes before, shows' notes before → shows' (change notes) view)
    (rest : Follows handler Inv shows' (next ()) (programNext ⟨⟩)) :
    Follows handler Inv shows'
      ((modifyGet fun notes => ((), change notes)) >>= next)
      (set view >>= programNext) := by
  intro notes before state here inv
  exact rest (shown notes before here) inv

theorem Follows.lift {plain : StateT σ Option α} {program : Program Answer α}
    (completes : ∀ {state}, Inv state → ∃ result state',
      plain state = some (result, state') ∧
      program.run handler state = some (result, state') ∧ Inv state') :
    Follows handler Inv shows' (liftM plain) (liftM program) := by
  intro notes view state shown inv
  rcases completes inv with ⟨result, state', completed, ran, inv'⟩
  refine ⟨result, notes, view, state', lift_completed completed, ?_, shown,
    inv'⟩
  change (program >>= fun result => Pure.pure (result, view)).run handler state
    = _
  rw [Program.run_bind, ran]
  rfl

end Follows

/-! ## What the notes say in the end -/

section Leaves

variable {Notes Instr : Type} {Answer : Instr → Type} {α β : Type}
  {notes : Notes}

/-- Whatever the instructions answer, a program with notes comes to a result
and to notes that satisfy `post`. -/
def Leaves (noted : StateT Notes (Program Answer) α) (notes : Notes)
    (post : α → Notes → Prop) : Prop :=
  (noted.run notes).Always fun outcome => post outcome.1 outcome.2

theorem leaves_pure {post : α → Notes → Prop} {result : α}
    (holds : post result notes) :
    Leaves (pure result : StateT Notes (Program Answer) α) notes post := holds

theorem leaves_lift {post : α → Notes → Prop} {program : Program Answer α}
    (holds : ∀ result, post result notes) :
    Leaves (liftM program : StateT Notes (Program Answer) α) notes post := by
  change Program.Always _ (program >>= fun result => pure (result, notes))
  rw [Program.always_bind]
  exact Program.Always.of_forall holds program

theorem Leaves.bind {noted : StateT Notes (Program Answer) α}
    {next : α → StateT Notes (Program Answer) β} {middle : α → Notes → Prop}
    {post : β → Notes → Prop} (leaves : Leaves noted notes middle)
    (rest : ∀ result notes, middle result notes →
      Leaves (next result) notes post) :
    Leaves (noted >>= next) notes post := by
  rw [Leaves, StateT.run_bind, Program.always_bind]
  exact leaves.mono fun outcome holds => rest outcome.1 outcome.2 holds

theorem leaves_modifyGet_bind {change : Notes → α × Notes}
    {next : α → StateT Notes (Program Answer) β} {post : β → Notes → Prop}
    (rest : Leaves (next (change notes).1) (change notes).2 post) :
    Leaves (modifyGet change >>= next) notes post := rest

theorem leaves_lift_bind {program : Program Answer α}
    {next : α → StateT Notes (Program Answer) β} {post : β → Notes → Prop}
    (rest : ∀ result, Leaves (next result) notes post) :
    Leaves (liftM program >>= next) notes post := by
  have kept : Leaves (liftM program : StateT Notes (Program Answer) α) notes
      fun _ after => after = notes := leaves_lift fun _ => rfl
  exact kept.bind fun result _ same => same ▸ rest result

def LeavesHeld (held : Notes → Prop) (noted : StateT Notes (Program Answer) α) :
    Prop :=
  ∀ notes, held notes → Leaves noted notes fun _ after => held after

variable {held : Notes → Prop}

theorem LeavesHeld.pure (result : α) :
    LeavesHeld held (pure result : StateT Notes (Program Answer) α) :=
  fun _ holds => leaves_pure holds

theorem LeavesHeld.lift (program : Program Answer α) :
    LeavesHeld held (liftM program : StateT Notes (Program Answer) α) :=
  fun _ holds => leaves_lift fun _ => holds

theorem LeavesHeld.modifyGet {change : Notes → α × Notes}
    (kept : ∀ notes, held notes → held (change notes).2) :
    LeavesHeld held
      (modifyGet change : StateT Notes (Program Answer) α) := kept

theorem LeavesHeld.bind {noted : StateT Notes (Program Answer) α}
    {next : α → StateT Notes (Program Answer) β} (leaves : LeavesHeld held noted)
    (rest : ∀ result, LeavesHeld held (next result)) :
    LeavesHeld held (noted >>= next) :=
  fun notes holds => (leaves notes holds).bind fun result => rest result

end Leaves

end Foundation
