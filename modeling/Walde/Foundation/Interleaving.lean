import Mathlib.Logic.Relation
import Walde.Foundation.Pool

namespace Foundation.Pool

/-! # Clients under locks, interleaved

Each client of a pool has a state under a lock. A thread that holds the lock
runs one call of the client, instruction by instruction, while other threads
run calls of the other clients. -/

/-- What a client is doing. A busy client remembers the state its call began
in. -/
inductive Activity (Cell Event Thread Call Reply State : Type) where
  | idle (state : State)
  | busy (thread : Thread) (call : Call) (entered : State)
      (program : Program (@Answer Cell Event) (Reply × State))

structure Concurrent (ι σ Cell Event Thread Call Reply State : Type) where
  pool : σ
  emitted : List Event
  activity : ι → Activity Cell Event Thread Call Reply State

section Interleaving

variable {ι σ Cell Event Thread Call Reply State : Type}

/-- The calls of the clients: which call belongs to which client, and what it
does in which state. -/
structure Interface (ι Cell Event Call Reply State : Type) where
  client : Call → ι
  program : Call → State → Program (@Answer Cell Event) (Reply × State)

inductive Concurrent.Step [DecidableEq ι] (allocator : Allocator σ Cell)
    (interface : Interface ι Cell Event Call Reply State) :
    Concurrent ι σ Cell Event Thread Call Reply State →
      Concurrent ι σ Cell Event Thread Call Reply State → Prop
  /-- A thread with no call of its own takes the lock of an idle client. -/
  | enter {system} (thread : Thread) (call : Call) {state : State}
      (idle : system.activity (interface.client call) = .idle state)
      (waiting : ∀ i other entered program,
        system.activity i ≠ .busy thread other entered program) :
      Step allocator interface system { system with
        activity := Function.update system.activity (interface.client call)
          (.busy thread call state (interface.program call state)) }
  | perform {system} {i : ι} {thread : Thread} {call : Call} {entered : State}
      {instr : Instr Cell Event}
      {next : Answer instr → Program (@Answer Cell Event) (Reply × State)}
      {answer : Answer instr} {pool : σ} {emitted : List Event}
      (busy : system.activity i = .busy thread call entered (.call instr next))
      (handled : allocator.handler instr (system.pool, system.emitted) =
        some (answer, pool, emitted)) :
      Step allocator interface system {
        pool, emitted
        activity := Function.update system.activity i
          (.busy thread call entered (next answer)) }
  /-- The call returns and the lock is free again. -/
  | leave {system} {i : ι} {thread : Thread} {call : Call}
      {entered state : State} {reply : Reply}
      (busy : system.activity i =
        .busy thread call entered (.pure (reply, state))) :
      Step allocator interface system { system with
        activity := Function.update system.activity i (.idle state) }

def Concurrent.Reachable [DecidableEq ι] (allocator : Allocator σ Cell)
    (interface : Interface ι Cell Event Call Reply State) :
    Concurrent ι σ Cell Event Thread Call Reply State →
      Concurrent ι σ Cell Event Thread Call Reply State → Prop :=
  Relation.ReflTransGen (Concurrent.Step allocator interface)

/-- An idle client holds at most `bound` cells, and every call of an idle
client keeps to the limit `bound`, returns what `Post` says and leaves the
client fit for the next call. -/
structure Interface.Keeps (interface : Interface ι Cell Event Call Reply State)
    (layout : Layout Cell) (bound : Nat)
    (Idle : ι → State → View Cell Event → Prop)
    (Post : Call → State → Reply → Prop) : Prop where
  card : ∀ {i state view}, Idle i state view → view.owned.card ≤ bound
  program : ∀ call {state view}, Idle (interface.client call) state view →
    (interface.program call state).wp (spec layout (some bound))
      (fun result view' => Idle (interface.client call) result.2 view' ∧
        Post call state result.1) view

section Invariant

variable {allocator : Allocator σ Cell} {layout : Layout Cell}
  {Rep : σ → Contents Cell → Prop}
  {interface : Interface ι Cell Event Call Reply State} {bound capacity : Nat}
  {Idle : ι → State → View Cell Event → Prop}
  {Post : Call → State → Reply → Prop}

/-- What is known of a client in the middle of a run: a busy one has the rest
of its call before it. -/
def Activity.Fits (layout : Layout Cell)
    (interface : Interface ι Cell Event Call Reply State) (bound : Nat)
    (Idle : ι → State → View Cell Event → Prop)
    (Post : Call → State → Reply → Prop) (i : ι) (view : View Cell Event) :
    Activity Cell Event Thread Call Reply State → Prop
  | .idle state => Idle i state view
  | .busy _ call entered program =>
      interface.client call = i ∧ view.owned.card ≤ bound + 1 ∧
        program.wp (spec layout (some bound))
          (fun result view' => Idle i result.2 view' ∧
            Post call entered result.1) view

theorem Activity.Fits.card {i : ι} {view : View Cell Event}
    {activity : Activity Cell Event Thread Call Reply State}
    (keeps : interface.Keeps layout bound Idle Post)
    (fits : activity.Fits layout interface bound Idle Post i view) :
    view.owned.card ≤ bound + 1 := by
  cases activity with
  | idle state => exact (keeps.card fits).trans (Nat.le_succ bound)
  | busy thread call entered program => exact fits.2.1

theorem spec_card {limit : Nat} {instr : Instr Cell Event}
    {post : Answer instr → View Cell Event → Prop} {view : View Cell Event}
    (holds : spec layout (some limit) instr post view)
    (few : view.owned.card ≤ limit + 1) :
    spec layout (some limit) instr
      (fun answer view' => view'.owned.card ≤ limit + 1 ∧ post answer view')
      view := by
  cases instr with
  | allocate =>
      refine ⟨fun index below fresh => ⟨?_, holds.1 index below fresh⟩,
        by simp, holds.2.2⟩
      rw [View.acquire_owned, Finset.card_insert_of_notMem fresh]
      exact Nat.succ_le_succ (holds.2.2 limit rfl)
  | release index =>
      refine ⟨holds.1, ?_, holds.2⟩
      exact (Finset.card_le_card (Finset.erase_subset _ _)).trans few
  | read index => exact ⟨holds.1, few, holds.2⟩
  | write index cell => exact ⟨holds.1, few, holds.2⟩
  | emit event => exact ⟨few, holds⟩
  | fault => exact holds

def Concurrent.Sound (layout : Layout Cell) (Rep : σ → Contents Cell → Prop)
    (capacity : Nat) (interface : Interface ι Cell Event Call Reply State)
    (bound : Nat) (Idle : ι → State → View Cell Event → Prop)
    (Post : Call → State → Reply → Prop)
    (system : Concurrent ι σ Cell Event Thread Call Reply State) : Prop :=
  ∃ views, Shares Rep capacity views system.pool ∧
    ∀ i, (system.activity i).Fits layout interface bound Idle Post i (views i)

theorem Concurrent.Sound.returned
    {system : Concurrent ι σ Cell Event Thread Call Reply State}
    (sound : system.Sound layout Rep capacity interface bound Idle Post)
    {i : ι} {thread : Thread} {call : Call} {entered state : State}
    {reply : Reply}
    (busy : system.activity i =
      .busy thread call entered (.pure (reply, state))) :
    Post call entered reply := by
  rcases sound with ⟨views, -, fits⟩
  have here := fits i
  rw [busy] at here
  exact here.2.2.2

variable [DecidableEq ι] [Fintype ι]

/-- While every client holds at most one cell over the bound, the others leave
a client within its bound one more cell. -/
theorem room_of_card {views : ι → View Cell Event}
    (few : ∀ i, (views i).owned.card ≤ bound + 1)
    (enough : Fintype.card ι * (bound + 1) ≤ capacity) (i : ι) :
    ∀ limit, some bound = some limit →
      ∑ j ∈ Finset.univ.erase i, (views j).owned.card + limit < capacity := by
  rintro _ ⟨⟩
  have others : ∑ j ∈ Finset.univ.erase i, (views j).owned.card ≤
      ∑ _j ∈ Finset.univ.erase i, (bound + 1) :=
    Finset.sum_le_sum fun j _ => few j
  have size : (Finset.univ.erase i).card + 1 = Fintype.card ι :=
    Finset.card_erase_add_one (Finset.mem_univ i)
  rw [Finset.sum_const_nat fun _ _ => rfl] at others
  rw [← size, Nat.add_mul, Nat.one_mul] at enough
  omega

theorem Concurrent.Sound.step
    (lawful : allocator.Lawful layout Rep)
    (keeps : interface.Keeps layout bound Idle Post)
    (enough : Fintype.card ι * (bound + 1) ≤ capacity)
    {system system' : Concurrent ι σ Cell Event Thread Call Reply State}
    (sound : system.Sound layout Rep capacity interface bound Idle Post)
    (step : Concurrent.Step allocator interface system system') :
    system'.Sound layout Rep capacity interface bound Idle Post := by
  rcases sound with ⟨views, shares, fits⟩
  -- the client that moves has a new activity, the others keep theirs
  have elsewhere : ∀ (i : ι) (activity : Activity Cell Event Thread Call Reply
        State) (view : View Cell Event),
      activity.Fits layout interface bound Idle Post i view → ∀ j,
        (Function.update system.activity i activity j).Fits layout interface
          bound Idle Post j (Function.update views i view j) := by
    intro i activity view here j
    by_cases same : j = i
    · subst same
      rwa [Function.update_self, Function.update_self]
    · rw [Function.update_of_ne same, Function.update_of_ne same]
      exact fits j
  cases step with
  | enter thread call idle _ =>
      have here := fits (interface.client call)
      rw [idle] at here
      refine ⟨views, shares, ?_⟩
      have moved := elsewhere (interface.client call)
        (.busy thread call _ (interface.program call _))
        (views (interface.client call))
        ⟨rfl, (keeps.card here).trans (Nat.le_succ bound),
          keeps.program call here⟩
      rwa [Function.update_eq_self] at moved
  | @perform i thread call entered instr next answer pool emitted busy
      handled =>
      have here := fits i
      rw [busy] at here
      rcases here with ⟨client, few, program⟩
      have room := room_of_card (fun j => (fits j).card keeps) enough i
      rcases shares.step lawful i room system.emitted
          (spec_card program few) with
        ⟨answer', pool', view', fresh, handled', -, shares', few', program'⟩
      rw [handled] at handled'
      obtain ⟨rfl, rfl, rfl⟩ : answer = answer' ∧ pool = pool' ∧
          emitted = system.emitted ++ fresh := by
        simpa using handled'
      exact ⟨_, shares', elsewhere _ _ _ ⟨client, few', program'⟩⟩
  | @leave i thread call entered state reply busy =>
      have here := fits i
      rw [busy] at here
      refine ⟨views, shares, ?_⟩
      have moved := elsewhere i (.idle state) (views i) here.2.2.1
      rwa [Function.update_eq_self] at moved

theorem Concurrent.Sound.reachable
    (lawful : allocator.Lawful layout Rep)
    (keeps : interface.Keeps layout bound Idle Post)
    (enough : Fintype.card ι * (bound + 1) ≤ capacity)
    {system system' : Concurrent ι σ Cell Event Thread Call Reply State}
    (sound : system.Sound layout Rep capacity interface bound Idle Post)
    (reachable : Concurrent.Reachable allocator interface system system') :
    system'.Sound layout Rep capacity interface bound Idle Post := by
  induction reachable with
  | refl => exact sound
  | tail _ step induction => exact induction.step lawful keeps enough step

/-- The next instruction of a busy client does not fault, and an allocation
gets a cell. -/
theorem Concurrent.Sound.perform
    (lawful : allocator.Lawful layout Rep)
    (keeps : interface.Keeps layout bound Idle Post)
    (enough : Fintype.card ι * (bound + 1) ≤ capacity)
    {system : Concurrent ι σ Cell Event Thread Call Reply State}
    (sound : system.Sound layout Rep capacity interface bound Idle Post)
    {i : ι} {thread : Thread} {call : Call} {entered : State}
    {instr : Instr Cell Event}
    {next : Answer instr → Program (@Answer Cell Event) (Reply × State)}
    (busy : system.activity i = .busy thread call entered (.call instr next)) :
    ∃ outcome, allocator.handler instr (system.pool, system.emitted) =
      some outcome := by
  rcases sound with ⟨views, shares, fits⟩
  have here := fits i
  rw [busy] at here
  have room := room_of_card (fun j => (fits j).card keeps) enough i
  rcases shares.step lawful i room system.emitted here.2.2 with
    ⟨answer, pool', view', fresh, handled, -⟩
  exact ⟨_, handled⟩

theorem Concurrent.Sound.allocate_valid
    (lawful : allocator.Lawful layout Rep)
    (keeps : interface.Keeps layout bound Idle Post)
    (enough : Fintype.card ι * (bound + 1) ≤ capacity)
    {system : Concurrent ι σ Cell Event Thread Call Reply State}
    (sound : system.Sound layout Rep capacity interface bound Idle Post)
    {i : ι} {thread : Thread} {call : Call} {entered : State}
    {next : Nat → Program (@Answer Cell Event) (Reply × State)}
    (busy : system.activity i =
      .busy thread call entered (.call .allocate next)) :
    ∃ index pool, allocator.allocate system.pool = some (index, pool) ∧
      index ≠ layout.invalid := by
  rcases sound with ⟨views, shares, fits⟩
  have here := fits i
  rw [busy] at here
  have room := room_of_card (fun j => (fits j).card keeps) enough i
  have asked : spec layout (some bound) (.allocate : Instr Cell Event)
      (fun index _ => index ≠ layout.invalid) (views i) :=
    ⟨fun _ below _ => Nat.ne_of_lt below, by simp, here.2.2.2.2⟩
  rcases shares.step lawful i room system.emitted asked with
    ⟨index, pool, view', fresh, handled, -, -, valid⟩
  rcases Option.map_eq_some_iff.mp handled with ⟨⟨taken, after⟩, reply, equal⟩
  obtain ⟨rfl, -⟩ : taken = index ∧ _ := Prod.mk.inj equal
  exact ⟨taken, after, reply, valid⟩

end Invariant

end Interleaving

end Foundation.Pool
