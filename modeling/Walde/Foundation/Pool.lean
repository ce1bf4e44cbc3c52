import Mathlib.Algebra.BigOperators.Group.Finset.Basic
import Mathlib.Algebra.Order.BigOperators.Group.Finset
import Mathlib.Data.Finset.Card
import Mathlib.Data.List.Nodup
import Walde.Foundation.Program

namespace Foundation.Pool

/-! # Clients of a shared pool of recyclable cells

The cells of a pool are named by natural numbers below a sentinel. A client
takes a cell, reads and writes the cells it holds, and gives them back. Several
clients may work on one pool: what one of them may rely on is its `View`. -/

/-- `emit` reports an event to the outside, `fault` is a failed assertion. -/
inductive Instr (Cell Event : Type)
  | allocate
  | release (index : Nat)
  | read (index : Nat)
  | write (index : Nat) (cell : Cell)
  | emit (event : Event)
  | fault

@[reducible] def Answer {Cell Event : Type} : Instr Cell Event → Type
  | .allocate => Nat
  | .release _ => Unit
  | .read _ => Cell
  | .write _ _ => Unit
  | .emit _ => Unit
  | .fault => Empty

/-- The part of a pool that one client holds, and the events it has emitted,
oldest first. -/
structure View (Cell Event : Type) where
  owned : Finset Nat
  cell : Nat → Cell
  emitted : List Event

namespace View

variable {Cell Event : Type}

def acquire (view : View Cell Event) (index : Nat) (blank : Cell) :
    View Cell Event :=
  { view with
    owned := insert index view.owned
    cell := Function.update view.cell index blank }

def drop (view : View Cell Event) (index : Nat) : View Cell Event :=
  { view with owned := view.owned.erase index }

def store (view : View Cell Event) (index : Nat) (cell : Cell) :
    View Cell Event :=
  { view with cell := Function.update view.cell index cell }

def record (view : View Cell Event) (event : Event) : View Cell Event :=
  { view with emitted := view.emitted ++ [event] }

def silence (view : View Cell Event) : View Cell Event :=
  { view with emitted := [] }

@[simp] theorem acquire_owned (view : View Cell Event) (index : Nat)
    (blank : Cell) : (view.acquire index blank).owned =
      insert index view.owned := rfl
@[simp] theorem acquire_cell (view : View Cell Event) (index : Nat)
    (blank : Cell) : (view.acquire index blank).cell =
      Function.update view.cell index blank := rfl
@[simp] theorem acquire_emitted (view : View Cell Event) (index : Nat)
    (blank : Cell) : (view.acquire index blank).emitted = view.emitted := rfl
@[simp] theorem drop_owned (view : View Cell Event) (index : Nat) :
    (view.drop index).owned = view.owned.erase index := rfl
@[simp] theorem drop_cell (view : View Cell Event) (index : Nat) :
    (view.drop index).cell = view.cell := rfl
@[simp] theorem drop_emitted (view : View Cell Event) (index : Nat) :
    (view.drop index).emitted = view.emitted := rfl
@[simp] theorem store_owned (view : View Cell Event) (index : Nat)
    (cell : Cell) : (view.store index cell).owned = view.owned := rfl
@[simp] theorem store_cell (view : View Cell Event) (index : Nat)
    (cell : Cell) : (view.store index cell).cell =
      Function.update view.cell index cell := rfl
@[simp] theorem store_emitted (view : View Cell Event) (index : Nat)
    (cell : Cell) : (view.store index cell).emitted = view.emitted := rfl
@[simp] theorem record_owned (view : View Cell Event) (event : Event) :
    (view.record event).owned = view.owned := rfl
@[simp] theorem record_cell (view : View Cell Event) (event : Event) :
    (view.record event).cell = view.cell := rfl
@[simp] theorem record_emitted (view : View Cell Event) (event : Event) :
    (view.record event).emitted = view.emitted ++ [event] := rfl
@[simp] theorem silence_emitted (view : View Cell Event) :
    view.silence.emitted = [] := rfl

end View

/-- How a pool marks a recycled cell and a failed allocation. -/
structure Layout (Cell : Type) where
  blank : Cell
  invalid : Nat

/-! ## What one client may rely on

A client touches only cells it holds. Under a `limit` it asks for a cell only
while it holds at most that many, and is then promised one; without a limit
every allocation may also fail. -/

@[reducible] def spec {Cell Event : Type} (layout : Layout Cell)
    (limit : Option Nat) :
    InstrSpec (@Answer Cell Event) (View Cell Event)
  | .allocate, post, view =>
      (∀ index, index < layout.invalid → index ∉ view.owned →
        post index (view.acquire index layout.blank)) ∧
      (limit = none → post layout.invalid view) ∧
      (∀ bound, limit = some bound → view.owned.card ≤ bound)
  | .release index, post, view =>
      index ∈ view.owned ∧ post () (view.drop index)
  | .read index, post, view =>
      index ∈ view.owned ∧ post (view.cell index) view
  | .write index cell, post, view =>
      index ∈ view.owned ∧ post () (view.store index cell)
  | .emit event, post, view => post () (view.record event)
  | .fault, _, _ => False

theorem spec_monotone {Cell Event : Type} (layout : Layout Cell)
    (limit : Option Nat) :
    Program.Monotone (@spec Cell Event layout limit) := by
  intro instr post post' view weaker holds
  cases instr with
  | allocate =>
      exact ⟨fun index below fresh =>
          weaker _ _ (holds.1 index below fresh),
        fun unlimited => weaker _ _ (holds.2.1 unlimited), holds.2.2⟩
  | release index => exact ⟨holds.1, weaker _ _ holds.2⟩
  | read index => exact ⟨holds.1, weaker _ _ holds.2⟩
  | write index cell => exact ⟨holds.1, weaker _ _ holds.2⟩
  | emit event => exact weaker _ _ holds
  | fault => exact holds

/-! ## Allocators -/

/-- An implementation of the pool instructions. `none` is a fault. -/
structure Allocator (σ Cell : Type) where
  allocate : σ → Option (Nat × σ)
  release : Nat → σ → Option σ
  read : Nat → σ → Option Cell
  write : Nat → Cell → σ → Option σ

/-- The state keeps the emitted events beside the pool. -/
def Allocator.handler {σ Cell Event : Type} (allocator : Allocator σ Cell) :
    Handler (@Answer Cell Event) (σ × List Event)
  | .allocate, (state, events) =>
      (allocator.allocate state).map fun reply => (reply.1, reply.2, events)
  | .release index, (state, events) =>
      (allocator.release index state).map fun state => ((), state, events)
  | .read index, (state, events) =>
      (allocator.read index state).map fun cell => (cell, state, events)
  | .write index cell, (state, events) =>
      (allocator.write index cell state).map fun state => ((), state, events)
  | .emit event, (state, events) => some ((), state, events ++ [event])
  | .fault, _ => none

/-- The contents of an allocator: its capacity, the free cells in the order in
which they will be handed out, and what every cell holds. -/
structure Contents (Cell : Type) where
  capacity : Nat
  free : List Nat
  cell : Nat → Cell

/-- `Rep` says which contents a state of the allocator stands for, and the
operations act on these contents as on a stack of free cells. -/
structure Allocator.Lawful {σ Cell : Type} (allocator : Allocator σ Cell)
    (layout : Layout Cell) (Rep : σ → Contents Cell → Prop) : Prop where
  capacity_le : ∀ {state contents}, Rep state contents →
    contents.capacity ≤ layout.invalid
  free_nodup : ∀ {state contents}, Rep state contents → contents.free.Nodup
  free_lt : ∀ {state contents}, Rep state contents →
    ∀ index ∈ contents.free, index < contents.capacity
  allocate_nil : ∀ {state contents}, Rep state contents → contents.free = [] →
    allocator.allocate state = some (layout.invalid, state)
  allocate_cons : ∀ {state contents index rest}, Rep state contents →
    contents.free = index :: rest →
    ∃ state', allocator.allocate state = some (index, state') ∧
      Rep state' { contents with
        free := rest
        cell := Function.update contents.cell index layout.blank }
  release : ∀ {state contents index}, Rep state contents →
    index < contents.capacity → index ∉ contents.free →
    ∃ state', allocator.release index state = some state' ∧
      Rep state' { contents with
        free := index :: contents.free
        cell := Function.update contents.cell index layout.blank }
  read : ∀ {state contents index}, Rep state contents →
    index < contents.capacity → index ∉ contents.free →
    allocator.read index state = some (contents.cell index)
  write : ∀ {state contents index} (cell : Cell), Rep state contents →
    index < contents.capacity → index ∉ contents.free →
    ∃ state', allocator.write index cell state = some state' ∧
      Rep state' { contents with cell := Function.update contents.cell index cell }

/-! ## Several clients on one allocator -/

section Sharing

variable {ι σ Cell Event : Type} {allocator : Allocator σ Cell}
  {layout : Layout Cell} {Rep : σ → Contents Cell → Prop}

/-- The clients hold disjoint sets of cells, see their own cells as they are,
and together with the free list account for the whole pool. -/
structure SharesContents (views : ι → View Cell Event)
    (contents : Contents Cell) : Prop where
  disjoint : ∀ i j index, index ∈ (views i).owned → index ∈ (views j).owned →
    i = j
  notFree : ∀ i, ∀ index ∈ (views i).owned, index ∉ contents.free
  cover : ∀ index, index < contents.capacity ↔
    index ∈ contents.free ∨ ∃ i, index ∈ (views i).owned
  cell_eq : ∀ i, ∀ index ∈ (views i).owned,
    (views i).cell index = contents.cell index

def Shares (Rep : σ → Contents Cell → Prop) (capacity : Nat)
    (views : ι → View Cell Event) (state : σ) : Prop :=
  ∃ contents, Rep state contents ∧ contents.capacity = capacity ∧
    SharesContents views contents

theorem SharesContents.card_eq [Fintype ι] {views : ι → View Cell Event}
    {contents : Contents Cell} (shares : SharesContents views contents)
    (nodup : contents.free.Nodup) :
    contents.free.length + ∑ i, (views i).owned.card = contents.capacity := by
  classical
  have held : (Finset.univ.biUnion fun i => (views i).owned).card =
      ∑ i, (views i).owned.card := by
    apply Finset.card_biUnion
    intro i _ j _ different
    exact Finset.disjoint_left.mpr fun index inLeft inRight =>
      different (shares.disjoint i j index inLeft inRight)
  have apart : Disjoint contents.free.toFinset
      (Finset.univ.biUnion fun i => (views i).owned) := by
    apply Finset.disjoint_left.mpr
    intro index inFree inHeld
    rcases Finset.mem_biUnion.mp inHeld with ⟨i, _, inView⟩
    exact shares.notFree i index inView (List.mem_toFinset.mp inFree)
  have whole : contents.free.toFinset ∪
      (Finset.univ.biUnion fun i => (views i).owned) =
        Finset.range contents.capacity := by
    ext index
    simp [shares.cover index]
  rw [← held, ← List.toFinset_card_of_nodup nodup,
    ← Finset.card_union_of_disjoint apart, whole, Finset.card_range]

theorem SharesContents.acquire [DecidableEq ι] {views : ι → View Cell Event}
    {contents : Contents Cell} (shares : SharesContents views contents)
    (nodup : contents.free.Nodup) {index : Nat} {rest : List Nat}
    (free : contents.free = index :: rest) (i : ι) (blank : Cell) :
    SharesContents
      (Function.update views i ((views i).acquire index blank))
      { contents with
        free := rest
        cell := Function.update contents.cell index blank } := by
  have fresh : ∀ j, index ∉ (views j).owned := fun j member =>
    shares.notFree j index member (by simp [free])
  have notRest : index ∉ rest := by
    rw [free] at nodup
    exact (List.nodup_cons.mp nodup).1
  constructor
  · intro j k other inLeft inRight
    by_cases left : j = i <;> by_cases right : k = i <;>
      simp [Function.update, left, right] at inLeft inRight ⊢
    · rcases inLeft with rfl | inLeft
      · exact absurd inRight (fresh k)
      · exact shares.disjoint i k other inLeft inRight
    · rcases inRight with rfl | inRight
      · exact absurd inLeft (fresh j)
      · exact left (shares.disjoint j i other inLeft inRight)
    · exact shares.disjoint j k other inLeft inRight
  · intro j other member
    by_cases same : j = i
    · subst same
      simp only [Function.update_self, View.acquire_owned,
        Finset.mem_insert] at member
      rcases member with rfl | member
      · exact notRest
      · intro inRest
        exact shares.notFree j other member (by simp [free, inRest])
    · simp only [Function.update_of_ne same] at member
      intro inRest
      exact shares.notFree j other member (by simp [free, inRest])
  · intro other
    rw [shares.cover other, free]
    constructor
    · intro known
      rcases known with inFree | ⟨j, member⟩
      · rcases List.mem_cons.mp inFree with rfl | inRest
        · exact .inr ⟨i, by simp⟩
        · exact .inl inRest
      · refine .inr ⟨j, ?_⟩
        by_cases same : j = i
        · subst same
          simp [member]
        · simpa [Function.update_of_ne same] using member
    · intro known
      rcases known with inRest | ⟨j, member⟩
      · exact .inl (List.mem_cons_of_mem _ inRest)
      · by_cases same : j = i
        · subst same
          simp only [Function.update_self, View.acquire_owned,
            Finset.mem_insert] at member
          rcases member with rfl | member
          · exact .inl (by simp)
          · exact .inr ⟨j, member⟩
        · exact .inr ⟨j, by simpa [Function.update_of_ne same] using member⟩
  · intro j other member
    by_cases same : j = i
    · subst same
      simp only [Function.update_self, View.acquire_owned,
        Finset.mem_insert] at member
      by_cases equal : other = index
      · subst equal
        simp
      · simp [Function.update_of_ne equal,
          shares.cell_eq j other (member.resolve_left equal)]
    · simp only [Function.update_of_ne same] at member ⊢
      have different : other ≠ index := by
        rintro rfl
        exact fresh j member
      simp [Function.update_of_ne different, shares.cell_eq j other member]

theorem SharesContents.drop [DecidableEq ι] {views : ι → View Cell Event}
    {contents : Contents Cell} (shares : SharesContents views contents)
    {i : ι} {index : Nat} (held : index ∈ (views i).owned) (blank : Cell) :
    SharesContents
      (Function.update views i ((views i).drop index))
      { contents with
        free := index :: contents.free
        cell := Function.update contents.cell index blank } := by
  have apart : ∀ j other,
      other ∈ (Function.update views i ((views i).drop index) j).owned →
      other ∈ (views j).owned ∧ other ≠ index := by
    intro j other member
    by_cases same : j = i
    · subst same
      simp only [Function.update_self, View.drop_owned,
        Finset.mem_erase] at member
      exact ⟨member.2, member.1⟩
    · simp only [Function.update_of_ne same] at member
      refine ⟨member, ?_⟩
      rintro rfl
      exact same (shares.disjoint j i other member held)
  constructor
  · intro j k other inLeft inRight
    exact shares.disjoint j k other (apart j other inLeft).1
      (apart k other inRight).1
  · intro j other member inFree
    rcases List.mem_cons.mp inFree with equal | inFree
    · exact (apart j other member).2 equal
    · exact shares.notFree j other (apart j other member).1 inFree
  · intro other
    rw [shares.cover other]
    constructor
    · intro known
      rcases known with inFree | ⟨j, member⟩
      · exact .inl (List.mem_cons_of_mem _ inFree)
      · by_cases equal : other = index
        · exact .inl (by simp [equal])
        · refine .inr ⟨j, ?_⟩
          by_cases same : j = i
          · subst same
            simp [equal, member]
          · simpa [Function.update_of_ne same] using member
    · intro known
      rcases known with inFree | ⟨j, member⟩
      · rcases List.mem_cons.mp inFree with equal | inFree
        · exact .inr ⟨i, equal ▸ held⟩
        · exact .inl inFree
      · exact .inr ⟨j, (apart j other member).1⟩
  · intro j other member
    rcases apart j other member with ⟨member, different⟩
    have cellSame : (Function.update views i ((views i).drop index) j).cell =
        (views j).cell := by
      by_cases same : j = i
      · subst same
        simp
      · simp [Function.update_of_ne same]
    simp [cellSame, Function.update_of_ne different,
      shares.cell_eq j other member]

theorem SharesContents.store [DecidableEq ι] {views : ι → View Cell Event}
    {contents : Contents Cell} (shares : SharesContents views contents)
    {i : ι} {index : Nat} (held : index ∈ (views i).owned) (cell : Cell) :
    SharesContents
      (Function.update views i ((views i).store index cell))
      { contents with cell := Function.update contents.cell index cell } := by
  have owned : ∀ j,
      (Function.update views i ((views i).store index cell) j).owned =
        (views j).owned := by
    intro j
    by_cases same : j = i
    · subst same
      simp
    · simp [Function.update_of_ne same]
  constructor
  · intro j k other
    rw [owned j, owned k]
    exact shares.disjoint j k other
  · intro j
    rw [owned j]
    exact shares.notFree j
  · simpa only [owned] using shares.cover
  · intro j other member
    rw [owned j] at member
    by_cases same : j = i
    · subst same
      by_cases equal : other = index
      · subst equal
        simp
      · simp [Function.update_of_ne equal, shares.cell_eq j other member]
    · have different : other ≠ index := by
        rintro rfl
        exact same (shares.disjoint j i other member held)
      simp [Function.update_of_ne same, Function.update_of_ne different,
        shares.cell_eq j other member]

theorem SharesContents.congr {views views' : ι → View Cell Event}
    {contents : Contents Cell} (shares : SharesContents views contents)
    (owned : ∀ i, (views' i).owned = (views i).owned)
    (cell : ∀ i, (views' i).cell = (views i).cell) :
    SharesContents views' contents := by
  constructor
  · intro i j index
    rw [owned i, owned j]
    exact shares.disjoint i j index
  · intro i
    rw [owned i]
    exact shares.notFree i
  · simpa only [owned] using shares.cover
  · intro i
    rw [owned i, cell i]
    exact shares.cell_eq i

theorem SharesContents.update_congr [DecidableEq ι]
    {views : ι → View Cell Event} {contents : Contents Cell} {i : ι}
    {view view' : View Cell Event}
    (shares : SharesContents (Function.update views i view) contents)
    (owned : view'.owned = view.owned) (cell : view'.cell = view.cell) :
    SharesContents (Function.update views i view') contents := by
  apply shares.congr
  · intro j
    by_cases same : j = i
    · subst same
      rw [Function.update_self, Function.update_self, owned]
    · rw [Function.update_of_ne same, Function.update_of_ne same]
  · intro j
    by_cases same : j = i
    · subst same
      rw [Function.update_self, Function.update_self, cell]
    · rw [Function.update_of_ne same, Function.update_of_ne same]

theorem SharesContents.record [DecidableEq ι] {views : ι → View Cell Event}
    {contents : Contents Cell} (shares : SharesContents views contents)
    (i : ι) (event : Event) :
    SharesContents (Function.update views i ((views i).record event))
      contents := by
  have before : SharesContents (Function.update views i (views i)) contents := by
    rw [Function.update_eq_self]
    exact shares
  exact before.update_congr rfl rfl

theorem Shares.silence [DecidableEq ι] {capacity : Nat}
    {views : ι → View Cell Event} {state : σ} {i : ι} {view : View Cell Event}
    (shares : Shares Rep capacity (Function.update views i view) state) :
    Shares Rep capacity (Function.update views i view.silence) state := by
  rcases shares with ⟨contents, rep, sameCapacity, shares⟩
  exact ⟨contents, rep, sameCapacity, shares.update_congr rfl rfl⟩

theorem Shares.exhausted [Fintype ι] (lawful : allocator.Lawful layout Rep)
    {capacity : Nat} {views : ι → View Cell Event} {state : σ}
    (shares : Shares Rep capacity views state)
    (full : capacity ≤ ∑ i, (views i).owned.card) :
    allocator.allocate state = some (layout.invalid, state) := by
  rcases shares with ⟨contents, rep, sameCapacity, shares⟩
  have total := shares.card_eq (lawful.free_nodup rep)
  have none : contents.free.length = 0 := by omega
  exact lawful.allocate_nil rep (List.length_eq_zero_iff.mp none)

/-- One instruction of client `i`: whatever its specification promises happens
on the shared pool, and the other clients see none of it. Under a limit the
cells held by the others must leave room for one more. -/
theorem Shares.step [DecidableEq ι] [Fintype ι]
    (lawful : allocator.Lawful layout Rep) {capacity : Nat}
    {views : ι → View Cell Event} {state : σ}
    (shares : Shares Rep capacity views state) (i : ι) {limit : Option Nat}
    (room : ∀ bound, limit = some bound →
      ∑ j ∈ Finset.univ.erase i, (views j).owned.card + bound < capacity)
    (events : List Event) {instr : Instr Cell Event}
    {post : Answer instr → View Cell Event → Prop}
    (holds : spec layout limit instr post (views i)) :
    ∃ answer state' view' fresh,
      allocator.handler instr (state, events) =
        some (answer, state', events ++ fresh) ∧
      view'.emitted = (views i).emitted ++ fresh ∧
      Shares Rep capacity (Function.update views i view') state' ∧
      post answer view' := by
  rcases shares with ⟨contents, rep, sameCapacity, shares⟩
  have heldLt : ∀ index ∈ (views i).owned, index < contents.capacity :=
    fun index held => (shares.cover index).mpr (.inr ⟨i, held⟩)
  cases instr with
  | allocate =>
      rcases holds with ⟨fresh, fail, within⟩
      cases free : contents.free with
      | nil =>
          have unlimited : limit = none := by
            cases limited : limit with
            | none => rfl
            | some bound =>
                -- the free list is empty, yet the clients hold too few cells
                have total := shares.card_eq (lawful.free_nodup rep)
                rw [free, List.length_nil, zero_add, sameCapacity,
                  ← Finset.add_sum_erase _ _ (Finset.mem_univ i)] at total
                have few := within bound limited
                have roomy := room bound limited
                omega
          refine ⟨layout.invalid, state, views i, [], ?_, by simp, ?_,
            fail unlimited⟩
          · simp [Allocator.handler, lawful.allocate_nil rep free]
          · rw [Function.update_eq_self]
            exact ⟨contents, rep, sameCapacity, shares⟩
      | cons index rest =>
          rcases lawful.allocate_cons rep free with ⟨state', taken, rep'⟩
          have isFree : index ∈ contents.free := by simp [free]
          refine ⟨index, state', (views i).acquire index layout.blank, [], ?_,
            by simp, ?_, ?_⟩
          · simp [Allocator.handler, taken]
          · exact ⟨_, rep', sameCapacity,
              shares.acquire (lawful.free_nodup rep) free i layout.blank⟩
          · apply fresh
            · exact (lawful.free_lt rep index isFree).trans_le
                (lawful.capacity_le rep)
            · exact fun held => shares.notFree i index held isFree
  | release index =>
      rcases holds with ⟨held, holds⟩
      rcases lawful.release rep (heldLt index held)
          (shares.notFree i index held) with ⟨state', released, rep'⟩
      refine ⟨(), state', (views i).drop index, [], ?_, by simp, ?_, holds⟩
      · simp [Allocator.handler, released]
      · exact ⟨_, rep', sameCapacity, shares.drop held layout.blank⟩
  | read index =>
      rcases holds with ⟨held, holds⟩
      have found := lawful.read rep (heldLt index held)
        (shares.notFree i index held)
      refine ⟨contents.cell index, state, views i, [], ?_, by simp, ?_, ?_⟩
      · simp [Allocator.handler, found]
      · rw [Function.update_eq_self]
        exact ⟨contents, rep, sameCapacity, shares⟩
      · rw [← shares.cell_eq i index held]
        exact holds
  | write index cell =>
      rcases holds with ⟨held, holds⟩
      rcases lawful.write cell rep (heldLt index held)
          (shares.notFree i index held) with ⟨state', written, rep'⟩
      refine ⟨(), state', (views i).store index cell, [], ?_, by simp, ?_,
        holds⟩
      · simp [Allocator.handler, written]
      · exact ⟨_, rep', sameCapacity, shares.store held cell⟩
  | emit event =>
      refine ⟨(), state, (views i).record event, [event], ?_, by simp, ?_,
        holds⟩
      · simp [Allocator.handler]
      · exact ⟨contents, rep, sameCapacity, shares.record i event⟩
  | fault => exact holds.elim

/-- A client program run alone, among other clients that stand still. -/
theorem Shares.run [DecidableEq ι] [Fintype ι]
    (lawful : allocator.Lawful layout Rep) {capacity : Nat}
    {views : ι → View Cell Event} {state : σ}
    (shares : Shares Rep capacity views state) (i : ι) {limit : Option Nat}
    (room : ∀ bound, limit = some bound →
      ∑ j ∈ Finset.univ.erase i, (views j).owned.card + bound < capacity)
    {α : Type} {program : Program (@Answer Cell Event) α}
    {post : α → View Cell Event → Prop}
    (holds : program.wp (spec layout limit) post (views i)) :
    ∃ result state' view',
      program.run allocator.handler (state, (views i).emitted) =
        some (result, state', view'.emitted) ∧
      Shares Rep capacity (Function.update views i view') state' ∧
      post result view' := by
  let Sim : View Cell Event → σ × List Event → Prop := fun view concrete =>
    Shares Rep capacity (Function.update views i view) concrete.1 ∧
      concrete.2 = view.emitted
  have implements : Program.Implements allocator.handler
      (@spec Cell Event layout limit) Sim := by
    rintro instr post view ⟨state, events⟩ ⟨shares, rfl⟩ holds
    have roomHere : ∀ bound, limit = some bound →
        ∑ j ∈ Finset.univ.erase i,
          (Function.update views i view j).owned.card + bound < capacity := by
      intro bound limited
      have others : ∑ j ∈ Finset.univ.erase i,
          (Function.update views i view j).owned.card =
          ∑ j ∈ Finset.univ.erase i, (views j).owned.card := by
        apply Finset.sum_congr rfl
        intro j member
        rw [Function.update_of_ne (Finset.ne_of_mem_erase member)]
      rw [others]
      exact room bound limited
    rcases shares.step lawful i roomHere view.emitted
        (by simpa using holds) with
      ⟨answer, state', view', fresh, handled, emitted, shares, holds⟩
    refine ⟨answer, view', (state', view.emitted ++ fresh), handled,
      ⟨by simpa using shares, ?_⟩, holds⟩
    simpa using emitted.symm
  have related : Sim (views i) (state, (views i).emitted) :=
    ⟨by simpa using shares, rfl⟩
  rcases Program.run_of_wp implements related holds with
    ⟨result, view', ⟨state', events⟩, ran, ⟨shares, rfl⟩, holds⟩
  exact ⟨result, state', view', ran, shares, holds⟩

end Sharing

end Foundation.Pool
