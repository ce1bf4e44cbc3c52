import Mathlib.Data.Fintype.Basic
import Mathlib.Tactic.Simps.Basic
import Walde.Foundation.Machine
import Walde.SlabAllocator

namespace Walde

open Foundation

/-! # The slab allocator among threads

`allocate` and `deallocate` as their accesses to shared memory, one step each.
The steps of different threads come in any order. -/

namespace SlabAllocator

/-! ## Writes to shared memory -/

@[simps] def storeHead (slab : SlabAllocator) (head : Nat) : SlabAllocator :=
  { slab with head }

@[simps] def storeNext (slab : SlabAllocator) (index next : Nat) :
    SlabAllocator :=
  { slab with freeNext := Function.update slab.freeNext index next }

/-- `pool_[index].reset()` -/
@[simps] def resetNode (slab : SlabAllocator) (index : Nat) : SlabAllocator :=
  { slab with pool := Function.update slab.pool index CacheNode.reset }

/-- `free_count_.fetch_add(count)`; a subtraction adds what wraps around. -/
@[simps] def addFree (slab : SlabAllocator) (count : Nat) : SlabAllocator :=
  { slab with freeCount := (slab.freeCount + count) % uint32Size }

end SlabAllocator

/-! ## The steps of a thread -/

/-- Where a thread is in `allocate` or `deallocate`, with its local variables:
`old` is the word that it last read from `head_`. -/
inductive SlabPoint
  | idle
  /-- About to load `head_`, in `allocate`. -/
  | loading
  /-- About to read `free_next_`. -/
  | reading (old : Nat)
  | exchanging (old new : Nat)
  /-- The exchange succeeded; about to reset the node. -/
  | resetting (index : Nat)
  /-- About to subtract from `free_count_`. -/
  | uncounting (index : Nat)
  | returning (index : Nat)
  /-- About to reset the node, in `deallocate`. -/
  | clearing (index : Nat)
  | loadingFor (index : Nat)
  /-- About to write `free_next_`. -/
  | linking (index old : Nat)
  | publishing (index old : Nat)
  /-- The exchange succeeded; about to add to `free_count_`. -/
  | counting
deriving DecidableEq, Repr

namespace SlabPoint

inductive Access
  | none
  | load
  | exchange
deriving DecidableEq, Repr

structure Outcome where
  slab : SlabAllocator
  point : SlabPoint
  access : Access

def loaded (old : Nat) : SlabPoint :=
  if SlabAllocator.unpackIndex old = kInvalidIndex then
    .returning kInvalidIndex
  else .reading old

/-- One step. A weak exchange may fail although the word is the expected one
(`spurious`); a failed exchange loads the word again. `none` is an access out of
bounds or a failed assertion. -/
def step (slab : SlabAllocator) (spurious : Bool) : SlabPoint → Option Outcome
  | .idle => none
  | .loading => some ⟨slab, loaded slab.head, .load⟩
  | .reading old =>
      if SlabAllocator.unpackIndex old < slab.capacity then
        some ⟨slab, .exchanging old
          (slab.freeNext (SlabAllocator.unpackIndex old)), .none⟩
      else none
  | .exchanging old new =>
      if slab.head = old ∧ spurious = false then
        some ⟨slab.storeHead (SlabAllocator.pack new
            ((SlabAllocator.unpackTag old + 1) % uint32Size)),
          .resetting (SlabAllocator.unpackIndex old), .exchange⟩
      else some ⟨slab, loaded slab.head, .load⟩
  | .resetting index => some ⟨slab.resetNode index, .uncounting index, .none⟩
  | .uncounting index =>
      some ⟨slab.addFree (uint32Size - 1), .returning index, .none⟩
  | .returning _ => none
  | .clearing index =>
      if index < slab.capacity then
        some ⟨slab.resetNode index, .loadingFor index, .none⟩
      else none
  | .loadingFor index => some ⟨slab, .linking index slab.head, .load⟩
  | .linking index old =>
      some ⟨slab.storeNext index (SlabAllocator.unpackIndex old),
        .publishing index old, .none⟩
  | .publishing index old =>
      if slab.head = old ∧ spurious = false then
        some ⟨slab.storeHead (SlabAllocator.pack index
            ((SlabAllocator.unpackTag old + 1) % uint32Size)),
          .counting, .exchange⟩
      else some ⟨slab, .linking index slab.head, .load⟩
  | .counting => some ⟨slab.addFree 1, .idle, .none⟩

def isExchange : SlabPoint → Bool
  | .exchanging _ _ => true
  | .publishing _ _ => true
  | _ => false

def inHand : SlabPoint → List Nat
  | .resetting index => [index]
  | .uncounting index => [index]
  | .returning index => if index = kInvalidIndex then [] else [index]
  | .clearing index => [index]
  | .loadingFor index => [index]
  | .linking index _ => [index]
  | .publishing index _ => [index]
  | _ => []

/-- Whether `free_count_` counts a slot as taken for this operation. -/
def outstanding : SlabPoint → Nat
  | .returning index => if index = kInvalidIndex then 0 else 1
  | .clearing _ => 1
  | .loadingFor _ => 1
  | .linking _ _ => 1
  | .publishing _ _ => 1
  | .counting => 1
  | _ => 0

end SlabPoint

/-- The slab, its threads, and what each of them holds between its operations.
The last three fields are a record of the past that no step looks at. -/
structure SlabThreads (Thread : Type) where
  slab : SlabAllocator
  point : Thread → SlabPoint
  held : Thread → List Nat
  /-- How many exchanges have succeeded. -/
  exchanges : Nat
  /-- How many had when the thread last read `head_`. -/
  readAt : Thread → Nat
  /-- The free list when the thread last read `head_`. -/
  lastFree : Thread → List Nat

inductive SlabMove (Thread : Type)
  | allocate (thread : Thread)
  | deallocate (thread : Thread) (index : Nat)
  | step (thread : Thread) (spurious : Bool)
  | leave (thread : Thread)
  /-- A thread passes an index on to another one. -/
  | handOver (sender receiver : Thread) (index : Nat)
deriving DecidableEq, Repr

namespace SlabThreads

variable {Thread : Type}

def start (slab : SlabAllocator) : SlabThreads Thread where
  slab
  point := fun _ => .idle
  held := fun _ => []
  exchanges := 0
  readAt := fun _ => 0
  lastFree := fun _ => []

variable [DecidableEq Thread]

def stepped (state : SlabThreads Thread) (thread : Thread)
    (outcome : SlabPoint.Outcome) : SlabThreads Thread where
  slab := outcome.slab
  point := Function.update state.point thread outcome.point
  held := state.held
  exchanges :=
    if outcome.access = .exchange then state.exchanges + 1
    else state.exchanges
  readAt :=
    if outcome.access = .load then
      Function.update state.readAt thread state.exchanges
    else state.readAt
  lastFree :=
    if outcome.access = .load then
      Function.update state.lastFree thread state.slab.freeIndices
    else state.lastFree

/-- One move; `none` is a move that is not possible, or a fault. A thread
deallocates only what it holds. The reply is the index that an `allocate`
returns. -/
def machine : Machine (SlabThreads Thread) (SlabMove Thread) (Option Nat)
  | state, .allocate thread =>
      match state.point thread with
      | .idle => some (none, { state with
          point := Function.update state.point thread .loading })
      | _ => none
  | state, .deallocate thread index =>
      match state.point thread with
      | .idle =>
          if index ∈ state.held thread then
            some (none, { state with
              point := Function.update state.point thread (.clearing index)
              held := Function.update state.held thread
                ((state.held thread).erase index) })
          else none
      | _ => none
  | state, .step thread spurious =>
      ((state.point thread).step state.slab spurious).map fun outcome =>
        (none, state.stepped thread outcome)
  | state, .leave thread =>
      match state.point thread with
      | .returning index => some (some index, { state with
          point := Function.update state.point thread .idle
          held :=
            if index = kInvalidIndex then state.held
            else Function.update state.held thread
              (index :: state.held thread) })
      | _ => none
  | state, .handOver sender receiver index =>
      if index ∈ state.held sender then
        let held := Function.update state.held sender
          ((state.held sender).erase index)
        some (none, { state with
          held := Function.update held receiver (index :: held receiver) })
      else none

def owned (state : SlabThreads Thread) (thread : Thread) : List Nat :=
  state.held thread ++ (state.point thread).inHand

def outstanding (state : SlabThreads Thread) (thread : Thread) : Nat :=
  (state.held thread).length + (state.point thread).outstanding

inductive Moved (state : SlabThreads Thread) :
    SlabMove Thread → SlabThreads Thread → Prop
  | allocate {thread : Thread} (idle : state.point thread = .idle) :
      Moved state (.allocate thread) { state with
        point := Function.update state.point thread .loading }
  | deallocate {thread : Thread} {index : Nat}
      (idle : state.point thread = .idle)
      (held : index ∈ state.held thread) :
      Moved state (.deallocate thread index) { state with
        point := Function.update state.point thread (.clearing index)
        held := Function.update state.held thread
          ((state.held thread).erase index) }
  | step {thread : Thread} {spurious : Bool} {outcome : SlabPoint.Outcome}
      (ran : (state.point thread).step state.slab spurious = some outcome) :
      Moved state (.step thread spurious) (state.stepped thread outcome)
  | leave {thread : Thread} {index : Nat}
      (returning : state.point thread = .returning index) :
      Moved state (.leave thread) { state with
        point := Function.update state.point thread .idle
        held :=
          if index = kInvalidIndex then state.held
          else Function.update state.held thread
            (index :: state.held thread) }
  | handOver {sender receiver : Thread} {index : Nat}
      (held : index ∈ state.held sender) :
      Moved state (.handOver sender receiver index) { state with
        held := Function.update (Function.update state.held sender
            ((state.held sender).erase index)) receiver
          (index :: Function.update state.held sender
            ((state.held sender).erase index) receiver) }

theorem moved {state after : SlabThreads Thread} {move : SlabMove Thread}
    {reply : Option Nat} (ran : machine state move = some (reply, after)) :
    Moved state move after := by
  cases move with
  | allocate thread =>
      simp only [machine] at ran
      split at ran
      · cases ran
        exact .allocate ‹_›
      · cases ran
  | deallocate thread index =>
      simp only [machine] at ran
      split at ran
      · split at ran
        · cases ran
          exact .deallocate ‹_› ‹_›
        · cases ran
      · cases ran
  | step thread spurious =>
      rcases Option.map_eq_some_iff.mp ran with ⟨outcome, stepped, equal⟩
      cases equal
      exact .step stepped
  | leave thread =>
      simp only [machine] at ran
      split at ran
      · cases ran
        exact .leave ‹_›
      · cases ran
  | handOver sender receiver index =>
      simp only [machine] at ran
      split at ran
      · cases ran
        exact .handOver ‹_›
      · cases ran

/-! ## A thread alone -/

def SlabMove.IsOf (thread : Thread) (move : SlabMove Thread) : Prop :=
  move = .step thread false ∨ move = .leave thread

theorem allocate_alone (state : SlabThreads Thread) {thread : Thread}
    (idle : state.point thread = .idle) {index : Nat} {slab : SlabAllocator}
    (allocated : state.slab.allocate = some (index, slab)) :
    ∃ moves replies after,
      (∀ move ∈ moves, SlabMove.IsOf thread move) ∧
      machine.run (.allocate thread :: moves) state = some (replies, after) ∧
      replies.getLast? = some (some index) ∧ after.slab = slab := by
  unfold SlabAllocator.allocate at allocated
  by_cases empty : SlabAllocator.unpackIndex state.slab.head = kInvalidIndex
  · simp only [empty, if_true] at allocated
    cases allocated
    refine ⟨[.step thread false, .leave thread], ?_⟩
    simp [SlabMove.IsOf, Machine.run, machine, idle, SlabPoint.step,
      SlabPoint.loaded, empty, stepped]
  · simp only [empty, if_false] at allocated
    split at allocated
    · rename_i inside
      cases allocated
      refine ⟨[.step thread false, .step thread false, .step thread false,
        .step thread false, .step thread false, .leave thread], ?_⟩
      simp [SlabMove.IsOf, Machine.run, machine, idle, SlabPoint.step,
        SlabPoint.loaded, empty, inside, stepped, SlabAllocator.storeHead,
        SlabAllocator.resetNode, SlabAllocator.addFree]
    · cases allocated

theorem deallocate_alone (state : SlabThreads Thread) {thread : Thread}
    (idle : state.point thread = .idle) {index : Nat}
    (held : index ∈ state.held thread) {slab : SlabAllocator}
    (deallocated : state.slab.deallocate index = some slab) :
    ∃ moves replies after,
      (∀ move ∈ moves, SlabMove.IsOf thread move) ∧
      machine.run (.deallocate thread index :: moves) state =
        some (replies, after) ∧
      after.point thread = .idle ∧ after.slab = slab := by
  unfold SlabAllocator.deallocate at deallocated
  split at deallocated
  · rename_i inside
    cases deallocated
    refine ⟨[.step thread false, .step thread false, .step thread false,
      .step thread false, .step thread false], ?_⟩
    simp [SlabMove.IsOf, Machine.run, machine, idle, held, SlabPoint.step,
      inside, stepped, SlabAllocator.storeHead, SlabAllocator.storeNext,
      SlabAllocator.resetNode, SlabAllocator.addFree]
  · cases deallocated

/-- Whatever the other threads are in the middle of: a thread that nobody
disturbs calls the slab as the stripes do, which call it in one step. -/
theorem alone_atomic (state : SlabThreads Thread) {thread : Thread}
    (idle : state.point thread = .idle) :
    (∀ index slab, state.slab.allocate = some (index, slab) →
      ∃ moves replies after,
        (∀ move ∈ moves, SlabMove.IsOf thread move) ∧
        machine.run (.allocate thread :: moves) state = some (replies, after) ∧
        replies.getLast? = some (some index) ∧ after.slab = slab) ∧
    ∀ index ∈ state.held thread, ∀ slab,
      state.slab.deallocate index = some slab →
      ∃ moves replies after,
        (∀ move ∈ moves, SlabMove.IsOf thread move) ∧
        machine.run (.deallocate thread index :: moves) state =
          some (replies, after) ∧
        after.point thread = .idle ∧ after.slab = slab :=
  ⟨fun _ _ allocated => allocate_alone state idle allocated,
    fun _ held _ deallocated => deallocate_alone state idle held deallocated⟩

theorem alone_atomic_sample :
    ∃ slab index slab', SlabAllocator.new 2 = some slab ∧
      slab.allocate = some (index, slab') ∧
      ∃ moves replies after,
        (∀ move ∈ moves, SlabMove.IsOf () move) ∧
        machine.run (.allocate () :: moves) (.start slab : SlabThreads Unit) =
          some (replies, after) ∧
        replies.getLast? = some (some index) ∧ after.slab = slab' := by
  have allocates : ((SlabAllocator.new 2).bind fun slab =>
      slab.allocate.map Prod.fst) = some 0 := by
    decide +kernel
  rcases Option.bind_eq_some_iff.mp allocates with ⟨slab, made, allocates⟩
  rcases Option.map_eq_some_iff.mp allocates with
    ⟨⟨index, slab'⟩, allocated, -⟩
  exact ⟨slab, index, slab', made, allocated,
    (alone_atomic (.start slab) rfl).1 index slab' allocated⟩

end SlabThreads

end Walde
