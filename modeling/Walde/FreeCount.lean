import Walde.Foundation.Ledger
import Walde.SlabThreads

namespace Walde

open Foundation

/-! # The count of free slots

`free_count_` is changed one step after the exchange that takes a slot, and one
step after the exchange that gives it back. -/

namespace SlabPoint

/-- What a thread that is past the load knows of the index it is after. -/
def Valid : SlabPoint → Prop
  | .reading old => SlabAllocator.unpackIndex old ≠ kInvalidIndex
  | .exchanging old _ => SlabAllocator.unpackIndex old ≠ kInvalidIndex
  | .resetting index => index ≠ kInvalidIndex
  | .uncounting index => index ≠ kInvalidIndex
  | _ => True

theorem loaded_valid (old : Nat) : (loaded old).Valid := by
  unfold loaded
  split
  · exact trivial
  · assumption

theorem loaded_outstanding (old : Nat) : (loaded old).outstanding = 0 := by
  unfold loaded
  split
  · simp [outstanding]
  · rfl

def lowers : SlabPoint → Bool
  | .uncounting _ => true
  | _ => false

inductive Counted (slab : SlabAllocator) (point : SlabPoint)
    (outcome : Outcome) : Prop
  | lowered (lowers : point.lowers = true)
      (count : outcome.slab.freeCount =
        (slab.freeCount + (uint32Size - 1)) % uint32Size)
      (more : outcome.point.outstanding = point.outstanding + 1)
  | raised (lowers : point.lowers = false)
      (count : outcome.slab.freeCount = (slab.freeCount + 1) % uint32Size)
      (fewer : point.outstanding = outcome.point.outstanding + 1)
  | kept (lowers : point.lowers = false)
      (count : outcome.slab.freeCount = slab.freeCount)
      (same : outcome.point.outstanding = point.outstanding)

theorem step_counted {slab : SlabAllocator} {spurious : Bool}
    {point : SlabPoint} {outcome : Outcome} (valid : point.Valid)
    (ran : point.step slab spurious = some outcome) :
    Counted slab point outcome ∧ outcome.point.Valid ∧
      outcome.slab.capacity = slab.capacity := by
  cases point with
  | idle => cases ran
  | loading =>
      cases ran
      exact ⟨.kept rfl rfl (loaded_outstanding _), loaded_valid _, rfl⟩
  | reading old =>
      simp only [step] at ran
      split at ran
      · cases ran
        exact ⟨.kept rfl rfl rfl, valid, rfl⟩
      · cases ran
  | exchanging old new =>
      simp only [step] at ran
      split at ran
      · cases ran
        exact ⟨.kept rfl (slab.storeHead_freeCount _) rfl, valid,
          slab.storeHead_capacity _⟩
      · cases ran
        exact ⟨.kept rfl rfl (loaded_outstanding _), loaded_valid _, rfl⟩
  | resetting index =>
      cases ran
      exact ⟨.kept rfl (slab.resetNode_freeCount _) rfl, valid,
        slab.resetNode_capacity _⟩
  | uncounting index =>
      cases ran
      exact ⟨.lowered rfl (slab.addFree_freeCount _) (if_neg valid), trivial,
        slab.addFree_capacity _⟩
  | returning index => cases ran
  | clearing index =>
      simp only [step] at ran
      split at ran
      · cases ran
        exact ⟨.kept rfl (slab.resetNode_freeCount _) rfl, trivial,
          slab.resetNode_capacity _⟩
      · cases ran
  | loadingFor index =>
      cases ran
      exact ⟨.kept rfl rfl rfl, trivial, rfl⟩
  | linking index old =>
      cases ran
      exact ⟨.kept rfl (slab.storeNext_freeCount _ _) rfl, trivial,
        slab.storeNext_capacity _ _⟩
  | publishing index old =>
      simp only [step] at ran
      split at ran
      · cases ran
        exact ⟨.kept rfl (slab.storeHead_freeCount _) rfl, trivial,
          slab.storeHead_capacity _⟩
      · cases ran
        exact ⟨.kept rfl rfl rfl, trivial, rfl⟩
  | counting =>
      cases ran
      exact ⟨.raised rfl (slab.addFree_freeCount _) rfl, trivial,
        slab.addFree_capacity _⟩

end SlabPoint

namespace SlabThreads

variable {Thread : Type}

def lowers (state : SlabThreads Thread) : SlabMove Thread → Bool
  | .step thread _ => (state.point thread).lowers
  | _ => false

variable [Fintype Thread]

/-- How many slots are taken as far as `free_count_` is concerned: those that
threads hold, those of an `allocate` that has done its subtraction, and those of
a `deallocate` that has not done its addition. -/
def taken (state : SlabThreads Thread) : Nat :=
  ∑ thread, state.outstanding thread

def Room (state : SlabThreads Thread) (move : SlabMove Thread) : Prop :=
  state.lowers move = true → state.taken < state.slab.capacity

/-- The count is within the capacity, and no subtraction finds it at zero. -/
def InRange (state : SlabThreads Thread) (move : SlabMove Thread) : Prop :=
  state.slab.available ≤ state.slab.capacity ∧
    (state.lowers move = true → 0 < state.slab.available)

instance (state : SlabThreads Thread) (move : SlabMove Thread) :
    Decidable (Room state move) :=
  inferInstanceAs (Decidable
    (state.lowers move = true → state.taken < state.slab.capacity))

instance (state : SlabThreads Thread) (move : SlabMove Thread) :
    Decidable (InRange state move) :=
  inferInstanceAs (Decidable (state.slab.available ≤ state.slab.capacity ∧
    (state.lowers move = true → 0 < state.slab.available)))

variable [DecidableEq Thread]

inductive Counted (state : SlabThreads Thread) (move : SlabMove Thread)
    (after : SlabThreads Thread) : Prop
  | lowered (lowers : state.lowers move = true)
      (count : after.slab.freeCount =
        (state.slab.freeCount + (uint32Size - 1)) % uint32Size)
      (more : after.taken = state.taken + 1)
  | raised (lowers : state.lowers move = false)
      (count : after.slab.freeCount = (state.slab.freeCount + 1) % uint32Size)
      (fewer : state.taken = after.taken + 1)
  | kept (lowers : state.lowers move = false)
      (count : after.slab.freeCount = state.slab.freeCount)
      (same : after.taken = state.taken)

structure Valid (state : SlabThreads Thread) : Prop where
  point : ∀ thread, (state.point thread).Valid

section Moves

variable {state after : SlabThreads Thread} {thread : Thread}

omit [Fintype Thread] in
theorem Valid.update (valid : state.Valid) (thread : Thread)
    {point : SlabPoint} (here : point.Valid) (other : Thread) :
    (Function.update state.point thread point other).Valid :=
  (Function.forall_update_iff state.point fun _ point => point.Valid).mpr
    ⟨here, fun other _ => valid.point other⟩ other

theorem Valid.step (valid : state.Valid) {spurious : Bool}
    {outcome : SlabPoint.Outcome}
    (ran : (state.point thread).step state.slab spurious = some outcome) :
    Counted state (.step thread spurious) (state.stepped thread outcome) ∧
      (state.stepped thread outcome).Valid ∧
      outcome.slab.capacity = state.slab.capacity := by
  rcases SlabPoint.step_counted (valid.point thread) ran with
    ⟨counted, here, capacity⟩
  have others : ∀ other, other ≠ thread →
      (state.stepped thread outcome).outstanding other =
        state.outstanding other := by
    intro other different
    simp [outstanding, stepped, different]
  have own : (state.stepped thread outcome).outstanding thread =
      (state.held thread).length + outcome.point.outstanding := by
    simp [outstanding, stepped]
  refine ⟨?_, ⟨valid.update thread here⟩, capacity⟩
  cases counted with
  | lowered lowers count more =>
      refine .lowered lowers count (sum_gain ?_ others)
      rw [own, more, outstanding, Nat.add_assoc]
  | raised lowers count fewer =>
      refine .raised lowers count
        (sum_gain ?_ fun other different => (others other different).symm)
      rw [own, outstanding, fewer, Nat.add_assoc]
  | kept lowers count same =>
      refine .kept lowers count (sum_keep ?_ others)
      rw [own, same, outstanding]

theorem taken_turn {point : SlabPoint} {held : Thread → List Nat}
    (others : ∀ other, other ≠ thread → held other = state.held other)
    (same : (held thread).length + point.outstanding =
      state.outstanding thread) :
    taken { state with
      point := Function.update state.point thread point, held } =
        state.taken := by
  apply sum_keep (i := thread)
  · simp only [outstanding, Function.update_self]
    exact same
  · intro other different
    simp only [outstanding, Function.update_of_ne different,
      others other different]

theorem Valid.move (valid : state.Valid) {move : SlabMove Thread}
    {reply : Option Nat} (ran : machine state move = some (reply, after)) :
    Counted state move after ∧ after.Valid ∧
      after.slab.capacity = state.slab.capacity := by
  cases moved ran with
  | @allocate thread idle =>
      refine ⟨.kept rfl rfl (taken_turn (fun _ _ => rfl) ?_),
        ⟨valid.update thread trivial⟩, rfl⟩
      rw [outstanding, idle]
      rfl
  | @deallocate thread index idle held =>
      refine ⟨.kept rfl rfl (taken_turn
          (fun _ different => Function.update_of_ne different _ _) ?_),
        ⟨valid.update thread trivial⟩, rfl⟩
      have some : 0 < (state.held thread).length := List.length_pos_of_mem held
      rw [outstanding, idle, Function.update_self,
        List.length_erase_of_mem held]
      exact Nat.sub_add_cancel some
  | @step thread spurious outcome stepped => exact valid.step stepped
  | @leave thread index returning =>
      refine ⟨.kept rfl rfl (taken_turn ?_ ?_),
        ⟨valid.update thread trivial⟩, rfl⟩
      · intro other different
        split
        · rfl
        · exact Function.update_of_ne different _ _
      · rw [outstanding, returning]
        by_cases none : index = kInvalidIndex <;>
          simp [SlabPoint.outstanding, none]
  | @handOver sender receiver index held =>
      refine ⟨.kept rfl rfl ?_, ⟨valid.point⟩, rfl⟩
      apply sum_pass 1 fun (other : Thread) (had : List Nat) =>
        had.length + (state.point other).outstanding
      · have some := List.length_pos_of_mem held
        rw [List.length_erase_of_mem held]
        omega
      · intro had
        rw [List.length_cons]
        omega

structure Congruent (capacity : Nat) (state : SlabThreads Thread) : Prop where
  valid : state.Valid
  count_lt : state.slab.freeCount < uint32Size
  congruent : (state.slab.freeCount + state.taken) % uint32Size =
    capacity % uint32Size

theorem Congruent.move {capacity : Nat} (congruent : Congruent capacity state)
    {move : SlabMove Thread} {reply : Option Nat}
    (ran : machine state move = some (reply, after)) :
    Congruent capacity after := by
  rcases congruent.valid.move ran with ⟨counted, valid, -⟩
  have before := congruent.congruent
  have small := congruent.count_lt
  cases counted with
  | lowered lowers count more =>
      refine ⟨valid, by rw [count]; exact Nat.mod_lt _ (by decide), ?_⟩
      rw [count, more, ← before]
      simp only [uint32Size] at *
      omega
  | raised lowers count fewer =>
      refine ⟨valid, by rw [count]; exact Nat.mod_lt _ (by decide), ?_⟩
      rw [fewer] at before
      rw [count, ← before]
      simp only [uint32Size] at *
      omega
  | kept lowers count same =>
      exact ⟨valid, count ▸ small, by rw [count, same, before]⟩

/-- As long as the threads have not taken more than there is, it does not wrap
around. -/
structure Balanced (capacity : Nat) (state : SlabThreads Thread) : Prop where
  valid : state.Valid
  total : state.slab.capacity = capacity
  balance : state.slab.freeCount + state.taken = capacity

omit [DecidableEq Thread] in
theorem Balanced.start {capacity : Nat} {slab : SlabAllocator}
    (made : SlabAllocator.new capacity = some slab) :
    Balanced capacity (start slab : SlabThreads Thread) := by
  unfold SlabAllocator.new at made
  split at made
  · cases made
  · cases made
    exact ⟨⟨fun _ => trivial⟩, rfl, by
      simp [SlabThreads.start, taken, outstanding, SlabPoint.outstanding]⟩

omit [DecidableEq Thread] in
theorem Balanced.congruent {capacity : Nat} (fits : capacity < uint32Size)
    (balanced : Balanced capacity state) : Congruent capacity state :=
  ⟨balanced.valid, by have := balanced.balance; omega,
    congrArg (· % uint32Size) balanced.balance⟩

variable {capacity : Nat}

omit [DecidableEq Thread] in
/-- A subtraction finds some slot not taken exactly if it finds the count above
zero. -/
theorem Balanced.room_iff (balanced : Balanced capacity state)
    {move : SlabMove Thread} : state.Room move ↔ state.InRange move := by
  have balance := balanced.balance
  unfold Room InRange SlabAllocator.available
  rw [balanced.total]
  constructor
  · intro room
    refine ⟨by omega, fun lowers => ?_⟩
    have less := room lowers
    omega
  · intro range lowers
    have more := range.2 lowers
    omega

theorem Balanced.move (fits : capacity < uint32Size)
    (balanced : Balanced capacity state) {move : SlabMove Thread}
    (room : state.Room move) {reply : Option Nat}
    (ran : machine state move = some (reply, after)) :
    Balanced capacity after := by
  rcases balanced.valid.move ran with ⟨counted, valid, sameCapacity⟩
  refine ⟨valid, sameCapacity.trans balanced.total, ?_⟩
  have balance := balanced.balance
  cases counted with
  | lowered lowers count more =>
      have less := room lowers
      rw [balanced.total] at less
      rw [count, more]
      simp only [uint32Size] at *
      omega
  | raised lowers count fewer =>
      rw [count]
      simp only [uint32Size] at *
      omega
  | kept lowers count same => rw [count, same, balance]

/-- The count stays within the capacity, and is never lowered at zero, exactly
in the runs where every subtraction finds a slot that is not taken. -/
theorem inRange_iff_room {slab : SlabAllocator}
    (made : SlabAllocator.new capacity = some slab)
    (fits : capacity < uint32Size) (moves : List (SlabMove Thread))
    {replies : List (Option Nat)} {last : SlabThreads Thread}
    (ran : machine.run moves (start slab) = some (replies, last)) :
    (machine.Along InRange moves (start slab) ∧
        last.slab.available ≤ last.slab.capacity) ↔
      machine.Along Room moves (start slab) := by
  have balanced : Balanced capacity (start slab : SlabThreads Thread) :=
    .start made
  generalize start slab = state at ran balanced ⊢
  induction moves generalizing state replies with
  | nil =>
      cases ran
      have balance := balanced.balance
      constructor
      · exact fun _ => trivial
      · intro _
        refine ⟨trivial, ?_⟩
        rw [balanced.total, SlabAllocator.available]
        omega
  | cons move rest induction =>
      rcases Machine.run_cons_eq_some ran with
        ⟨reply, middle, others, stepped, ranRest, -⟩
      have next : state.Room move → _ := fun room =>
        induction middle ranRest (balanced.move fits room stepped)
      constructor
      · intro inRange
        have room := balanced.room_iff.mpr inRange.1.1
        refine ⟨room, ?_⟩
        intro outcome also
        rw [stepped] at also
        cases also
        exact (next room).mp ⟨inRange.1.2 _ stepped, inRange.2⟩
      · intro along
        have after := (next along.1).mpr (along.2 _ stepped)
        refine ⟨⟨balanced.room_iff.mp along.1, ?_⟩, after.2⟩
        intro outcome also
        rw [stepped] at also
        cases also
        exact after.1

end Moves

def backAndForth : List (SlabMove Bool) :=
  [.allocate false, .step false false, .step false false, .step false false,
    .step false false, .step false false, .leave false, .deallocate false 0,
    .step false false, .step false false, .step false false,
    .step false false, .step false false, .allocate true, .step true false,
    .step true false, .step true false, .step true false, .step true false,
    .leave true]

theorem inRange_iff_room_sample :
    ∃ slab replies last, SlabAllocator.new 1 = some slab ∧
      machine.run backAndForth (start slab) = some (replies, last) ∧
      ((machine.Along InRange backAndForth (start slab) ∧
          last.slab.available ≤ last.slab.capacity) ↔
        machine.Along Room backAndForth (start slab)) := by
  have ran : ((SlabAllocator.new 1).bind fun slab =>
      (machine.run backAndForth (start slab)).map fun outcome =>
        outcome.1.getLast?) = some (some (some 0)) := by
    decide +kernel
  rcases Option.bind_eq_some_iff.mp ran with ⟨slab, made, ran⟩
  rcases Option.map_eq_some_iff.mp ran with ⟨⟨replies, last⟩, ran, -⟩
  exact ⟨slab, replies, last, made, ran,
    inRange_iff_room made (by decide) _ ran⟩

/-- The same, but the second thread comes before the first one has counted the
slot that it gives back. -/
def overtaken : List (SlabMove Bool) :=
  [.allocate false, .step false false, .step false false, .step false false,
    .step false false, .step false false, .leave false, .deallocate false 0,
    .step false false, .step false false, .step false false,
    .step false false, .allocate true, .step true false, .step true false,
    .step true false, .step true false, .step true false]

theorem overtaken_wraps :
    ∃ slab replies last, SlabAllocator.new 1 = some slab ∧
      machine.run overtaken (start slab) = some (replies, last) ∧
      last.slab.capacity = 1 ∧ last.slab.available = 4294967295 ∧
      ¬ machine.Along InRange overtaken (start slab) := by
  have ran : ((SlabAllocator.new 1).bind fun slab =>
      (machine.run overtaken (start slab)).map fun outcome =>
        (outcome.2.slab.capacity, outcome.2.slab.available)) =
          some (1, 4294967295) := by
    decide +kernel
  have wraps : ∀ slab ∈ SlabAllocator.new 1,
      ¬ machine.Along InRange overtaken (start slab) := by
    decide +kernel
  rcases Option.bind_eq_some_iff.mp ran with ⟨slab, made, ran⟩
  rcases Option.map_eq_some_iff.mp ran with ⟨⟨replies, last⟩, ran, final⟩
  obtain ⟨capacity, available⟩ := Prod.mk.inj final
  exact ⟨slab, replies, last, made, ran, capacity, available,
    wraps slab made⟩

end SlabThreads

end Walde
