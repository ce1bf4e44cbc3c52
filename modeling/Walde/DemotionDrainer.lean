import Walde.DemotionQueue

namespace Walde

/-! # The demotion drainer

The drainer thread as a machine that takes one atomic step at a time: a test of
`running_`, a pop under the queue's mutex, or the delivery of one item of a
batch. -/

inductive DrainerPhase
  | testing
  /-- About to pop a batch, in the main loop or in the final drain. -/
  | popping (final : Bool)
  /-- In `insert_fn_`, with what is left of a batch of `popped` items. -/
  | inserting (final : Bool) (popped : Nat) (rest : List DemotionItem)
  /-- In `wait_for`, which ends after a millisecond in any case. -/
  | waiting
  | returned
deriving DecidableEq, Repr

structure DemotionDrainer where
  running : Bool
  drained : Nat
  phase : DrainerPhase

namespace DemotionDrainer

def new : DemotionDrainer where
  running := true
  drained := 0
  phase := .testing

/-- `stop`, up to the join. -/
def stop (drainer : DemotionDrainer) : DemotionDrainer :=
  { drainer with running := false }

/-- One step of `run`, with the item that it hands to `insert_fn_`. -/
def step (drainer : DemotionDrainer) (queue : DemotionQueue) :
    Option DemotionItem × DemotionDrainer × DemotionQueue :=
  match drainer.phase with
  | .testing =>
      (none, { drainer with phase := .popping (!drainer.running) }, queue)
  | .popping final =>
      let (batch, queue) := queue.tryPopBatch 64
      if 0 < batch.length then
        (none, { drainer with phase := .inserting final batch.length batch },
          queue)
      else
        (none, { drainer with phase := if final then .returned else .waiting },
          queue)
  | .inserting final popped (item :: rest) =>
      (some item, { drainer with phase := .inserting final popped rest }, queue)
  | .inserting final popped [] =>
      (none, { drainer with
        drained := drainer.drained + popped
        phase := if final then .popping true else .testing }, queue)
  | .waiting => (none, { drainer with phase := .testing }, queue)
  | .returned => (none, drainer, queue)

def pending (drainer : DemotionDrainer) : List DemotionItem :=
  match drainer.phase with
  | .inserting _ _ rest => rest
  | _ => []

/-- The size of the batch, which is counted at its end. -/
def uncounted (drainer : DemotionDrainer) : Nat :=
  match drainer.phase with
  | .inserting _ popped _ => popped
  | _ => 0

theorem uncounted_eq_zero {drainer : DemotionDrainer}
    (betweenBatches : ∀ final popped rest,
      drainer.phase ≠ .inserting final popped rest) :
    drainer.uncounted = 0 := by
  unfold uncounted
  split
  · rename_i final popped rest inserting
    exact absurd inserting (betweenBatches final popped rest)
  · rfl

/-- The items between L1 and L2, in the order in which they will arrive. -/
def inFlight (drainer : DemotionDrainer) (queue : DemotionQueue) :
    List DemotionItem :=
  drainer.pending ++ queue.items

def Live (drainer : DemotionDrainer) : Prop :=
  drainer.running = true ∧ drainer.phase ≠ .returned ∧
    drainer.phase ≠ .popping true ∧
    ∀ popped rest, drainer.phase ≠ .inserting true popped rest

theorem new_live : new.Live := ⟨rfl, by simp [new], by simp [new], by simp [new]⟩

@[simp] theorem new_pending : new.pending = [] := rfl

/-! ## A step keeps the items in order -/

def distance (drainer : DemotionDrainer) : Nat :=
  match drainer.phase with
  | .inserting _ _ (_ :: _) => 0
  | .popping _ => 1
  | .testing => 2
  | .waiting => 3
  | .inserting _ _ [] => 3
  | .returned => 0

section Step

variable {drainer : DemotionDrainer} {queue : DemotionQueue}

theorem step_fst (drainer : DemotionDrainer) (queue : DemotionQueue) :
    (drainer.step queue).1 = drainer.pending.head? := by
  rcases drainer with ⟨running, drained, phase⟩
  cases phase with
  | popping final =>
      simp only [step]
      split <;> rfl
  | inserting final popped rest => cases rest <;> rfl
  | _ => rfl

theorem step_inFlight (sound : queue.Sound) (drainer : DemotionDrainer) :
    (drainer.step queue).2.2.Sound ∧
      drainer.inFlight queue = (drainer.step queue).1.toList ++
        (drainer.step queue).2.1.inFlight (drainer.step queue).2.2 := by
  rcases drainer with ⟨running, drained, phase⟩
  cases phase with
  | testing => exact ⟨sound, rfl⟩
  | popping final =>
      rcases sound.tryPopBatch 64 with ⟨sound', batch, items, -⟩
      by_cases nonempty : 0 < (queue.tryPopBatch 64).1.length
      · simp only [step, if_pos nonempty]
        refine ⟨sound', ?_⟩
        simp only [inFlight, pending, batch, items]
        exact (List.take_append_drop 64 queue.items).symm
      · simp only [step, if_neg nonempty]
        refine ⟨sound', ?_⟩
        rw [batch] at nonempty
        have none : queue.items.take 64 = [] :=
          List.eq_nil_of_length_eq_zero (Nat.eq_zero_of_not_pos nonempty)
        have rest : queue.items.drop 64 = queue.items := by
          have whole := List.take_append_drop 64 queue.items
          rwa [none] at whole
        cases final <;> simp [inFlight, pending, items, rest]
  | inserting final popped rest =>
      cases rest with
      | nil => cases final <;> exact ⟨sound, rfl⟩
      | cons item rest => exact ⟨sound, rfl⟩
  | waiting => exact ⟨sound, rfl⟩
  | returned => exact ⟨sound, rfl⟩

theorem step_accounted (sound : queue.Sound) (drainer : DemotionDrainer) :
    (drainer.step queue).2.2.drops = queue.drops ∧
      (drainer.step queue).2.2.items.length +
          (drainer.step queue).2.1.drained +
          (drainer.step queue).2.1.uncounted =
        queue.items.length + drainer.drained + drainer.uncounted := by
  rcases drainer with ⟨running, drained, phase⟩
  cases phase with
  | testing => exact ⟨rfl, rfl⟩
  | popping final =>
      rcases sound.tryPopBatch 64 with ⟨-, batch, items, drops⟩
      have whole := congrArg List.length (List.take_append_drop 64 queue.items)
      rw [List.length_append, ← batch, ← items] at whole
      by_cases nonempty : 0 < (queue.tryPopBatch 64).1.length
      · simp only [step, if_pos nonempty, uncounted]
        exact ⟨drops, by omega⟩
      · simp only [step, if_neg nonempty]
        refine ⟨drops, ?_⟩
        cases final <;> change _ + drained + 0 = _ + drained + 0 <;> omega
  | inserting final popped rest =>
      cases rest with
      | nil =>
          refine ⟨rfl, ?_⟩
          have counted : queue.items.length + (drained + popped) + 0 =
              queue.items.length + drained + popped := by omega
          cases final <;> exact counted
      | cons item rest => exact ⟨rfl, rfl⟩
  | waiting => exact ⟨rfl, rfl⟩
  | returned => exact ⟨rfl, rfl⟩

theorem Live.step (live : drainer.Live) (queue : DemotionQueue) :
    (drainer.step queue).2.1.Live := by
  rcases drainer with ⟨running, drained, phase⟩
  rcases live with ⟨running, notReturned, notFinal, notFinalBatch⟩
  subst running
  cases phase with
  | testing => simp [DemotionDrainer.step, Live]
  | popping final =>
      cases final with
      | true => exact absurd rfl notFinal
      | false =>
          simp only [DemotionDrainer.step]
          split <;> simp [Live]
  | inserting final popped rest =>
      cases final with
      | true => exact absurd rfl (notFinalBatch popped rest)
      | false => cases rest <;> simp [DemotionDrainer.step, Live]
  | waiting => simp [DemotionDrainer.step, Live]
  | returned => exact absurd rfl notReturned

/-- While there are items in flight, the drainer hands one on or comes nearer
to it. -/
theorem Live.progress (live : drainer.Live) (sound : queue.Sound)
    (some : drainer.inFlight queue ≠ []) :
    (drainer.step queue).1 ≠ none ∨
      (drainer.step queue).2.1.distance < drainer.distance := by
  rcases drainer with ⟨running, drained, phase⟩
  cases phase with
  | testing => exact .inr (by decide : 1 < 2)
  | popping final =>
      right
      have nonempty : 0 < (queue.tryPopBatch 64).1.length := by
        rw [(sound.tryPopBatch 64).2.1, List.length_take]
        exact Nat.lt_min.mpr ⟨by decide, List.length_pos_iff.mpr some⟩
      simp only [DemotionDrainer.step, if_pos nonempty]
      rcases batch : (queue.tryPopBatch 64).1 with _ | ⟨item, rest⟩
      · simp [batch] at nonempty
      · exact Nat.zero_lt_one
  | inserting final popped rest =>
      cases rest with
      | nil =>
          right
          cases final with
          | true => exact absurd rfl (live.2.2.2 popped [])
          | false => exact (by decide : 2 < 3)
      | cons item rest => exact .inl (by simp [DemotionDrainer.step])
  | waiting => exact .inr (by decide : 2 < 3)
  | returned => exact absurd rfl live.2.1

end Step

end DemotionDrainer

end Walde
