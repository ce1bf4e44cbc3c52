import Walde.DemotionDrainer
import Walde.Foundation.Machine

namespace Walde

open Foundation

/-! # Delivery of demoted items

The drainer thread with its local variables: the batch vector, which both loops
of `run` use again and again, and the count of the last pop. -/

/-- Where the thread is in `run`. -/
inductive DrainPoint
  | testing
  | popping
  /-- About to call `insert_fn_`. -/
  | inserting
  /-- About to add to `drained_`. -/
  | counting
  /-- In `wait_for`, which ends after a millisecond in any case. -/
  | waiting
  | finalPopping
  | finalInserting
  | finalCounting
  | returned
deriving DecidableEq, Repr

structure DrainThread where
  running : Bool
  drained : Nat
  batch : List DemotionItem
  popped : Nat
  point : DrainPoint

namespace DrainThread

def new : DrainThread where
  running := true
  drained := 0
  batch := []
  popped := 0
  point := .testing

/-- `stop`, up to the join. -/
def stop (thread : DrainThread) : DrainThread :=
  { thread with running := false }

/-- One atomic step of `run`, with the batch that it passes to `insert_fn_`.
A pop appends to the vector; `batch.clear()` touches no other thread and is part
of the step before the pop. -/
def step (thread : DrainThread) (queue : DemotionQueue) :
    Option (List DemotionItem) × DrainThread × DemotionQueue :=
  match thread.point with
  | .testing =>
      (none, { thread with
        batch := []
        point := if thread.running then .popping else .finalPopping }, queue)
  | .popping =>
      let (items, queue) := queue.tryPopBatch 64
      (none, { thread with
        batch := thread.batch ++ items
        popped := items.length
        point := if 0 < items.length then .inserting else .waiting }, queue)
  | .inserting => (some thread.batch, { thread with point := .counting }, queue)
  | .counting =>
      (none, { thread with
        drained := thread.drained + thread.popped
        point := .testing }, queue)
  | .waiting => (none, { thread with point := .testing }, queue)
  | .finalPopping =>
      let (items, queue) := queue.tryPopBatch 64
      (none, { thread with
        batch := thread.batch ++ items
        point := if 0 < items.length then .finalInserting else .returned },
        queue)
  | .finalInserting =>
      (some thread.batch, { thread with point := .finalCounting }, queue)
  | .finalCounting =>
      (none, { thread with
        drained := thread.drained + thread.batch.length
        batch := []
        point := .finalPopping }, queue)
  | .returned => (none, thread, queue)

/-- The batch that was popped and not passed on yet. -/
def pending (thread : DrainThread) : List DemotionItem :=
  match thread.point with
  | .inserting | .finalInserting => thread.batch
  | _ => []

/-- What was passed on and is not in `drained_` yet. -/
def uncounted (thread : DrainThread) : List DemotionItem :=
  match thread.point with
  | .counting | .finalCounting => thread.batch
  | _ => []

def Sound (thread : DrainThread) : Prop :=
  match thread.point with
  | .testing | .waiting => True
  | .popping => thread.batch = []
  | .inserting | .counting => thread.popped = thread.batch.length ∧
      1 ≤ thread.batch.length ∧ thread.batch.length ≤ 64
  | .finalPopping => thread.running = false ∧ thread.batch = []
  | .finalInserting | .finalCounting => thread.running = false ∧
      1 ≤ thread.batch.length ∧ thread.batch.length ≤ 64
  | .returned => thread.running = false

theorem Sound.not_returned {thread : DrainThread} (sound : thread.Sound)
    (running : thread.running = true) : thread.point ≠ .returned := by
  intro returned
  rw [Sound, returned] at sound
  rw [running] at sound
  cases sound

theorem Sound.stop {thread : DrainThread} (sound : thread.Sound) :
    thread.stop.Sound := by
  rcases thread with ⟨running, drained, batch, popped, point⟩
  cases point with
  | finalPopping => exact ⟨rfl, sound.2⟩
  | finalInserting => exact ⟨rfl, sound.2⟩
  | finalCounting => exact ⟨rfl, sound.2⟩
  | returned => exact rfl
  | _ => exact sound

structure Stepped (thread : DrainThread) (queue : DemotionQueue)
    (passed : Option (List DemotionItem)) (thread' : DrainThread)
    (queue' : DemotionQueue) : Prop where
  queueSound : queue'.Sound
  sound : thread'.Sound
  running : thread'.running = thread.running
  /-- The items stay in order, and none is lost or passed on twice. -/
  waiting : thread.pending ++ queue.items =
    passed.getD [] ++ (thread'.pending ++ queue'.items)
  batch : ∀ batch ∈ passed, 1 ≤ batch.length ∧ batch.length ≤ 64
  counted : thread'.drained + thread'.uncounted.length =
    thread.drained + thread.uncounted.length + (passed.getD []).length
  /-- The thread returns only from an empty queue. -/
  returned : thread'.point = .returned → thread.point = .returned ∨
    thread.pending ++ queue.items = []

section Pops

variable {queue : DemotionQueue}

theorem popped_cases (sound : queue.Sound) :
    (queue.tryPopBatch 64).2.Sound ∧
      ((queue.tryPopBatch 64).1 = [] ∧ queue.items = [] ∧
          (queue.tryPopBatch 64).2.items = [] ∨
        0 < (queue.tryPopBatch 64).1.length ∧
          (queue.tryPopBatch 64).1.length ≤ 64 ∧
          queue.items =
            (queue.tryPopBatch 64).1 ++ (queue.tryPopBatch 64).2.items) := by
  rcases sound.tryPopBatch 64 with ⟨sound', batch, items, -⟩
  refine ⟨sound', ?_⟩
  rw [batch, items]
  cases held : queue.items with
  | nil => exact .inl ⟨rfl, rfl, rfl⟩
  | cons first rest =>
      right
      refine ⟨by simp, ?_, (List.take_append_drop 64 _).symm⟩
      exact List.length_take_le 64 _

end Pops

theorem Sound.step {thread : DrainThread} {queue : DemotionQueue}
    (sound : thread.Sound) (queueSound : queue.Sound) :
    Stepped thread queue (thread.step queue).1 (thread.step queue).2.1
      (thread.step queue).2.2 := by
  rcases thread with ⟨running, drained, batch, popped, point⟩
  cases point with
  | testing =>
      cases running with
      | true => exact ⟨queueSound, rfl, rfl, rfl, nofun, rfl, nofun⟩
      | false => exact ⟨queueSound, ⟨rfl, rfl⟩, rfl, rfl, nofun, rfl, nofun⟩
  | popping =>
      obtain rfl : batch = [] := sound
      rcases popped_cases queueSound with
        ⟨queueSound', ⟨none, empty, left⟩ | ⟨some, few, split⟩⟩
      · simp only [DrainThread.step, none]
        exact ⟨queueSound', trivial, rfl, by rw [empty, left]; rfl, nofun, rfl,
          nofun⟩
      · simp only [DrainThread.step, if_pos some, List.nil_append]
        exact ⟨queueSound', ⟨rfl, some, few⟩, rfl, split, nofun, rfl, nofun⟩
  | inserting =>
      rcases sound with ⟨counted, some, few⟩
      refine ⟨queueSound, ⟨counted, some, few⟩, rfl, rfl, ?_, rfl, nofun⟩
      intro passed member
      cases member
      exact ⟨some, few⟩
  | counting =>
      rcases sound with ⟨counted, some, few⟩
      exact ⟨queueSound, trivial, rfl, rfl, nofun,
        congrArg (drained + ·) counted, nofun⟩
  | waiting => exact ⟨queueSound, trivial, rfl, rfl, nofun, rfl, nofun⟩
  | finalPopping =>
      obtain ⟨stopped, rfl⟩ := sound
      rcases popped_cases queueSound with
        ⟨queueSound', ⟨none, empty, left⟩ | ⟨some, few, split⟩⟩
      · simp only [DrainThread.step, none]
        exact ⟨queueSound', stopped, rfl, by rw [empty, left]; rfl, nofun, rfl,
          fun _ => .inr empty⟩
      · simp only [DrainThread.step, if_pos some, List.nil_append]
        exact ⟨queueSound', ⟨stopped, some, few⟩, rfl, split, nofun, rfl, nofun⟩
  | finalInserting =>
      rcases sound with ⟨stopped, some, few⟩
      refine ⟨queueSound, ⟨stopped, some, few⟩, rfl, rfl, ?_, rfl, nofun⟩
      intro passed member
      cases member
      exact ⟨some, few⟩
  | finalCounting =>
      exact ⟨queueSound, ⟨sound.1, rfl⟩, rfl, rfl, nofun, rfl, nofun⟩
  | returned =>
      exact ⟨queueSound, sound, rfl, rfl, nofun, rfl, fun _ => .inl rfl⟩

end DrainThread

/-! ## The queue, its producers and the drainer -/

structure Pipeline where
  queue : DemotionQueue
  thread : DrainThread

inductive PipelineMove (Producer : Type)
  | push (producer : Producer) (item : DemotionItem)
  | drain
  | stop
deriving DecidableEq, Repr

def PipelineMove.isDrain {Producer : Type} : PipelineMove Producer → Bool
  | .drain => true
  | _ => false

inductive PipelineReply
  | pushed (accepted : Bool)
  | drained (passed : Option (List DemotionItem))
  | stopped
deriving DecidableEq, Repr

namespace Pipeline

variable {Producer : Type}

def new (capacity : Nat) : Pipeline where
  queue := .new capacity
  thread := .new

def step : Machine Pipeline (PipelineMove Producer) PipelineReply
  | pipeline, .push _ item =>
      some (.pushed (pipeline.queue.tryPush item).1,
        { pipeline with queue := (pipeline.queue.tryPush item).2 })
  | pipeline, .drain =>
      let (passed, thread, queue) := pipeline.thread.step pipeline.queue
      some (.drained passed, { queue, thread })
  | pipeline, .stop =>
      some (.stopped, { pipeline with thread := pipeline.thread.stop })

def accepted (moves : List (PipelineMove Producer))
    (replies : List PipelineReply) : List DemotionItem :=
  (moves.zip replies).filterMap fun
    | (.push _ item, .pushed true) => some item
    | _ => none

def passed (replies : List PipelineReply) : List (List DemotionItem) :=
  replies.filterMap fun
    | .drained passed => passed
    | _ => none

def waiting (pipeline : Pipeline) : List DemotionItem :=
  pipeline.thread.pending ++ pipeline.queue.items

/-- What was passed to `insert_fn_` and counted in `drained_`, or is about to
be. -/
def counted (pipeline : Pipeline) : Nat :=
  pipeline.thread.drained + pipeline.thread.uncounted.length

structure Sound (pipeline : Pipeline) : Prop where
  queue : pipeline.queue.Sound
  thread : pipeline.thread.Sound

theorem new_sound {capacity : Nat} (fits : capacity < uint32Size) :
    (new capacity).Sound :=
  ⟨DemotionQueue.new_sound fits, trivial⟩

section Runs

variable {pipeline last : Pipeline} {moves : List (PipelineMove Producer)}
  {replies : List PipelineReply}

/-- What one move keeps: accepted items join the waiting ones at the end, and
the ones passed on leave from the front. -/
structure Moved (pipeline : Pipeline) (move : PipelineMove Producer)
    (reply : PipelineReply) (pipeline' : Pipeline) : Prop where
  sound : pipeline'.Sound
  waiting : pipeline.waiting ++ accepted [move] [reply] =
    (passed [reply]).flatten ++ pipeline'.waiting
  batch : ∀ batch ∈ passed [reply], 1 ≤ batch.length ∧ batch.length ≤ 64
  counted : pipeline'.counted =
    pipeline.counted + (passed [reply]).flatten.length
  running : move ≠ .stop → pipeline'.thread.running = pipeline.thread.running
  returned : pipeline'.thread.point = .returned →
    pipeline.thread.point = .returned ∨ pipeline.waiting = []

theorem Sound.move (sound : pipeline.Sound) (move : PipelineMove Producer) :
    ∃ reply pipeline', pipeline.step move = some (reply, pipeline') ∧
      Moved pipeline move reply pipeline' := by
  cases move with
  | push producer item =>
      have outcome := sound.queue.tryPush item
      rcases pushed : pipeline.queue.tryPush item with ⟨taken, queue⟩
      rw [pushed] at outcome
      rcases outcome with ⟨queueSound, outcome⟩
      refine ⟨.pushed taken, ⟨queue, pipeline.thread⟩, by simp only [step, pushed],
        ⟨queueSound, sound.thread⟩, ?_, nofun, rfl, fun _ => rfl, .inl⟩
      change pipeline.thread.pending ++ pipeline.queue.items ++
          accepted [.push producer item] [.pushed taken] =
        pipeline.thread.pending ++ queue.items
      rw [List.append_assoc]
      split at outcome
      · rcases outcome with ⟨rfl, items, -⟩
        rw [items]
        rfl
      · rcases outcome with ⟨rfl, items, -⟩
        rw [items]
        exact congrArg _ (List.append_nil _)
  | drain =>
      have stepped := sound.thread.step sound.queue
      rcases drained : pipeline.thread.step pipeline.queue with
        ⟨passedOn, thread, queue⟩
      rw [drained] at stepped
      refine ⟨.drained passedOn, ⟨queue, thread⟩, by
        simp only [step, drained], ⟨stepped.queueSound, stepped.sound⟩, ?_, ?_,
        ?_, fun _ => stepped.running, stepped.returned⟩
      · change pipeline.waiting ++ [] = _
        rw [List.append_nil, waiting, stepped.waiting]
        cases passedOn <;> simp [passed, waiting]
      · intro batch member
        apply stepped.batch batch
        cases passedOn with
        | none => cases member
        | some only => simpa [passed, eq_comm] using member
      · rw [counted, stepped.counted]
        cases passedOn <;> simp [passed, counted]
  | stop =>
      refine ⟨.stopped, ⟨pipeline.queue, pipeline.thread.stop⟩, rfl,
        ⟨sound.queue, sound.thread.stop⟩, List.append_nil _, nofun, rfl,
        fun notStop => absurd rfl notStop, .inl⟩

theorem accepted_append_append {first second : List (PipelineMove Producer)}
    {replies later : List PipelineReply}
    (length : replies.length = first.length) :
    accepted (first ++ second) (replies ++ later) =
      accepted first replies ++ accepted second later := by
  rw [accepted, List.zip_append length.symm, List.filterMap_append]
  rfl

theorem accepted_cons (move : PipelineMove Producer) (reply : PipelineReply)
    (moves : List (PipelineMove Producer)) (replies : List PipelineReply) :
    accepted (move :: moves) (reply :: replies) =
      accepted [move] [reply] ++ accepted moves replies :=
  @accepted_append_append _ [move] _ [reply] _ rfl

theorem passed_append (first second : List PipelineReply) :
    passed (first ++ second) = passed first ++ passed second :=
  List.filterMap_append

theorem passed_cons (reply : PipelineReply) (replies : List PipelineReply) :
    passed (reply :: replies) = passed [reply] ++ passed replies :=
  passed_append [reply] replies

structure Delivered (pipeline : Pipeline) (moves : List (PipelineMove Producer))
    (replies : List PipelineReply) (last : Pipeline) : Prop where
  sound : last.Sound
  waiting : pipeline.waiting ++ accepted moves replies =
    (passed replies).flatten ++ last.waiting
  batch : ∀ batch ∈ passed replies, 1 ≤ batch.length ∧ batch.length ≤ 64
  counted : last.counted = pipeline.counted + (passed replies).flatten.length
  running : .stop ∉ moves → last.thread.running = pipeline.thread.running
  /-- When `run` has returned, whatever waited at the start of the run of moves
  was passed on. -/
  returned : last.thread.point = .returned →
    pipeline.thread.point ≠ .returned →
    pipeline.waiting <+: (passed replies).flatten

theorem Sound.run (sound : pipeline.Sound)
    (moves : List (PipelineMove Producer)) :
    ∃ replies last, step.run moves pipeline = some (replies, last) ∧
      Delivered pipeline moves replies last := by
  induction moves generalizing pipeline with
  | nil =>
      exact ⟨[], pipeline, rfl, sound, List.append_nil _, nofun, rfl,
        fun _ => rfl, fun returned notReturned => absurd returned notReturned⟩
  | cons move rest induction =>
      rcases sound.move move with ⟨reply, middle, stepped, moved⟩
      rcases induction moved.sound with ⟨replies, last, ran, delivered⟩
      refine ⟨reply :: replies, last, Machine.run_cons stepped ran,
        delivered.sound, ?_, ?_, ?_, ?_, ?_⟩
      · rw [accepted_cons, passed_cons, List.flatten_append,
          ← List.append_assoc, moved.waiting, List.append_assoc,
          delivered.waiting, List.append_assoc]
      · intro batch member
        rw [passed_cons] at member
        rcases List.mem_append.mp member with first | later
        · exact moved.batch batch first
        · exact delivered.batch batch later
      · rw [passed_cons, List.flatten_append, List.length_append,
          delivered.counted, moved.counted, Nat.add_assoc]
      · intro noStop
        rw [List.mem_cons, not_or] at noStop
        rw [delivered.running noStop.2, moved.running (Ne.symm noStop.1)]
      · intro returned notReturned
        rw [passed_cons, List.flatten_append]
        by_cases gone : middle.thread.point = .returned
        · rcases moved.returned gone with already | empty
          · exact absurd already notReturned
          · rw [empty]
            exact List.nil_prefix
        · rcases delivered.returned returned gone with ⟨later, split⟩
          refine ⟨accepted [move] [reply] ++ later, ?_⟩
          rw [← List.append_assoc, moved.waiting, List.append_assoc, split]

theorem accepted_append {before : List (PipelineMove Producer)}
    {replies : List PipelineReply} (length : replies.length = before.length)
    (later : List PipelineReply) :
    accepted before (replies ++ later) = accepted before replies := by
  have whole := @accepted_append_append _ before [] replies later length
  rw [List.append_nil] at whole
  exact whole.trans (List.append_nil _)

@[simp] theorem new_waiting (capacity : Nat) : (new capacity).waiting = [] := by
  simp [waiting, new, DrainThread.new, DrainThread.pending]

/-- From an empty queue, for any moves of any producers, of the drainer and of
`stop`: what was passed to `insert_fn_`, then the batch that was popped and not
passed on yet, then the queue, is the sequence of the accepted items. Every batch
has 1 to 64 items, `drained_` counts the items that were passed on, and when
`run` has returned, every item accepted before `stop` was passed on. -/
theorem delivers_exactly_once {capacity : Nat} (fits : capacity < uint32Size)
    (moves : List (PipelineMove Producer)) :
    ∃ replies last, step.run moves (new capacity) = some (replies, last) ∧
      (passed replies).flatten ++ last.thread.pending ++ last.queue.items =
        accepted moves replies ∧
      (∀ batch ∈ passed replies, 1 ≤ batch.length ∧ batch.length ≤ 64) ∧
      (last.thread.uncounted = [] →
        last.thread.drained = (passed replies).flatten.length) ∧
      (last.thread.point = .returned →
        ∀ before after, moves = before ++ .stop :: after → .stop ∉ before →
          accepted before replies <+: (passed replies).flatten) := by
  rcases (new_sound fits).run moves with ⟨replies, last, ran, delivered⟩
  refine ⟨replies, last, ran, ?_, delivered.batch, ?_, ?_⟩
  · have waiting := delivered.waiting
    rw [new_waiting, List.nil_append] at waiting
    rw [List.append_assoc]
    exact waiting.symm
  · intro none
    have counted := delivered.counted
    rw [Pipeline.counted, none] at counted
    exact counted.trans (Nat.zero_add _)
  · rintro returned before after rfl noStop
    rcases (new_sound fits).run before with ⟨first, middle, ranBefore, early⟩
    rcases early.sound.run (.stop :: after) with ⟨second, last', ranAfter, late⟩
    have whole := Machine.run_append ranBefore ranAfter
    rw [ran] at whole
    cases whole
    -- until `stop` the thread is in its main loop
    have notReturned : middle.thread.point ≠ .returned :=
      early.sound.thread.not_returned (early.running noStop)
    rcases late.returned returned notReturned with ⟨rest, split⟩
    have waiting := early.waiting
    rw [new_waiting, List.nil_append] at waiting
    rw [accepted_append (Machine.run_length ranBefore), waiting, passed_append,
      List.flatten_append]
    exact ⟨rest, by rw [List.append_assoc, split]⟩

/-- An item is pushed before `stop` and one after it, and the thread returns. -/
theorem delivers_exactly_once_sample :
    ∃ replies last, step.run ([.push () ⟨"k", "1", 0⟩, .drain, .stop, .drain,
        .push () ⟨"w", "1", 0⟩] ++ List.replicate 7 .drain) (new 4) =
          some (replies, last) ∧
      (passed replies).flatten ++ last.thread.pending ++ last.queue.items =
        accepted ([.push () ⟨"k", "1", 0⟩, .drain, .stop, .drain,
          .push () ⟨"w", "1", 0⟩] ++ List.replicate 7 .drain) replies ∧
      (∀ batch ∈ passed replies, 1 ≤ batch.length ∧ batch.length ≤ 64) ∧
      (last.thread.uncounted = [] →
        last.thread.drained = (passed replies).flatten.length) ∧
      (last.thread.point = .returned →
        ∀ before after, [.push () ⟨"k", "1", 0⟩, .drain, .stop, .drain,
            .push () ⟨"w", "1", 0⟩] ++ List.replicate 7 .drain =
              before ++ .stop :: after → .stop ∉ before →
          accepted before replies <+: (passed replies).flatten) :=
  delivers_exactly_once (by decide) _

end Runs

end Pipeline

/-! ## The drainer of the engine

The engine hands on one item of a batch at a time, so that its clients may come
between two of them. Every step of its drainer is a step of the thread, or none
while `insert_fn_` is at work. -/

/-- Where the thread is while the drainer is in a phase. -/
inductive DrainThread.Mirrors (thread : DrainThread) : DemotionDrainer → Prop
  | testing (at_ : thread.point = .testing) :
      Mirrors thread ⟨thread.running, thread.drained, .testing⟩
  | popping (at_ : thread.point = .popping) (empty : thread.batch = []) :
      Mirrors thread ⟨thread.running, thread.drained, .popping false⟩
  | waiting (at_ : thread.point = .waiting) :
      Mirrors thread ⟨thread.running, thread.drained, .waiting⟩
  | inserting (at_ : thread.point = .inserting)
      (counted : thread.popped = thread.batch.length)
      (some : thread.batch ≠ []) :
      Mirrors thread ⟨thread.running, thread.drained,
        .inserting false thread.batch.length thread.batch⟩
  | inserted (at_ : thread.point = .counting)
      (counted : thread.popped = thread.batch.length)
      (rest : List DemotionItem) :
      Mirrors thread ⟨thread.running, thread.drained,
        .inserting false thread.batch.length rest⟩
  | finalPopping (at_ : thread.point = .finalPopping)
      (empty : thread.batch = []) :
      Mirrors thread ⟨thread.running, thread.drained, .popping true⟩
  | finalInserting (at_ : thread.point = .finalInserting)
      (some : thread.batch ≠ []) :
      Mirrors thread ⟨thread.running, thread.drained,
        .inserting true thread.batch.length thread.batch⟩
  | finalInserted (at_ : thread.point = .finalCounting)
      (rest : List DemotionItem) :
      Mirrors thread ⟨thread.running, thread.drained,
        .inserting true thread.batch.length rest⟩
  | returned (at_ : thread.point = .returned) :
      Mirrors thread ⟨thread.running, thread.drained, .returned⟩

namespace DrainThread

/-- What the thread has passed on and the drainer has not handed on yet. -/
def ahead (thread : DrainThread) (drainer : DemotionDrainer) :
    List DemotionItem :=
  match thread.point with
  | .counting | .finalCounting => drainer.pending
  | _ => []

theorem new_mirrors : new.Mirrors .new := .testing rfl

section Mirrors

variable {thread : DrainThread} {drainer : DemotionDrainer}

theorem Mirrors.pending_eq (mirrors : thread.Mirrors drainer) :
    drainer.pending = thread.ahead drainer ++ thread.pending := by
  rcases thread with ⟨running, drained, batch, popped, point⟩
  cases mirrors with
  | testing at_ | popping at_ | waiting at_ | inserting at_ | finalPopping at_
  | finalInserting at_ | returned at_ =>
      cases at_
      rfl
  | inserted at_ counted rest | finalInserted at_ rest =>
      cases at_
      exact (List.append_nil _).symm

theorem Mirrors.stop (mirrors : thread.Mirrors drainer) :
    thread.stop.Mirrors drainer.stop := by
  cases mirrors with
  | testing at_ => exact .testing at_
  | popping at_ empty => exact .popping at_ empty
  | waiting at_ => exact .waiting at_
  | inserting at_ counted some => exact .inserting at_ counted some
  | inserted at_ counted rest =>
      exact @Mirrors.inserted thread.stop at_ counted rest
  | finalPopping at_ empty => exact .finalPopping at_ empty
  | finalInserting at_ some => exact .finalInserting at_ some
  | finalInserted at_ rest =>
      exact @Mirrors.finalInserted thread.stop at_ rest
  | returned at_ => exact .returned at_

/-- A step of the drainer is a step of the thread, or leaves it and the queue as
they are. -/
theorem Mirrors.step (mirrors : thread.Mirrors drainer) (queue : DemotionQueue) :
    ∃ thread', thread'.Mirrors (drainer.step queue).2.1 ∧
      ((∃ passed,
          thread.step queue = (passed, thread', (drainer.step queue).2.2) ∧
          (drainer.step queue).1.toList ++
              thread'.ahead (drainer.step queue).2.1 =
            thread.ahead drainer ++ passed.getD []) ∨
        thread' = thread ∧ (drainer.step queue).2.2 = queue ∧
          (drainer.step queue).1.toList ++
              thread.ahead (drainer.step queue).2.1 = thread.ahead drainer) := by
  rcases thread with ⟨running, drained, batch, popped, point⟩
  cases mirrors with
  | testing at_ =>
      obtain rfl : point = .testing := at_
      cases running with
      | true =>
          exact ⟨⟨true, drained, [], popped, .popping⟩, .popping rfl rfl,
            .inl ⟨none, rfl, rfl⟩⟩
      | false =>
          exact ⟨⟨false, drained, [], popped, .finalPopping⟩,
            .finalPopping rfl rfl, .inl ⟨none, rfl, rfl⟩⟩
  | popping at_ empty =>
      obtain rfl : point = .popping := at_
      obtain rfl : batch = [] := empty
      rcases pop : queue.tryPopBatch 64 with ⟨items, queue'⟩
      simp only [DrainThread.step, DemotionDrainer.step, pop, List.nil_append]
      split
      · rename_i some
        exact ⟨⟨running, drained, items, items.length, .inserting⟩,
          .inserting rfl rfl (List.length_pos_iff.mp some),
          .inl ⟨none, rfl, rfl⟩⟩
      · exact ⟨⟨running, drained, items, items.length, .waiting⟩, .waiting rfl,
          .inl ⟨none, rfl, rfl⟩⟩
  | waiting at_ =>
      obtain rfl : point = .waiting := at_
      exact ⟨⟨running, drained, batch, popped, .testing⟩, .testing rfl,
        .inl ⟨none, rfl, rfl⟩⟩
  | inserting at_ counted nonempty =>
      obtain rfl : point = .inserting := at_
      cases batch with
      | nil => exact absurd rfl nonempty
      | cons item rest =>
          exact ⟨_, @Mirrors.inserted
            ⟨running, drained, item :: rest, popped, .counting⟩ rfl counted rest,
            .inl ⟨some (item :: rest), rfl, rfl⟩⟩
  | inserted at_ counted rest =>
      obtain rfl : point = .counting := at_
      obtain rfl : popped = batch.length := counted
      cases rest with
      | nil =>
          exact ⟨⟨running, drained + batch.length, batch, batch.length,
            .testing⟩, .testing rfl, .inl ⟨none, rfl, rfl⟩⟩
      | cons item rest =>
          exact ⟨_, @Mirrors.inserted
            ⟨running, drained, batch, batch.length, .counting⟩ rfl rfl rest,
            .inr ⟨rfl, rfl, rfl⟩⟩
  | finalPopping at_ empty =>
      obtain rfl : point = .finalPopping := at_
      obtain rfl : batch = [] := empty
      rcases pop : queue.tryPopBatch 64 with ⟨items, queue'⟩
      simp only [DrainThread.step, DemotionDrainer.step, pop, List.nil_append]
      split
      · rename_i some
        exact ⟨⟨running, drained, items, popped, .finalInserting⟩,
          .finalInserting rfl (List.length_pos_iff.mp some),
          .inl ⟨none, rfl, rfl⟩⟩
      · exact ⟨⟨running, drained, items, popped, .returned⟩, .returned rfl,
          .inl ⟨none, rfl, rfl⟩⟩
  | finalInserting at_ nonempty =>
      obtain rfl : point = .finalInserting := at_
      cases batch with
      | nil => exact absurd rfl nonempty
      | cons item rest =>
          exact ⟨_, @Mirrors.finalInserted
            ⟨running, drained, item :: rest, popped, .finalCounting⟩ rfl rest,
            .inl ⟨some (item :: rest), rfl, rfl⟩⟩
  | finalInserted at_ rest =>
      obtain rfl : point = .finalCounting := at_
      cases rest with
      | nil =>
          exact ⟨⟨running, drained + batch.length, [], popped, .finalPopping⟩,
            .finalPopping rfl rfl, .inl ⟨none, rfl, rfl⟩⟩
      | cons item rest =>
          exact ⟨_, @Mirrors.finalInserted
            ⟨running, drained, batch, popped, .finalCounting⟩ rfl rest,
            .inr ⟨rfl, rfl, rfl⟩⟩
  | returned at_ =>
      obtain rfl : point = .returned := at_
      exact ⟨_, .returned rfl, .inl ⟨none, rfl, rfl⟩⟩

end Mirrors

end DrainThread

structure DrainerPipeline where
  queue : DemotionQueue
  drainer : DemotionDrainer

namespace DrainerPipeline

open Pipeline (accepted passed accepted_append_append passed_append)

variable {Producer : Type}

def new (capacity : Nat) : DrainerPipeline where
  queue := .new capacity
  drainer := .new

/-- An item is passed on as a batch of its own. -/
def step : Machine DrainerPipeline (PipelineMove Producer) PipelineReply
  | pipeline, .push _ item =>
      some (.pushed (pipeline.queue.tryPush item).1,
        { pipeline with queue := (pipeline.queue.tryPush item).2 })
  | pipeline, .drain =>
      let (delivered, drainer, queue) := pipeline.drainer.step pipeline.queue
      some (.drained (delivered.map fun item => [item]), { queue, drainer })
  | pipeline, .stop =>
      some (.stopped, { pipeline with drainer := pipeline.drainer.stop })

structure Mirrored (items : DrainerPipeline) (pipeline : Pipeline) : Prop where
  queue : pipeline.queue = items.queue
  thread : pipeline.thread.Mirrors items.drainer

def ahead (items : DrainerPipeline) (pipeline : Pipeline) : List DemotionItem :=
  pipeline.thread.ahead items.drainer

/-- The same moves without some of the steps of the drainer, and what came of
them. -/
structure Follows (items : DrainerPipeline) (pipeline : Pipeline)
    (moves : List (PipelineMove Producer)) (replies : List PipelineReply)
    (last : DrainerPipeline) (moves' : List (PipelineMove Producer))
    (replies' : List PipelineReply) (last' : Pipeline) : Prop where
  ran : Pipeline.step.run moves' pipeline = some (replies', last')
  thinned : moves'.Sublist moves
  others : moves'.filter (!·.isDrain) = moves.filter (!·.isDrain)
  accepted : accepted moves' replies' = accepted moves replies
  mirrored : last.Mirrored last'
  passed : (passed replies).flatten ++ last.ahead last' =
    items.ahead pipeline ++ (passed replies').flatten

section Runs

variable {items : DrainerPipeline} {pipeline : Pipeline}

theorem passed_drained (batch : Option (List DemotionItem)) :
    (passed [.drained batch]).flatten = batch.getD [] := by
  cases batch <;> simp [passed]

theorem getD_single (delivered : Option DemotionItem) :
    (delivered.map fun item => [item]).getD [] = delivered.toList := by
  cases delivered <;> rfl

theorem Mirrored.step (mirrored : items.Mirrored pipeline)
    (move : PipelineMove Producer) :
    ∃ reply items', items.step move = some (reply, items') ∧
      ∃ moves' replies' pipeline', Follows items pipeline [move] [reply] items'
        moves' replies' pipeline' := by
  rcases items with ⟨queue, drainer⟩
  rcases pipeline with ⟨queue', thread⟩
  rcases mirrored with ⟨sameQueue, mirrors⟩
  obtain rfl : queue' = queue := sameQueue
  cases move with
  | push producer item =>
      exact ⟨_, _, rfl, [.push producer item], _, _, rfl, .refl _, rfl, rfl,
        ⟨rfl, mirrors⟩, (List.append_nil _).symm⟩
  | stop =>
      refine ⟨_, _, rfl, [.stop], _, _, rfl, .refl _, rfl, rfl,
        ⟨rfl, mirrors.stop⟩, (List.append_nil _).symm⟩
  | drain =>
      refine ⟨_, _, rfl, ?_⟩
      rcases mirrors.step queue' with
        ⟨thread', mirrors', ⟨passedOn, stepped, same⟩ | ⟨rfl, kept, same⟩⟩
      · refine ⟨[.drain], [.drained passedOn], ⟨_, thread'⟩, ?_, .refl _, rfl, rfl,
          ⟨rfl, mirrors'⟩, ?_⟩
        · rw [Machine.run, Pipeline.step, stepped]
          rfl
        · rw [passed_drained, passed_drained, getD_single]
          exact same
      · refine ⟨[], [], ⟨queue', _⟩, rfl, List.nil_sublist _, rfl, rfl,
          ⟨kept.symm, mirrors'⟩, ?_⟩
        rw [passed_drained, getD_single]
        exact same.trans (List.append_nil _).symm

theorem Follows.trans {middle last : DrainerPipeline}
    {middle' last' : Pipeline} {first second first' second' :
      List (PipelineMove Producer)}
    {replies later replies' later' : List PipelineReply}
    (length : replies.length = first.length)
    (follows : Follows items pipeline first replies middle first' replies'
      middle')
    (after : Follows middle middle' second later last second' later' last') :
    Follows items pipeline (first ++ second) (replies ++ later) last
      (first' ++ second') (replies' ++ later') last' where
  ran := Machine.run_append follows.ran after.ran
  thinned := follows.thinned.append after.thinned
  others := by
    rw [List.filter_append, List.filter_append, follows.others, after.others]
  accepted := by
    rw [accepted_append_append length,
      accepted_append_append (Machine.run_length follows.ran),
      follows.accepted, after.accepted]
  mirrored := after.mirrored
  passed := by
    rw [passed_append, passed_append, List.flatten_append, List.flatten_append,
      List.append_assoc, after.passed, ← List.append_assoc, follows.passed,
      List.append_assoc]

theorem Mirrored.run (mirrored : items.Mirrored pipeline)
    (moves : List (PipelineMove Producer)) :
    ∃ replies last, DrainerPipeline.step.run moves items =
        some (replies, last) ∧
      ∃ moves' replies' last', Follows items pipeline moves replies last moves'
        replies' last' := by
  induction moves generalizing items pipeline with
  | nil =>
      exact ⟨[], items, rfl, [], [], pipeline, rfl, .refl _, rfl, rfl, mirrored,
        (List.append_nil _).symm⟩
  | cons move rest induction =>
      rcases mirrored.step move with
        ⟨reply, middle, stepped, first, replies, middle', follows⟩
      rcases induction follows.mirrored with
        ⟨later, last, ran, second, later', last', after⟩
      exact ⟨reply :: later, last, Machine.run_cons stepped ran, _, _, last',
        follows.trans rfl after⟩

/-- The drainer that hands on one item at a time is the thread with its batches:
some of its steps are steps of the thread, and the others leave the thread where
it is. What was handed on, then the rest of the batch, then the queue, is the
sequence of the accepted items. -/
theorem refines_batches {capacity : Nat} (fits : capacity < uint32Size)
    (moves : List (PipelineMove Producer)) :
    ∃ replies last, step.run moves (new capacity) = some (replies, last) ∧
      (passed replies).flatten ++ last.drainer.pending ++ last.queue.items =
        accepted moves replies ∧
      ∃ moves' replies' last',
        Pipeline.step.run moves' (.new capacity) = some (replies', last') ∧
        moves'.Sublist moves ∧
        moves'.filter (!·.isDrain) = moves.filter (!·.isDrain) ∧
        accepted moves' replies' = accepted moves replies ∧
        last'.queue = last.queue ∧ last'.thread.Mirrors last.drainer ∧
        (passed replies).flatten ++ last.drainer.pending =
          (passed replies').flatten ++ last'.thread.pending := by
  have start : (new capacity).Mirrored (.new capacity) :=
    ⟨rfl, DrainThread.new_mirrors⟩
  rcases start.run moves with
    ⟨replies, last, ran, moves', replies', last', follows⟩
  have handed : (passed replies).flatten ++ last.drainer.pending =
      (passed replies').flatten ++ last'.thread.pending := by
    rw [follows.mirrored.thread.pending_eq, ← List.append_assoc]
    exact congrArg (· ++ _) follows.passed
  rcases (Pipeline.new_sound fits).run moves' with ⟨_, _, ran', delivered⟩
  cases follows.ran.symm.trans ran'
  have waiting := delivered.waiting
  rw [Pipeline.new_waiting, List.nil_append, follows.accepted,
    Pipeline.waiting, follows.mirrored.queue, ← List.append_assoc,
    ← handed] at waiting
  exact ⟨replies, last, ran, waiting.symm, moves', replies', last', follows.ran,
    follows.thinned, follows.others, follows.accepted, follows.mirrored.queue,
    follows.mirrored.thread, handed⟩

/-- A batch of two is handed on in two steps, where the thread makes one. -/
def twoItems : List (PipelineMove Unit) :=
  [.push () ⟨"k", "1", 0⟩, .push () ⟨"w", "1", 0⟩, .drain, .drain, .drain, .drain]

theorem refines_batches_sample :
    ∃ replies last, step.run twoItems (new 4) = some (replies, last) ∧
      (passed replies).flatten ++ last.drainer.pending ++ last.queue.items =
        accepted twoItems replies ∧
      ∃ moves' replies' last',
        Pipeline.step.run moves' (.new 4) = some (replies', last') ∧
        moves'.Sublist twoItems ∧
        moves'.filter (!·.isDrain) = twoItems.filter (!·.isDrain) ∧
        accepted moves' replies' = accepted twoItems replies ∧
        last'.queue = last.queue ∧ last'.thread.Mirrors last.drainer ∧
        (passed replies).flatten ++ last.drainer.pending =
          (passed replies').flatten ++ last'.thread.pending :=
  refines_batches (by decide) twoItems

end Runs

end DrainerPipeline

end Walde
