import Walde.CacheStripe
import Walde.DemotionQueue
import Walde.Foundation.BoundedFifo

namespace Walde

open Foundation

/-! # The demotion queue is a bounded first-in first-out list -/

namespace DemotionQueue

def step : Machine DemotionQueue (BoundedFifo.Call DemotionItem)
    (BoundedFifo.Reply DemotionItem)
  | queue, .push item =>
      some (.pushed (queue.tryPush item).1, (queue.tryPush item).2)
  | queue, .pop => some (.popped queue.tryPop.1, queue.tryPop.2)
  | queue, .popBatch maxCount =>
      some (.batch (queue.tryPopBatch maxCount).1,
        (queue.tryPopBatch maxCount).2)

/-- The list that a queue stands for, wherever its positions are. -/
structure Shows (queue : DemotionQueue) (fifo : BoundedFifo DemotionItem) :
    Prop where
  sound : queue.Sound
  limit : queue.pressureLimit = fifo.limit
  items : queue.items = fifo.items
  drops : queue.drops = fifo.drops

section Shows

variable {queue : DemotionQueue} {fifo : BoundedFifo DemotionItem}

theorem tryPush_capacity (queue : DemotionQueue) (item : DemotionItem) :
    (queue.tryPush item).2.capacity = queue.capacity := by
  unfold tryPush
  split
  · rfl
  · split <;> rfl

theorem tryPop_capacity (queue : DemotionQueue) :
    queue.tryPop.2.capacity = queue.capacity := by
  unfold tryPop
  split <;> rfl

theorem tryPopBatch_capacity (queue : DemotionQueue) (maxCount : Nat) :
    (queue.tryPopBatch maxCount).2.capacity = queue.capacity := by
  unfold tryPopBatch
  simp only
  split <;> rfl

theorem pressureLimit_congr {queue' : DemotionQueue}
    (capacity : queue'.capacity = queue.capacity) :
    queue'.pressureLimit = queue.pressureLimit := by
  rw [pressureLimit, capacity]
  rfl

theorem Shows.push (shows' : queue.Shows fifo) (item : DemotionItem) :
    (queue.tryPush item).1 = (fifo.push item).1 ∧
      (queue.tryPush item).2.Shows (fifo.push item).2 := by
  rcases shows'.sound.tryPush item with ⟨sound, outcome⟩
  have limit := (pressureLimit_congr (queue.tryPush_capacity item)).trans
    shows'.limit
  rw [shows'.items, shows'.limit] at outcome
  unfold BoundedFifo.push
  split
  · rename_i room
    rw [if_pos room] at outcome
    rcases outcome with ⟨accepted, items, drops⟩
    exact ⟨accepted, sound, limit, items, drops.trans shows'.drops⟩
  · rename_i full
    rw [if_neg full] at outcome
    rcases outcome with ⟨refused, items, drops⟩
    exact ⟨refused, sound, limit, items, drops.trans (by rw [shows'.drops])⟩

theorem Shows.pop (shows' : queue.Shows fifo) :
    queue.tryPop.1 = fifo.pop.1 ∧ queue.tryPop.2.Shows fifo.pop.2 := by
  rcases shows'.sound.tryPop with ⟨sound, found, items, drops⟩
  rw [shows'.items] at found items
  exact ⟨found, sound, (pressureLimit_congr queue.tryPop_capacity).trans
    shows'.limit, items, drops.trans shows'.drops⟩

theorem Shows.popBatch (shows' : queue.Shows fifo) (maxCount : Nat) :
    (queue.tryPopBatch maxCount).1 = (fifo.popBatch maxCount).1 ∧
      (queue.tryPopBatch maxCount).2.Shows (fifo.popBatch maxCount).2 := by
  rcases shows'.sound.tryPopBatch maxCount with ⟨sound, batch, items, drops⟩
  rw [shows'.items] at batch items
  exact ⟨batch, sound, (pressureLimit_congr
    (queue.tryPopBatch_capacity maxCount)).trans shows'.limit, items,
    drops.trans shows'.drops⟩

theorem Shows.step (shows' : queue.Shows fifo)
    (call : BoundedFifo.Call DemotionItem) :
    ∃ reply queue' fifo', queue.step call = some (reply, queue') ∧
      fifo.step call = some (reply, fifo') ∧ queue'.Shows fifo' ∧
      queue'.capacity = queue.capacity := by
  cases call with
  | push item =>
      rcases shows'.push item with ⟨same, shows'⟩
      exact ⟨.pushed (queue.tryPush item).1, (queue.tryPush item).2, _, rfl,
        by rw [same]; rfl, shows', queue.tryPush_capacity item⟩
  | pop =>
      rcases shows'.pop with ⟨same, shows'⟩
      exact ⟨.popped queue.tryPop.1, queue.tryPop.2, _, rfl,
        by rw [same]; rfl, shows', queue.tryPop_capacity⟩
  | popBatch maxCount =>
      rcases shows'.popBatch maxCount with ⟨same, shows'⟩
      exact ⟨.batch (queue.tryPopBatch maxCount).1,
        (queue.tryPopBatch maxCount).2, _, rfl, by rw [same]; rfl, shows',
        queue.tryPopBatch_capacity maxCount⟩

/-- The queue makes the runs of the list, from any positions on. -/
theorem Shows.run (shows' : queue.Shows fifo)
    (calls : List (BoundedFifo.Call DemotionItem)) :
    ∃ replies last fifo', DemotionQueue.step.run calls queue =
        some (replies, last) ∧
      BoundedFifo.step.run calls fifo = some (replies, fifo') ∧
      last.Shows fifo' ∧ last.capacity = queue.capacity := by
  let Rel (queue' : DemotionQueue) (fifo' : BoundedFifo DemotionItem) : Prop :=
    queue'.Shows fifo' ∧ queue'.capacity = queue.capacity
  have step : ∀ queue' fifo' call, Rel queue' fifo' →
      ∃ reply after after', DemotionQueue.step queue' call =
          some (reply, after) ∧
        BoundedFifo.step fifo' call = some (reply, after') ∧
        Rel after after' := by
    intro queue' fifo' call related
    rcases related.1.step call with
      ⟨reply, after, after', stepped, stepped', shows', capacity⟩
    exact ⟨reply, after, after', stepped, stepped', shows',
      capacity.trans related.2⟩
  exact Machine.run_simulates step ⟨shows', rfl⟩ calls

end Shows

/-! ## The capacity -/

theorem nextPowerOf2_of_le {requested : Nat} (some : 1 ≤ requested)
    (small : requested ≤ 2 ^ 31) :
    requested ≤ nextPowerOf2 requested ∧
      ∃ exponent < 32, nextPowerOf2 requested = 2 ^ exponent := by
  have bits : (requested - 1).size ≤ 31 := Nat.size_le.mpr (by omega)
  have below : requested - 1 < 2 ^ (requested - 1).size :=
    Nat.lt_size_self (requested - 1)
  have fits : 2 ^ (requested - 1).size < uint32Size :=
    Nat.pow_lt_pow_right (n := 32) (by decide) (by omega)
  have rounded : nextPowerOf2 requested = 2 ^ (requested - 1).size := by
    rw [nextPowerOf2, if_neg (by omega), RingBuffer.smear_add_one (by omega),
      Nat.mod_eq_of_lt fits]
  exact ⟨by omega, _, by omega, rounded⟩

/-- `0.80f` -/
def pressureThreshold : Percentage := .ofBinary32 13421773 24

/-- The product of a power of two and the threshold is not rounded. -/
theorem pressureThreshold_scale {exponent : Nat} (small : exponent < 32) :
    pressureThreshold.scale (2 ^ exponent) =
      2 ^ exponent * 13421773 / 2 ^ 24 := by
  have exact : ∀ exponent < 32, pressureThreshold.scale (2 ^ exponent) =
      2 ^ exponent * 13421773 / 2 ^ 24 := by decide
  exact exact exponent small

/-! ## Runs -/

/-- From any request up to `2 ^ 31`, the queue makes the runs of the bounded
list. Its limit, what the product with `0.80f` gives, is at most its capacity,
and no push ever finds the buffer full. The runs may be of any length, past the
wrap of the positions too. -/
theorem run_refines_fifo {requested : Nat} (positive : 1 ≤ requested)
    (small : requested ≤ 2 ^ 31)
    (calls : List (BoundedFifo.Call DemotionItem)) :
    ∃ replies last fifo,
      step.run calls (new requested) = some (replies, last) ∧
      BoundedFifo.step.run calls
          (.empty (nextPowerOf2 requested * 13421773 / 2 ^ 24)) =
        some (replies, fifo) ∧
      last.items = fifo.items ∧ last.drops = fifo.drops ∧
      last.size = fifo.items.length ∧
      fifo.items.length ≤ nextPowerOf2 requested * 13421773 / 2 ^ 24 ∧
      nextPowerOf2 requested * 13421773 / 2 ^ 24 ≤ last.capacity ∧
      last.unlockedSize < last.capacity ∧
      pressureThreshold.scale last.capacity =
        nextPowerOf2 requested * 13421773 / 2 ^ 24 := by
  have fits : requested < uint32Size := by
    simp only [uint32Size]
    omega
  have start : (new requested).Shows
      (.empty (nextPowerOf2 requested * 13421773 / 2 ^ 24)) :=
    ⟨new_sound fits, rfl, new_items requested, rfl⟩
  rcases start.run calls with
    ⟨replies, last, fifo, ran, ran', shows', capacity⟩
  have rounds : (new requested).capacity = nextPowerOf2 requested := rfl
  rcases nextPowerOf2_of_le positive small with ⟨above, exponent, low, power⟩
  have some : 0 < last.capacity := by
    rw [capacity, rounds]
    exact positive.trans above
  have limit : last.pressureLimit =
      nextPowerOf2 requested * 13421773 / 2 ^ 24 := by
    rw [pressureLimit, capacity, rounds]
  have below := last.pressureLimit_lt some
  have within := shows'.sound.within
  refine ⟨replies, last, fifo, ran, ran', shows'.items, shows'.drops, ?_, ?_, ?_,
    within.trans_lt below, ?_⟩
  · rw [shows'.sound.size_eq, shows'.items]
  · rw [← shows'.items, items_length, ← limit]
    exact within
  · rw [← limit]
    exact below.le
  · rw [capacity, rounds, power]
    exact pressureThreshold_scale low

/-- One item goes through a queue of four. -/
theorem run_refines_fifo_sample :
    ∃ replies last fifo,
      step.run [.push ⟨"k", "1", 0⟩, .popBatch 64, .pop] (new 4) =
        some (replies, last) ∧
      BoundedFifo.step.run [.push ⟨"k", "1", 0⟩, .popBatch 64, .pop]
          (.empty (nextPowerOf2 4 * 13421773 / 2 ^ 24)) =
        some (replies, fifo) ∧
      last.items = fifo.items ∧ last.drops = fifo.drops ∧
      last.size = fifo.items.length ∧
      fifo.items.length ≤ nextPowerOf2 4 * 13421773 / 2 ^ 24 ∧
      nextPowerOf2 4 * 13421773 / 2 ^ 24 ≤ last.capacity ∧
      last.unlockedSize < last.capacity ∧
      pressureThreshold.scale last.capacity =
        nextPowerOf2 4 * 13421773 / 2 ^ 24 :=
  run_refines_fifo (by decide) (by decide)
    [.push ⟨"k", "1", 0⟩, .popBatch 64, .pop]

end DemotionQueue

end Walde
