import Walde.Foundation.RingBuffer
import Walde.Types

namespace Walde

open Foundation

/-! # The demotion queue

A ring buffer under a mutex. Every call is one atomic step. -/

structure DemotionQueue where
  capacity : Nat
  buffer : Nat → DemotionItem
  writePos : Nat
  readPos : Nat
  drops : Nat

namespace DemotionQueue

/-- In 32 bits, so a request of more than `2 ^ 31` gives zero. -/
def nextPowerOf2 (value : Nat) : Nat :=
  if value = 0 then 1 else (RingBuffer.smear (value - 1) + 1) % uint32Size

def new (capacity : Nat) : DemotionQueue where
  capacity := nextPowerOf2 capacity
  buffer := fun _ => ⟨"", "", 0⟩
  writePos := 0
  readPos := 0
  drops := 0

def mask (queue : DemotionQueue) : Nat :=
  (queue.capacity + (uint32Size - 1)) % uint32Size

def slot (queue : DemotionQueue) (position : Nat) : Nat :=
  position % uint64Size &&& queue.mask

def unlockedSize (queue : DemotionQueue) : Nat :=
  (queue.writePos + (uint64Size - queue.readPos)) % uint64Size

/-- `capacity_ * 0.80f`; the product is exact, since the capacity is a power
of two. -/
def pressureLimit (queue : DemotionQueue) : Nat :=
  queue.capacity * 13421773 / 2 ^ 24

def size (queue : DemotionQueue) : Nat := queue.unlockedSize % uint32Size

def drop (queue : DemotionQueue) : DemotionQueue :=
  { queue with drops := queue.drops + 1 }

def tryPush (queue : DemotionQueue) (item : DemotionItem) :
    Bool × DemotionQueue :=
  if queue.pressureLimit ≤ queue.unlockedSize then (false, queue.drop)
  else if queue.capacity ≤ queue.unlockedSize then (false, queue.drop)
  else (true, { queue with
    buffer := Function.update queue.buffer (queue.slot queue.writePos) item
    writePos := (queue.writePos + 1) % uint64Size })

def tryPop (queue : DemotionQueue) : Option DemotionItem × DemotionQueue :=
  if queue.readPos = queue.writePos then (none, queue)
  else (some (queue.buffer (queue.slot queue.readPos)),
    { queue with readPos := (queue.readPos + 1) % uint64Size })

def tryPopBatch (queue : DemotionQueue) (maxCount : Nat) :
    List DemotionItem × DemotionQueue :=
  let available := queue.unlockedSize
  if available = 0 then ([], queue)
  else
    let toPop := min maxCount available
    ((List.range toPop).map fun i =>
        queue.buffer (queue.slot (queue.readPos + i)),
      { queue with readPos := (queue.readPos + toPop) % uint64Size })

def items (queue : DemotionQueue) : List DemotionItem :=
  (List.range queue.unlockedSize).map fun i =>
    queue.buffer (queue.slot (queue.readPos + i))

/-! ## The queue is a bounded list -/

/-- The capacity is a power of two, or zero for a request that is too large;
the positions are `uint64_t` and at most the limit apart. -/
structure Sound (queue : DemotionQueue) : Prop where
  capacity : queue.capacity = 0 ∨ ∃ exponent < 32, queue.capacity = 2 ^ exponent
  readPos : queue.readPos < uint64Size
  writePos : queue.writePos < uint64Size
  within : queue.unlockedSize ≤ queue.pressureLimit

theorem nextPowerOf2_shape (value : Nat) (fits : value < uint32Size) :
    nextPowerOf2 value = 0 ∨ ∃ exponent < 32, nextPowerOf2 value = 2 ^ exponent := by
  unfold nextPowerOf2
  split
  · exact .inr ⟨0, by decide, rfl⟩
  · have small : value - 1 < 2 ^ 32 := by
      simp only [uint32Size] at fits
      omega
    rw [RingBuffer.smear_add_one small]
    have bits : (value - 1).size ≤ 32 := Nat.size_le.mpr small
    rcases Nat.lt_or_eq_of_le bits with low | top
    · refine .inr ⟨_, low, Nat.mod_eq_of_lt ?_⟩
      exact Nat.pow_lt_pow_right (by decide) low
    · rw [top]
      exact .inl rfl

@[simp] theorem new_unlockedSize (capacity : Nat) :
    (new capacity).unlockedSize = 0 := by
  simp [unlockedSize, new, uint64Size]

theorem new_sound {capacity : Nat} (fits : capacity < uint32Size) :
    (new capacity).Sound where
  capacity := nextPowerOf2_shape capacity fits
  readPos := by simp [new, uint64Size]
  writePos := by simp [new, uint64Size]
  within := by simp

@[simp] theorem new_items (capacity : Nat) : (new capacity).items = [] := by
  simp [items]

section Sound

variable {queue : DemotionQueue}

theorem pressureLimit_lt (queue : DemotionQueue) (some : 0 < queue.capacity) :
    queue.pressureLimit < queue.capacity := by
  unfold pressureLimit
  omega

theorem Sound.slot_eq (sound : queue.Sound) (some : 0 < queue.capacity)
    (position : Nat) : queue.slot position = position % queue.capacity := by
  rcases sound.capacity with none | ⟨exponent, small, capacity⟩
  · omega
  · have below : 2 ^ exponent ≤ 2 ^ 31 :=
      Nat.pow_le_pow_right (by decide) (by omega)
    have mask : queue.mask = 2 ^ exponent - 1 := by
      have positive := Nat.one_le_two_pow (n := exponent)
      simp only [DemotionQueue.mask, capacity, uint32Size]
      omega
    have divides : 2 ^ exponent ∣ uint64Size :=
      Nat.pow_dvd_pow 2 (n := 64) (by omega)
    rw [slot, mask, Nat.and_two_pow_sub_one_eq_mod,
      Nat.mod_mod_of_dvd _ divides, capacity]

theorem Sound.divides (sound : queue.Sound) (some : 0 < queue.capacity) :
    queue.capacity ∣ uint64Size := by
  rcases sound.capacity with none | ⟨exponent, small, capacity⟩
  · omega
  · rw [capacity]
    exact Nat.pow_dvd_pow 2 (n := 64) (by omega)

theorem Sound.items_eq (sound : queue.Sound) (some : 0 < queue.capacity) :
    queue.items = RingBuffer.contents queue.buffer queue.capacity queue.readPos
      queue.unlockedSize := by
  unfold items RingBuffer.contents
  simp only [sound.slot_eq some]

@[simp] theorem items_length : queue.items.length = queue.unlockedSize := by
  simp [items]

theorem Sound.writePos_eq (sound : queue.Sound) :
    queue.writePos = (queue.readPos + queue.unlockedSize) % uint64Size := by
  have read := sound.readPos
  have write := sound.writePos
  simp only [unlockedSize, uint64Size] at *
  omega

theorem Sound.push_size (sound : queue.Sound)
    (room : queue.unlockedSize < queue.pressureLimit)
    (buffer : Nat → DemotionItem) :
    unlockedSize { queue with
      buffer
      writePos := (queue.writePos + 1) % uint64Size } =
        queue.unlockedSize + 1 := by
  have read := sound.readPos
  have write := sound.writePos
  have limit : queue.pressureLimit < uint32Size := by
    rcases sound.capacity with none | ⟨exponent, small, capacity⟩
    · simp [pressureLimit, none, uint32Size]
    · have below : 2 ^ exponent < 2 ^ 32 :=
        Nat.pow_lt_pow_right (by decide) small
      have less := queue.pressureLimit_lt (by
        rw [capacity]
        exact Nat.two_pow_pos _)
      rw [capacity] at less
      simp only [uint32Size]
      omega
  simp only [unlockedSize, uint64Size, uint32Size] at *
  omega

/-- A push appends, unless the queue is at its limit. -/
theorem Sound.tryPush (sound : queue.Sound) (item : DemotionItem) :
    (queue.tryPush item).2.Sound ∧
    if queue.items.length < queue.pressureLimit then
      (queue.tryPush item).1 = true ∧
        (queue.tryPush item).2.items = queue.items ++ [item] ∧
        (queue.tryPush item).2.drops = queue.drops
    else
      (queue.tryPush item).1 = false ∧
        (queue.tryPush item).2.items = queue.items ∧
        (queue.tryPush item).2.drops = queue.drops + 1 := by
  rw [items_length]
  by_cases room : queue.unlockedSize < queue.pressureLimit
  · have some : 0 < queue.capacity := by
      by_contra none
      simp [pressureLimit, Nat.eq_zero_of_not_pos none] at room
    have fits := room.trans (queue.pressureLimit_lt some)
    have pushed : queue.tryPush item = (true, { queue with
        buffer := Function.update queue.buffer (queue.slot queue.writePos) item
        writePos := (queue.writePos + 1) % uint64Size }) := by
      rw [DemotionQueue.tryPush, if_neg (Nat.not_le_of_lt room),
        if_neg (Nat.not_le_of_lt fits)]
    have size := sound.push_size room
      (Function.update queue.buffer (queue.slot queue.writePos) item)
    rw [if_pos room, pushed]
    have sound' : Sound { queue with
        buffer := Function.update queue.buffer (queue.slot queue.writePos) item
        writePos := (queue.writePos + 1) % uint64Size } :=
      ⟨sound.capacity, sound.readPos, Nat.mod_lt _ (by decide),
        size.trans_le room⟩
    refine ⟨sound', rfl, ?_, rfl⟩
    rw [sound'.items_eq some, size, sound.items_eq some]
    have position : queue.slot queue.writePos =
        (queue.readPos + queue.unlockedSize) % queue.capacity := by
      rw [sound.slot_eq some, sound.writePos_eq,
        Nat.mod_mod_of_dvd _ (sound.divides some)]
    rw [position]
    exact RingBuffer.contents_push fits item
  · have refused : queue.tryPush item = (false, queue.drop) := by
      rw [DemotionQueue.tryPush, if_pos (Nat.le_of_not_lt room)]
    rw [if_neg room, refused]
    exact ⟨⟨sound.capacity, sound.readPos, sound.writePos, sound.within⟩,
      rfl, rfl, rfl⟩

theorem Sound.tryPush_all (sound : queue.Sound) (offered : List DemotionItem) :
    (offered.foldl (fun queue item => (queue.tryPush item).2) queue).Sound ∧
      ∃ accepted : List DemotionItem, accepted.Sublist offered ∧
        (offered.foldl (fun queue item => (queue.tryPush item).2) queue).items =
          queue.items ++ accepted := by
  induction offered generalizing queue with
  | nil => exact ⟨sound, [], .refl [], (List.append_nil _).symm⟩
  | cons item rest induction =>
      rcases sound.tryPush item with ⟨sound', outcome⟩
      rcases induction sound' with ⟨final, accepted, sublist, items⟩
      split at outcome
      · exact ⟨final, item :: accepted, sublist.cons_cons item, by
          rw [List.foldl_cons, items, outcome.2.1, List.append_assoc,
            List.singleton_append]⟩
      · exact ⟨final, accepted, sublist.cons item, by
          rw [List.foldl_cons, items, outcome.2.1]⟩

theorem Sound.tryPush_all_drops (sound : queue.Sound)
    (offered : List DemotionItem) :
    (offered.foldl (fun queue item => (queue.tryPush item).2) queue).drops +
        (offered.foldl (fun queue item =>
          (queue.tryPush item).2) queue).items.length =
      queue.drops + queue.items.length + offered.length := by
  induction offered generalizing queue with
  | nil => rfl
  | cons item rest induction =>
      rcases sound.tryPush item with ⟨sound', outcome⟩
      rw [List.foldl_cons, induction sound', List.length_cons]
      split at outcome
      · rw [outcome.2.1, outcome.2.2, List.length_append, List.length_singleton]
        omega
      · rw [outcome.2.1, outcome.2.2]
        omega

theorem Sound.pop_size (sound : queue.Sound) {toPop : Nat}
    (within : toPop ≤ queue.unlockedSize) :
    unlockedSize { queue with
      readPos := (queue.readPos + toPop) % uint64Size } =
        queue.unlockedSize - toPop := by
  have read := sound.readPos
  have write := sound.writePos
  simp only [unlockedSize, uint64Size] at *
  omega

theorem Sound.tryPopBatch (sound : queue.Sound) (maxCount : Nat) :
    (queue.tryPopBatch maxCount).2.Sound ∧
      (queue.tryPopBatch maxCount).1 = queue.items.take maxCount ∧
      (queue.tryPopBatch maxCount).2.items = queue.items.drop maxCount ∧
      (queue.tryPopBatch maxCount).2.drops = queue.drops := by
  by_cases nothing : queue.unlockedSize = 0
  · have empty : queue.items = [] := by
      rw [← List.length_eq_zero_iff, items_length, nothing]
    rw [DemotionQueue.tryPopBatch, if_pos nothing, empty]
    simp [sound]
  · have some : 0 < queue.capacity := by
      have within := sound.within
      by_contra none
      simp [pressureLimit, Nat.eq_zero_of_not_pos none] at within
      exact nothing within
    have toPop : min maxCount queue.unlockedSize ≤ queue.unlockedSize :=
      Nat.min_le_right _ _
    have popped : queue.tryPopBatch maxCount =
        ((List.range (min maxCount queue.unlockedSize)).map fun i =>
            queue.buffer (queue.slot (queue.readPos + i)),
          { queue with readPos :=
              (queue.readPos + min maxCount queue.unlockedSize) %
                uint64Size }) := by
      rw [DemotionQueue.tryPopBatch, if_neg nothing]
    have size := sound.pop_size toPop
    have sound' : Sound { queue with readPos :=
        (queue.readPos + min maxCount queue.unlockedSize) % uint64Size } :=
      ⟨sound.capacity, Nat.mod_lt _ (by decide), sound.writePos,
        size.trans_le ((Nat.sub_le _ _).trans sound.within)⟩
    rw [popped]
    refine ⟨sound', ?_, ?_, rfl⟩
    · simp only [sound.slot_eq some]
      rw [sound.items_eq some, List.take_eq_take_min, RingBuffer.contents_length,
        ← RingBuffer.contents_take toPop]
      rfl
    · rw [sound'.items_eq some, size, sound.items_eq some,
        RingBuffer.contents_mod (sound.divides some), RingBuffer.contents_drop,
        List.drop_eq_drop_min (i := maxCount), RingBuffer.contents_length]

theorem Sound.tryPop_eq (sound : queue.Sound) :
    queue.tryPop = ((queue.tryPopBatch 1).1.head?, (queue.tryPopBatch 1).2) := by
  have read := sound.readPos
  have write := sound.writePos
  have empty : queue.readPos = queue.writePos ↔ queue.unlockedSize = 0 := by
    simp only [unlockedSize, uint64Size] at *
    omega
  by_cases nothing : queue.unlockedSize = 0
  · rw [DemotionQueue.tryPop, if_pos (empty.mpr nothing),
      DemotionQueue.tryPopBatch, if_pos nothing]
    rfl
  · have one : min 1 queue.unlockedSize = 1 := by omega
    rw [DemotionQueue.tryPop, if_neg (mt empty.mp nothing),
      DemotionQueue.tryPopBatch, if_neg nothing, one]
    rfl

theorem Sound.tryPop (sound : queue.Sound) :
    queue.tryPop.2.Sound ∧ queue.tryPop.1 = queue.items.head? ∧
      queue.tryPop.2.items = queue.items.tail ∧
      queue.tryPop.2.drops = queue.drops := by
  rcases sound.tryPopBatch 1 with ⟨sound', batch, items, drops⟩
  rw [sound.tryPop_eq]
  refine ⟨sound', ?_, ?_, drops⟩
  · change (queue.tryPopBatch 1).1.head? = _
    rw [batch]
    cases queue.items <;> rfl
  · exact items.trans List.drop_one

theorem Sound.size_eq (sound : queue.Sound) :
    queue.size = queue.items.length := by
  rw [size, items_length]
  apply Nat.mod_eq_of_lt
  have within := sound.within
  rcases sound.capacity with none | ⟨exponent, small, capacity⟩
  · simp [pressureLimit, none] at within
    simp [within, uint32Size]
  · have below : 2 ^ exponent < 2 ^ 32 :=
      Nat.pow_lt_pow_right (by decide) small
    simp only [pressureLimit, capacity, uint32Size] at *
    omega

end Sound

end DemotionQueue

end Walde
