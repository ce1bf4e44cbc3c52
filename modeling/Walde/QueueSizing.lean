import Walde.QueueRefinement

namespace Walde

open Foundation

namespace DemotionQueue

/-! # The size of the demotion queue -/

/-- The constructor gives `buffer_` this many elements, and nothing resizes it. -/
def bufferSize (queue : DemotionQueue) : Nat := queue.capacity

/-- What a request is meant to lead to: the least power of two that is large
enough, and a mask that takes every position into the buffer. -/
structure Sized (requested : Nat) : Prop where
  power : ∃ exponent, nextPowerOf2 requested = 2 ^ exponent
  enough : max requested 1 ≤ nextPowerOf2 requested
  least : ∀ exponent, max requested 1 ≤ 2 ^ exponent →
    nextPowerOf2 requested ≤ 2 ^ exponent
  capacity : requested ≤ (new requested).capacity
  nonempty : 0 < (new requested).bufferSize
  mask : (new requested).mask + 1 = (new requested).capacity
  inside : ∀ position < uint64Size,
    (new requested).slot position < (new requested).bufferSize

theorem nextPowerOf2_least {requested : Nat} (small : requested ≤ 2 ^ 31)
    {exponent : Nat} (large : max requested 1 ≤ 2 ^ exponent) :
    nextPowerOf2 requested ≤ 2 ^ exponent := by
  rw [nextPowerOf2]
  split
  · exact Nat.one_le_two_pow
  · rename_i nonzero
    have below : requested - 1 < 2 ^ exponent := by omega
    have bits : (requested - 1).size ≤ exponent := Nat.size_le.mpr below
    rw [RingBuffer.smear_add_one (by omega)]
    calc 2 ^ (requested - 1).size % uint32Size
        ≤ 2 ^ (requested - 1).size := Nat.mod_le _ _
      _ ≤ 2 ^ exponent := Nat.pow_le_pow_right (by decide) bits

theorem nextPowerOf2_of_gt {requested : Nat} (large : 2 ^ 31 < requested)
    (fits : requested < uint32Size) : nextPowerOf2 requested = 0 := by
  have word : uint32Size = 2 ^ 32 := rfl
  have bits : (requested - 1).size = 32 := by
    apply Nat.le_antisymm
    · exact Nat.size_le.mpr (by omega)
    · exact Nat.lt_size.mpr (by omega)
  rw [nextPowerOf2, if_neg (by omega), RingBuffer.smear_add_one (by omega), bits,
    ← word, Nat.mod_self]

theorem sized_of_le {requested : Nat} (small : requested ≤ 2 ^ 31) :
    Sized requested := by
  have shape : max requested 1 ≤ nextPowerOf2 requested ∧
      ∃ exponent < 32, nextPowerOf2 requested = 2 ^ exponent := by
    rcases Nat.eq_zero_or_pos requested with rfl | positive
    · exact ⟨Nat.le_refl _, 0, by decide, rfl⟩
    · rcases nextPowerOf2_of_le positive small with ⟨above, power⟩
      exact ⟨Nat.max_le.mpr ⟨above, positive.trans_le above⟩, power⟩
  rcases shape with ⟨enough, exponent, low, power⟩
  have fits : requested < uint32Size := Nat.lt_of_le_of_lt small (by decide)
  have capacity : (new requested).capacity = nextPowerOf2 requested := rfl
  have nonempty : 0 < (new requested).capacity := by
    rw [capacity]
    exact (Nat.le_max_right requested 1).trans enough
  have word : 2 ^ exponent < uint32Size :=
    Nat.pow_lt_pow_right (n := 32) (by decide) low
  refine ⟨⟨exponent, power⟩, enough, fun _ => nextPowerOf2_least small,
    (Nat.le_max_left requested 1).trans enough, nonempty, ?_, ?_⟩
  · rw [capacity, power] at nonempty
    rw [mask, capacity, power]
    simp only [uint32Size] at word ⊢
    omega
  · intro position _
    rw [(new_sound fits).slot_eq nonempty, bufferSize]
    exact Nat.mod_lt _ nonempty

/-- A request is rounded up as it is meant to be, and the buffer is indexed
within its bounds, exactly when the request is at most `2 ^ 31`. -/
theorem sized_iff {requested : Nat} (fits : requested < uint32Size) :
    Sized requested ↔ requested ≤ 2 ^ 31 := by
  refine ⟨fun sized => ?_, sized_of_le⟩
  by_contra large
  have overflowed := nextPowerOf2_of_gt (Nat.lt_of_not_le large) fits
  have enough := sized.enough
  rw [overflowed] at enough
  omega

theorem sized_iff_sample : Sized 17 ↔ 17 ≤ 2 ^ 31 := sized_iff (by decide)

/-- The queue for one more has no buffer, and a mask with every bit set. -/
theorem largeRequest_unsized :
    ¬Sized (2 ^ 31 + 1) ∧ (new (2 ^ 31 + 1)).bufferSize = 0 ∧
      (new (2 ^ 31 + 1)).mask = 2 ^ 32 - 1 := by
  have empty : nextPowerOf2 (2 ^ 31 + 1) = 0 := by decide
  refine ⟨fun sized => ?_, empty, ?_⟩
  · exact absurd sized.nonempty (by rw [bufferSize, new, empty]; decide)
  · rw [mask, new, empty]
    decide

end DemotionQueue

end Walde
