import Mathlib.Data.List.Range
import Mathlib.Data.Nat.Bitwise
import Mathlib.Data.Nat.ModEq
import Mathlib.Data.Nat.Size
import Mathlib.Logic.Function.Basic

namespace Foundation.RingBuffer

/-! # Ring buffers

A queue of `count` items in a cyclic array, the oldest at position `start`.
Positions only grow and are taken modulo the capacity, so they may themselves
wrap at any multiple of the capacity. -/

variable {α : Type} {buffer : Nat → α} {capacity start count : Nat}

def contents (buffer : Nat → α) (capacity start count : Nat) : List α :=
  (List.range count).map fun offset => buffer ((start + offset) % capacity)

@[simp] theorem contents_length :
    (contents buffer capacity start count).length = count := by
  simp [contents]

theorem contents_mod {wrap : Nat} (divides : capacity ∣ wrap) :
    contents buffer capacity (start % wrap) count =
      contents buffer capacity start count := by
  apply List.map_congr_left
  intro offset _
  rw [Nat.add_mod, Nat.mod_mod_of_dvd _ divides, ← Nat.add_mod]

theorem contents_push (room : count < capacity) (item : α) :
    contents (Function.update buffer ((start + count) % capacity) item)
        capacity start (count + 1) =
      contents buffer capacity start count ++ [item] := by
  rw [contents, List.range_succ, List.map_append, List.map_singleton,
    Function.update_self]
  congr 1
  apply List.map_congr_left
  intro offset member
  have before : offset < count := List.mem_range.mp member
  apply Function.update_of_ne
  -- two offsets below the capacity never meet
  intro same
  have congruent : Nat.ModEq capacity offset count :=
    Nat.ModEq.add_left_cancel' start same
  have equal := Nat.ModEq.eq_of_lt_of_lt congruent (before.trans room) room
  omega

theorem contents_take {some : Nat} (within : some ≤ count) :
    contents buffer capacity start some =
      (contents buffer capacity start count).take some := by
  rw [contents, contents, ← List.map_take, List.take_range,
    Nat.min_eq_left within]

theorem contents_drop (some : Nat) :
    contents buffer capacity (start + some) (count - some) =
      (contents buffer capacity start count).drop some := by
  apply List.ext_getElem
  · simp
  · intro index _ _
    simp [contents, Nat.add_assoc]

/-! ## Rounding up to a power of two -/

/-- Or a number with its copies shifted right by 1, 2, 4, 8 and 16. -/
def smear (value : Nat) : Nat :=
  let value := value ||| value >>> 1
  let value := value ||| value >>> 2
  let value := value ||| value >>> 4
  let value := value ||| value >>> 8
  value ||| value >>> 16

/-- A number in which a bit is set where one of the next `reach` bits of
`value` is, and the doubling of the reach. -/
def Smeared (value reach smeared : Nat) : Prop :=
  ∀ bit, smeared.testBit bit = true ↔
    ∃ offset < reach, value.testBit (bit + offset) = true

theorem Smeared.double {value reach smeared : Nat}
    (reached : Smeared value reach smeared) :
    Smeared value (reach + reach) (smeared ||| smeared >>> reach) := by
  intro bit
  rw [Nat.testBit_or, Nat.testBit_shiftRight, Bool.or_eq_true, reached,
    reached]
  constructor
  · rintro (⟨offset, near, set⟩ | ⟨offset, near, set⟩)
    · exact ⟨offset, by omega, set⟩
    · refine ⟨reach + offset, by omega, ?_⟩
      rwa [show bit + (reach + offset) = reach + bit + offset by omega]
  · rintro ⟨offset, near, set⟩
    by_cases close : offset < reach
    · exact .inl ⟨offset, close, set⟩
    · refine .inr ⟨offset - reach, by omega, ?_⟩
      rwa [show reach + bit + (offset - reach) = bit + offset by omega]

theorem smeared_smear (value : Nat) : Smeared value 32 (smear value) := by
  have once : Smeared value 1 value := by
    intro bit
    constructor
    · exact fun set => ⟨0, by decide, set⟩
    · rintro ⟨offset, near, set⟩
      obtain rfl : offset = 0 := by omega
      exact set
  exact once.double.double.double.double.double

/-- Below the highest bit of a 32-bit number, smearing sets every bit. -/
theorem smear_add_one {value : Nat} (small : value < 2 ^ 32) :
    smear value + 1 = 2 ^ value.size := by
  have ones : smear value = 2 ^ value.size - 1 := by
    apply Nat.eq_of_testBit_eq
    intro bit
    rw [Bool.eq_iff_iff, smeared_smear value bit, Nat.testBit_two_pow_sub_one,
      decide_eq_true_eq]
    constructor
    · rintro ⟨offset, -, set⟩
      by_contra high
      have beyond : value < 2 ^ (bit + offset) :=
        (Nat.lt_size_self value).trans_le
          (Nat.pow_le_pow_right (by decide) (by omega))
      rw [Nat.testBit_lt_two_pow beyond] at set
      cases set
    · intro low
      have large : 2 ^ bit ≤ value := Nat.lt_size.mp low
      have nonzero : value ≠ 0 := by
        have positive := Nat.one_le_two_pow (n := bit)
        omega
      have high : bit ≤ value.log2 := (Nat.le_log2 nonzero).mpr large
      have top : value.log2 < 32 := (Nat.log2_lt nonzero).mpr small
      refine ⟨value.log2 - bit, by omega, ?_⟩
      rw [Nat.add_sub_cancel' high]
      exact Nat.testBit_log2 nonzero
  rw [ones]
  exact Nat.sub_add_cancel Nat.one_le_two_pow

end Foundation.RingBuffer
