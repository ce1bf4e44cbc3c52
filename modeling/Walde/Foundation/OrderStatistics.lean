import Mathlib.Algebra.BigOperators.Group.Finset.Basic
import Mathlib.Data.List.Sort
import Mathlib.Order.Basic

namespace Foundation.OrderStatistics

/-! # Order statistics and cumulative counts

The smallest values of a sample, and where a running total of the sizes of the
classes of a monotone classification first passes a rank. -/

/-- The value at a rank of the sorted sample, the smallest at rank zero. -/
def smallest {α : Type} [LinearOrder α] (values : List α) (rank : Nat) :
    Option α :=
  (values.insertionSort (· ≤ ·))[rank]?

section Smallest

variable {α : Type} [LinearOrder α] {values : List α} {rank : Nat} {value : α}

theorem exists_smallest (within : rank < values.length) :
    ∃ value, smallest values rank = some value := by
  have within' : rank < (values.insertionSort (· ≤ ·)).length := by
    rwa [List.length_insertionSort]
  exact ⟨_, List.getElem?_eq_getElem within'⟩

theorem mem_of_smallest (found : smallest values rank = some value) :
    value ∈ values :=
  (List.mem_insertionSort (· ≤ ·)).mp (List.mem_of_getElem? found)

theorem lt_countP_iff_of_sorted {low : α → Bool}
    (closed : ∀ {small large}, small ≤ large → low large = true →
      low small = true) :
    ∀ {values : List α} {rank : Nat}, values.Pairwise (· ≤ ·) →
      values[rank]? = some value →
      (rank < values.countP low ↔ low value = true)
  | [], _, _, found => by simp at found
  | head :: rest, rank, sorted, found => by
      have split := List.pairwise_cons.mp sorted
      cases headLow : low head with
      | false =>
          have none : rest.countP low = 0 := by
            rw [List.countP_eq_zero]
            intro other member otherLow
            rw [closed (split.1 other member) otherLow] at headLow
            cases headLow
          have high : low value = false := by
            rw [Bool.eq_false_iff]
            intro valueLow
            rcases List.mem_cons.mp (List.mem_of_getElem? found) with rfl | member
            · rw [valueLow] at headLow
              cases headLow
            · exact List.countP_eq_zero.mp none value member valueLow
          simp [headLow, none, high]
      | true =>
          rw [List.countP_cons_of_pos headLow]
          cases rank with
          | zero =>
              obtain rfl : head = value := by simpa using found
              simp [headLow]
          | succ rank =>
              rw [Nat.succ_lt_succ_iff]
              exact lt_countP_iff_of_sorted closed split.2 (by simpa using found)

/-- A downward closed set has more members than a rank exactly when it holds
the value at that rank. -/
theorem lt_countP_iff {low : α → Bool}
    (closed : ∀ {small large}, small ≤ large → low large = true →
      low small = true) (found : smallest values rank = some value) :
    rank < values.countP low ↔ low value = true := by
  rw [← (List.perm_insertionSort (· ≤ ·) values).countP_eq]
  exact lt_countP_iff_of_sorted closed
    (List.pairwise_insertionSort (· ≤ ·) values) found

end Smallest

/-! ## Cumulative counts -/

def cumulative (counts : Nat → Nat) (index : Nat) : Nat :=
  ∑ earlier ∈ Finset.range index, counts earlier

section Cumulative

variable {counts : Nat → Nat} {index : Nat}

@[simp] theorem cumulative_zero : cumulative counts 0 = 0 := rfl

theorem cumulative_succ :
    cumulative counts (index + 1) = cumulative counts index + counts index :=
  Finset.sum_range_succ counts index

end Cumulative

def classCount {α : Type} (classOf : α → Nat) (values : List α) (index : Nat) :
    Nat :=
  values.countP (classOf · = index)

section Classes

variable {α : Type} {classOf : α → Nat} {values : List α}

theorem classCount_cons (value : α) (index : Nat) :
    classCount classOf (value :: values) index =
      classCount classOf values index + if classOf value = index then 1 else 0 := by
  simp [classCount, List.countP_cons]

theorem classCount_append (other : List α) (index : Nat) :
    classCount classOf (values ++ other) index =
      classCount classOf values index + classCount classOf other index :=
  List.countP_append

theorem cumulative_classCount (index : Nat) :
    cumulative (classCount classOf values) index =
      values.countP (classOf · < index) := by
  induction index with
  | zero => simp
  | succ index inductionHypothesis =>
      rw [cumulative_succ, inductionHypothesis, classCount]
      clear inductionHypothesis
      induction values with
      | nil => rfl
      | cons head rest inductionHypothesis =>
          simp only [List.countP_cons, decide_eq_true_eq]
          rcases Nat.lt_trichotomy (classOf head) index with low | rfl | high
          · rw [if_pos low, if_neg (by omega), if_pos (by omega)]
            omega
          · rw [if_neg (by omega), if_pos rfl, if_pos (by omega)]
            omega
          · rw [if_neg (by omega), if_neg (by omega), if_neg (by omega)]
            omega

/-- The running total passes a rank in the class of the value at that rank,
and in no class before it. -/
theorem lt_cumulative_classCount_iff [LinearOrder α]
    (monotone : Monotone classOf) {rank : Nat} {value : α}
    (found : smallest values rank = some value) (index : Nat) :
    rank < cumulative (classCount classOf values) (index + 1) ↔
      classOf value ≤ index := by
  rw [cumulative_classCount, lt_countP_iff ?_ found, decide_eq_true_eq,
    Nat.lt_succ_iff]
  intro small large le below
  rw [decide_eq_true_eq] at below ⊢
  exact (monotone le).trans_lt below

end Classes

end Foundation.OrderStatistics
