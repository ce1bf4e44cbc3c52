import Walde.CountMinSketch

namespace Walde.CountMinSketch

open Foundation.CountMin

/-! # How far off the estimates of a sketch are

An estimate counts the collisions of a key in its best row, and halving the sum
of several counters loses no more than halving each of them. -/

def apply (xx : XxHash) (sketch : CountMinSketch) :
    Operation Key → CountMinSketch
  | .increment key => sketch.increment xx key
  | .decay => sketch.decay
  | .reset => sketch.reset

def run (xx : XxHash) (operations : List (Operation Key))
    (sketch : CountMinSketch) : CountMinSketch :=
  operations.foldl (apply xx) sketch

def exact (key : Key) (operations : List (Operation Key)) : Nat :=
  tally (· = key) operations

def columns (xx : XxHash) (width : Nat) (key : Key) (row : Nat) : Nat :=
  xx.xxh32 key (seed row) % width

section Run

variable {xx : XxHash} {sketch : CountMinSketch} {table : Table}
  {depth width : Nat} {operations : List (Operation Key)}

@[simp] theorem run_concat (last : Operation Key) :
    sketch.run xx (operations ++ [last]) =
      (sketch.run xx operations).apply xx last := by
  simp [run]

@[simp] theorem apply_depth (last : Operation Key) :
    (sketch.apply xx last).depth = sketch.depth := by
  cases last <;> rfl

@[simp] theorem apply_width (last : Operation Key) :
    (sketch.apply xx last).width = sketch.width := by
  cases last <;> rfl

@[simp] theorem run_depth : (sketch.run xx operations).depth = sketch.depth := by
  induction operations using List.reverseRecOn with
  | nil => rfl
  | append_singleton operations last induction =>
      rw [run_concat, apply_depth, induction]

@[simp] theorem run_width : (sketch.run xx operations).width = sketch.width := by
  induction operations using List.reverseRecOn with
  | nil => rfl
  | append_singleton operations last induction =>
      rw [run_concat, apply_width, induction]

theorem hash_eq (key : Key) :
    sketch.hash xx key = columns xx sketch.width key := rfl

theorem Shows.apply (shows' : sketch.Shows table) (xx : XxHash)
    (last : Operation Key) :
    (sketch.apply xx last).Shows (last.onTable uint32Size sketch.depth
      (columns xx sketch.width) table) := by
  cases last with
  | increment key => exact shows'.increment xx key
  | decay => exact shows'.decay
  | reset => exact ⟨shows'.width_pos, shows'.fits, fun _ _ _ _ => rfl⟩

theorem Shows.run (positive : 0 < width) (fits : depth * width < uint32Size) :
    ((new depth width).run xx operations).Shows
      (tableAfter uint32Size depth (columns xx width) operations) := by
  induction operations using List.reverseRecOn with
  | nil => exact shows_new depth width positive (Nat.le_of_lt fits)
  | append_singleton operations last induction =>
      have after := induction.apply xx last
      rw [run_depth, run_width] at after
      rwa [run_concat, tableAfter_concat]

theorem run_totalIncrements :
    ((new depth width).run xx operations).totalIncrements =
      (recent operations).length % uint64Size := by
  induction operations using List.reverseRecOn with
  | nil => rfl
  | append_singleton operations last induction =>
      rw [run_concat, recent_concat]
      cases last with
      | increment key =>
          change (_ + 1) % uint64Size = _
          rw [induction, Nat.mod_add_mod, Operation.onRecent,
            List.length_append, List.length_singleton]
      | decay => exact induction
      | reset => rfl

/-- An estimate is the least counter that the operations left in the columns of
the key. -/
theorem estimate_run (xx : XxHash) (positive : 0 < width)
    (fits : depth * width < uint32Size) (key : Key) :
    ((new depth width).run xx operations).estimate xx key =
      (tableAfter uint32Size depth (columns xx width) operations).least
        (uint32Size - 1) depth (columns xx width key) := by
  rw [(Shows.run positive fits).estimate key, run_depth, hash_eq, run_width]
  rfl

end Run

/-- Whatever the increments, decays and resets, no estimate is below the exact
counter of its key or above the increments since the last reset, and it is
exact for a key that is alone in its column of some row. -/
theorem estimate_bounds (xx : XxHash) {depth width : Nat}
    (depthPositive : 0 < depth) (widthPositive : 0 < width)
    (fits : depth * width < uint32Size) (operations : List (Operation Key))
    (few : (recent operations).length < uint32Size) (key : Key) :
    let sketch := (new depth width).run xx operations
    exact key operations ≤ sketch.estimate xx key ∧
    sketch.estimate xx key ≤ sketch.totalIncrements ∧
    ((∃ row < depth, ∀ other ∈ recent operations, other ≠ key →
        sketch.hash xx other row ≠ sketch.hash xx key row) →
      sketch.estimate xx key = exact key operations) := by
  intro sketch
  have estimate : sketch.estimate xx key = _ :=
    estimate_run xx widthPositive fits key
  have below : exact key operations ≤ sketch.estimate xx key := by
    rw [estimate]
    exact tally_le_least few key
  refine ⟨below, ?_, ?_⟩
  · have total : sketch.totalIncrements = (recent operations).length := by
      have wide : (recent operations).length < uint64Size :=
        few.trans (by decide)
      exact run_totalIncrements.trans (Nat.mod_eq_of_lt wide)
    rw [estimate, total]
    exact (Table.least_le depthPositive).trans
      ((tableAfter_le_tally depthPositive _).trans (tally_le_length _ _))
  · rintro ⟨row, rowLt, alone⟩
    refine Nat.le_antisymm ?_ below
    rw [estimate]
    apply least_le_tally rowLt
    intro other member different
    have apart := alone other member different
    rwa [hash_eq, hash_eq, run_width] at apart

/-- Two rows of four columns; `"k"` shares its column of the first row with
`"bu"` and is alone in the second. -/
theorem estimate_bounds_sample :
    let operations : List (Operation Key) := [.increment "k", .increment "w",
      .reset, .increment "bu", .increment "k", .increment "k", .increment "x",
      .decay, .increment "k"]
    let sketch := (new 2 4).run .sample operations
    exact "k" operations ≤ sketch.estimate .sample "k" ∧
    sketch.estimate .sample "k" ≤ sketch.totalIncrements ∧
    ((∃ row < 2, ∀ other ∈ recent operations, other ≠ "k" →
        sketch.hash .sample other row ≠ sketch.hash .sample "k" row) →
      sketch.estimate .sample "k" = exact "k" operations) :=
  estimate_bounds .sample (by decide) (by decide) (by decide) _ (by decide) "k"

end Walde.CountMinSketch
