import Mathlib.Logic.Function.Basic
import Walde.Foundation.CountMin
import Walde.Types

namespace Walde

/-! # The count-min sketch -/

structure CountMinSketch where
  depth : Nat
  width : Nat
  /-- `uint32_t` counters, one row after the other. -/
  counters : Nat → Nat
  totalIncrements : Nat

namespace CountMinSketch

def new (depth width : Nat) : CountMinSketch where
  depth
  width
  counters := fun _ => 0
  totalIncrements := 0

/-- The entry of `seeds_` for a row. -/
def seed (row : Nat) : Nat := (0x9E3779B9 + row * 0x6C62272E) % uint32Size

def hash (xx : XxHash) (sketch : CountMinSketch) (key : Key) (row : Nat) : Nat :=
  xx.xxh32 key (seed row) % sketch.width

/-- Where a row keeps a column; the index is computed in 32 bits. -/
def slot (sketch : CountMinSketch) (row col : Nat) : Nat :=
  (row * sketch.width + col) % uint32Size

def increment (xx : XxHash) (sketch : CountMinSketch) (key : Key) :
    CountMinSketch :=
  { sketch with
    counters := (List.range sketch.depth).foldl (fun counters row =>
      let index := sketch.slot row (sketch.hash xx key row)
      Function.update counters index ((counters index + 1) % uint32Size))
      sketch.counters
    totalIncrements := (sketch.totalIncrements + 1) % uint64Size }

def estimate (xx : XxHash) (sketch : CountMinSketch) (key : Key) : Nat :=
  (List.range sketch.depth).foldl (fun minVal row =>
    min minVal (sketch.counters (sketch.slot row (sketch.hash xx key row))))
    (uint32Size - 1)

def decay (sketch : CountMinSketch) : CountMinSketch :=
  { sketch with counters := fun index => sketch.counters index >>> 1 }

def reset (sketch : CountMinSketch) : CountMinSketch :=
  { sketch with counters := fun _ => 0, totalIncrements := 0 }

/-! ## The sketch as a table of rows and columns -/

open Foundation.CountMin (Table)

/-- The counters of the sketch are those of the table. -/
structure Shows (sketch : CountMinSketch) (table : Table) : Prop where
  width_pos : 0 < sketch.width
  fits : sketch.depth * sketch.width ≤ uint32Size
  counter : ∀ row < sketch.depth, ∀ col < sketch.width,
    sketch.counters (sketch.slot row col) = table row col

section Shows

variable {xx : XxHash} {sketch : CountMinSketch} {table : Table}

theorem Shows.hash_lt (shows' : sketch.Shows table) (key : Key) (row : Nat) :
    sketch.hash xx key row < sketch.width :=
  Nat.mod_lt _ shows'.width_pos

theorem Shows.slot_eq (shows' : sketch.Shows table) {row col : Nat}
    (rowLt : row < sketch.depth) (colLt : col < sketch.width) :
    sketch.slot row col = row * sketch.width + col := by
  have inRow : row * sketch.width + col < (row + 1) * sketch.width := by
    rw [Nat.add_mul]
    omega
  have rows : (row + 1) * sketch.width ≤ sketch.depth * sketch.width :=
    Nat.mul_le_mul_right _ rowLt
  exact Nat.mod_eq_of_lt (inRow.trans_le (rows.trans shows'.fits))

theorem Shows.slot_injective (shows' : sketch.Shows table)
    {row row' col col' : Nat} (rowLt : row < sketch.depth)
    (rowLt' : row' < sketch.depth) (colLt : col < sketch.width)
    (colLt' : col' < sketch.width)
    (equal : sketch.slot row col = sketch.slot row' col') :
    row = row' ∧ col = col' := by
  rw [shows'.slot_eq rowLt colLt, shows'.slot_eq rowLt' colLt'] at equal
  have rows : row = row' := by
    have left : (row * sketch.width + col) / sketch.width = row := by
      rw [Nat.mul_comm, Nat.mul_add_div shows'.width_pos,
        Nat.div_eq_of_lt colLt, Nat.add_zero]
    have right : (row' * sketch.width + col') / sketch.width = row' := by
      rw [Nat.mul_comm, Nat.mul_add_div shows'.width_pos,
        Nat.div_eq_of_lt colLt', Nat.add_zero]
    rw [← left, equal, right]
  subst rows
  exact ⟨rfl, by omega⟩

theorem shows_new (depth width : Nat) (positive : 0 < width)
    (fits : depth * width ≤ uint32Size) :
    (new depth width).Shows fun _ _ => 0 :=
  ⟨positive, fits, fun _ _ _ _ => rfl⟩

theorem increment_loop (shows' : sketch.Shows table) (key : Key)
    (count : Nat) (within : count ≤ sketch.depth) :
    ∀ row < sketch.depth, ∀ col < sketch.width,
      (List.range count).foldl (fun counters row =>
        Function.update counters (sketch.slot row (sketch.hash xx key row))
          ((counters (sketch.slot row (sketch.hash xx key row)) + 1) %
            uint32Size))
        sketch.counters (sketch.slot row col) =
      table.bump uint32Size count (sketch.hash xx key) row col := by
  induction count with
  | zero =>
      intro row rowLt col colLt
      simpa [Table.bump] using shows'.counter row rowLt col colLt
  | succ count induction =>
      intro row rowLt col colLt
      have earlier := induction (by omega)
      rw [List.range_succ, List.foldl_append, List.foldl_cons, List.foldl_nil]
      by_cases same : row = count ∧ col = sketch.hash xx key count
      · obtain ⟨rfl, rfl⟩ := same
        rw [Function.update_self, earlier row rowLt _ (shows'.hash_lt key row)]
        simp [Table.bump]
      · have elsewhere : sketch.slot row col ≠
            sketch.slot count (sketch.hash xx key count) := fun equal =>
          same (by
            have both := shows'.slot_injective rowLt (by omega) colLt
              (shows'.hash_lt key count) equal
            exact ⟨both.1, both.2⟩)
        rw [Function.update_of_ne elsewhere, earlier row rowLt col colLt]
        have sameCase : (row < count + 1 ∧ col = sketch.hash xx key row) ↔
            (row < count ∧ col = sketch.hash xx key row) := by
          constructor
          · rintro ⟨rowLe, colEqual⟩
            refine ⟨?_, colEqual⟩
            by_contra notBelow
            have atCount : row = count := by omega
            exact same ⟨atCount, atCount ▸ colEqual⟩
          · rintro ⟨below, colEqual⟩
            exact ⟨by omega, colEqual⟩
        simp only [Table.bump, sameCase]

theorem Shows.increment (shows' : sketch.Shows table) (xx : XxHash) (key : Key) :
    (sketch.increment xx key).Shows
      (table.bump uint32Size sketch.depth (sketch.hash xx key)) :=
  ⟨shows'.width_pos, shows'.fits,
    increment_loop shows' key sketch.depth (Nat.le_refl _)⟩

theorem Shows.estimate (shows' : sketch.Shows table) (key : Key) :
    sketch.estimate xx key =
      table.least (uint32Size - 1) sketch.depth (sketch.hash xx key) := by
  unfold CountMinSketch.estimate Table.least
  apply List.foldl_ext
  intro minVal row member
  rw [shows'.counter row (List.mem_range.mp member) _ (shows'.hash_lt key row)]

theorem Shows.decay (shows' : sketch.Shows table) :
    sketch.decay.Shows table.halve :=
  ⟨shows'.width_pos, shows'.fits, fun row rowLt col colLt => by
    change sketch.counters (sketch.slot row col) >>> 1 = table row col / 2
    rw [shows'.counter row rowLt col colLt, Nat.shiftRight_one]⟩

end Shows

end CountMinSketch

end Walde
