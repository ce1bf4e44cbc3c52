import Mathlib.Data.List.Induction
import Mathlib.Data.List.Range

namespace Foundation.CountMin

/-! # Tables of counters with one column per row and key

Counting a key bumps one counter in every row, and its estimate is the least of
them. Counters take `size` values and wrap. -/

abbrev Table := Nat → Nat → Nat

namespace Table

/-- Count a key whose column in each row is `column row`. -/
def bump (size depth : Nat) (column : Nat → Nat) (table : Table) : Table :=
  fun row col =>
    if row < depth ∧ col = column row then (table row col + 1) % size
    else table row col

def least (top depth : Nat) (column : Nat → Nat) (table : Table) : Nat :=
  (List.range depth).foldl (fun minimum row =>
    min minimum (table row (column row))) top

def halve (table : Table) : Table := fun row col => table row col / 2

variable {size top depth : Nat} {column : Nat → Nat} {table : Table}

theorem le_least_iff {bound : Nat} :
    bound ≤ table.least top depth column ↔
      bound ≤ top ∧ ∀ row < depth, bound ≤ table row (column row) := by
  unfold least
  induction depth with
  | zero => simp
  | succ depth induction =>
      rw [List.range_succ, List.foldl_append, List.foldl_cons, List.foldl_nil,
        Nat.le_min, induction]
      constructor
      · rintro ⟨⟨belowTop, rows⟩, last⟩
        refine ⟨belowTop, fun row rowLt => ?_⟩
        rcases Nat.lt_succ_iff_lt_or_eq.mp rowLt with earlier | rfl
        · exact rows row earlier
        · exact last
      · rintro ⟨belowTop, rows⟩
        exact ⟨⟨belowTop, fun row rowLt => rows row (by omega)⟩,
          rows depth (by omega)⟩

theorem least_le {row : Nat} (rowLt : row < depth) :
    table.least top depth column ≤ table row (column row) :=
  (le_least_iff.mp (Nat.le_refl _)).2 row rowLt

theorem least_le_top : table.least top depth column ≤ top :=
  (le_least_iff.mp (Nat.le_refl _)).1

theorem le_bump {row col : Nat}
    (noWrap : row < depth → col = column row → table row col + 1 < size) :
    table row col ≤ table.bump size depth column row col := by
  unfold bump
  split
  · rename_i hit
    rw [Nat.mod_eq_of_lt (noWrap hit.1 hit.2)]
    omega
  · exact Nat.le_refl _

theorem bump_of_ne {row col : Nat} (other : col ≠ column row) :
    table.bump size depth column row col = table row col := by
  simp [bump, other]

theorem bump_of_eq {row : Nat} (rowLt : row < depth) :
    table.bump size depth column row (column row) =
      (table row (column row) + 1) % size := by
  simp [bump, rowLt]

end Table

/-! ## Sketches over time

A counter stands for the group of keys that share it, so everything is said of
groups of keys first. -/

inductive Operation (κ : Type*)
  | increment (key : κ)
  | decay
  | reset

namespace Operation

variable {κ : Type*}

def onTable (size depth : Nat) (column : κ → Nat → Nat) (table : Table) :
    Operation κ → Table
  | increment key => table.bump size depth (column key)
  | decay => table.halve
  | reset => fun _ _ => 0

/-- On a counter without bound that only the keys of a group share. -/
def onTally (group : κ → Prop) [DecidablePred group] (count : Nat) :
    Operation κ → Nat
  | increment key => if group key then count + 1 else count
  | decay => count / 2
  | reset => 0

/-- On the keys that were counted since the last reset. -/
def onRecent (keys : List κ) : Operation κ → List κ
  | increment key => keys ++ [key]
  | decay => keys
  | reset => []

end Operation

section Runs

open Operation

variable {κ : Type*} {size depth : Nat} {column : κ → Nat → Nat}

def tableAfter (size depth : Nat) (column : κ → Nat → Nat)
    (operations : List (Operation κ)) : Table :=
  operations.foldl (onTable size depth column) fun _ _ => 0

def tally (group : κ → Prop) [DecidablePred group]
    (operations : List (Operation κ)) : Nat :=
  operations.foldl (onTally group) 0

def recent (operations : List (Operation κ)) : List κ :=
  operations.foldl onRecent []

@[simp] theorem tableAfter_concat (operations : List (Operation κ))
    (last : Operation κ) :
    tableAfter size depth column (operations ++ [last]) =
      last.onTable size depth column (tableAfter size depth column operations) := by
  simp [tableAfter]

@[simp] theorem tally_concat (group : κ → Prop) [DecidablePred group]
    (operations : List (Operation κ)) (last : Operation κ) :
    tally group (operations ++ [last]) =
      last.onTally group (tally group operations) := by
  simp [tally]

@[simp] theorem recent_concat (operations : List (Operation κ))
    (last : Operation κ) :
    recent (operations ++ [last]) = last.onRecent (recent operations) := by
  simp [recent]

theorem tally_le_tally {group larger : κ → Prop} [DecidablePred group]
    [DecidablePred larger] {operations : List (Operation κ)}
    (within : ∀ key ∈ recent operations, group key → larger key) :
    tally group operations ≤ tally larger operations := by
  induction operations using List.reverseRecOn with
  | nil => exact Nat.le_refl _
  | append_singleton operations last induction =>
      rw [recent_concat] at within
      rw [tally_concat, tally_concat]
      cases last with
      | increment key =>
          have before := induction fun other member =>
            within other (List.mem_append_left _ member)
          have atKey := within key (by simp [onRecent])
          simp only [onTally]
          split
          · rename_i inGroup
            rw [if_pos (atKey inGroup)]
            omega
          · split <;> omega
      | decay => exact Nat.div_le_div_right (induction within)
      | reset => exact Nat.le_refl _

theorem tally_le_length (group : κ → Prop) [DecidablePred group]
    (operations : List (Operation κ)) :
    tally group operations ≤ (recent operations).length := by
  induction operations using List.reverseRecOn with
  | nil => exact Nat.le_refl _
  | append_singleton operations last induction =>
      rw [tally_concat, recent_concat]
      cases last with
      | increment key =>
          simp only [onTally, onRecent, List.length_append,
            List.length_singleton]
          split <;> omega
      | decay => exact (Nat.div_le_self _ _).trans induction
      | reset => exact Nat.le_refl _

/-- A counter goes on to count the group of its keys while it does not reach
the size. -/
theorem onTable_eq_tally {table : Table} {operations : List (Operation κ)}
    {row col : Nat} (rowLt : row < depth)
    (counts : table row col = tally (column · row = col) operations)
    (last : Operation κ)
    (fits : tally (column · row = col) (operations ++ [last]) < size) :
    last.onTable size depth column table row col =
      tally (column · row = col) (operations ++ [last]) := by
  rw [tally_concat] at fits ⊢
  rw [← counts] at fits ⊢
  cases last with
  | increment key =>
      simp only [onTally] at fits ⊢
      by_cases shared : column key row = col
      · subst shared
        rw [if_pos rfl] at fits ⊢
        rw [onTable, Table.bump_of_eq rowLt, Nat.mod_eq_of_lt fits]
      · rw [if_neg shared, onTable, Table.bump_of_ne (Ne.symm shared)]
  | decay => rfl
  | reset => rfl

theorem tableAfter_le_tally {operations : List (Operation κ)} {row : Nat}
    (rowLt : row < depth) (col : Nat) :
    tableAfter size depth column operations row col ≤
      tally (column · row = col) operations := by
  induction operations using List.reverseRecOn with
  | nil => exact Nat.le_refl _
  | append_singleton operations last induction =>
      rw [tableAfter_concat, tally_concat]
      cases last with
      | increment key =>
          rw [onTable, onTally]
          by_cases shared : column key row = col
          · subst shared
            rw [if_pos rfl, Table.bump_of_eq rowLt]
            exact (Nat.mod_le _ _).trans (Nat.succ_le_succ induction)
          · rw [if_neg shared, Table.bump_of_ne (Ne.symm shared)]
            exact induction
      | decay => exact Nat.div_le_div_right induction
      | reset => exact Nat.le_refl _

theorem tableAfter_eq_tally {operations : List (Operation κ)} {row : Nat}
    (rowLt : row < depth) (col : Nat)
    (few : (recent operations).length < size) :
    tableAfter size depth column operations row col =
      tally (column · row = col) operations := by
  induction operations using List.reverseRecOn with
  | nil => rfl
  | append_singleton operations last induction =>
      have fits := (tally_le_length (column · row = col) _).trans_lt few
      rw [tableAfter_concat]
      rw [recent_concat] at few
      cases last with
      | increment key =>
          have fewer : (recent operations).length < size := by
            simp only [onRecent, List.length_append] at few
            omega
          exact onTable_eq_tally rowLt (induction fewer) _ fits
      | decay => exact onTable_eq_tally rowLt (induction few) _ fits
      | reset => simp [onTable, onTally]

theorem least_le_tally [DecidableEq κ] {top row : Nat} {key : κ}
    {operations : List (Operation κ)} (rowLt : row < depth)
    (alone : ∀ other ∈ recent operations, other ≠ key →
      column other row ≠ column key row) :
    (tableAfter size depth column operations).least top depth (column key) ≤
      tally (· = key) operations := by
  refine (Table.least_le rowLt).trans ((tableAfter_le_tally rowLt _).trans ?_)
  apply tally_le_tally
  intro other member sameColumn
  by_contra different
  exact alone other member different sameColumn

theorem tally_le_least [DecidableEq κ] {operations : List (Operation κ)}
    (few : (recent operations).length < size) (key : κ) :
    tally (· = key) operations ≤
      (tableAfter size depth column operations).least (size - 1) depth
        (column key) := by
  refine Table.le_least_iff.mpr ⟨?_, fun row rowLt => ?_⟩
  · exact Nat.le_sub_one_of_lt ((tally_le_length _ _).trans_lt few)
  · rw [tableAfter_eq_tally rowLt _ few]
    exact tally_le_tally fun other _ same => same ▸ rfl

/-! ### Counters that never wrap -/

/-- No counter is at its top when it is incremented. -/
def Operation.Fits (size depth : Nat) (column : κ → Nat → Nat)
    (table : Table) : Operation κ → Prop
  | increment key => ∀ row < depth, table row (column key row) + 1 < size
  | decay => True
  | reset => True

def Fit (size depth : Nat) (column : κ → Nat → Nat) :
    List (Operation κ) → Table → Prop
  | [], _ => True
  | operation :: rest, table =>
      operation.Fits size depth column table ∧
        Fit size depth column rest (operation.onTable size depth column table)

theorem fit_append (first second : List (Operation κ)) (table : Table) :
    Fit size depth column (first ++ second) table ↔
      Fit size depth column first table ∧
        Fit size depth column second
          (first.foldl (onTable size depth column) table) := by
  induction first generalizing table with
  | nil => simp [Fit]
  | cons operation rest induction =>
      rw [List.cons_append, Fit, Fit, induction, and_assoc, List.foldl_cons]

theorem fits_iff_tally {table : Table} {done : List (Operation κ)}
    (counts : ∀ row < depth, ∀ col,
      table row col = tally (column · row = col) done)
    (below : ∀ row < depth, ∀ col, table row col < size)
    (operation : Operation κ) :
    operation.Fits size depth column table ↔ ∀ row < depth, ∀ col,
      tally (column · row = col) (done ++ [operation]) < size := by
  cases operation with
  | increment key =>
      constructor
      · intro fits row rowLt col
        rw [tally_concat, onTally, ← counts row rowLt col]
        split
        · rename_i shared
          rw [← shared]
          exact fits row rowLt
        · exact below row rowLt col
      · intro within row rowLt
        have counted := within row rowLt (column key row)
        rw [tally_concat, onTally, if_pos rfl, ← counts row rowLt] at counted
        exact counted
  | decay =>
      refine iff_of_true trivial fun row rowLt col => ?_
      rw [tally_concat, onTally, ← counts row rowLt col]
      exact (Nat.div_le_self _ _).trans_lt (below row rowLt col)
  | reset =>
      refine iff_of_true trivial fun row rowLt col => ?_
      rw [tally_concat, onTally]
      exact Nat.zero_lt_of_lt (below row rowLt col)

/-- The exact condition on a run: no group of keys that share a counter is
ever counted up to the size. -/
theorem fit_iff_tally {table : Table} {done : List (Operation κ)}
    (counts : ∀ row < depth, ∀ col,
      table row col = tally (column · row = col) done)
    (below : ∀ row < depth, ∀ col, table row col < size)
    (next : List (Operation κ)) :
    Fit size depth column next table ↔ ∀ n, ∀ row < depth, ∀ col,
      tally (column · row = col) (done ++ next.take n) < size := by
  have start : ∀ row < depth, ∀ col,
      tally (column · row = col) done < size := fun row rowLt col =>
    counts row rowLt col ▸ below row rowLt col
  induction next generalizing table done with
  | nil =>
      refine iff_of_true trivial fun n => ?_
      rw [List.take_nil, List.append_nil]
      exact start
  | cons operation rest induction =>
      rw [Fit, fits_iff_tally counts below]
      -- the counters after the operation count on
      have after : (∀ row < depth, ∀ col,
          tally (column · row = col) (done ++ [operation]) < size) →
          (Fit size depth column rest
              (operation.onTable size depth column table) ↔
            ∀ n, ∀ row < depth, ∀ col, tally (column · row = col)
              (done ++ [operation] ++ rest.take n) < size) := by
        intro within
        have counts' : ∀ row < depth, ∀ col,
            operation.onTable size depth column table row col =
              tally (column · row = col) (done ++ [operation]) :=
          fun row rowLt col => onTable_eq_tally rowLt (counts row rowLt col)
            operation (within row rowLt col)
        exact induction counts' (fun row rowLt col =>
          (counts' row rowLt col).symm ▸ within row rowLt col) within
      constructor
      · rintro ⟨within, fit⟩ n
        cases n with
        | zero =>
            rw [List.take_zero, List.append_nil]
            exact start
        | succ n =>
            rw [List.take_succ_cons, List.append_cons]
            exact (after within).mp fit n
      · intro within
        have first : ∀ row < depth, ∀ col,
            tally (column · row = col) (done ++ [operation]) < size := within 1
        refine ⟨first, (after first).mpr fun n => ?_⟩
        have later := within (n + 1)
        rw [List.take_succ_cons, List.append_cons] at later
        exact later

end Runs

end Foundation.CountMin
