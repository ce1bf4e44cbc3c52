import Mathlib.Data.List.DropRight
import Mathlib.Data.List.Induction

namespace Foundation.Text

/-! # Lines and fields of a text -/

/-- To decide something of the characters of a text, look at these only, not at
every character there is. -/
instance decidableForallMem (text : List Char) (holds : Char → Prop)
    [DecidablePred holds] : Decidable (∀ char ∈ text, holds char) :=
  List.decidableBAll holds text

/-- Read up to the next delimiter and over it; there is nothing to read at the
end of the text. -/
def getline (delimiter : Char) (text : List Char) :
    Option (List Char × List Char) :=
  if text.isEmpty then none
  else some (text.takeWhile (· ≠ delimiter),
    (text.dropWhile (· ≠ delimiter)).tail)

def lines (delimiter : Char) : List Char → List (List Char)
  | [] => []
  | char :: rest =>
      if char = delimiter then [] :: lines delimiter rest
      else match lines delimiter rest with
        | [] => [[char]]
        | line :: others => (char :: line) :: others

def trim (blank : Char → Bool) (text : List Char) : List Char :=
  (text.dropWhile blank).rdropWhile blank

section Getline

variable {delimiter : Char} {line text rest : List Char}

theorem keeps_of_free (free : delimiter ∉ line) :
    ∀ char ∈ line, decide (char ≠ delimiter) = true := by
  intro char member
  rw [decide_eq_true_eq]
  rintro rfl
  exact free member

theorem getline_append (free : delimiter ∉ line) (rest : List Char) :
    getline delimiter (line ++ delimiter :: rest) = some (line, rest) := by
  have taken : (line ++ delimiter :: rest).takeWhile (· ≠ delimiter) = line := by
    rw [List.takeWhile_append_of_pos (keeps_of_free free)]
    simp
  have dropped : (line ++ delimiter :: rest).dropWhile (· ≠ delimiter) =
      delimiter :: rest := by
    rw [List.dropWhile_append_of_pos (keeps_of_free free)]
    simp
  rw [getline, taken, dropped, List.tail_cons, if_neg (by simp)]

theorem getline_last (free : delimiter ∉ line) (nonempty : line ≠ []) :
    getline delimiter line = some (line, []) := by
  rw [getline, List.takeWhile_eq_self_iff.mpr (keeps_of_free free),
    List.dropWhile_eq_nil_iff.mpr (keeps_of_free free), List.tail_nil,
    if_neg (by simpa using nonempty)]

theorem getline_shorter (read : getline delimiter text = some (line, rest)) :
    rest.length < text.length := by
  unfold getline at read
  split at read
  · cases read
  · rename_i nonempty
    cases read
    have kept := (List.dropWhile_suffix (l := text)
      fun char => decide (char ≠ delimiter)).length_le
    have positive := List.length_pos_of_ne_nil
      (mt List.isEmpty_iff.mpr nonempty)
    rw [List.length_tail]
    omega

theorem lines_append (free : delimiter ∉ line) (rest : List Char) :
    lines delimiter (line ++ delimiter :: rest) =
      line :: lines delimiter rest := by
  induction line with
  | nil => simp [lines]
  | cons first others induction =>
      rw [List.mem_cons, not_or] at free
      rw [List.cons_append, lines, if_neg (Ne.symm free.1), induction free.2]

theorem lines_last (free : delimiter ∉ line) (nonempty : line ≠ []) :
    lines delimiter line = [line] := by
  induction line with
  | nil => exact absurd rfl nonempty
  | cons first others induction =>
      rw [List.mem_cons, not_or] at free
      rw [lines, if_neg (Ne.symm free.1)]
      cases others with
      | nil => rfl
      | cons second rest => rw [induction free.2 (by simp)]

theorem lines_eq (delimiter : Char) (text : List Char) :
    lines delimiter text = match getline delimiter text with
      | none => []
      | some (line, rest) => line :: lines delimiter rest := by
  cases text with
  | nil => rfl
  | cons first others =>
      by_cases within : delimiter ∈ first :: others
      · rcases List.eq_append_cons_of_mem within with
          ⟨line, rest, shape, free⟩
        rw [shape, getline_append free, lines_append free]
      · rw [getline_last within (by simp), lines_last within (by simp)]
        rfl

end Getline

/-! ## Trimming -/

section Trim

variable {blank : Char → Bool}

theorem dropWhile_append_solid {char : Char} (solid : blank char = false)
    (before after : List Char) :
    (before ++ char :: after).dropWhile blank =
      before.dropWhile blank ++ char :: after := by
  rw [List.dropWhile_append]
  split
  · rename_i empty
    rw [List.isEmpty_iff.mp empty, List.dropWhile_cons_of_neg (by simp [solid])]
    rfl
  · rfl

theorem rdropWhile_append_solid {char : Char} (solid : blank char = false)
    (before after : List Char) :
    (before ++ char :: after).rdropWhile blank =
      before ++ char :: after.rdropWhile blank := by
  have mirrored := dropWhile_append_solid solid after.reverse before.reverse
  rw [List.rdropWhile, List.reverse_append, List.reverse_cons,
    List.append_assoc, List.singleton_append, mirrored, List.rdropWhile]
  simp

theorem trim_around {char : Char} (solid : blank char = false)
    (before after : List Char) :
    trim blank (before ++ char :: after) =
      before.dropWhile blank ++ char :: after.rdropWhile blank := by
  rw [trim, dropWhile_append_solid solid, rdropWhile_append_solid solid]

theorem trim_blank {text : List Char} (blanks : ∀ char ∈ text, blank char = true) :
    trim blank text = [] := by
  rw [trim, List.dropWhile_eq_nil_iff.mpr blanks, List.rdropWhile_nil]

theorem rdropWhile_blank {text after : List Char}
    (blanks : ∀ char ∈ after, blank char = true) :
    (text ++ after).rdropWhile blank = text.rdropWhile blank := by
  induction after using List.reverseRecOn with
  | nil => rw [List.append_nil]
  | append_singleton front last induction =>
      have lastBlank := blanks last (by simp)
      rw [← List.append_assoc, List.rdropWhile_concat_pos _ _ _ lastBlank]
      exact induction fun char member =>
        blanks char (List.mem_append_left _ member)

theorem trim_pad {before text after : List Char}
    (blanksBefore : ∀ char ∈ before, blank char = true)
    (blanksAfter : ∀ char ∈ after, blank char = true) :
    trim blank (before ++ text ++ after) = trim blank text := by
  rw [trim, trim, List.append_assoc,
    List.dropWhile_append_of_pos blanksBefore, List.dropWhile_append]
  split
  · rename_i empty
    rw [List.isEmpty_iff.mp empty, List.dropWhile_eq_nil_iff.mpr blanksAfter]
  · exact rdropWhile_blank blanksAfter

theorem trim_ends {text : List Char}
    (first : ∀ char ∈ text.head?, blank char = false)
    (last : ∀ char ∈ text.getLast?, blank char = false) :
    trim blank text = text := by
  have started : text.dropWhile blank = text := by
    cases text with
    | nil => rfl
    | cons head tail =>
        rw [List.dropWhile_cons_of_neg (by simp [first head rfl])]
  rw [trim, started, List.rdropWhile_eq_self_iff]
  intro nonempty
  simp [last _ (List.getLast_mem_getLast? nonempty)]

theorem trim_solid {text : List Char}
    (solid : ∀ char ∈ text, blank char = false) : trim blank text = text :=
  trim_ends (fun char member => solid char (List.mem_of_mem_head? member))
    fun char member => solid char (List.mem_of_mem_getLast? member)

end Trim

end Foundation.Text
