import Walde.TraceRoundTrip

namespace Walde.Trace

open Foundation

/-! # Rows without a header

A file of rows may start with a header or not. Without one, the format is
guessed from the first row, and the guess knows fewer operations than the
parser. -/

def Plain (text : Text) : Prop :=
  ∀ char ∈ text, whitespace char = false ∧ char ≠ ',' ∧ char ≠ '#'

structure CsvRow where
  time : Text
  word : Text
  type : OpType
  key : Text
  timePlain : Plain time
  named : toUpper word ∈ type.words
  keyPlain : Plain key
  keySome : key ≠ []

/-- `timestamp,op,key` -/
def headerLine : Text :=
  row ['t', 'i', 'm', 'e', 's', 't', 'a', 'm', 'p'] ['o', 'p'] ['k', 'e', 'y']

def fileOf (lines : List Text) : Text := lines.flatMap (· ++ ['\n'])

/-- The operations that are only known when a row is parsed. -/
def undetectedWords : List Text :=
  [['S', 'E', 'T'], ['U', 'P', 'D', 'A', 'T', 'E'],
    ['I', 'N', 'S', 'E', 'R', 'T']]

namespace CsvRow

def text (line : CsvRow) : Text := row line.time line.word line.key

def op (line : CsvRow) : TraceOp := ⟨line.type, line.key⟩

variable (line : CsvRow)

theorem solid : Solid line.op.key :=
  ⟨line.keySome, fun char member => (line.keyPlain char member).1⟩

theorem renders : RendersRow line.op line.text :=
  .row (fun member => (line.timePlain _ member).2.1 rfl) line.named (.refl _)
    (fun member => (line.keyPlain _ member).2.1 rfl) (.refl _)

theorem text_solid : ∀ char ∈ line.text, whitespace char = false := by
  intro char member
  simp only [text, row, List.mem_append, List.mem_cons] at member
  rcases member with time | rfl | word | rfl | key
  · exact (line.timePlain char time).1
  · rfl
  · exact keyword_whitespace line.named char word
  · rfl
  · exact (line.keyPlain char key).1

theorem text_trim : trim line.text = line.text :=
  Text.trim_solid line.text_solid

theorem text_within : '\n' ∉ line.text := by
  intro member
  have solid := line.text_solid _ member
  cases solid

theorem text_data : line.text.head? ≠ some '#' := by
  rw [text, row]
  cases shape : line.time with
  | nil => simp
  | cons first others =>
      rw [List.cons_append, List.head?_cons, ne_eq, Option.some.injEq]
      exact (line.timePlain first (shape ▸ List.mem_cons_self)).2.2

end CsvRow

theorem fileOf_spread {lines : List Text}
    (within : ∀ line ∈ lines, '\n' ∉ line) :
    Spread lines (fileOf lines) := by
  induction lines with
  | nil => exact .lastNoise (.blank (by decide))
  | cons line rest induction =>
      rw [List.forall_mem_cons] at within
      have shape : fileOf (line :: rest) = line ++ '\n' :: fileOf rest := by
        simp [fileOf]
      rw [shape]
      exact .text within.1 (.refl _) (induction within.2)

theorem char_toLower_toUpper (char : Char) :
    char.toUpper.toLower = char.toLower := by
  by_cases lower : 'a'.val ≤ char.val ∧ char.val ≤ 'z'.val
  · have every : ∀ i < 26, (Char.ofNat (97 + i)).toUpper.toLower =
        (Char.ofNat (97 + i)).toLower := by decide
    have low : 97 ≤ char.toNat := lower.1
    have high : char.toNat ≤ 122 := lower.2
    have here := every (char.toNat - 97) (by omega)
    rwa [Nat.add_sub_cancel' low, Char.ofNat_toNat] at here
  · have same : char.toUpper = char := dif_neg lower
    rw [same]

theorem toLower_toUpper (text : Text) :
    toLower (toUpper text) = toLower text := by
  rw [toLower, toUpper, List.map_map, toLower]
  exact List.map_congr_left fun char _ => char_toLower_toUpper char

theorem keyword_detected {type : OpType} {word : Text}
    (named : toUpper word ∈ type.words) :
    (toLower word ∈ rowWords ↔ toUpper word ∉ undetectedWords) ∧
      toLower word ∉ headerWords := by
  have every : ∀ keyword ∈ type.words,
      (toLower keyword ∈ rowWords ↔ keyword ∉ undetectedWords) ∧
        toLower keyword ∉ headerWords := by
    cases type <;> decide
  rw [← toLower_toUpper]
  exact every _ named

namespace CsvRow

theorem field (line : CsvRow) :
    TraceReader.csvField line.text =
      if toUpper line.word ∉ undetectedWords then some (toLower line.word)
      else none := by
  have word : trim line.word = line.word :=
    Text.trim_solid (keyword_whitespace line.named)
  rcases keyword_detected line.named with ⟨row, header⟩
  rw [text, csvField_row (fun member => (line.timePlain _ member).2.1 rfl)
    (keyword_plain line.named (by decide)) line.keySome, word]
  simp only [header, false_or, row]

end CsvRow

section Rows

variable (first : CsvRow) (rest : List CsvRow)

theorem readLines_rows :
    ({ stream := [] } : TraceReader).readLines
        ((first :: rest).map CsvRow.text) =
      ((({ stream := [] } : TraceReader).detectFormat first.text).2).readLines
        ((first :: rest).map CsvRow.text) := by
  have data : Data (trim first.text) := by
    refine ⟨first.renders.nonempty, ?_⟩
    rw [first.text_trim]
    exact first.text_data
  have detected := TraceReader.readLines_detect
    (rfl : ({ stream := [] } : TraceReader).formatKnown = false) data
    (rest.map CsvRow.text)
  rw [first.text_trim] at detected
  exact detected

theorem rows_renders (lines : List CsvRow) :
    List.Forall₂ RendersRow (lines.map CsvRow.op) (lines.map CsvRow.text) := by
  induction lines with
  | nil => exact .nil
  | cons line others induction => exact .cons line.renders induction

theorem rows_keys (lines : List CsvRow) :
    ∀ op ∈ lines.map CsvRow.op, Solid op.key := by
  rw [List.forall_mem_map]
  exact fun line _ => line.solid

theorem rows_within (lines : List CsvRow) :
    ∀ text ∈ lines.map CsvRow.text, '\n' ∉ text := by
  rw [List.forall_mem_map]
  exact fun line _ => line.text_within

theorem rows_data (lines : List CsvRow) :
    ∀ text ∈ lines.map CsvRow.text, (trim text).head? ≠ some '#' := by
  rw [List.forall_mem_map]
  intro line _
  rw [line.text_trim]
  exact line.text_data

theorem load_with_header (lines : List CsvRow) :
    loadTraceFile (some (fileOf (headerLine :: lines.map CsvRow.text))) 0 =
      lines.map CsvRow.op := by
  have header : RendersHeader headerLine :=
    .row (by decide) (by decide) (.refl _) (by decide) (by decide)
  have within : ∀ text ∈ headerLine :: lines.map CsvRow.text, '\n' ∉ text :=
    List.forall_mem_cons.mpr ⟨by decide, rows_within lines⟩
  have data : ∀ text ∈ headerLine :: lines.map CsvRow.text,
      (trim text).head? ≠ some '#' :=
    List.forall_mem_cons.mpr ⟨by decide, rows_data lines⟩
  rw [loadTraceFile_eq, TraceReader.readLines_spread (fileOf_spread within)]
  exact (Renders.csv header (rows_renders lines) data).readLines
    (rows_keys lines) within

theorem load_detected (detected : toUpper first.word ∉ undetectedWords) :
    loadTraceFile (some (fileOf ((first :: rest).map CsvRow.text))) 0 =
      (first :: rest).map CsvRow.op := by
  rw [loadTraceFile_eq, TraceReader.readLines_spread
    (fileOf_spread (rows_within (first :: rest))), readLines_rows]
  have field := first.field
  rw [if_pos detected] at field
  have header := (keyword_detected first.named).2
  refine TraceReader.readLines_csv (TraceReader.detectFormat_known _ _) ?_ ?_
    (rows_renders (first :: rest)) (rows_data (first :: rest))
    (rows_keys (first :: rest))
  · rw [TraceReader.detectFormat, field]
  · rw [TraceReader.detectFormat, field]
    simp [header]

theorem load_undetected (undetected : toUpper first.word ∈ undetectedWords) :
    (loadTraceFile (some (fileOf ((first :: rest).map CsvRow.text))) 0).head? =
      some ⟨.get, first.text⟩ := by
  rw [loadTraceFile_eq, TraceReader.readLines_spread
    (fileOf_spread (rows_within (first :: rest))), readLines_rows]
  have field := first.field
  rw [if_neg (by simpa using undetected)] at field
  have simple := TraceReader.detectFormat_simple { stream := [] } field
  have bare : Solid first.text :=
    ⟨by simp [CsvRow.text, row], first.text_solid⟩
  have data : Data (trim first.text) := by
    rw [first.text_trim]
    exact ⟨bare.1, first.text_data⟩
  have said := (TraceReader.readLine_known
    (TraceReader.detectFormat_known { stream := [] } first.text) data).1
  rw [first.text_trim] at said
  have parsed := TraceReader.parse_simple simple (parseSimple_bare bare)
  rw [List.map_cons, TraceReader.readLines, said, parsed]
  rfl

/-- **The header is optional exactly when the detection knows the operation of
the first row.** -/
theorem load_without_header_iff (maxOps : Nat) :
    loadTraceFile (some (fileOf ((first :: rest).map CsvRow.text))) maxOps =
        loadTraceFile
          (some (fileOf (headerLine :: (first :: rest).map CsvRow.text)))
          maxOps ↔
      toUpper first.word ∉ undetectedWords := by
  constructor
  · intro same
    by_contra undetected
    have heads := congrArg List.head? same
    rw [loadTraceFile_head, loadTraceFile_head _ (fileOf (headerLine :: _)),
      load_undetected first rest undetected, load_with_header, List.map_cons,
      List.head?_cons, Option.some.injEq, CsvRow.op, TraceOp.mk.injEq] at heads
    have named := first.named
    rw [← heads.1] at named
    have apart : ∀ word ∈ undetectedWords, word ∉ getWords := by decide
    exact apart _ undetected named
  · intro detected
    refine loadTraceFile_congr maxOps ?_
    rw [load_detected first rest detected, load_with_header]

end Rows

def setRow : CsvRow where
  time := ['1']
  word := ['S', 'E', 'T']
  type := .put
  key := ['k']
  timePlain := by simp [Plain, whitespace]
  named := by decide
  keyPlain := by simp [Plain, whitespace]
  keySome := by decide

/-- One row, read as a get of the whole row or as a put. -/
theorem setRow_without_header :
    loadTraceFile (some (fileOf [setRow.text])) 0 ≠
      loadTraceFile (some (fileOf [headerLine, setRow.text])) 0 := by
  rw [loadTraceFile_eq, loadTraceFile_eq]
  decide

end Walde.Trace
