import Walde.TraceLoader

namespace Walde.Trace

open Foundation

/-! # Rendered traces are read back

A trace is laid out as the lines of a file, with blanks around the lines and
lines without data between them. None of this changes what is read, so that a
file is read as the texts it was made from. -/

/-! ## Laying out lines -/

/-- Blanks within a line; the carriage return of a line ending is one. -/
def blank (char : Char) : Bool := whitespace char && char != '\n'

def Blanks (text : Text) : Prop := ∀ char ∈ text, blank char = true

instance (text : Text) : Decidable (Blanks text) :=
  inferInstanceAs (Decidable (∀ char ∈ text, blank char = true))

def Padded (text line : Text) : Prop :=
  ∃ before after, Blanks before ∧ Blanks after ∧
    line = before ++ text ++ after

inductive Noise : Text → Prop
  | blank {line} (blanks : Blanks line) : Noise line
  | comment {before note} (blanks : Blanks before) (within : '\n' ∉ note) :
      Noise (before ++ '#' :: note)

/-- The texts are the lines of the file, in order and between lines without
data. The last line may do without its line feed. -/
inductive Spread : List Text → Text → Prop
  | noise {line texts file} (noise : Noise line) (rest : Spread texts file) :
      Spread texts (line ++ '\n' :: file)
  | text {text line texts file} (within : '\n' ∉ text)
      (padded : Padded text line) (rest : Spread texts file) :
      Spread (text :: texts) (line ++ '\n' :: file)
  | lastNoise {line} (noise : Noise line) : Spread [] line
  | lastText {text line} (within : '\n' ∉ text) (padded : Padded text line) :
      Spread [text] line

section Layout

variable {text line file : Text} {texts : List Text}

theorem blank_whitespace {char : Char} (isBlank : blank char = true) :
    whitespace char = true := by
  rw [blank, Bool.and_eq_true] at isBlank
  exact isBlank.1

theorem Blanks.whitespace (blanks : Blanks text) :
    ∀ char ∈ text, whitespace char = true :=
  fun char member => blank_whitespace (blanks char member)

theorem Blanks.free {char : Char} (solid : blank char = false)
    (blanks : Blanks text) : char ∉ text := fun member => by
  rw [blanks char member] at solid
  cases solid

theorem Padded.refl (text : Text) : Padded text text :=
  ⟨[], [], by decide, by decide, by simp⟩

theorem Padded.trim (padded : Padded text line) :
    trim line = Walde.Trace.trim text := by
  rcases padded with ⟨before, after, blanksBefore, blanksAfter, rfl⟩
  exact Text.trim_pad blanksBefore.whitespace blanksAfter.whitespace

theorem Padded.free {char : Char} (solid : blank char = false)
    (within : char ∉ text) (padded : Padded text line) : char ∉ line := by
  rcases padded with ⟨before, after, blanksBefore, blanksAfter, rfl⟩
  rw [List.mem_append, List.mem_append, not_or, not_or]
  exact ⟨⟨blanksBefore.free solid, within⟩, blanksAfter.free solid⟩

theorem Noise.free (noise : Noise line) : '\n' ∉ line := by
  cases noise with
  | blank blanks => exact blanks.free rfl
  | comment blanks within =>
      rw [List.mem_append, List.mem_cons, not_or, not_or]
      exact ⟨blanks.free rfl, by decide, within⟩

theorem Noise.trim (noise : Noise line) :
    (Walde.Trace.trim line).isEmpty = true ∨
      (Walde.Trace.trim line).head? = some '#' := by
  cases noise with
  | blank blanks =>
      left
      rw [Walde.Trace.trim, Text.trim_blank blanks.whitespace]
      rfl
  | comment blanks within =>
      right
      rw [Walde.Trace.trim, Text.trim_around rfl,
        List.dropWhile_eq_nil_iff.mpr blanks.whitespace]
      rfl

end Layout

namespace TraceReader

variable {text line file : Text} {texts : List Text}

theorem readLine_noise (noise : Noise line) (reader : TraceReader) :
    (reader.readLine line).1 = none ∧
      (reader.readLine line).2.mode = reader.mode := by
  unfold readLine readTrimmed
  rw [if_pos noise.trim]
  exact ⟨rfl, rfl⟩

theorem readLine_padded (padded : Padded text line) (reader : TraceReader) :
    reader.readLine line = reader.readLine text := by
  unfold readLine
  rw [padded.trim]

theorem readLines_one (reader : TraceReader) (within : '\n' ∉ line) :
    reader.readLines (Text.lines '\n' line) = reader.readLines [line] := by
  by_cases empty : line = []
  · rw [empty]
    have noise : Noise [] := .blank (by decide)
    rw [readLines, (readLine_noise noise reader).1]
    rfl
  · rw [Text.lines_last within empty]

/-- A file is read as the texts that are spread over it. -/
theorem readLines_spread (spread : Spread texts file) (reader : TraceReader) :
    reader.readLines (Text.lines '\n' file) = reader.readLines texts := by
  induction spread generalizing reader with
  | noise noise rest induction =>
      rcases readLine_noise noise reader with ⟨nothing, same⟩
      rw [Text.lines_append noise.free, readLines, nothing, induction,
        readLines_mode same]
      rfl
  | text within padded rest induction =>
      rw [Text.lines_append (padded.free rfl within), readLines, readLines,
        readLine_padded padded, induction]
  | lastNoise noise =>
      have nothing := (readLine_noise noise reader).1
      simp [readLines_one reader noise.free, readLines, nothing]
  | lastText within padded =>
      rw [readLines_one reader (padded.free rfl within), readLines, readLines,
        readLine_padded padded]
      rfl

end TraceReader

/-! ## Renderings -/

def OpType.words : OpType → List Text
  | .get => getWords
  | .put => putWords

def Solid (key : Text) : Prop :=
  key ≠ [] ∧ ∀ char ∈ key, whitespace char = false

inductive RendersSimple : TraceOp → Text → Prop
  | keyword {op word gap} (named : toUpper word ∈ op.type.words)
      (apart : gap ≠ []) (blanks : ∀ char ∈ gap, separator char = true) :
      RendersSimple op (word ++ gap ++ op.key)
  | bare {key} (data : key.head? ≠ some '#') : RendersSimple ⟨.get, key⟩ key

def row (time op key : Text) : Text := time ++ ',' :: (op ++ ',' :: key)

inductive RendersRow : TraceOp → Text → Prop
  | row {op time word middle last} (free : ',' ∉ time)
      (named : toUpper word ∈ op.type.words) (padded : Padded word middle)
      (keyFree : ',' ∉ op.key) (keyPadded : Padded op.key last) :
      RendersRow op (row time middle last)

inductive RendersHeader : Text → Prop
  | row {first word middle last} (free : ',' ∉ first)
      (named : toLower word ∈ headerWords) (padded : Padded word middle)
      (lastFree : ',' ∉ last) (notBlank : ¬ Blanks last) :
      RendersHeader (row first middle last)

inductive Renders (ops : List TraceOp) : List Text → Prop
  | simple {texts} (records : List.Forall₂ RendersSimple ops texts)
      (first : ∀ text ∈ texts.head?, ',' ∉ text) : Renders ops texts
  | csv {header rows} (heads : RendersHeader header)
      (records : List.Forall₂ RendersRow ops rows)
      (data : ∀ text ∈ header :: rows, (trim text).head? ≠ some '#') :
      Renders ops (header :: rows)

/-! ## What the reader does with a line of data -/

def Data (trimmed : Text) : Prop :=
  trimmed ≠ [] ∧ trimmed.head? ≠ some '#'

theorem Data.kept {trimmed : Text} (data : Data trimmed) :
    ¬ (trimmed.isEmpty = true ∨ trimmed.head? = some '#') := by
  rw [List.isEmpty_iff, not_or]
  exact data

namespace TraceReader

variable {reader : TraceReader} {text : Text} {texts : List Text}
variable {op : TraceOp} {ops : List TraceOp}

theorem detectFormat_known (reader : TraceReader) (text : Text) :
    (reader.detectFormat text).2.formatKnown = true := by
  unfold detectFormat
  split <;> rfl

theorem readTrimmed_known (known : reader.formatKnown = true)
    (data : Data text) : reader.readTrimmed text = reader.parse text := by
  unfold readTrimmed
  rw [if_neg data.kept, if_pos known]

theorem readTrimmed_unknown (unknown : reader.formatKnown = false)
    (data : Data text) :
    reader.readTrimmed text = (reader.detectFormat text).2.parse text := by
  unfold readTrimmed
  rw [if_neg data.kept, if_neg (by simp [unknown])]
  dsimp only
  rw [if_pos]
  unfold detectFormat
  split <;> rfl

theorem readLine_known (known : reader.formatKnown = true)
    (data : Data (trim text)) :
    (reader.readLine text).1 = (reader.parse (trim text)).1 ∧
      (reader.readLine text).2.mode = (reader.parse (trim text)).2.mode := by
  rw [← readTrimmed_known known data]
  exact readLine_counted reader text

theorem readLines_detect (unknown : reader.formatKnown = false)
    (data : Data (trim text)) (rest : List Text) :
    reader.readLines (text :: rest) =
      (reader.detectFormat (trim text)).2.readLines (text :: rest) := by
  have counted := readLine_counted reader text
  rw [readTrimmed_unknown unknown data] at counted
  rcases readLine_known (detectFormat_known reader (trim text)) data with
    ⟨said, same⟩
  rw [readLines, readLines, said, ← counted.1,
    readLines_mode (counted.2.trans same.symm)]

theorem parse_parsed (settled : reader.format = .csv →
      reader.csvHeaderConsumed = true)
    (parsed : reader.format.parseLine text = some op) :
    (reader.parse text).1 = some op ∧
      (reader.parse text).2.mode = reader.mode := by
  unfold parse
  rw [if_neg (by
    rintro ⟨csv, unconsumed⟩
    rw [settled csv] at unconsumed
    cases unconsumed), parsed]
  exact ⟨rfl, rfl⟩

theorem parse_simple (simple : reader.format = .simple)
    (parsed : parseSimple text = some op) :
    (reader.parse text).1 = some op := by
  refine (parse_parsed (by simp [simple]) ?_).1
  rw [simple]
  exact parsed

theorem readLines_settled (known : reader.formatKnown = true)
    (settled : reader.format = .csv → reader.csvHeaderConsumed = true)
    (records : List.Forall₂ (fun op text => Data (trim text) ∧
      reader.format.parseLine (trim text) = some op) ops texts) :
    reader.readLines texts = ops := by
  induction records with
  | nil => rfl
  | cons record rest induction =>
      rcases record with ⟨data, parsed⟩
      rcases readLine_known known data with ⟨said, same⟩
      rcases parse_parsed settled parsed with ⟨found, kept⟩
      rw [readLines, said, found, readLines_mode (same.trans kept), induction]
      rfl

end TraceReader

/-! ## Keywords -/

section Keywords

variable {type : OpType} {word key : Text} {char : Char}

theorem keyword_plain (named : toUpper word ∈ type.words)
    (special : char ∈ [' ', '\t', '\r', '\n', ',', '#']) : char ∉ word := by
  intro member
  have upper : char.toUpper ∈ toUpper word := List.mem_map_of_mem member
  have outside : ∀ special ∈ [' ', '\t', '\r', '\n', ',', '#'],
      ∀ keyword ∈ type.words, special.toUpper ∉ keyword := by
    cases type <;> decide
  exact outside char special _ named upper

theorem mem_of_whitespace (isWhite : whitespace char = true) :
    char ∈ [' ', '\t', '\r', '\n', ',', '#'] := by
  simp only [whitespace, Bool.or_eq_true, beq_iff_eq] at isWhite
  rcases isWhite with ((rfl | rfl) | rfl) | rfl <;> decide

theorem whitespace_of_plain (plain : ∀ special ∈
      [' ', '\t', '\r', '\n', ',', '#'], special ∉ word) :
    ∀ char ∈ word, whitespace char = false := by
  intro char member
  by_contra isWhite
  rw [Bool.not_eq_false] at isWhite
  exact plain char (mem_of_whitespace isWhite) member

theorem keyword_whitespace (named : toUpper word ∈ type.words) :
    ∀ char ∈ word, whitespace char = false :=
  whitespace_of_plain fun _ => keyword_plain named

theorem keyword_nonempty (named : toUpper word ∈ type.words) : word ≠ [] := by
  rintro rfl
  revert named
  cases type <;> decide

theorem separator_whitespace (separates : separator char = true) :
    whitespace char = true := by
  simp only [separator, Bool.or_eq_true, beq_iff_eq] at separates
  rcases separates with rfl | rfl <;> rfl

theorem keyword_parse (named : toUpper word ∈ type.words) :
    parseOpType word = type := by
  unfold parseOpType
  cases type with
  | put => exact if_pos named
  | get =>
      refine if_neg ?_
      have apart : ∀ keyword ∈ getWords, keyword ∉ putWords := by decide
      exact apart _ named

end Keywords

/-! ## The simple format -/

section Simple

variable {op : TraceOp} {text word gap key : Text}

theorem findIdx?_solid (solid : ∀ char ∈ text, whitespace char = false) :
    text.findIdx? separator = none := by
  rw [List.findIdx?_eq_none_iff]
  intro char member
  by_contra separates
  rw [Bool.not_eq_false] at separates
  have white := separator_whitespace separates
  rw [solid char member] at white
  cases white

theorem findIdx?_separator {before after : Text} {char : Char}
    (solid : ∀ char ∈ before, whitespace char = false)
    (separates : separator char = true) :
    (before ++ char :: after).findIdx? separator = some before.length := by
  rw [List.findIdx?_append, findIdx?_solid solid, List.findIdx?_cons,
    separates]
  simp

theorem parseSimple_bare (solid : Solid key) :
    parseSimple key = some ⟨.get, key⟩ := by
  unfold parseSimple
  rw [findIdx?_solid solid.2]
  exact if_neg (by simpa using solid.1)

theorem parseSimple_keyword (named : toUpper word ∈ op.type.words)
    (apart : gap ≠ []) (blanks : ∀ char ∈ gap, separator char = true)
    (solid : Solid op.key) : parseSimple (word ++ gap ++ op.key) = some op := by
  rcases op with ⟨type, key⟩
  dsimp only at named solid ⊢
  rcases List.exists_cons_of_ne_nil apart with ⟨first, others, rfl⟩
  have found : (word ++ first :: others ++ key).findIdx? separator =
      some word.length := by
    rw [List.append_assoc, List.cons_append]
    exact findIdx?_separator (keyword_whitespace named)
      (blanks first List.mem_cons_self)
  have token : (word ++ first :: others ++ key).take word.length = word := by
    simp
  have dropped : (word ++ first :: others ++ key).drop (word.length + 1) =
      others ++ key := by
    rw [List.append_assoc, List.drop_append]
    simp
  have rest : trim (others ++ key) = key := by
    have padded : trim (others ++ key ++ []) = trim key :=
      Text.trim_pad (fun char member =>
        separator_whitespace (blanks char (List.mem_cons_of_mem _ member)))
        (by simp)
    rw [List.append_nil] at padded
    exact padded.trans (Text.trim_solid solid.2)
  unfold parseSimple
  rw [found]
  dsimp only
  rw [token, dropped, rest, findIdx?_solid solid.2]
  have nonempty : ¬ key.isEmpty = true := by simpa using solid.1
  cases type with
  | get =>
      simp only [OpType.words] at named
      rw [if_pos named, if_neg nonempty]
  | put =>
      simp only [OpType.words] at named
      have apart : ∀ keyword ∈ putWords, keyword ∉ getWords := by decide
      rw [if_neg (apart _ named), if_pos named, if_neg nonempty]

theorem RendersSimple.trim (renders : RendersSimple op text)
    (solid : Solid op.key) : Walde.Trace.trim text = text := by
  cases renders with
  | @keyword op word gap named apart blanks =>
      rcases List.exists_cons_of_ne_nil (keyword_nonempty named) with
        ⟨first, others, rfl⟩
      refine Text.trim_ends ?_ ?_
      · intro char member
        rw [List.append_assoc, List.cons_append, List.head?_cons,
          Option.mem_some_iff] at member
        exact keyword_whitespace named char (member ▸ List.mem_cons_self)
      · intro char member
        rw [List.getLast?_append_of_ne_nil _ solid.1] at member
        exact solid.2 char (List.mem_of_mem_getLast? member)
  | bare data => exact Text.trim_solid solid.2

theorem RendersSimple.data (renders : RendersSimple op text)
    (solid : Solid op.key) : Data text := by
  cases renders with
  | @keyword op word gap named apart blanks =>
      rcases List.exists_cons_of_ne_nil (keyword_nonempty named) with
        ⟨first, others, rfl⟩
      refine ⟨by simp, ?_⟩
      rw [List.append_assoc, List.cons_append, List.head?_cons, ne_eq,
        Option.some.injEq]
      rintro rfl
      exact keyword_plain named (by decide) List.mem_cons_self
  | bare data => exact ⟨solid.1, data⟩

theorem RendersSimple.parse (renders : RendersSimple op text)
    (solid : Solid op.key) : parseSimple text = some op := by
  cases renders with
  | keyword named apart blanks =>
      exact parseSimple_keyword named apart blanks solid
  | bare data => exact parseSimple_bare solid

end Simple

/-! ## The format with commas -/

section Csv

variable {op : TraceOp} {text time middle last word : Text}

theorem trim_row (time middle last : Text) :
    trim (row time middle last) =
      row (time.dropWhile whitespace) middle (last.rdropWhile whitespace) := by
  rw [row, trim, Text.trim_around rfl, Text.rdropWhile_append_solid rfl]
  rfl

theorem twoFields_row (free : ',' ∉ time) (middleFree : ',' ∉ middle) :
    twoFields (row time middle last) = some (time, middle, last) := by
  rw [twoFields, row, Text.getline_append free]
  simp only [Option.bind_eq_bind, Option.bind_some]
  rw [Text.getline_append middleFree]
  rfl

theorem csvField_row (free : ',' ∉ time) (middleFree : ',' ∉ middle)
    (nonempty : last ≠ []) :
    TraceReader.csvField (row time middle last) =
      if toLower (trim middle) ∈ headerWords ∨
          toLower (trim middle) ∈ rowWords then
        some (toLower (trim middle))
      else none := by
  have comma : ',' ∈ row time middle last := by simp [row]
  have third : Text.getline ',' last =
      some (last.takeWhile (· ≠ ','), (last.dropWhile (· ≠ ',')).tail) := by
    rw [Text.getline, if_neg (by simpa using nonempty)]
  rw [TraceReader.csvField, if_pos comma, twoFields_row free middleFree]
  simp only [Option.bind_eq_bind, Option.bind_some]
  rw [third]
  rfl

theorem parseCsv_row (free : ',' ∉ time) (middleFree : ',' ∉ middle)
    (lastFree : ',' ∉ last) (nonempty : trim last ≠ []) :
    parseCsv (row time middle last) =
      some ⟨parseOpType (trim middle), trim last⟩ := by
  have someLast : last ≠ [] := by
    rintro rfl
    exact nonempty rfl
  rw [parseCsv, twoFields_row free middleFree]
  simp only [Option.bind_eq_bind, Option.bind_some]
  rw [Text.getline_last lastFree someLast]
  exact if_neg (by simpa using nonempty)

theorem Padded.rdropWhile (solid : Solid text) (padded : Padded text last) :
    Padded text (last.rdropWhile whitespace) := by
  rcases padded with ⟨before, after, blanksBefore, blanksAfter, rfl⟩
  refine ⟨before, [], blanksBefore, by decide, ?_⟩
  rw [List.append_nil, Text.rdropWhile_blank blanksAfter.whitespace,
    List.rdropWhile_eq_self_iff]
  intro nonempty
  rw [List.getLast_append_of_ne_nil _ solid.1, Bool.not_eq_true]
  exact solid.2 _ (List.getLast_mem solid.1)

theorem not_mem_dropWhile {char : Char} (free : char ∉ text) :
    char ∉ text.dropWhile whitespace :=
  fun member => free (List.dropWhile_subset _ member)

theorem headerWord_plain {char : Char} (named : toLower word ∈ headerWords)
    (special : char ∈ [' ', '\t', '\r', '\n', ',', '#']) : char ∉ word := by
  intro member
  have lower : char.toLower ∈ toLower word := List.mem_map_of_mem member
  have outside : ∀ special ∈ [' ', '\t', '\r', '\n', ',', '#'],
      ∀ keyword ∈ headerWords, special.toLower ∉ keyword := by decide
  exact outside char special _ named lower

theorem headerWord_whitespace (named : toLower word ∈ headerWords) :
    ∀ char ∈ word, whitespace char = false :=
  whitespace_of_plain fun _ => headerWord_plain named

theorem RendersHeader.field (renders : RendersHeader text)
    (within : '\n' ∉ text) :
    ∃ word ∈ headerWords,
      TraceReader.csvField (Walde.Trace.trim text) = some word := by
  cases renders with
  | @row first word middle last free named padded lastFree notBlank =>
      have middleFree : ',' ∉ middle :=
        padded.free rfl (headerWord_plain named (by decide))
      have trimmed : Walde.Trace.trim middle = word :=
        padded.trim.trans (Text.trim_solid (headerWord_whitespace named))
      refine ⟨toLower word, named, ?_⟩
      rw [trim_row, csvField_row (not_mem_dropWhile free) middleFree ?_,
        trimmed, if_pos (Or.inl named)]
      intro empty
      rw [List.rdropWhile_eq_nil_iff] at empty
      refine notBlank fun char member => ?_
      rw [blank, empty char member, Bool.true_and, bne_iff_ne]
      rintro rfl
      exact within (by simp [Walde.Trace.row, member])

theorem RendersRow.parse (renders : RendersRow op text)
    (solid : Solid op.key) : parseCsv (Walde.Trace.trim text) = some op := by
  cases renders with
  | @row time word middle last free named padded keyFree keyPadded =>
      have inner := keyPadded.rdropWhile solid
      have key := inner.trim.trans (Text.trim_solid solid.2)
      have token := padded.trim.trans
        (Text.trim_solid (keyword_whitespace named))
      have middleFree : ',' ∉ middle :=
        padded.free rfl (keyword_plain named (by decide))
      rw [trim_row, parseCsv_row (not_mem_dropWhile free) middleFree
        (inner.free rfl keyFree) (key ▸ solid.1), key, token,
        keyword_parse named]

theorem RendersRow.nonempty (renders : RendersRow op text) :
    Walde.Trace.trim text ≠ [] := by
  cases renders with
  | row free named padded keyFree keyPadded =>
      rw [trim_row, Walde.Trace.row]
      simp

end Csv

/-! ## Whole traces -/

namespace TraceReader

variable {reader : TraceReader} {ops : List TraceOp} {texts : List Text}

theorem detectFormat_simple {text : Text} (reader : TraceReader)
    (nowhere : csvField text = none) :
    (reader.detectFormat text).2.format = .simple := by
  rw [detectFormat, nowhere]

theorem csvField_free {text : Text} (free : ',' ∉ text) :
    csvField text = none := by
  rw [csvField, if_neg free]

theorem readLines_simple (known : reader.formatKnown = true)
    (simple : reader.format = .simple)
    (records : List.Forall₂ RendersSimple ops texts)
    (keys : ∀ op ∈ ops, Solid op.key) : reader.readLines texts = ops := by
  refine readLines_settled known (by simp [simple]) ?_
  induction records with
  | nil => exact .nil
  | cons renders rest induction =>
      rw [List.forall_mem_cons] at keys
      refine .cons ?_ (induction keys.2)
      rw [renders.trim keys.1, simple]
      exact ⟨renders.data keys.1, renders.parse keys.1⟩

theorem readLines_csv (known : reader.formatKnown = true)
    (csv : reader.format = .csv) (passed : reader.csvHeaderConsumed = true)
    (records : List.Forall₂ RendersRow ops texts)
    (data : ∀ text ∈ texts, (trim text).head? ≠ some '#')
    (keys : ∀ op ∈ ops, Solid op.key) : reader.readLines texts = ops := by
  refine readLines_settled known (fun _ => passed) ?_
  induction records with
  | nil => exact .nil
  | cons renders rest induction =>
      rw [List.forall_mem_cons] at keys data
      refine .cons ⟨⟨renders.nonempty, data.1⟩, ?_⟩ (induction data.2 keys.2)
      rw [csv]
      exact renders.parse keys.1

theorem readLines_header {header : Text} (unknown : reader.formatKnown = false)
    (heads : RendersHeader header) (within : '\n' ∉ header)
    (data : (trim header).head? ≠ some '#') :
    ∃ passed : TraceReader, passed.formatKnown = true ∧
      passed.format = .csv ∧ passed.csvHeaderConsumed = true ∧
      reader.readLines (header :: texts) = passed.readLines texts := by
  rcases heads.field within with ⟨word, member, field⟩
  have known := detectFormat_known reader (trim header)
  have some : Data (trim header) := by
    refine ⟨fun empty => ?_, data⟩
    rw [empty] at field
    cases field
  have guessed : (reader.detectFormat (trim header)).2.format = .csv ∧
      (reader.detectFormat (trim header)).2.csvHeaderConsumed = false := by
    rw [detectFormat, field]
    exact ⟨rfl, by simp [member]⟩
  rw [readLines_detect unknown some]
  revert known guessed
  generalize (reader.detectFormat (trim header)).2 = detected
  intro known guessed
  have read := readLine_known known some
  rw [parse, if_pos guessed] at read
  refine ⟨(detected.readLine header).2, ?_, ?_, ?_, ?_⟩
  · exact (congrArg (·.2.1) read.2).trans known
  · exact (congrArg (·.1) read.2).trans guessed.1
  · exact congrArg (·.2.2) read.2
  · rw [readLines, read.1]
    rfl

end TraceReader

theorem Renders.readLines {ops : List TraceOp} {texts : List Text}
    (renders : Renders ops texts) (keys : ∀ op ∈ ops, Solid op.key)
    (within : ∀ text ∈ texts, '\n' ∉ text) :
    ({ stream := [] } : TraceReader).readLines texts = ops := by
  cases renders with
  | simple records first =>
      cases records with
      | nil => rfl
      | cons record rest =>
          have solid := keys _ List.mem_cons_self
          have data := record.data solid
          rw [← record.trim solid] at data
          rw [TraceReader.readLines_detect rfl data]
          refine TraceReader.readLines_simple
            (TraceReader.detectFormat_known _ _) ?_ (.cons record rest) keys
          refine TraceReader.detectFormat_simple _
            (TraceReader.csvField_free ?_)
          rw [record.trim solid]
          exact first _ rfl
  | csv heads records data =>
      rw [List.forall_mem_cons] at within data
      have unknown : ({ stream := [] } : TraceReader).formatKnown = false := rfl
      rcases TraceReader.readLines_header unknown heads within.1 data.1 with
        ⟨passed, known, csv, consumed, read⟩
      rw [read]
      exact TraceReader.readLines_csv known csv consumed records data.2 keys

theorem Spread.within {texts : List Text} {file : Text}
    (spread : Spread texts file) : ∀ text ∈ texts, '\n' ∉ text := by
  induction spread with
  | noise noise rest induction => exact induction
  | text within padded rest induction =>
      exact List.forall_mem_cons.mpr ⟨within, induction⟩
  | lastNoise noise => simp
  | lastText within padded => simpa using within

/-- **Traces are read back.** -/
theorem loadTraceFile_rendered {ops : List TraceOp} {texts : List Text}
    {file : Text} (keys : ∀ op ∈ ops, Solid op.key)
    (renders : Renders ops texts) (spread : Spread texts file) :
    loadTraceFile (some file) 0 = ops := by
  rw [loadTraceFile_eq, TraceReader.readLines_spread spread]
  exact renders.readLines keys spread.within

/-- A comment, a header with a carriage return, and a row without a line
feed. -/
theorem loadTraceFile_rendered_sample :
    loadTraceFile (some ['#', '\n', 'a', ',', 'O', 'p', ',', 'b', '\r', '\n',
      ' ', '1', ',', 's', 'e', 't', ',', ' ', 'k']) 0 =
      [⟨.put, ['k']⟩] := by
  have comment : Noise ([] ++ '#' :: []) := .comment (by decide) (by decide)
  have header : RendersHeader (row ['a'] ['O', 'p'] ['b']) :=
    .row (by decide) (by decide) (.refl _) (by decide) (by decide)
  have record : RendersRow ⟨.put, ['k']⟩ (row ['1'] ['s', 'e', 't'] [' ', 'k']) :=
    .row (by decide) (by decide) (.refl _) (by decide)
      ⟨[' '], [], by decide, by decide, rfl⟩
  have first : Padded (row ['a'] ['O', 'p'] ['b'])
      (row ['a'] ['O', 'p'] ['b', '\r']) :=
    ⟨[], ['\r'], by decide, by decide, rfl⟩
  have last : Padded (row ['1'] ['s', 'e', 't'] [' ', 'k'])
      (row [' ', '1'] ['s', 'e', 't'] [' ', 'k']) :=
    ⟨[' '], [], by decide, by decide, rfl⟩
  exact loadTraceFile_rendered (by simp [Solid]; decide)
    (.csv header (.cons record .nil) (by decide))
    (.noise comment (.text (by decide) first (.lastText (by decide) last)))

end Walde.Trace
