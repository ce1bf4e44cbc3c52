import Walde.Foundation.Text

namespace Walde.Trace

open Foundation

/-! # The trace loader

A reader of trace files that guesses the format from the first line that is not
a comment. -/

abbrev Text := List Char

inductive OpType
  | get
  | put
deriving DecidableEq, Repr

structure TraceOp where
  type : OpType
  key : Text
deriving DecidableEq, Repr

inductive TraceFormat
  | unknown
  | simple
  | csv
deriving DecidableEq, Repr

/-! ## Helpers -/

def whitespace (char : Char) : Bool :=
  char == ' ' || char == '\t' || char == '\r' || char == '\n'

def separator (char : Char) : Bool := char == ' ' || char == '\t'

def trim (text : Text) : Text := Text.trim whitespace text

/-- `std::transform` with `::toupper` -/
def toUpper (text : Text) : Text := text.map Char.toUpper

/-- `std::transform` with `::tolower` -/
def toLower (text : Text) : Text := text.map Char.toLower

def getWords : List Text :=
  [['G', 'E', 'T'], ['R', 'E', 'A', 'D']]

def putWords : List Text :=
  [['P', 'U', 'T'], ['W', 'R', 'I', 'T', 'E'], ['S', 'E', 'T'],
    ['U', 'P', 'D', 'A', 'T', 'E'], ['I', 'N', 'S', 'E', 'R', 'T']]

def headerWords : List Text :=
  [['o', 'p'], ['o', 'p', 'e', 'r', 'a', 't', 'i', 'o', 'n'],
    ['t', 'y', 'p', 'e']]

def rowWords : List Text :=
  [['g', 'e', 't'], ['p', 'u', 't'], ['r', 'e', 'a', 'd'],
    ['w', 'r', 'i', 't', 'e']]

/-- An unknown operation is a get. -/
def parseOpType (token : Text) : OpType :=
  if toUpper token ∈ putWords then .put else .get

/-! ## Lines -/

def parseSimple (line : Text) : Option TraceOp :=
  match line.findIdx? separator with
  | none => if line.isEmpty then none else some ⟨.get, line⟩
  | some spacePos =>
      let first := line.take spacePos
      let rest := trim (line.drop (spacePos + 1))
      let key := match rest.findIdx? separator with
        | some sp => rest.take sp
        | none => rest
      if toUpper first ∈ getWords then
        if rest.isEmpty then none else some ⟨.get, key⟩
      else if toUpper first ∈ putWords then
        if rest.isEmpty then none else some ⟨.put, key⟩
      else some ⟨.get, first⟩

def twoFields (line : Text) : Option (Text × Text × Text) := do
  let (f1, rest) ← Text.getline ',' line
  let (f2, rest) ← Text.getline ',' rest
  return (f1, f2, rest)

/-- The third field is read again from a second stream when there is none. -/
def parseCsv (line : Text) : Option TraceOp := do
  let (_, f2, rest) ← twoFields line
  let f3 := match Text.getline ',' rest with
    | some (f3, _) => f3
    | none => ((Text.getline '\n' rest).map (·.1)).getD []
  let key := trim f3
  if key.isEmpty then none else some ⟨parseOpType (trim f2), key⟩

/-- The switch of `next`. -/
def TraceFormat.parseLine : TraceFormat → Text → Option TraceOp
  | .simple => parseSimple
  | .csv => parseCsv
  | .unknown => fun _ => none

structure TraceReader where
  stream : Text
  format : TraceFormat := .unknown
  formatKnown : Bool := false
  csvHeaderConsumed : Bool := false
  linesRead : Nat := 0
  linesSkipped : Nat := 0
  opsParsed : Nat := 0

namespace TraceReader

/-- Whether a line has three fields, the second of which names a column of
operations or an operation. -/
def csvField (line : Text) : Option Text :=
  if ',' ∈ line then do
    let (_, f2, rest) ← twoFields line
    let _ ← Text.getline ',' rest
    let f2t := toLower (trim f2)
    if f2t ∈ headerWords ∨ f2t ∈ rowWords then some f2t else none
  else none

/-- A header will be skipped; a row of data will not. -/
def detectFormat (reader : TraceReader) (line : Text) : Bool × TraceReader :=
  match csvField line with
  | some f2t => (true, { reader with
      format := .csv
      formatKnown := true
      csvHeaderConsumed := f2t ∉ headerWords })
  | none => (true, { reader with format := .simple, formatKnown := true })

def skip (reader : TraceReader) : TraceReader :=
  { reader with linesSkipped := reader.linesSkipped + 1 }

def parse (reader : TraceReader) (line : Text) : Option TraceOp × TraceReader :=
  if reader.format = .csv ∧ reader.csvHeaderConsumed = false then
    (none, ({ reader with csvHeaderConsumed := true }).skip)
  else
    match reader.format.parseLine line with
    | some op => (some op, { reader with opsParsed := reader.opsParsed + 1 })
    | none => (none, reader.skip)

def readTrimmed (reader : TraceReader) (trimmed : Text) :
    Option TraceOp × TraceReader :=
  if trimmed.isEmpty ∨ trimmed.head? = some '#' then
    (none, reader.skip)
  else if reader.formatKnown then
    reader.parse trimmed
  else
    let (detected, reader) := reader.detectFormat trimmed
    if detected then reader.parse trimmed else (none, reader.skip)

/-- The body of the loop of `next`; it goes on when there is no operation. -/
def readLine (reader : TraceReader) (line : Text) :
    Option TraceOp × TraceReader :=
  ({ reader with linesRead := reader.linesRead + 1 } :
    TraceReader).readTrimmed (trim line)

@[simp] theorem skip_stream (reader : TraceReader) :
    reader.skip.stream = reader.stream := rfl

@[simp] theorem detectFormat_stream (reader : TraceReader) (line : Text) :
    (reader.detectFormat line).2.stream = reader.stream := by
  unfold detectFormat
  split <;> rfl

@[simp] theorem parse_stream (reader : TraceReader) (line : Text) :
    (reader.parse line).2.stream = reader.stream := by
  unfold parse
  split
  · rfl
  · split <;> rfl

@[simp] theorem readLine_stream (reader : TraceReader) (line : Text) :
    (reader.readLine line).2.stream = reader.stream := by
  unfold readLine readTrimmed
  dsimp only
  split
  · rfl
  · split
    · simp
    · split <;> simp

def next (reader : TraceReader) : Option TraceOp × TraceReader :=
  match _read : Text.getline '\n' reader.stream with
  | none => (none, reader)
  | some (line, stream) =>
      match _outcome : { reader with stream }.readLine line with
      | (some op, reader) => (some op, reader)
      | (none, reader) => reader.next
termination_by reader.stream.length
decreasing_by
  have kept := congrArg (·.2.stream) _outcome
  simp only [readLine_stream] at kept
  rw [← kept]
  exact Text.getline_shorter _read

theorem next_shorter {reader after : TraceReader} {op : TraceOp}
    (found : reader.next = (some op, after)) :
    after.stream.length < reader.stream.length := by
  fun_induction next reader with
  | case1 reader ended => cases found
  | case2 reader line stream read op' after' outcome =>
      cases found
      have kept := congrArg (·.2.stream) outcome
      simp only [readLine_stream] at kept
      rw [← kept]
      exact Text.getline_shorter read
  | case3 reader line stream read after' outcome induction =>
      have kept := congrArg (·.2.stream) outcome
      simp only [readLine_stream] at kept
      have shorter := Text.getline_shorter read
      rw [kept] at shorter
      exact (induction found).trans shorter

end TraceReader

/-! ## Whole files -/

/-- The loop of `load_trace_file`; no operations is no limit. -/
def loadLoop (maxOps : Nat) (ops : List TraceOp) (reader : TraceReader) :
    List TraceOp :=
  match _found : reader.next with
  | (none, _) => ops
  | (some op, after) =>
      let ops := ops ++ [op]
      if 0 < maxOps ∧ maxOps ≤ ops.length then ops
      else loadLoop maxOps ops after
termination_by reader.stream.length
decreasing_by exact TraceReader.next_shorter _found

/-- `none` is a file that cannot be opened. -/
def loadTraceFile (file : Option Text) (maxOps : Nat) : List TraceOp :=
  match file with
  | none => []
  | some text => loadLoop maxOps [] { stream := text }

/-! ## A file is its lines -/

namespace TraceReader

def readLines (reader : TraceReader) : List Text → List TraceOp
  | [] => []
  | line :: rest =>
      (reader.readLine line).1.toList ++ (reader.readLine line).2.readLines rest

def mode (reader : TraceReader) : TraceFormat × Bool × Bool :=
  (reader.format, reader.formatKnown, reader.csvHeaderConsumed)

section Mode

variable {reader other : TraceReader}

theorem parse_mode (same : reader.mode = other.mode) (line : Text) :
    (reader.parse line).1 = (other.parse line).1 ∧
      (reader.parse line).2.mode = (other.parse line).2.mode := by
  cases reader
  cases other
  simp only [mode, Prod.mk.injEq] at same
  rcases same with ⟨rfl, rfl, rfl⟩
  unfold parse
  dsimp only
  split
  · exact ⟨rfl, rfl⟩
  · split <;> exact ⟨rfl, rfl⟩

theorem detectFormat_mode (same : reader.mode = other.mode) (line : Text) :
    (reader.detectFormat line).1 = (other.detectFormat line).1 ∧
      (reader.detectFormat line).2.mode = (other.detectFormat line).2.mode := by
  simp only [mode, Prod.mk.injEq] at same
  unfold detectFormat
  split
  · exact ⟨rfl, rfl⟩
  · exact ⟨rfl, by simp only [mode, same.2.2]⟩

theorem readTrimmed_mode (same : reader.mode = other.mode) (trimmed : Text) :
    (reader.readTrimmed trimmed).1 = (other.readTrimmed trimmed).1 ∧
      (reader.readTrimmed trimmed).2.mode =
        (other.readTrimmed trimmed).2.mode := by
  have known : reader.formatKnown = other.formatKnown :=
    congrArg (·.2.1) same
  rcases detectFormat_mode same trimmed with ⟨detected, guessed⟩
  unfold readTrimmed
  dsimp only
  rw [known, detected]
  split
  · exact ⟨rfl, same⟩
  · split
    · exact parse_mode same trimmed
    · split
      · exact parse_mode guessed trimmed
      · exact ⟨rfl, guessed⟩

theorem readLine_counted (reader : TraceReader) (line : Text) :
    (reader.readLine line).1 = (reader.readTrimmed (trim line)).1 ∧
      (reader.readLine line).2.mode =
        (reader.readTrimmed (trim line)).2.mode := by
  have counted : ({ reader with linesRead := reader.linesRead + 1 } :
      TraceReader).mode = reader.mode := rfl
  exact readTrimmed_mode counted (trim line)

theorem readLine_mode (same : reader.mode = other.mode) (line : Text) :
    (reader.readLine line).1 = (other.readLine line).1 ∧
      (reader.readLine line).2.mode = (other.readLine line).2.mode := by
  rcases readTrimmed_mode same (trim line) with ⟨said, after⟩
  rcases readLine_counted reader line with ⟨first, firstAfter⟩
  rcases readLine_counted other line with ⟨second, secondAfter⟩
  exact ⟨first.trans (said.trans second.symm),
    firstAfter.trans (after.trans secondAfter.symm)⟩

theorem readLines_mode (same : reader.mode = other.mode) (lines : List Text) :
    reader.readLines lines = other.readLines lines := by
  induction lines generalizing reader other with
  | nil => rfl
  | cons line rest induction =>
      rcases readLine_mode same line with ⟨said, after⟩
      rw [readLines, readLines, said, induction after]

end Mode

theorem readLines_cons {reader after : TraceReader} {line stream : Text}
    {said : Option TraceOp}
    (outcome : ({ reader with stream } : TraceReader).readLine line =
      (said, after)) :
    reader.readLines (line :: Text.lines '\n' stream) =
      said.toList ++ after.readLines (Text.lines '\n' after.stream) := by
  have kept := congrArg (·.2.stream) outcome
  simp only [readLine_stream] at kept
  have unmoved : reader.mode = ({ reader with stream } : TraceReader).mode :=
    rfl
  rcases readLine_mode unmoved line with ⟨same, after'⟩
  rw [outcome] at same after'
  rw [readLines, same, readLines_mode after', kept]

/-- Reading the next operation passes over the lines that hold none. -/
theorem readLines_next (reader : TraceReader) :
    reader.readLines (Text.lines '\n' reader.stream) =
      match reader.next with
      | (none, _) => []
      | (some op, after) =>
          op :: after.readLines (Text.lines '\n' after.stream) := by
  fun_induction next reader with
  | case1 reader ended => rw [Text.lines_eq, ended]; rfl
  | case2 reader line stream read op after outcome =>
      rw [Text.lines_eq, read]
      exact readLines_cons outcome
  | case3 reader line stream read after outcome induction =>
      rw [← induction, Text.lines_eq, read]
      exact readLines_cons outcome

end TraceReader

theorem loadLoop_eq (ops : List TraceOp) (reader : TraceReader) :
    loadLoop 0 ops reader =
      ops ++ reader.readLines (Text.lines '\n' reader.stream) := by
  fun_induction loadLoop 0 ops reader with
  | case1 ops reader after found =>
      rw [TraceReader.readLines_next, found, List.append_nil]
  | case2 ops reader op after found more limit => omega
  | case3 ops reader op after found more limit induction =>
      rw [induction, TraceReader.readLines_next reader, found]
      simp [more]

theorem loadTraceFile_eq (text : Text) :
    loadTraceFile (some text) 0 =
      ({ stream := [] } : TraceReader).readLines (Text.lines '\n' text) := by
  have unmoved : ({ stream := text } : TraceReader).mode =
      ({ stream := [] } : TraceReader).mode := rfl
  rw [loadTraceFile, loadLoop_eq, List.nil_append,
    TraceReader.readLines_mode unmoved]

theorem loadLoop_limit {maxOps : Nat} {ops : List TraceOp}
    (short : ops.length < maxOps) (reader : TraceReader) :
    loadLoop maxOps ops reader =
      (ops ++ reader.readLines (Text.lines '\n' reader.stream)).take maxOps := by
  fun_induction loadLoop maxOps ops reader with
  | case1 ops reader after found =>
      rw [TraceReader.readLines_next, found, List.append_nil,
        List.take_of_length_le short.le]
  | case2 ops reader op after found more limit =>
      have full : maxOps = more.length := by
        simp only [more, List.length_append, List.length_singleton] at limit ⊢
        omega
      rw [TraceReader.readLines_next, found, full]
      dsimp only
      rw [List.append_cons]
      exact List.take_left.symm
  | case3 ops reader op after found more limit induction =>
      rw [induction (by omega), TraceReader.readLines_next reader, found]
      simp [more]

theorem loadTraceFile_limit {maxOps : Nat} (positive : 0 < maxOps)
    (text : Text) :
    loadTraceFile (some text) maxOps =
      (loadTraceFile (some text) 0).take maxOps := by
  rw [loadTraceFile, loadTraceFile, loadLoop_limit positive, loadLoop_eq]

theorem loadTraceFile_congr {text other : Text} (maxOps : Nat)
    (same : loadTraceFile (some text) 0 = loadTraceFile (some other) 0) :
    loadTraceFile (some text) maxOps = loadTraceFile (some other) maxOps := by
  rcases Nat.eq_zero_or_pos maxOps with rfl | positive
  · exact same
  · rw [loadTraceFile_limit positive, loadTraceFile_limit positive, same]

theorem loadTraceFile_head (maxOps : Nat) (text : Text) :
    (loadTraceFile (some text) maxOps).head? =
      (loadTraceFile (some text) 0).head? := by
  rcases Nat.eq_zero_or_pos maxOps with rfl | positive
  · rfl
  · rw [loadTraceFile_limit positive, List.head?_take, if_neg positive.ne']

end Walde.Trace
