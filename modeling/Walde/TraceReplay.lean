import Walde.ReplayedWorkloads
import Walde.TraceLoader

namespace Walde

open Foundation

/-! # Replays of traces

What a reader counts, how its operations are streamed, and what they find in a
backend with their keys. -/

namespace Trace

/-! ## Counts of a reader -/

def firstOps : Nat → TraceReader → List TraceOp × TraceReader
  | 0, reader => ([], reader)
  | count + 1, reader =>
      match reader.next with
      | (none, after) => ([], after)
      | (some op, after) =>
          let (ops, last) := firstOps count after
          (op :: ops, last)

namespace TraceReader

structure Counts (lines ops : Nat) (reader after : TraceReader) : Prop where
  linesRead : after.linesRead = reader.linesRead + lines
  opsParsed : after.opsParsed = reader.opsParsed + ops
  linesSkipped : after.linesSkipped + ops = reader.linesSkipped + lines

section Counts

variable {reader middle after : TraceReader} {line : Text}

theorem Counts.refl (reader : TraceReader) : Counts 0 0 reader reader :=
  ⟨rfl, rfl, rfl⟩

theorem Counts.trans {lines ops lines' ops' : Nat}
    (counts : Counts lines ops reader middle)
    (counts' : Counts lines' ops' middle after) :
    Counts (lines + lines') (ops + ops') reader after where
  linesRead := by rw [counts'.linesRead, counts.linesRead, Nat.add_assoc]
  opsParsed := by rw [counts'.opsParsed, counts.opsParsed, Nat.add_assoc]
  linesSkipped := by
    have first := counts.linesSkipped
    have second := counts'.linesSkipped
    omega

structure Tells (reader : TraceReader)
    (outcome : Option TraceOp × TraceReader) : Prop where
  linesRead : outcome.2.linesRead = reader.linesRead
  opsParsed : outcome.2.opsParsed =
    reader.opsParsed + outcome.1.toList.length
  linesSkipped : outcome.2.linesSkipped + outcome.1.toList.length =
    reader.linesSkipped + 1

theorem skip_tells (reader : TraceReader) : reader.Tells (none, reader.skip) :=
  ⟨rfl, rfl, rfl⟩

theorem parse_tells (reader : TraceReader) (line : Text) :
    reader.Tells (reader.parse line) := by
  unfold parse
  split
  · exact ⟨rfl, rfl, rfl⟩
  · split <;> exact ⟨rfl, rfl, rfl⟩

theorem detectFormat_counters (reader : TraceReader) (line : Text) :
    (reader.detectFormat line).2.linesRead = reader.linesRead ∧
      (reader.detectFormat line).2.opsParsed = reader.opsParsed ∧
      (reader.detectFormat line).2.linesSkipped = reader.linesSkipped := by
  unfold detectFormat
  split <;> exact ⟨rfl, rfl, rfl⟩

theorem readTrimmed_tells (reader : TraceReader) (trimmed : Text) :
    reader.Tells (reader.readTrimmed trimmed) := by
  rcases reader.detectFormat_counters trimmed with
    ⟨linesRead, opsParsed, linesSkipped⟩
  have parsed := parse_tells (reader.detectFormat trimmed).2 trimmed
  have skipped := skip_tells (reader.detectFormat trimmed).2
  unfold readTrimmed
  dsimp only
  split
  · exact skip_tells reader
  · split
    · exact parse_tells reader trimmed
    · split
      · exact ⟨parsed.linesRead.trans linesRead, opsParsed ▸ parsed.opsParsed,
          linesSkipped ▸ parsed.linesSkipped⟩
      · exact ⟨skipped.linesRead.trans linesRead,
          opsParsed ▸ skipped.opsParsed, linesSkipped ▸ skipped.linesSkipped⟩

theorem readLine_counts (reader : TraceReader) (line : Text) :
    Counts 1 (reader.readLine line).1.toList.length reader
      (reader.readLine line).2 := by
  have tells := readTrimmed_tells
    { reader with linesRead := reader.linesRead + 1 } (trim line)
  exact ⟨tells.linesRead, tells.opsParsed, tells.linesSkipped⟩

theorem next_counts (reader : TraceReader) :
    ∃ read, (Text.lines '\n' reader.stream).length =
        read + (Text.lines '\n' reader.next.2.stream).length ∧
      Counts read reader.next.1.toList.length reader reader.next.2 := by
  fun_induction next reader with
  | case1 reader ended =>
      exact ⟨0, (Nat.zero_add _).symm, .refl reader⟩
  | case2 reader line stream read op after outcome =>
      have counts := readLine_counts { reader with stream } line
      have kept := readLine_stream { reader with stream } line
      rw [outcome] at counts kept
      refine ⟨1, ?_, counts.linesRead, counts.opsParsed, counts.linesSkipped⟩
      rw [Text.lines_eq, read, kept]
      exact Nat.add_comm _ _
  | case3 reader line stream read after outcome induction =>
      have counts := readLine_counts { reader with stream } line
      have kept := readLine_stream { reader with stream } line
      rw [outcome] at counts kept
      rcases induction with ⟨more, lines, later⟩
      have here : Counts 1 0 reader after :=
        ⟨counts.linesRead, counts.opsParsed, counts.linesSkipped⟩
      have both := here.trans later
      rw [Nat.zero_add] at both
      refine ⟨1 + more, ?_, both⟩
      rw [Text.lines_eq, read, Nat.add_assoc, ← lines, kept]
      exact Nat.add_comm _ _

theorem next_ended (reader : TraceReader) (ended : reader.next.1 = none) :
    reader.next.2.stream = [] := by
  fun_induction next reader with
  | case1 reader read =>
      rw [Text.getline] at read
      split at read
      · exact List.isEmpty_iff.mp ‹_›
      · cases read
  | case2 reader line stream read op after outcome => cases ended
  | case3 reader line stream read after outcome induction =>
      exact induction ended

theorem firstOps_counts (count : Nat) (reader : TraceReader) :
    (firstOps count reader).1 =
        (reader.readLines (Text.lines '\n' reader.stream)).take count ∧
      (∃ read, (Text.lines '\n' reader.stream).length = read +
          (Text.lines '\n' (firstOps count reader).2.stream).length ∧
        Counts read (firstOps count reader).1.length reader
          (firstOps count reader).2) ∧
      ((firstOps count reader).1.length < count →
        (firstOps count reader).2.stream = []) := by
  induction count generalizing reader with
  | zero => exact ⟨rfl, ⟨0, (Nat.zero_add _).symm, .refl reader⟩, nofun⟩
  | succ count induction =>
      have counts := next_counts reader
      have ended := next_ended reader
      rw [firstOps, readLines_next]
      cases found : reader.next with
      | mk said after =>
          rw [found] at counts ended
          cases said with
          | none => exact ⟨rfl, counts, fun _ => ended rfl⟩
          | some op =>
              rcases counts with ⟨read, lines, here⟩
              rcases induction after with
                ⟨ops, ⟨more, linesAfter, later⟩, endedLater⟩
              refine ⟨congrArg (op :: ·) ops, ⟨read + more, ?_, ?_⟩, ?_⟩
              · rw [lines, linesAfter, Nat.add_assoc]
              · have both := here.trans later
                rw [Nat.add_comm (Option.toList _).length] at both
                exact both
              · intro short
                exact endedLater (Nat.lt_of_succ_lt_succ short)

end Counts

end TraceReader

/-- Wherever a reader of a file is, it has read the lines that are gone from the
stream, each of them was skipped or made one of the operations, and it stops
short of a number of operations only at the end of the file. -/
theorem reader_counts (text : Text) (count : Nat) :
    let ops := (firstOps count { stream := text }).1
    let reader := (firstOps count { stream := text }).2
    ops = (loadTraceFile (some text) 0).take count ∧
      reader.opsParsed = ops.length ∧
      reader.linesRead + (Text.lines '\n' reader.stream).length =
        (Text.lines '\n' text).length ∧
      reader.linesSkipped + reader.opsParsed = reader.linesRead ∧
      (ops.length < count → reader.stream = []) := by
  rcases TraceReader.firstOps_counts count { stream := text } with
    ⟨ops, ⟨read, lines, counts⟩, ended⟩
  have unmoved : ({ stream := text } : TraceReader).mode =
      ({ stream := [] } : TraceReader).mode := rfl
  refine ⟨?_, ?_, ?_, ?_, ended⟩
  · rw [ops, loadTraceFile_eq, TraceReader.readLines_mode unmoved]
  · exact counts.opsParsed.trans (Nat.zero_add _)
  · rw [counts.linesRead, Nat.zero_add, ← lines]
  · have skipped := counts.linesSkipped
    rw [counts.opsParsed, counts.linesRead, Nat.zero_add]
    exact skipped

/-! ## Streams -/

section Stream

variable {σ : Type} (fn : σ → TraceOp → σ)

/-- The loop of `stream_trace_file`, with all that the callback can change. -/
def streamLoop (maxOps count : Nat) (state : σ) (reader : TraceReader) :
    Nat × σ :=
  match _found : reader.next with
  | (none, _) => (count, state)
  | (some op, after) =>
      let state := fn state op
      let count := count + 1
      if 0 < maxOps ∧ maxOps ≤ count then (count, state)
      else streamLoop maxOps count state after
termination_by reader.stream.length
decreasing_by exact TraceReader.next_shorter _found

def streamTraceFile (file : Option Text) (maxOps : Nat) (state : σ) : Nat × σ :=
  match file with
  | none => (0, state)
  | some text => streamLoop fn maxOps 0 state { stream := text }

theorem streamLoop_eq (maxOps : Nat) (ops : List TraceOp) (state : σ)
    (reader : TraceReader) :
    streamLoop fn maxOps ops.length (ops.foldl fn state) reader =
      ((loadLoop maxOps ops reader).length,
        (loadLoop maxOps ops reader).foldl fn state) := by
  fun_induction loadLoop maxOps ops reader with
  | case1 ops reader after found =>
      rw [streamLoop]
      split
      · rfl
      · rename_i op after' other
        rw [found] at other
        cases other
  | case2 ops reader op after found more limit =>
      rw [streamLoop]
      split
      · rename_i after' other
        rw [found] at other
        cases other
      · rename_i op' after' other
        rw [found] at other
        cases other
        have length : more.length = ops.length + 1 := List.length_append
        rw [length] at limit
        rw [if_pos limit, length, List.foldl_append]
        rfl
  | case3 ops reader op after found more limit induction =>
      rw [streamLoop]
      split
      · rename_i after' other
        rw [found] at other
        cases other
      · rename_i op' after' other
        rw [found] at other
        cases other
        have length : more.length = ops.length + 1 := List.length_append
        rw [length] at limit
        rw [if_neg limit, ← induction, length, List.foldl_append]
        rfl

/-- The callback sees the operations that would be loaded, in this order. -/
theorem streamTraceFile_eq (file : Option Text) (maxOps : Nat) (state : σ) :
    streamTraceFile fn file maxOps state =
      ((loadTraceFile file maxOps).length,
        (loadTraceFile file maxOps).foldl fn state) := by
  cases file with
  | none => rfl
  | some text => exact streamLoop_eq fn maxOps [] state { stream := text }

end Stream

/-! ## From a file to the counters -/

/-- A put carries its position in the trace. -/
def toBenchOps (traceOps : List TraceOp) : List BenchOp :=
  traceOps.zipIdx.map fun (top, seq) =>
    match top.type with
    | .put => {
        type := .put
        key := .ofList top.key
        value := "trace_val_" ++ toString seq }
    | .get => { type := .get, key := .ofList top.key }

def loadTraceAsBenchOps (file : Option Text) (maxOps : Nat) : List BenchOp :=
  toBenchOps (loadTraceFile file maxOps)

theorem toBenchOps_type {traceOps : List TraceOp} {op : BenchOp}
    (member : op ∈ toBenchOps traceOps) : op.type ≠ .rmw := by
  rcases List.mem_map.mp member with ⟨⟨⟨type, key⟩, seq⟩, -, rfl⟩
  cases type <;> nofun

/-- A trace is replayed against a backend that was filled with its keys, which a
set lists once each and in any order. Every get of the trace is then rescued by
L1, by L2 or by the backend. -/
theorem traced_found {file : Option Text} {maxOps : Nat} {keys : List Key}
    (unique : ∀ key, key ∈ keys ↔
      key ∈ (loadTraceAsBenchOps file maxOps).map BenchOp.key)
    {xx : XxHash} {warmup capacity : Nat}
    (run : WaldeRun xx (loadTraceAsBenchOps file maxOps) warmup capacity
      (makeTraceBackend keys)) :
    (∀ outcome ∈ run.measured, outcome.op.type = .get →
        outcome.path ≠ .miss) ∧
      run.took .l1Hit + run.took .l2Hit + run.took .backendHit =
        (measuredOps (loadTraceAsBenchOps file maxOps) warmup).countP
          fun op => op.type = .get := by
  have inTrace : ∀ outcome ∈ run.measured,
      outcome.op ∈ loadTraceAsBenchOps file maxOps := by
    intro outcome member
    rcases List.append_of_mem member with ⟨before, after, split⟩
    rcases run.past_prefix split with ⟨rest, whole⟩
    rw [whole]
    simp
  have found : ∀ outcome ∈ run.measured, outcome.op.isRead = true →
      outcome.path ≠ .miss := by
    intro outcome member read
    rcases List.append_of_mem member with ⟨before, after, split⟩
    rw [run.found_iff split read, makeTraceBackend_lookup]
    exact .inl ((unique _).mpr (List.mem_map_of_mem (inTrace outcome member)))
  constructor
  · intro outcome member get
    apply found outcome member
    rw [BenchOp.isRead, get]
    rfl
  · rw [run.took_of_found found, run.reads_eq, ← (run.answers).1,
      List.countP_map]
    apply List.countP_congr
    intro outcome member
    have plain := toBenchOps_type (inTrace outcome member)
    rw [Function.comp_apply, BenchOp.isRead]
    cases type : outcome.op.type with
    | rmw => exact absurd type plain
    | _ => simp

theorem traced_found_sample :
    ∃ run : WaldeRun .sample
        (loadTraceAsBenchOps (some "PUT a\nGET b\nGET a".toList) 0) 1 192
        (makeTraceBackend ["b", "a"]),
      run.measured.map Measured.path = [.backendHit, .l1Hit] ∧
      (∀ outcome ∈ run.measured, outcome.op.type = .get →
        outcome.path ≠ .miss) := by
  have loaded : loadTraceAsBenchOps (some "PUT a\nGET b\nGET a".toList) 0 =
      [⟨.put, "a", "trace_val_0"⟩, ⟨.get, "b", ""⟩, ⟨.get, "a", ""⟩] := by
    rw [loadTraceAsBenchOps, loadTraceFile_eq]
    decide +kernel
  have completes : BenchRun.attempt .sample (.compared 192)
      (makeTraceBackend ["b", "a"])
      [.enter () (.warmUp ⟨.put, "a", "trace_val_0"⟩), .perform (),
        .perform (), .leave ()]
      [.enter () (.measured ⟨.get, "b", ""⟩), .perform (), .perform (),
        .background, .perform (), .perform (), .leave (),
        .enter () (.measured ⟨.get, "a", ""⟩), .perform (), .leave ()] =
      some [⟨⟨.get, "b", ""⟩, .backendHit⟩, ⟨⟨.get, "a", ""⟩, .l1Hit⟩] := by
    decide +kernel
  rcases WaldeRun.of_attempt
    (loadTraceAsBenchOps (some "PUT a\nGET b\nGET a".toList) 0) 1 completes
    (by rw [loaded]; rfl) (by rw [loaded]; rfl) with ⟨run, measured⟩
  refine ⟨run, by rw [measured]; rfl, (traced_found ?_ run).1⟩
  intro key
  rw [loaded]
  simp [or_comm]

end Trace

end Walde
