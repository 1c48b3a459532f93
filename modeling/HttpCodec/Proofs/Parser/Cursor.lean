import HttpCodec.Proofs.Chunk.Grammar
import HttpCodec.Proofs.Parser.Report

set_option autoImplicit false

/-! # A parser over a buffer

What a parser has not read can be kept as a buffer with an offset: during a call only the offset
moves, and what lies before it is dropped when the call ends. A `Cursor` is a parser laid out like
this. Its elements are looked for at the offset. Its calls go on until a step asks for more data, and
since this leaves open whether they end, they are given a number of steps that may not suffice
(`Cursor.run`). The main statement is that a step of a cursor is the step of the parser that has not
read what follows the offset (`Cursor.step_matches`).
-/

namespace HttpCodec.Parser

/-- A parser that keeps what it has not read behind an offset in a buffer. -/
structure Cursor where
  options : Options
  phase : Phase
  draft : Draft
  /-- What has arrived. -/
  buffer : Octets
  /-- How much of the buffer has been read. -/
  offset : Nat
  error : Option ParseError
  completed : Nat

namespace Cursor

/-- The parser that has not read what follows the offset. -/
def parser (c : Cursor) : Parser where
  options := c.options
  phase := c.phase
  draft := c.draft
  unread := c.buffer.drop c.offset
  error := c.error
  completed := c.completed

/-- A cursor that has read nothing. -/
def new (options : Options) : Cursor where
  options
  phase := .awaitStartLine
  draft := options.noDraft
  buffer := []
  offset := 0
  error := none
  completed := 0

/-- Begins the next message at the offset. -/
def next (c : Cursor) : Cursor :=
  { c with phase := .awaitStartLine, draft := c.options.noDraft }

/-- Begins anew, with nothing in the buffer and without the error. -/
def reset (c : Cursor) : Cursor := { c with buffer := [], offset := 0, error := none }.next

/-- Stops at an error and clears the buffer. -/
def fail (c : Cursor) (cause : ParseError) : Cursor :=
  { c with phase := .failed, buffer := [], offset := 0, error := some cause }

/-! ## Steps -/

/-- The outcome of a step. -/
inductive Move where
  | wait
  | next (events : List Event) (cursor : Cursor)
  | reject (events : List Event) (cursor : Cursor) (cause : ParseError)
  | interrupt (cursor : Cursor) (cause : Decimal.Error)

/-- The cursor with all of a parser but what that has not read. -/
def put (c : Cursor) (p : Parser) : Cursor :=
  { c with
    options := p.options
    phase := p.phase
    draft := p.draft
    error := p.error
    completed := p.completed }

/-- A step that looks at nothing in the buffer. -/
def still (c : Cursor) : Step → Move
  | .wait => .wait
  | .next events p => .next events (c.put p)
  | .reject events p cause => .reject events (c.put p) cause
  | .interrupt p cause => .interrupt (c.put p) cause

/-- Looks for a line at the offset, moves the offset behind it and goes on with the line. -/
def withLine (c : Cursor) (limit : Int) (tooLong : Int → ParseError)
    (unended : Line.Error → ParseError) (go : Octets → Cursor → Move) : Move :=
  match Line.scanAt c.buffer c.offset limit with
  | .error (.tooLong n) => .reject [] c (tooLong n)
  | .error cause => .reject [] c (unended cause)
  | .ok none => .wait
  | .ok (some (line, stop)) => go line { c with offset := stop }

/-- Reads a start line. -/
def readStartLine (c : Cursor) : Move :=
  c.withLine c.options.limits.startLine .startLineTooLong .startLineUnended fun line c =>
    if line.isEmpty then .next [] c
    else
      match StartLine.read c.options.kind (Latin.decode line) with
      | .error cause => .reject [] c (.startLine cause)
      | .ok start =>
          .next [.start start]
            { c with phase := .awaitHeaders, draft := { c.draft with line := some start } }

/-- Reads a field line, or the empty line after the last field. -/
def readField (c : Cursor) (part : Part) : Move :=
  c.withLine c.options.limits.headerLine .fieldTooLong .fieldUnended fun line c =>
    if line.isEmpty then c.still (c.parser.endPart part)
    else
      match fieldOf c.options.limits (c.draft.fields part) line with
      | .error cause => .reject [] c cause
      | .ok f =>
          .next [.field part f]
            { c with draft := c.draft.setFields ((c.draft.fields part).append f) part }

/-- What has arrived of the next `n` octets. -/
def arrived (c : Cursor) (n : Nat) : Octets :=
  (c.buffer.drop c.offset).take (min (c.buffer.length - c.offset) n)

/-- Moves the offset behind what has arrived of the next `n` octets. -/
def skip (c : Cursor) (n : Nat) : Cursor :=
  { c with offset := c.offset + min (c.buffer.length - c.offset) n }

/-- Reads what has arrived of a body of declared length. -/
def readCounted (c : Cursor) : Move :=
  if c.buffer.length ≤ c.offset then .wait
  else
    let data := c.arrived c.draft.remaining
    let remaining := c.draft.remaining - data.length
    let body := if c.options.streaming then c.draft.body else c.draft.body ++ data
    let events : List Event :=
      if c.options.streaming then [.body data]
      else if remaining = 0 then [.body body]
      else []
    let d : Cursor := { c.skip c.draft.remaining with draft := { c.draft with remaining, body } }
    if remaining = 0 then d.still (d.parser.finish events) else .next events d

/-- Reads a whole chunk. -/
def readChunk (c : Cursor) : Move :=
  match Chunk.takeAt c.buffer c.offset c.options.limits.chunkLine with
  | .error cause => .reject [] c (.chunk cause)
  | .ok none => .wait
  | .ok (some (payload, span)) =>
      let d : Cursor := { c with offset := c.offset + span }
      if payload.isEmpty then .next [] { d with phase := .awaitTrailers }
      else .next [.body payload] { d with draft := { d.draft with body := d.draft.body ++ payload } }

/-- Reads what has arrived of a chunk: its size line, its data, or its end. -/
def readChunkPiece (c : Cursor) : Move :=
  if 0 < c.draft.remaining then
    if c.buffer.length ≤ c.offset then .wait
    else
      let data := c.arrived c.draft.remaining
      .next [.body data]
        { c.skip c.draft.remaining with
          draft := { c.draft with remaining := c.draft.remaining - data.length } }
  else if c.draft.inChunk then
    match Chunk.hasEndAt c.buffer c.offset with
    | .error cause => .reject [] c (.chunk cause)
    | .ok false => .wait
    | .ok true =>
        .next [] { c with offset := c.offset + 2, draft := { c.draft with inChunk := false } }
  else
    match Chunk.takeSizeAt c.buffer c.offset c.options.limits.chunkLine with
    | .error cause => .reject [] c (.chunk cause)
    | .ok none => .wait
    | .ok (some (n, start)) =>
        let d : Cursor := { c with offset := start }
        if n = 0 then .next [] { d with phase := .awaitTrailers }
        else .next [] { d with draft := { d.draft with remaining := n, inChunk := true } }

/-- Reads what has arrived of a body that goes on until the input ends. -/
def readRest (c : Cursor) : Move :=
  if c.buffer.length ≤ c.offset then .wait
  else
    let data := c.buffer.drop c.offset
    let d : Cursor := { c with offset := c.buffer.length }
    if c.options.streaming then .next [.body data] d
    else .next [] { d with draft := { d.draft with body := d.draft.body ++ data } }

/-- Reads one element at the offset. -/
def step (c : Cursor) : Move :=
  match c.phase with
  | .awaitStartLine => c.readStartLine
  | .awaitHeaders => c.readField .header
  | .awaitBody =>
      match c.draft.framing with
      | some .lengthKnown => c.readCounted
      | some .chunked => if c.options.streaming then c.readChunkPiece else c.readChunk
      | _ => c.readRest
  | .awaitTrailers => c.readField .trailer
  | .done => if c.offset < c.buffer.length then .next [] c.next else .wait
  | .failed => .wait

/-! ## Calls -/

/-- What came of a call. -/
structure Run where
  cursor : Cursor
  events : List Event
  interruption : Option Interruption := none

/-- Makes steps as long as they go on, at most `n`. There is no run if these do not suffice. -/
def run : Nat → Cursor → Option Run
  | 0, _ => none
  | n + 1, c =>
      match c.step with
      | .wait => some { cursor := c, events := [] }
      | .next events d => do
          let r ← run n d
          return { r with events := events ++ r.events }
      | .reject events d cause =>
          some { cursor := d.fail cause, events := events ++ [.error cause] }
      | .interrupt d cause =>
          some { cursor := d, events := [], interruption := some (.unreadable cause) }

/-- Drops what has been read. -/
def trim (c : Cursor) : Cursor := { c with buffer := c.buffer.drop c.offset, offset := 0 }

/-- The cursor with more data at the end of the buffer. -/
def supply (c : Cursor) (block : Octets) : Cursor := { c with buffer := c.buffer ++ block }

/-- Takes a block of data, with at most `n` steps. An interruption leaves the offset where it is. -/
def feed (c : Cursor) (block : Octets) (n : Nat) : Option Run :=
  if c.phase = .failed then
    some { cursor := c, events := [], interruption := some (.failed c.error) }
  else do
    let r ← (c.supply block).run n
    return if r.interruption.isSome then { r with events := [] }
      else { r with cursor := r.cursor.trim }

/-- The run in which the message is completed, after the given events. -/
def conclude (c : Cursor) (events : List Event) : Run :=
  match c.still (c.parser.finish events) with
  | .next events d => { cursor := d, events }
  | .reject events d cause => { cursor := d.fail cause, events := events ++ [.error cause] }
  | _ => { cursor := c, events }

/-- Takes the end of the input. -/
def close (c : Cursor) : Run :=
  match c.phase with
  | .done | .failed => { cursor := c, events := [] }
  | phase =>
      if phase = .awaitStartLine ∧ c.buffer.length ≤ c.offset then { cursor := c, events := [] }
      else if phase = .awaitBody ∧ c.draft.framing = some .untilClose then
        if c.draft.body.isEmpty || c.options.streaming then c.conclude []
        else c.conclude [.body c.draft.body]
      else { cursor := c.fail (.endOfStream phase), events := [.error (.endOfStream phase)] }

end Cursor

/-! ## Steps that look at nothing -/

/-- The step leaves the given data to read. -/
def Step.Leaves (rest : Octets) : Step → Prop
  | .wait => True
  | .next _ p | .reject _ p _ | .interrupt p _ => p.unread = rest

theorem leaves_finish (p : Parser) (es : List Event) : (p.finish es).Leaves p.unread := by
  unfold finish
  cases p.message <;> exact rfl

theorem leaves_endPart (p : Parser) (part : Part) : (p.endPart part).Leaves p.unread := by
  cases part with
  | trailer => exact leaves_finish p []
  | header =>
      unfold endPart endHeaders
      cases p.draft.line with
      | none => exact rfl
      | some line =>
          simp only
          cases Framing.decide line p.draft.headers with
          | empty => exact leaves_finish p []
          | _ => exact rfl

namespace Cursor

/-! ## A step of a cursor is one of its parser -/

variable {c d : Cursor} {rest : Octets}

/-- The buffer stays, and the offset stays within it. -/
structure Stays (c d : Cursor) : Prop where
  buffer : d.buffer = c.buffer
  offset_le : d.offset ≤ d.buffer.length

/-- A move of a cursor and a step of a parser: the same outcome, with the buffer that `c` has. -/
inductive Move.Matches (c : Cursor) : Move → Step → Prop where
  | wait : Matches c .wait .wait
  | next {es : List Event} {d : Cursor} (h : Stays c d) : Matches c (.next es d) (.next es d.parser)
  | reject {es : List Event} {d : Cursor} {cause : ParseError} (h : Stays c d) :
      Matches c (.reject es d cause) (.reject es d.parser cause)
  | interrupt {d : Cursor} {cause : Decimal.Error} (h : Stays c d) :
      Matches c (.interrupt d cause) (.interrupt d.parser cause)

@[simp] theorem parser_options (c : Cursor) : c.parser.options = c.options := rfl
@[simp] theorem parser_phase (c : Cursor) : c.parser.phase = c.phase := rfl
@[simp] theorem parser_draft (c : Cursor) : c.parser.draft = c.draft := rfl

theorem parser_unread (c : Cursor) : c.parser.unread = c.buffer.drop c.offset := rfl

theorem stays_self (h : c.offset ≤ c.buffer.length) : Stays c c := ⟨rfl, h⟩

theorem length_unread (c : Cursor) : c.parser.unread.length = c.buffer.length - c.offset :=
  List.length_drop

theorem isEmpty_unread (c : Cursor) :
    c.parser.unread.isEmpty = decide (c.buffer.length ≤ c.offset) := by
  rw [Bool.eq_iff_iff, List.isEmpty_iff, decide_eq_true_iff]
  exact List.drop_eq_nil_iff

/-- Moving the offset leaves what follows it. -/
theorem parser_move {n : Nat} (h : c.buffer.drop n = rest) :
    ({ c with offset := n } : Cursor).parser = c.parser.leave rest := by
  rw [← h]
  rfl

/-- Moving the offset behind what is in front of a rest leaves the rest. -/
theorem parser_of_suffix (h : rest <:+ c.buffer.drop c.offset) :
    ({ c with offset := c.buffer.length - rest.length } : Cursor).parser = c.parser.leave rest :=
  parser_move (List.suffix_iff_eq_drop.mp (h.trans (List.drop_suffix _ _))).symm

theorem parser_put {p : Parser} (h : p.unread = c.parser.unread) : (c.put p).parser = p := by
  show p.leave c.parser.unread = p
  rw [← h]
  rfl

theorem still_matches {s : Step} (h : Stays c d) (hs : s.Leaves d.parser.unread) :
    (d.still s).Matches c s := by
  have hput : ∀ p, Stays c (d.put p) := fun p => ⟨h.buffer, h.offset_le⟩
  cases s with
  | wait => exact .wait
  | next es p =>
      have hmove : (Move.next es (d.put p)).Matches c _ := .next (hput p)
      rwa [parser_put hs] at hmove
  | reject es p cause =>
      have hmove : (Move.reject es (d.put p) cause).Matches c _ := .reject (hput p)
      rwa [parser_put hs] at hmove
  | interrupt p cause =>
      have hmove : (Move.interrupt (d.put p) cause).Matches c _ := .interrupt (hput p)
      rwa [parser_put hs] at hmove

theorem next_matches {es : List Event} {p : Parser} (hbuffer : d.buffer = c.buffer)
    (hoffset : d.offset ≤ c.buffer.length) (hparser : d.parser = p) :
    (Move.next es d).Matches c (.next es p) := by
  subst hparser
  exact .next ⟨hbuffer, hbuffer ▸ hoffset⟩

theorem finish_matches {es : List Event} {p : Parser} (hbuffer : d.buffer = c.buffer)
    (hoffset : d.offset ≤ c.buffer.length) (hparser : d.parser = p) :
    (d.still (d.parser.finish es)).Matches c (p.finish es) := by
  subst hparser
  exact still_matches ⟨hbuffer, hbuffer ▸ hoffset⟩ (leaves_finish _ es)

theorem withLine_matches (h : c.offset ≤ c.buffer.length) {limit : Int} {tooLong : Int → ParseError}
    {unended : Line.Error → ParseError} {go : Octets → Cursor → Move} {go' : Octets → Parser → Step}
    (hgo : ∀ line d, Stays c d → (go line d).Matches c (go' line d.parser)) :
    (c.withLine limit tooLong unended go).Matches c
      (c.parser.withLine limit tooLong unended go') := by
  unfold withLine Parser.withLine
  rw [Line.scanAt_eq h, parser_unread]
  rcases hscan : Line.scan (c.buffer.drop c.offset) limit with cause | _ | ⟨line, rest⟩
  · cases cause <;> exact .reject (stays_self h)
  · exact .wait
  · have hmove := hgo line { c with offset := c.buffer.length - rest.length } ⟨rfl, Nat.sub_le _ _⟩
    rwa [parser_move (Line.stop_eq_of_scan hscan h).2] at hmove

theorem readStartLine_matches (h : c.offset ≤ c.buffer.length) :
    c.readStartLine.Matches c c.parser.readStartLine := by
  refine withLine_matches h fun line d hd => ?_
  by_cases hempty : line.isEmpty
  · simp only [if_pos hempty]
    exact .next hd
  · simp only [if_neg hempty, parser_options]
    cases StartLine.read d.options.kind (Latin.decode line) with
    | error cause => exact .reject hd
    | ok start =>
        exact .next (d := { d with phase := _, draft := _ }) ⟨hd.buffer, hd.offset_le⟩

theorem readField_matches (h : c.offset ≤ c.buffer.length) (part : Part) :
    (c.readField part).Matches c (c.parser.readField part) := by
  refine withLine_matches h fun line d hd => ?_
  by_cases hempty : line.isEmpty
  · simp only [if_pos hempty]
    have hmove := still_matches hd (leaves_endPart d.parser part)
    cases part <;> exact hmove
  · simp only [if_neg hempty, parser_options, parser_draft]
    cases fieldOf d.options.limits (d.draft.fields part) line with
    | error cause => exact .reject hd
    | ok f => exact .next (d := { d with draft := _ }) ⟨hd.buffer, hd.offset_le⟩

/-! ### Bodies -/

theorem arrived_eq (c : Cursor) (n : Nat) : c.arrived n = c.parser.unread.take n := by
  have hlength : (c.buffer.drop c.offset).length = c.buffer.length - c.offset := List.length_drop
  exact List.take_eq_take_iff.mpr (by omega)

theorem parser_skip (c : Cursor) (n : Nat) :
    (c.skip n).parser = c.parser.leave (c.parser.unread.drop n) := by
  have hlength : (c.buffer.drop c.offset).length = c.buffer.length - c.offset := List.length_drop
  refine parser_move ?_
  rw [← List.drop_drop]
  exact List.drop_eq_drop_iff.mpr (by omega)

theorem stays_skip (h : c.offset ≤ c.buffer.length) (n : Nat) : Stays c (c.skip n) :=
  ⟨rfl, by simp only [skip]; omega⟩

theorem parser_skip_draft (c : Cursor) (n : Nat) (draft : Draft) :
    ({ c.skip n with draft } : Cursor).parser =
      { c.parser with unread := c.parser.unread.drop n, draft } :=
  congrArg (fun p : Parser => { p with draft }) (parser_skip c n)

theorem readCounted_matches (h : c.offset ≤ c.buffer.length) :
    c.readCounted.Matches c c.parser.readCounted := by
  have hle := (stays_skip h c.draft.remaining).offset_le
  unfold readCounted Parser.readCounted
  -- rewriting, not unfolding, so that the instances of the conditions change with them
  simp -implicitDefEqProofs only [arrived_eq, isEmpty_unread, decide_eq_true_eq, parser_options,
    parser_draft]
  by_cases hempty : c.buffer.length ≤ c.offset
  · rw [if_pos hempty, if_pos hempty]
    exact .wait
  · rw [if_neg hempty, if_neg hempty]
    by_cases hlast : c.draft.remaining - (c.parser.unread.take c.draft.remaining).length = 0
    · simp only [if_pos hlast]
      refine finish_matches rfl hle ?_
      exact parser_skip_draft c _ _
    · simp only [if_neg hlast]
      refine next_matches rfl hle ?_
      exact parser_skip_draft c _ _

theorem readChunk_matches (h : c.offset ≤ c.buffer.length) :
    c.readChunk.Matches c c.parser.readChunk := by
  unfold readChunk Parser.readChunk
  rw [Chunk.takeAt_eq h, parser_unread, parser_options]
  rcases htake : Chunk.take (c.buffer.drop c.offset) c.options.limits.chunkLine with
    cause | _ | ⟨payload, rest⟩
  · exact .reject (stays_self h)
  · exact .wait
  · obtain ⟨front, hfront, -⟩ := Chunk.exists_front_of_take htake
    have hrest : rest <:+ c.buffer.drop c.offset := ⟨front, hfront.symm⟩
    have hlength := hrest.length_le
    rw [List.length_drop] at hlength
    have hstop : c.offset + ((c.buffer.drop c.offset).length - rest.length) =
        c.buffer.length - rest.length := by
      rw [List.length_drop]
      omega
    have hparser := parser_of_suffix hrest
    simp only [Except.map, Option.map_some, hstop]
    by_cases hempty : payload.isEmpty
    · rw [if_pos hempty, if_pos hempty]
      exact next_matches rfl (Nat.sub_le _ _)
        (congrArg (fun p : Parser => { p with phase := .awaitTrailers }) hparser)
    · rw [if_neg hempty, if_neg hempty]
      exact next_matches rfl (Nat.sub_le _ _)
        (congrArg (fun p : Parser => { p with
          draft := { c.draft with body := c.draft.body ++ payload } }) hparser)

theorem readChunkPiece_matches (h : c.offset ≤ c.buffer.length) :
    c.readChunkPiece.Matches c c.parser.readChunkPiece := by
  unfold readChunkPiece Parser.readChunkPiece
  simp -implicitDefEqProofs only [arrived_eq, isEmpty_unread, decide_eq_true_eq, parser_options,
    parser_draft]
  by_cases hdata : 0 < c.draft.remaining
  · rw [if_pos hdata, if_pos hdata]
    by_cases hempty : c.buffer.length ≤ c.offset
    · rw [if_pos hempty, if_pos hempty]
      exact .wait
    · rw [if_neg hempty, if_neg hempty]
      refine next_matches rfl (stays_skip h _).offset_le ?_
      exact parser_skip_draft c _ _
  · rw [if_neg hdata, if_neg hdata]
    by_cases hinChunk : c.draft.inChunk = true
    · rw [if_pos hinChunk, if_pos hinChunk]
      rw [Chunk.hasEndAt, parser_unread]
      rcases hend : Chunk.hasEnd (c.buffer.drop c.offset) with cause | _ | _
      · exact .reject (stays_self h)
      · exact .wait
      · have htwo := Chunk.two_le_length_of_hasEnd hend
        rw [List.length_drop] at htwo
        have hle : c.offset + 2 ≤ c.buffer.length := by omega
        refine next_matches rfl hle ?_
        exact congrArg (fun p : Parser => { p with draft := { c.draft with inChunk := false } })
          (parser_move (c := c) (List.drop_drop).symm)
    · rw [if_neg hinChunk, if_neg hinChunk, Chunk.takeSizeAt_eq h, parser_unread]
      rcases hsize : Chunk.takeSize (c.buffer.drop c.offset) c.options.limits.chunkLine with
        cause | _ | ⟨n, rest⟩
      · exact .reject (stays_self h)
      · exact .wait
      · obtain ⟨front, hfront, -⟩ := Chunk.isSizeLine_of_takeSize hsize
        have hparser := parser_of_suffix (c := c) ⟨front, hfront.symm⟩
        simp only [Except.map, Option.map_some]
        by_cases hn : n = 0
        · rw [if_pos hn, if_pos hn]
          exact next_matches rfl (Nat.sub_le _ _)
            (congrArg (fun p : Parser => { p with phase := .awaitTrailers }) hparser)
        · rw [if_neg hn, if_neg hn]
          exact next_matches rfl (Nat.sub_le _ _)
            (congrArg (fun p : Parser => { p with
              draft := { c.draft with remaining := n, inChunk := true } }) hparser)

theorem readRest_matches (c : Cursor) : c.readRest.Matches c c.parser.readRest := by
  have hparser := parser_move (c := c) List.drop_length
  unfold readRest Parser.readRest
  simp -implicitDefEqProofs only [isEmpty_unread, decide_eq_true_eq, parser_options]
  by_cases hempty : c.buffer.length ≤ c.offset
  · rw [if_pos hempty, if_pos hempty]
    exact .wait
  · rw [if_neg hempty, if_neg hempty]
    by_cases hstreaming : c.options.streaming = true
    · rw [if_pos hstreaming, if_pos hstreaming, parser_unread]
      exact next_matches rfl Nat.le.refl hparser
    · rw [if_neg hstreaming, if_neg hstreaming, parser_unread]
      exact next_matches rfl Nat.le.refl
        (congrArg (fun p : Parser => { p with
          draft := { c.draft with body := c.draft.body ++ c.buffer.drop c.offset } }) hparser)

/-- **A step at an offset** is the step of the parser that has not read what follows. -/
theorem step_matches (h : c.offset ≤ c.buffer.length) : c.step.Matches c c.parser.step := by
  unfold step Parser.step
  rw [parser_phase, parser_options, parser_draft, isEmpty_unread]
  cases c.phase with
  | awaitStartLine => exact readStartLine_matches h
  | awaitHeaders => exact readField_matches h .header
  | awaitTrailers => exact readField_matches h .trailer
  | failed => exact .wait
  | done =>
      by_cases hempty : c.buffer.length ≤ c.offset
      · simp only [decide_eq_true hempty, if_neg (Nat.not_lt.mpr hempty)]
        exact .wait
      · simp only [decide_eq_false hempty, if_pos (Nat.not_le.mp hempty)]
        exact next_matches rfl h rfl
  | awaitBody =>
      rcases c.draft.framing with _ | _ | _ | _
      · exact readRest_matches c
      · exact readCounted_matches h
      · by_cases hstreaming : c.options.streaming = true
        · simp only [if_pos hstreaming]
          exact readChunkPiece_matches h
        · simp only [if_neg hstreaming]
          exact readChunk_matches h
      · exact readRest_matches c

end Cursor

end HttpCodec.Parser
