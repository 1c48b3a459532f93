import HttpCodec.Parser.State

set_option autoImplicit false

/-! # One step of a parser

A step reads one element off the front of what has arrived: a line, a chunk, a piece of a body. It
either needs more data and leaves the parser as it is, or it goes on, with the events that the
element gives, or it finds that the input is not a message.

The main statement is that steps make progress (`work_lt_of_step`): one that goes on has read
something, or has moved on from a complete message, which it can do only once before it reads
again.
-/

namespace HttpCodec.Parser

/-- The outcome of a step. -/
inductive Step where
  /-- More data is needed. -/
  | wait
  /-- Something was read. -/
  | next (events : List Event) (parser : Parser)
  /-- The input is not a message; the events came before the error. -/
  | reject (events : List Event) (parser : Parser) (cause : ParseError)
  /-- A number cannot be read. -/
  | interrupt (parser : Parser) (cause : Decimal.Error)

/-- Takes a line off the front of what has arrived and goes on with it. -/
def withLine (p : Parser) (limit : Int) (tooLong : Int → ParseError)
    (unended : Line.Error → ParseError) (go : Octets → Parser → Step) : Step :=
  match Line.scan p.unread limit with
  | .error (.tooLong n) => .reject [] p (tooLong n)
  | .error cause => .reject [] p (unended cause)
  | .ok none => .wait
  | .ok (some (line, rest)) => go line { p with unread := rest }

/-- Completes the message, after the given events. -/
def finish (p : Parser) (events : List Event) : Step :=
  match p.message with
  | .error cause => .reject events p cause
  | .ok m =>
      .next (events ++ [.complete m]) { p with phase := .done, completed := p.completed + 1 }

/-! ## The head -/

/-- Reads a start line. Empty lines before it are skipped. -/
def readStartLine (p : Parser) : Step :=
  p.withLine p.options.limits.startLine .startLineTooLong .startLineUnended fun line p =>
    if line.isEmpty then .next [] p
    else
      match StartLine.read p.options.kind (Latin.decode line) with
      | .error cause => .reject [] p (.startLine cause)
      | .ok start =>
          .next [.start start]
            { p with phase := .awaitHeaders, draft := { p.draft with line := some start } }

/-- The field on a line, if the fields so far leave room for it. -/
def fieldOf (limits : Limits) (fields : Fields) (line : Octets) : Except ParseError Field :=
  if fields.fields.length ≥ limits.headers then .error (.tooManyFields limits.headers)
  else
    match FieldLine.read line with
    | .error cause => .error (.fieldLine cause)
    | .ok (name, value) => (Field.check fields.limit name (.text value)).mapError .field

/-- Decides after the last header field how the body is framed. -/
def endHeaders (p : Parser) : Step :=
  match p.draft.line with
  | none => .reject [] p .noStartLine
  | some line =>
      match Framing.decide line p.draft.headers with
      | .empty => p.finish []
      | .length n => .next [] (p.awaitBody .lengthKnown n)
      | .chunked => .next [] (p.awaitBody .chunked 0)
      | .untilClose => .next [] (p.awaitBody .untilClose 0)
      | .refused cause => .reject [] p (.framing cause)
      | .unreadable cause => .interrupt p cause

/-- Reads a field line, or the empty line after the last field. -/
def readField (p : Parser) (part : Part) : Step :=
  p.withLine p.options.limits.headerLine .fieldTooLong .fieldUnended fun line p =>
    if line.isEmpty then
      match part with
      | .header => p.endHeaders
      | .trailer => p.finish []
    else
      match fieldOf p.options.limits (p.draft.fields part) line with
      | .error cause => .reject [] p cause
      | .ok f =>
          .next [.field part f]
            { p with draft := p.draft.setFields ((p.draft.fields part).append f) part }

/-! ## The body -/

/-- Reads what has arrived of a body of declared length. -/
def readCounted (p : Parser) : Step :=
  if p.unread.isEmpty then .wait
  else
    let data := p.unread.take p.draft.remaining
    let remaining := p.draft.remaining - data.length
    let body := if p.options.streaming then p.draft.body else p.draft.body ++ data
    let events : List Event :=
      if p.options.streaming then [.body data]
      else if remaining = 0 then [.body body]
      else []
    let q : Parser :=
      { p with
        unread := p.unread.drop p.draft.remaining
        draft := { p.draft with remaining, body } }
    if remaining = 0 then q.finish events else .next events q

/-- Reads a whole chunk. -/
def readChunk (p : Parser) : Step :=
  match Chunk.take p.unread p.options.limits.chunkLine with
  | .error cause => .reject [] p (.chunk cause)
  | .ok none => .wait
  | .ok (some (payload, rest)) =>
      if payload.isEmpty then .next [] { p with unread := rest, phase := .awaitTrailers }
      else
        .next [.body payload]
          { p with unread := rest, draft := { p.draft with body := p.draft.body ++ payload } }

/-- Reads what has arrived of a chunk: its size line, its data, or its end. -/
def readChunkPiece (p : Parser) : Step :=
  if 0 < p.draft.remaining then
    if p.unread.isEmpty then .wait
    else
      let data := p.unread.take p.draft.remaining
      .next [.body data]
        { p with
          unread := p.unread.drop p.draft.remaining
          draft := { p.draft with remaining := p.draft.remaining - data.length } }
  else if p.draft.inChunk then
    match Chunk.hasEnd p.unread with
    | .error cause => .reject [] p (.chunk cause)
    | .ok false => .wait
    | .ok true =>
        .next [] { p with unread := p.unread.drop 2, draft := { p.draft with inChunk := false } }
  else
    match Chunk.takeSize p.unread p.options.limits.chunkLine with
    | .error cause => .reject [] p (.chunk cause)
    | .ok none => .wait
    | .ok (some (n, rest)) =>
        if n = 0 then .next [] { p with unread := rest, phase := .awaitTrailers }
        else
          .next []
            { p with unread := rest, draft := { p.draft with remaining := n, inChunk := true } }

/-- Reads what has arrived of a body that goes on until the input ends. -/
def readRest (p : Parser) : Step :=
  if p.unread.isEmpty then .wait
  else if p.options.streaming then .next [.body p.unread] { p with unread := [] }
  else
    .next [] { p with unread := [], draft := { p.draft with body := p.draft.body ++ p.unread } }

/-! ## All of it -/

/-- Reads one element off the front of what has arrived. -/
def step (p : Parser) : Step :=
  match p.phase with
  | .awaitStartLine => p.readStartLine
  | .awaitHeaders => p.readField .header
  | .awaitBody =>
      match p.draft.framing with
      | some .lengthKnown => p.readCounted
      | some .chunked => if p.options.streaming then p.readChunkPiece else p.readChunk
      | _ => p.readRest
  | .awaitTrailers => p.readField .trailer
  | .done => if p.unread.isEmpty then .wait else .next [] p.next
  | .failed => .wait

/-! ## Progress -/

/-- How many steps a phase may go on without reading. -/
def rank : Phase → Nat
  | .awaitBody => 2
  | .done => 1
  | _ => 0

/-- A bound on the number of steps that a parser can make with what has arrived. -/
def work (p : Parser) : Nat := 3 * p.unread.length + rank p.phase

theorem rank_le (phase : Phase) : rank phase ≤ 2 := by
  cases phase <;> simp [rank]

theorem finish_eq_next {p q : Parser} {events es : List Event} (h : p.finish events = .next es q) :
    q.unread = p.unread ∧ q.phase = .done := by
  simp only [finish] at h
  split at h
  · cases h
  · cases h
    exact ⟨rfl, rfl⟩

/-- What a step with a line needs in order to make progress. -/
theorem work_lt_of_withLine {p q : Parser} {limit : Int} {tooLong : Int → ParseError}
    {unended : Line.Error → ParseError} {go : Octets → Parser → Step} {es : List Event}
    (hgo : ∀ line r, go line r = .next es q → q.unread.length ≤ r.unread.length)
    (h : p.withLine limit tooLong unended go = .next es q) : q.work < p.work := by
  simp only [withLine] at h
  split at h
  · cases h
  · cases h
  · cases h
  · next line rest hscan =>
      have h1 := hgo _ _ h
      have h2 := Line.length_lt_of_scan hscan
      have h3 := rank_le q.phase
      simp only [work] at *
      omega

theorem length_le_of_endHeaders {p q : Parser} {es : List Event} (h : p.endHeaders = .next es q) :
    q.unread.length ≤ p.unread.length := by
  simp only [endHeaders] at h
  split at h
  · cases h
  · split at h
    · exact Nat.le_of_eq (congrArg List.length (finish_eq_next h).1)
    all_goals cases h
    all_goals simp [awaitBody]

theorem work_lt_of_readField {p q : Parser} {part : Part} {es : List Event}
    (h : p.readField part = .next es q) : q.work < p.work := by
  refine work_lt_of_withLine (fun line r hgo => ?_) h
  split at hgo
  · split at hgo
    · exact length_le_of_endHeaders hgo
    · exact Nat.le_of_eq (congrArg List.length (finish_eq_next hgo).1)
  · split at hgo
    · cases hgo
    · cases hgo
      simp

theorem work_lt_of_readStartLine {p q : Parser} {es : List Event}
    (h : p.readStartLine = .next es q) : q.work < p.work := by
  refine work_lt_of_withLine (fun line r hgo => ?_) h
  split at hgo
  · cases hgo
    simp
  · split at hgo
    · cases hgo
    · cases hgo
      simp

theorem work_lt_of_readCounted {p q : Parser} {es : List Event} (hp : p.phase = .awaitBody)
    (h : p.readCounted = .next es q) : q.work < p.work := by
  simp only [readCounted] at h
  split at h
  · cases h
  next hne =>
    have hlen : 0 < p.unread.length := by
      cases hu : p.unread with
      | nil => simp [hu] at hne
      | cons a l => simp
    split at h
    next hzero =>
      have hq := finish_eq_next h
      simp only [work, hq.1, hq.2, hp, rank, List.length_drop]
      omega
    next hrem =>
      cases h
      have : p.draft.remaining ≠ 0 := by
        intro hr
        simp [hr] at hrem
      simp only [work, hp, rank, List.length_drop]
      omega

theorem work_lt_of_readChunk {p q : Parser} {es : List Event}
    (h : p.readChunk = .next es q) : q.work < p.work := by
  simp only [readChunk] at h
  split at h
  · cases h
  · cases h
  next hopt =>
    have hlt := Chunk.length_lt_of_take hopt
    have hr := rank_le q.phase
    split at h <;> cases h <;> simp only [work] at * <;> omega

theorem work_lt_of_readChunkPiece {p q : Parser} {es : List Event}
    (h : p.readChunkPiece = .next es q) : q.work < p.work := by
  simp only [readChunkPiece] at h
  split at h
  next hrem =>
    split at h
    · cases h
    next hne =>
      cases h
      have hlen : 0 < p.unread.length := by
        cases hu : p.unread with
        | nil => simp [hu] at hne
        | cons a l => simp
      simp only [work, List.length_drop]
      omega
  next =>
    split at h
    · split at h
      · cases h
      · cases h
      next hend =>
        cases h
        have hlen : 2 ≤ p.unread.length := by
          cases hu : p.unread with
          | nil => simp [hu, Chunk.hasEnd] at hend
          | cons a l =>
              cases l with
              | nil => simp only [hu, Chunk.hasEnd] at hend; split at hend <;> cases hend
              | cons b l => simp
        simp only [work, List.length_drop]
        omega
    · split at h
      · cases h
      · cases h
      next hsize =>
        have hlt := Chunk.length_lt_of_takeSize hsize
        have hr := rank_le q.phase
        split at h <;> cases h <;> simp only [work] at * <;> omega

theorem work_lt_of_readRest {p q : Parser} {es : List Event}
    (h : p.readRest = .next es q) : q.work < p.work := by
  simp only [readRest] at h
  split at h
  · cases h
  next hne =>
    have hlen : 0 < p.unread.length := by
      cases hu : p.unread with
      | nil => simp [hu] at hne
      | cons a l => simp
    split at h <;> cases h <;> simp only [work, List.length_nil] <;> omega

/-- A step that goes on leaves less to do. -/
theorem work_lt_of_step {p q : Parser} {es : List Event} (h : p.step = .next es q) :
    q.work < p.work := by
  simp only [step] at h
  split at h
  · exact work_lt_of_readStartLine h
  · exact work_lt_of_readField h
  next hp =>
    split at h
    · exact work_lt_of_readCounted hp h
    · split at h
      · exact work_lt_of_readChunkPiece h
      · exact work_lt_of_readChunk h
    · exact work_lt_of_readRest h
  · exact work_lt_of_readField h
  next hp =>
    split at h
    · cases h
    · cases h
      simp [work, next, hp, rank]
  · cases h

end HttpCodec.Parser
