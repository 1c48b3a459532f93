import HttpCodec.Limits
import HttpCodec.Parser.Event

set_option autoImplicit false

/-! # The state of a parser

A parser holds what has arrived and not been read, and the message that it is in the middle of
(`Draft`). What it knows of a message stays until the next one begins, so that the header fields,
the framing and the body of a message that is complete or has failed can still be looked at.
-/

namespace HttpCodec

namespace Parser

/-- How a parser reads. -/
structure Options where
  /-- The kind of messages, or none if each start line tells it. -/
  kind : Option Kind := none
  limits : Limits := {}
  /-- Whether bodies are reported as they arrive and not kept. -/
  streaming : Bool := false
  /-- Whether looking up a repeated field joins its values. -/
  join : Bool := true

/-- A field list without fields, as long lines as the parser reads allowed. Lines may lack the
space after the colon, which a field list counts. -/
def Options.noFields (o : Options) : Fields :=
  { join := o.join, limit := o.limits.headerLine + 1 }

/-- The message that is being read. -/
structure Draft where
  line : Option StartLine
  framing : Option Framing
  headers : Fields
  trailers : Fields
  /-- The body so far, if bodies are kept. -/
  body : Octets
  /-- How many octets are missing of the body or, when chunks are reported as they arrive, of the
  chunk. -/
  remaining : Nat
  /-- Whether the data of a chunk is being read whose end has not been seen. -/
  inChunk : Bool

/-- A message of which nothing has been read. -/
def Options.noDraft (o : Options) : Draft where
  line := none
  framing := none
  headers := o.noFields
  trailers := o.noFields
  body := []
  remaining := 0
  inChunk := false

/-- The fields of a part of the message. -/
def Draft.fields (d : Draft) : Part → Fields
  | .header => d.headers
  | .trailer => d.trailers

/-- Replaces the fields of a part of the message. -/
def Draft.setFields (d : Draft) (fields : Fields) : Part → Draft
  | .header => { d with headers := fields }
  | .trailer => { d with trailers := fields }

end Parser

/-- An incremental parser. -/
structure Parser where
  options : Parser.Options
  phase : Phase
  draft : Parser.Draft
  /-- What has arrived and not been read. -/
  unread : Octets
  /-- The error that the parser has stopped at. -/
  error : Option ParseError
  /-- How many messages are complete. -/
  completed : Nat

namespace Parser

/-- A parser that has read nothing. -/
def new (options : Options) : Parser where
  options
  phase := .awaitStartLine
  draft := options.noDraft
  unread := []
  error := none
  completed := 0

/-- Tells whether the parser has stopped at an error. -/
def hasFailed (p : Parser) : Bool := p.phase = .failed

/-- Begins the next message with what has not been read. -/
def next (p : Parser) : Parser :=
  { p with phase := .awaitStartLine, draft := p.options.noDraft }

/-- Begins anew, without what has not been read and without the error. -/
def reset (p : Parser) : Parser := { p with unread := [], error := none }.next

/-- Stops at an error and discards what has not been read. -/
def fail (p : Parser) (cause : ParseError) : Parser :=
  { p with phase := .failed, unread := [], error := some cause }

/-- Waits for a body, of which `remaining` octets are known to be missing. -/
def awaitBody (p : Parser) (framing : Framing) (remaining : Nat) : Parser :=
  { p with phase := .awaitBody, draft := { p.draft with framing := some framing, remaining } }

/-- The message that has been read. Its body is empty if bodies are reported as they arrive. -/
def message (p : Parser) : Except ParseError Message :=
  match p.draft.line with
  | none => .error .noStartLine
  | some line =>
      (Message.ofStartLine line p.draft.headers (if p.options.streaming then [] else p.draft.body)
        p.draft.trailers).mapError .unwritable

/-- Replaces the fields of the message that was completed last, unless the next one has begun. -/
def amend (p : Parser) (m : Message) : Parser :=
  if p.phase = .done then
    { p with draft := { p.draft with headers := m.headers, trailers := m.trailers } }
  else p

end Parser

end HttpCodec
