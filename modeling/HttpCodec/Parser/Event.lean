import HttpCodec.Chunk
import HttpCodec.Field.Line
import HttpCodec.Framing
import HttpCodec.Message

set_option autoImplicit false

/-! # Events and errors of a parser

A parser reports what it reads as events, in the order of the input. An error ends the input for
the parser, so it is an event as well, and always the last one.
-/

namespace HttpCodec

/-- What a parser is waiting for, or that it is at rest. -/
inductive Phase where
  | awaitStartLine
  | awaitHeaders
  | awaitBody
  /-- After the last chunk, up to the empty line after the trailers. -/
  | awaitTrailers
  /-- A message is complete and nothing follows it yet. -/
  | done
  /-- The input is not a message. -/
  | failed
  deriving DecidableEq

/-- The name of a phase in reports. -/
def Phase.name : Phase → Text
  | .awaitStartLine => "AwaitStartLine"
  | .awaitHeaders => "AwaitHeaders"
  | .awaitBody => "AwaitBody"
  | .awaitTrailers => "AwaitTrailers"
  | .done => "Done"
  | .failed => "Failed"

/-- The kinds of parse errors. -/
inductive ErrorType where
  | badStartLine
  | badHeader
  | lengthRequired
  | badChunk
  | oversizedStartLine
  | oversizedHeader
  | unexpectedEndOfStream
  deriving DecidableEq

/-- The name of a kind of errors. -/
def ErrorType.name : ErrorType → Text
  | .badStartLine => "BadStartLine"
  | .badHeader => "BadHeader"
  | .lengthRequired => "LengthRequired"
  | .badChunk => "BadChunk"
  | .oversizedStartLine => "OversizedStartLine"
  | .oversizedHeader => "OversizedHeader"
  | .unexpectedEndOfStream => "UnexpectedEndOfStream"

/-- The number of a kind of errors. -/
def ErrorType.number : ErrorType → Nat
  | .badStartLine => 0
  | .badHeader => 1
  | .lengthRequired => 2
  | .badChunk => 3
  | .oversizedStartLine => 4
  | .oversizedHeader => 5
  | .unexpectedEndOfStream => 6

/-- Why an input is not a message. -/
inductive ParseError where
  /-- The start line is longer than the limit. -/
  | startLineTooLong (limit : Int)
  /-- The start line does not end as a line does. -/
  | startLineUnended (cause : Line.Error)
  /-- The start line has no known form. -/
  | startLine (cause : StartLine.Error)
  /-- The start line that was read cannot be written. -/
  | unwritable (cause : MessageError)
  /-- A message is complete without a start line. -/
  | noStartLine
  /-- A field line is longer than the limit. -/
  | fieldTooLong (limit : Int)
  /-- A field line does not end as a line does. -/
  | fieldUnended (cause : Line.Error)
  /-- There are more fields than the limit. -/
  | tooManyFields (limit : Int)
  /-- A line is not a field line. -/
  | fieldLine (cause : FieldLine.Error)
  /-- A name and a value make no field. -/
  | field (cause : FieldError)
  /-- The fields do not say where the body ends. -/
  | framing (cause : Framing.Error)
  /-- A chunk is not framed as it should be. -/
  | chunk (cause : Chunk.Error)
  /-- The input ends within a message. -/
  | endOfStream (phase : Phase)
  deriving DecidableEq

/-- The kind of an error. -/
def ParseError.type : ParseError → ErrorType
  | .startLineTooLong _ => .oversizedStartLine
  | .startLineUnended _ => .badStartLine
  | .startLine _ => .badStartLine
  | .unwritable _ => .badStartLine
  | .noStartLine => .badStartLine
  | .fieldTooLong _ => .oversizedHeader
  | .fieldUnended _ => .badHeader
  | .tooManyFields _ => .oversizedHeader
  | .fieldLine _ => .badHeader
  | .field _ => .badHeader
  | .framing (.lengthRequired _) => .lengthRequired
  | .framing _ => .badHeader
  | .chunk _ => .badChunk
  | .endOfStream _ => .unexpectedEndOfStream

/-- The wording of an error. -/
def ParseError.message : ParseError → Text
  | .startLineTooLong limit => (Line.Error.tooLong limit).message
  | .startLineUnended cause => cause.message
  | .startLine cause => cause.message
  | .unwritable cause => cause.message
  | .noStartLine => "Message has no start line"
  | .fieldTooLong limit => (Line.Error.tooLong limit).message
  | .fieldUnended cause => cause.message
  | .tooManyFields limit => "More than " ++ Decimal.ofInt limit ++ " fields"
  | .fieldLine cause => cause.message
  | .field cause => cause.message
  | .framing cause => cause.message
  | .chunk cause => cause.message
  | .endOfStream phase => "Input ended while in " ++ phase.name

/-- An error in one line: its kind and its wording. -/
def ParseError.summary (e : ParseError) : Text := e.type.name ++ ": " ++ e.message

/-- An error as a record, for reports. -/
def ParseError.shown (e : ParseError) : Text :=
  "HTTPParseError(type=<HTTPErrorType." ++ e.type.name ++ ": " ++ Decimal.ofNat e.type.number ++
    ">, message=" ++ Quoted.text e.message ++ ")"

/-- The two places where fields occur. -/
inductive Part where
  | header
  | trailer
  deriving DecidableEq

/-- What a parser reports. -/
inductive Event where
  | start (line : StartLine)
  | field (part : Part) (field : Field)
  /-- Data of the body, which is not empty. -/
  | body (data : Octets)
  | complete (message : Message)
  | error (cause : ParseError)

end HttpCodec
