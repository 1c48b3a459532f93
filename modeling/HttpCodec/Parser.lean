import HttpCodec.Parser.Step
import HttpCodec.Source

set_option autoImplicit false

/-! # Parsing

An incremental parser is fed blocks of any size (`Parser.feed`) and told where the input ends
(`Parser.close`). Each time it makes steps until it needs more data, and reports the events of
these steps. The events do not depend on how the input is cut into blocks: unless bodies are
reported as they arrive, a body of declared length is one event, each chunk is one, and a body
that goes on until the input ends is one.

`parse` reads all messages of an input at once.
-/

namespace HttpCodec

namespace Parser

/-- Why a parser gives no events. -/
inductive Interruption where
  /-- It has stopped at an error and was not reset. -/
  | failed (cause : Option ParseError)
  /-- A declared length has too many digits to be read. -/
  | unreadable (cause : Decimal.Error)
  deriving DecidableEq

/-- The wording of an interruption. -/
def Interruption.message : Interruption → Text
  | .failed cause =>
      "Parser has failed with " ++ ((cause.map ParseError.shown).getD "None") ++
        ", it must be reset first"
  | .unreadable cause => cause.message

/-- What came of giving data to a parser. -/
structure Run where
  parser : Parser
  /-- The events, in order. -/
  events : List Event
  /-- What stopped the run short. -/
  interruption : Option Interruption := none
  /-- The events that an interruption keeps from the caller. -/
  lost : List Event := []

namespace Run

/-- The run with events in front. -/
def after (r : Run) (events : List Event) : Run := { r with events := events ++ r.events }

/-- The run as its caller sees it: an interruption keeps its events back. -/
def settle (r : Run) : Run :=
  if r.interruption.isSome then { r with events := [], lost := r.events } else r

/-- Tells whether the parser takes no more data. -/
def isOver (r : Run) : Bool := r.interruption.isSome || r.parser.hasFailed

end Run

/-- Makes steps until more data is needed. -/
def run (p : Parser) : Run :=
  match _h : p.step with
  | .wait => { parser := p, events := [] }
  | .next events q => (run q).after events
  | .reject events q cause => { parser := q.fail cause, events := events ++ [.error cause] }
  | .interrupt q cause => { parser := q, events := [], interruption := some (.unreadable cause) }
termination_by p.work
decreasing_by exact work_lt_of_step ‹_›

/-- Takes a block of data. -/
def feed (p : Parser) (block : Octets) : Run :=
  if p.hasFailed then { parser := p, events := [], interruption := some (.failed p.error) }
  else (run { p with unread := p.unread ++ block }).settle

/-- The run in which the parser completes its message, after the given events. -/
def conclude (p : Parser) (events : List Event) : Run :=
  match p.finish events with
  | .next events q => { parser := q, events }
  | .reject events q cause => { parser := q.fail cause, events := events ++ [.error cause] }
  | _ => { parser := p, events }

/-- Takes the end of the input. It completes a body that goes on until then, and is an error
anywhere else within a message. -/
def close (p : Parser) : Run :=
  match p.phase with
  | .done | .failed => { parser := p, events := [] }
  | phase =>
      if phase = .awaitStartLine ∧ p.unread.isEmpty then { parser := p, events := [] }
      else if phase = .awaitBody ∧ p.draft.framing = some .untilClose then
        if p.draft.body.isEmpty || p.options.streaming then p.conclude []
        else p.conclude [.body p.draft.body]
      else { parser := p.fail (.endOfStream phase), events := [.error (.endOfStream phase)] }

/-- Takes blocks one after the other, until the parser takes no more. -/
def feedAll (p : Parser) : List Octets → Run
  | [] => { parser := p, events := [] }
  | block :: blocks =>
      let r := p.feed block
      if r.isOver then r else (r.parser.feedAll blocks).after r.events

/-- Takes the blocks of a whole input and its end. -/
def readAll (p : Parser) (blocks : List Octets) : Run :=
  let r := p.feedAll blocks
  if r.isOver then r else r.parser.close.after r.events

/-- Reads a source to its end, or up to the first error. -/
def read (p : Parser) (source : Source) : Run := p.readAll source.blocks

end Parser

/-! ## Parsing at once -/

/-- Why an input gives no messages. -/
inductive ParseFailure where
  | invalid (cause : ParseError)
  | interrupted (cause : Parser.Interruption)
  deriving DecidableEq

/-- The wording of a failure. -/
def ParseFailure.message : ParseFailure → Text
  | .invalid cause => cause.summary
  | .interrupted cause => cause.message

/-- The messages that events complete, up to the first error. -/
def Event.messages : List Event → Except ParseError (List Message)
  | [] => .ok []
  | .complete m :: events => (messages events).map (m :: ·)
  | .error cause :: _ => .error cause
  | _ :: events => messages events

/-- All messages of an input. -/
def parse (data : Octets) (kind : Option Kind) (limits : Limits) :
    Except ParseFailure (List Message) :=
  let r := (Parser.new { kind, limits }).readAll [data]
  match r.interruption with
  | some cause => .error (.interrupted cause)
  | none => (Event.messages r.events).mapError .invalid

end HttpCodec
