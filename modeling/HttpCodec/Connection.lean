import HttpCodec.Inbound
import HttpCodec.Message.Wire
import HttpCodec.Parser

set_option autoImplicit false

/-! # Messages over a connection

Reading messages from the incoming half of a connection and writing them to the outgoing half. A
reader keeps its parser and the events it has not handed out between calls, so that messages that
arrive together are handed out one by one and none is lost.
-/

namespace HttpCodec.Connection

/-- Why no message or event was received. -/
inductive Error where
  /-- No data came in time. -/
  | timeout
  /-- The input is not a message. -/
  | invalid (cause : ParseError)
  | interrupted (cause : Parser.Interruption)
  deriving DecidableEq

/-- The wording of an error. -/
def Error.message : Error → Text
  | .timeout => []
  | .invalid cause => cause.summary
  | .interrupted cause => cause.message

/-! ## Events of a whole stream -/

/-- What came of reading a stream. -/
structure Reading where
  parser : Parser
  events : List Event
  error : Option Error

/-- Reads the stream to its end, or up to the first error, in blocks of at most `size` octets. -/
def readAll (p : Parser) (s : Inbound) (patience : Patience) (size : Int) : Reading :=
  match _h : s.read patience size with
  | (none, _) => ⟨p, [], some .timeout⟩
  | (some block, t) =>
      if _hne : block.isEmpty then ⟨p.close.parser, p.close.events, none⟩
      else
        let r := p.feed block
        match r.interruption with
        | some cause => ⟨r.parser, r.events, some (.interrupted cause)⟩
        | none =>
            if r.parser.hasFailed then ⟨r.parser, r.events, none⟩
            else
              let rest := readAll r.parser t patience size
              { rest with events := r.events ++ rest.events }
termination_by s.data.length
decreasing_by exact Inbound.length_lt_of_read ‹_› (by simpa using _hne)

/-! ## Messages one by one -/

/-- Reads messages from a connection. -/
structure Reader where
  inbound : Inbound
  parser : Parser
  /-- The events that have not been handed out. -/
  pending : List Event := []
  /-- The largest number of octets to read at once. -/
  size : Int := Source.defaultSize
  patience : Patience := .unlimited
  /-- Whether the end of the stream has been read. -/
  isEnded : Bool := false

namespace Reader

/-- The first message or error among events, and the events after it. -/
def firstOutcome : List Event → Option (Except ParseError Message × List Event)
  | [] => none
  | .complete m :: events => some (.ok m, events)
  | .error cause :: events => some (.error cause, events)
  | _ :: events => firstOutcome events

/-- The next message, or none once the stream has ended or the parser has failed. -/
def receive (r : Reader) : Except Error (Option Message) × Reader :=
  match firstOutcome r.pending with
  | some (.ok m, rest) => (.ok (some m), { r with pending := rest })
  | some (.error cause, rest) => (.error (.invalid cause), { r with pending := rest })
  | none =>
      if _hend : r.isEnded || r.parser.hasFailed then (.ok none, { r with pending := [] })
      else
        match _hread : r.inbound.read r.patience r.size with
        | (none, t) => (.error .timeout, { r with inbound := t, pending := [] })
        | (some block, t) =>
            if _hne : block.isEmpty then
              let closed := r.parser.close
              receive { r with
                inbound := t, isEnded := true, parser := closed.parser, pending := closed.events }
            else
              let fed := r.parser.feed block
              match fed.interruption with
              | some cause =>
                  (.error (.interrupted cause),
                    { r with inbound := t, parser := fed.parser, pending := [] })
              | none =>
                  receive { r with inbound := t, parser := fed.parser, pending := fed.events }
termination_by (if r.isEnded then 0 else 1, r.inbound.data.length)
decreasing_by
  · simp only [Bool.or_eq_true, not_or] at _hend
    apply Prod.Lex.left
    simp [_hend.1]
  · apply Prod.Lex.right
    exact Inbound.length_lt_of_read _hread (by simpa using _hne)

/-- The outcomes of several calls in turn, each with the reader after it. -/
def receiveAll (r : Reader) : Nat → List (Except Error (Option Message) × Reader)
  | 0 => []
  | n + 1 => r.receive :: r.receive.2.receiveAll n

end Reader

/-! ## Sending -/

/-- What is done to the outgoing half of a connection. -/
inductive Action where
  | write (data : Octets)
  /-- Waits until what was written has left. -/
  | drain

/-- Sends a message: in pieces if there are any, else as a whole. Each part is written and then
waited for. The number of octets sent, or why it stopped. -/
def send (m : Message) (pieces : Option (List Content)) : Except Fault Nat × List Action :=
  let written := m.write pieces none
  (written.count, written.parts.flatMap fun part => [.write part, .drain])

end HttpCodec.Connection
