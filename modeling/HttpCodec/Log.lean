import HttpCodec.Dictionary
import HttpCodec.Log.Value
import HttpCodec.Parser

set_option autoImplicit false

/-! # Logging

Log entries have a level, and those below a threshold are left out. An entry is written on one
line, with its origin in bold in the colour of its level. A parser logs the messages it completes
and the errors it stops at (`ofEvent`).
-/

namespace HttpCodec.Log

/-- How serious an entry is. -/
inductive Level where
  | debug
  | info
  | warning
  /-- An error that was dealt with. -/
  | error
  /-- An error that was not dealt with. -/
  | exception
  deriving DecidableEq

namespace Level

/-- All levels, from the least serious. -/
def all : List Level := [.debug, .info, .warning, .error, .exception]

/-- The name of a level. -/
def name : Level → Text
  | .debug => "Debug"
  | .info => "Info"
  | .warning => "Warning"
  | .error => "Error"
  | .exception => "Exception"

/-- How serious a level is, as a number. -/
def weight : Level → Nat
  | .debug => 0
  | .info => 10
  | .warning => 30
  | .error => 40
  | .exception => 50

/-- The number of the colour of a level. -/
def color : Level → Int
  | .debug => 31
  | .info => 75
  | .warning => 202
  | .error => 160
  | .exception => 124

/-- The level with the given name, without regard to letter case; a name that no level has means
warnings. -/
def ofName (name : Text) : Level :=
  (all.find? fun level => LetterCase.lower level.name == LetterCase.lower name).getD .warning

/-- Tells whether entries of the level are written, given the threshold. -/
def isLogged (threshold level : Level) : Bool := threshold.weight ≤ level.weight

end Level

/-- What is logged. -/
structure Entry where
  origin : Text
  level : Level
  message : Text
  value : Value := .null
  context : Dictionary Text Value := []

namespace Entry

/-- The origin of entries that do not name one. -/
def defaultOrigin : Text := "wirehttp"

/-- An entry; without an origin, or with an empty one, it has the default origin. -/
def make (origin : Option Text) (level : Level) (message : Text) (value : Value)
    (context : Dictionary Text Value) : Entry :=
  let origin := origin.getD []
  ⟨if origin.isEmpty then defaultOrigin else origin, level, message, value, context⟩

/-- The context on one line. -/
def contextText (e : Entry) (t : Terminal) : Except Decimal.Error Text :=
  (Value.dictionary e.context).format t

/-- What stands between the origin and the message. -/
def valueText (e : Entry) (t : Terminal) : Except Decimal.Error Text :=
  match e.value with
  | .null => .ok []
  | value => do return " [" ++ (← value.format t) ++ "]"

/-- The line of an entry, line end included. -/
def line (e : Entry) (t : Terminal) : Except Decimal.Error Text := do
  let color ← t.color e.level.color false
  let value ← e.valueText t
  let context ← e.contextText t
  return color ++ t.bold ++ "[" ++ e.origin ++ "]" ++ t.reset ++ value ++ " " ++ e.message ++ " " ++
    context ++ t.reset ++ "\n"

end Entry

/-- The entry, if its level reaches the threshold. -/
def keep (threshold : Level) (e : Entry) : Option Entry :=
  if Level.isLogged threshold e.level then some e else none

/-- The lines of the entries whose levels reach the threshold. -/
def write (t : Terminal) (threshold : Level) (entries : List Entry) : Except Decimal.Error Text :=
  ((entries.filterMap (keep threshold)).mapM fun e : Entry => e.line t).map List.flatten

/-- The line that reports an error, of the given kind and wording, that stopped something. -/
def exceptionLine (kind wording : Text) (message : Option Text) : Text :=
  let heading : Text := match message with
    | none | some [] => []
    | some t => t ++ ": "
  "!!! EXCP " ++ heading ++ "[" ++ kind ++ "] " ++ wording ++ "\n"

/-! ## What a parser logs -/

/-- What the start line of a complete message is logged as. -/
def lineValue : StartLine → Value
  | .request l => .text l.target
  | .response l => .integer l.status

/-- The entry for an event of a parser, if it is logged. -/
def ofEvent : Event → Option Entry
  | .complete m => some {
      origin := Entry.defaultOrigin
      level := .debug
      message := "Parsed message"
      context := [
        ("Line", lineValue m.line),
        ("Headers", .integer m.headers.fields.length),
        ("Body", .integer m.body.length)] }
  | .error cause => some {
      origin := Entry.defaultOrigin
      level := .warning
      message := "HTTP parsing failed"
      context := [("Type", .text cause.type.name), ("Reason", .text cause.message)] }
  | _ => none

/-- The entries for a run of a parser, for events that did not reach its caller too. -/
def ofRun (r : Parser.Run) : List Entry := (r.events ++ r.lost).filterMap ofEvent

end HttpCodec.Log
