import HttpCodec.CommandLine.Arguments
import HttpCodec.Parser
import HttpCodec.Settings

set_option autoImplicit false

/-! # The command line

Two commands: printing the events of the messages in a file, one on a line, and looking up status
codes and reason phrases. What they print and the code they exit with are functions of the
arguments and of what the file holds.
-/

namespace HttpCodec.CommandLine

/-- Why a command stops without a code to exit with. -/
inductive Failure where
  /-- A number cannot be read. -/
  | unreadable (cause : Decimal.Error)
  /-- The path holds the null character, which no path does. -/
  | nullInPath
  deriving DecidableEq

/-- The wording of a failure. -/
def Failure.message : Failure → Text
  | .unreadable cause => cause.message
  | .nullInPath => "embedded null byte"

/-- What a command prints, and the code it exits with unless it fails. -/
structure Report where
  output : Text
  exit : Except Failure Nat

/-- The exit code for arguments that make no command and for files that cannot be read. -/
def usageCode : Nat := 2

/-- Nothing printed, for arguments that make no command and for files that cannot be read. -/
def refusal : Report := ⟨[], .ok usageCode⟩

/-! ## Events -/

/-- An event on one line. -/
def describe : Event → Text
  | .start (.request l) => "REQUEST  " ++ l.text
  | .start (.response l) => "RESPONSE " ++ l.text
  | .field .header f => "HEADER   " ++ f.name ++ ": " ++ f.value
  | .field .trailer f => "TRAILER  " ++ f.name ++ ": " ++ f.value
  | .body data => "BODY     " ++ Decimal.ofNat data.length ++ " bytes"
  | .complete m => "COMPLETE " ++ Decimal.ofNat m.body.length ++ " bytes"
  | .error cause => "ERROR    " ++ cause.summary

/-- The line of an event. -/
def lineOf (e : Event) : Text := describe e ++ "\n"

/-- Prints the lines of events up to the first error: what is printed, and the code to exit with. -/
def printEvents : List Event → Text × Nat
  | [] => ([], 0)
  | .error cause :: _ => (lineOf (.error cause), 1)
  | e :: events =>
      let (lines, code) := printEvents events
      (lineOf e ++ lines, code)

/-- Prints the events that a parser reads from a source. -/
def reportEvents (p : Parser) (source : Source) : Report :=
  let r := p.read source
  let (lines, code) := printEvents r.events
  ⟨lines,
    match r.interruption with
    | some (.unreadable cause) => .error (.unreadable cause)
    | _ => .ok code⟩

/-! ## Status codes -/

/-- Prints the phrase of a code, or the code of a phrase. -/
def reportStatus (value : Text) : Report :=
  if Digit.allDigits value then
    match Decimal.read value with
    | .error cause => ⟨[], .error (.unreadable cause)⟩
    | .ok code =>
        let reason := Status.reasonFor code
        ⟨value ++ " " ++ reason ++ "\n", .ok (if reason = Status.unknown then 1 else 0)⟩
  else
    match Status.codeFor? value with
    | some code => ⟨Decimal.ofInt code ++ " " ++ value ++ "\n", .ok 0⟩
    | none => ⟨Status.unknown ++ " " ++ value ++ "\n", .ok 1⟩

/-! ## Commands -/

/-- The path that stands for the standard input. -/
def standardInput : Text := "-"

/-- The null character. -/
def null : Char := '\x00'

/-- The path of the file that a command reads. -/
def Command.path? : Command → Option Text
  | .parse _ _ path => some path
  | .status _ => none

/-- Executes a command on what the file holds that it reads; nothing if it cannot be read. -/
def Command.execute (settings : Settings) (data : Option Octets) : Command → Report
  | .status words => reportStatus ((" " : Text).intercalate words)
  | .parse kind streaming path =>
      if path.contains null then ⟨[], .error .nullInPath⟩
      else
        match data with
        | none => refusal
        | some data =>
            let options : Parser.Options :=
              { kind, streaming, limits := settings.limits, join := settings.joinRepeated }
            reportEvents (Parser.new options) (Source.ofStream data Source.defaultSize)

/-- Executes the command that arguments give, where `file` gives what is under a path. -/
def run (settings : Settings) (file : Text → Option Octets) (arguments : List Text) : Report :=
  match Command.ofArguments? arguments with
  | none => refusal
  | some command => command.execute settings (command.path?.bind file)

end HttpCodec.CommandLine
