import HttpCodec.Limits
import HttpCodec.Text.Decimal

set_option autoImplicit false

/-! # Settings

The defaults that the environment may override: the limits of parsers, whether looking up a
repeated field joins its values, and the log threshold.
-/

namespace HttpCodec

/-- The settings of a process. -/
structure Settings where
  limits : Limits := {}
  joinRepeated : Bool := true
  logLevel : Text := "Warning"

namespace Settings

/-- The number that a variable gives, or the default if the variable is not set. -/
def number (written : Option Text) (default : Int) : Except Decimal.Error Int :=
  match written with
  | none => .ok default
  | some t => Decimal.read t

/-- The settings that the variables of an environment give. The numbers are read in turn, and the
first that is malformed is the error. -/
def ofEnvironment (lookup : Text → Option Text) : Except Decimal.Error Settings := do
  let startLine ← number (lookup "WIREHTTP_MAX_START_LINE") 8192
  let headerLine ← number (lookup "WIREHTTP_MAX_HEADER_LINE") 8192
  let headers ← number (lookup "WIREHTTP_MAX_HEADERS") 100
  let chunkLine ← number (lookup "WIREHTTP_MAX_CHUNK_LINE") 1024
  return {
    limits := { startLine, headerLine, headers, chunkLine }
    joinRepeated := (lookup "WIREHTTP_JOIN_HEADERS").getD "1" = "1"
    logLevel := (lookup "WIREHTTP_LOG_LEVEL").getD "Warning" }

end Settings

end HttpCodec
