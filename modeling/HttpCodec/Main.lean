import HttpCodec.CommandLine

set_option autoImplicit false

/-! # The program

Reads the settings and the file that the command names, and prints the command's report.
-/

namespace HttpCodec.CommandLine

/-- The settings that the environment of the process gives. -/
def readSettings : IO (Except Decimal.Error Settings) := do
  let names := ["WIREHTTP_MAX_START_LINE", "WIREHTTP_MAX_HEADER_LINE", "WIREHTTP_MAX_HEADERS",
    "WIREHTTP_MAX_CHUNK_LINE", "WIREHTTP_JOIN_HEADERS", "WIREHTTP_LOG_LEVEL"]
  let values ← names.mapM fun name => do
    return (name.toList, (← IO.getEnv name).map String.toList)
  return Settings.ofEnvironment fun name => (values.find? (·.1 = name)).bind (·.2)

/-- Everything on the standard input. -/
def readStandardInput : IO Octets := do
  let stream ← IO.getStdin
  let mut data := ByteArray.empty
  repeat
    let block ← stream.read 65536
    if block.isEmpty then break
    data := data ++ block
  return data.toList

/-- What is under a path, if it can be read. -/
def readPath (path : Text) : IO (Option Octets) := do
  if path = standardInput then return some (← readStandardInput)
  try
    return some (← IO.FS.readBinFile (String.ofList path)).toList
  catch _ => return none

/-- Executes the command that arguments give: the report, or why the settings are malformed. -/
def runProgram (arguments : List Text) : IO (Except Decimal.Error Report) := do
  match ← readSettings with
  | .error cause => return .error cause
  | .ok settings =>
      match Command.ofArguments? arguments with
      | none => return .ok refusal
      | some command =>
          let data ← match command.path? with
            | none => pure none
            | some path => readPath path
          return .ok (command.execute settings data)

/-- Prints the report of the command and gives the code to exit with. -/
def program (arguments : List Text) : IO UInt32 := do
  match ← runProgram arguments with
  | .error cause =>
      IO.eprintln (String.ofList cause.message)
      return 1
  | .ok report =>
      IO.print (String.ofList report.output)
      match report.exit with
      | .ok code => return code.toUInt32
      | .error cause =>
          IO.eprintln (String.ofList cause.message)
          return 1

end HttpCodec.CommandLine

/-- The program. -/
def main (arguments : List String) : IO UInt32 :=
  HttpCodec.CommandLine.program (arguments.map String.toList)
