import HttpCodec.Field

set_option autoImplicit false

/-! # Field lines

A field line is the name, a colon and the value. Lines that continue the value of the line before
them start with a blank; they are not supported.
-/

namespace HttpCodec.FieldLine

/-- Why a line is not a field line. -/
inductive Error where
  /-- The line continues another one. -/
  | folded
  /-- The line has no colon, or nothing in front of it. -/
  | malformed (line : Octets)
  /-- The name is not ASCII. -/
  | notAscii (cause : Latin.NotAscii)
  deriving DecidableEq

/-- The wording of an error; of a line at most 64 octets are shown. -/
def Error.message : Error → Text
  | .folded => "Folded header lines are not supported"
  | .malformed line => "Malformed header line: " ++ Quoted.octets (line.take 64)
  | .notAscii cause => cause.message

/-- The space. -/
def space : UInt8 := 0x20

/-- The tab. -/
def tab : UInt8 := 0x09

/-- The colon. -/
def colon : UInt8 := 0x3A

/-- The name and the value on a line, neither of them checked yet. -/
def read (line : Octets) : Except Error (Text × Text) :=
  if line.head? = some space ∨ line.head? = some tab then .error .folded
  else
    let (name, value) := cut colon line
    if name.isEmpty || !line.contains colon then .error (.malformed line)
    else
      match Latin.decodeAscii name with
      | .error cause => .error (.notAscii cause)
      | .ok name => .ok (name, Latin.decode value)

end HttpCodec.FieldLine
