import HttpCodec.Text.Decimal

set_option autoImplicit false

/-! # Terminal colours

The control sequences that make a terminal write in bold or in colour. The environment may ask for
no colours, and may insist on them.
-/

namespace HttpCodec

/-- Whether to write control sequences. -/
structure Terminal where
  coloured : Bool := true
  deriving DecidableEq

namespace Terminal

/-- The terminal of an environment with the given variables: `NO_COLOR` turns colours off unless
`FORCE_COLOR` is there too. -/
def ofEnvironment (names : List Text) : Terminal :=
  ⟨names.contains "FORCE_COLOR" || !names.contains "NO_COLOR"⟩

/-- The control sequence with the given parameters. -/
def sequence (t : Terminal) (parameters : Text) : Text :=
  if t.coloured then "\x1b[" ++ parameters ++ "m" else []

/-- Starts bold text. -/
def bold (t : Terminal) : Text := t.sequence "1"

/-- Ends bold text. -/
def normal (t : Terminal) : Text := t.sequence "0"

/-- Ends all that was started. -/
def reset (t : Terminal) : Text := t.sequence "0"

/-- Starts text in one of the numbered colours. Without colours the number does not matter. -/
def color (t : Terminal) (number : Int) (strong : Bool) : Except Decimal.Error Text :=
  if t.coloured then
    (Decimal.write number).map fun written =>
      t.sequence ((if strong then "1" else "0") ++ ";38;5;" ++ written)
  else .ok []

end Terminal

end HttpCodec
