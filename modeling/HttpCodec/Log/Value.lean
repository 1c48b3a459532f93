import HttpCodec.Terminal
import HttpCodec.Text.FixedPoint

set_option autoImplicit false

/-! # Values in log entries

The values that a log entry shows, and how they are written on one line: nothing as a circle,
truth values as marks, numbers with a fraction to two decimal places, text as it is unless it has
spaces. A value with a whole number that is not written is not written either.
-/

namespace HttpCodec.Log

/-- A value to be shown. -/
inductive Value where
  | null
  | boolean (value : Bool)
  | integer (value : Int)
  | float (value : Float)
  | text (value : Text)
  | octets (value : Octets)
  | sequence (items : List Value)
  | dictionary (entries : List (Text × Value))

namespace Value

/-- What stands for no value, no items and no entries. -/
def nothing : Text := "◌"

/-- The number of decimal places of numbers with a fraction. -/
def decimalPlaces : Nat := 2

mutual

/-- A value on one line. -/
def format (t : Terminal) : Value → Except Decimal.Error Text
  | .null => .ok nothing
  | .boolean value => .ok (if value then "✓" else "✗")
  | .integer value => Decimal.write value
  | .float value => .ok (FixedPoint.ofFloat decimalPlaces value)
  | .text value => .ok (if value.contains ' ' then Quoted.text value else value)
  | .octets value => .ok (Quoted.octets value)
  | .sequence [] => .ok nothing
  | .sequence (item :: items) => do return (← format t item) ++ (← formatItems t items)
  | .dictionary [] => .ok nothing
  | .dictionary (entry :: entries) => do
      return (← formatEntry t entry) ++ (← formatEntries t entries)

/-- More items of a sequence. -/
def formatItems (t : Terminal) : List Value → Except Decimal.Error Text
  | [] => .ok []
  | item :: items => do return "," ++ (← format t item) ++ (← formatItems t items)

/-- An entry of a dictionary, its key in bold. -/
def formatEntry (t : Terminal) : Text × Value → Except Decimal.Error Text
  | (key, value) => do return t.bold ++ key ++ t.normal ++ "=" ++ (← format t value)

/-- More entries of a dictionary. -/
def formatEntries (t : Terminal) : List (Text × Value) → Except Decimal.Error Text
  | [] => .ok []
  | entry :: entries => do
      return " " ++ (← formatEntry t entry) ++ (← formatEntries t entries)

end

end Value

end HttpCodec.Log
