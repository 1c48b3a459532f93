import HttpCodec.Text.CharClass

set_option autoImplicit false

/-! # Blank characters

The characters that count as white space at the ends of a text: the ASCII blanks and separators
and the spaces and line breaks of Unicode.
-/

namespace HttpCodec.Blank

/-- Where runs of blank characters begin and end. -/
def turns : List Nat := [
  0x9, 0xE, 0x1C, 0x21, 0x85, 0x86, 0xA0, 0xA1, 0x1680, 0x1681, 0x2000, 0x200B, 0x2028, 0x202A,
  0x202F, 0x2030, 0x205F, 0x2060, 0x3000, 0x3001]

/-- Tells whether a character is blank. -/
def isBlank (c : Char) : Bool := CharClass.holds turns c

/-- The text without the blanks at its ends. -/
def strip (t : Text) : Text := trim isBlank t

/-- A blank that may stand around a written number: every blank except the four ASCII
separators. -/
def surroundsNumber (c : Char) : Bool :=
  isBlank c && !(0x1C ≤ c.toNat && c.toNat ≤ 0x1F)

end HttpCodec.Blank
