import HttpCodec.Text

set_option autoImplicit false

/-! # Classes of characters

A class of characters is given by its *turns*: the code points, in increasing order, at which
membership changes, starting from "outside". The characters up to the first turn are outside the
class, those from there up to the second turn are in it, and so on. The Unicode properties that
the library needs (`Text/Blank`, `Text/Digit`, `Text/LetterCase`, `Text/Printable`) are tables of
turns.
-/

namespace HttpCodec.CharClass

/-- Membership in the class with the given turns: an odd number of them has been passed. -/
def holds (turns : List Nat) (c : Char) : Bool :=
  turns.countP (· ≤ c.toNat) % 2 == 1

/-- The tab and the space, which are all that may surround a field value. -/
def isSpaceOrTab (c : Char) : Bool := c = ' ' || c = '\t'

/-- The control characters that no field value and no reason phrase holds: all of them except
the tab. -/
def isForbiddenControl (c : Char) : Bool :=
  (c.toNat < 0x20 && c ≠ '\t') || c = '\x7f'

end HttpCodec.CharClass
