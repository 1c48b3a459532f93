import HttpCodec.Text.Hex
import HttpCodec.Text.Utf8

set_option autoImplicit false

/-! # Percent encoding

In a query string only letters, digits and `_`, `.`, `-`, `~` stand for themselves; every other
character is written as the percent escapes of its UTF-8 octets. Decoding accepts more: a percent
sign that no two hexadecimal digits follow stands for itself, and escapes that are not valid
UTF-8 give replacement characters. Characters beyond ASCII stand for themselves and separate the
runs of escapes that are decoded together.
-/

namespace HttpCodec.Percent

/-- Tells whether a character stands for itself. -/
def isUnreserved (c : Char) : Bool :=
  c.isAlphanum || c = '_' || c = '.' || c = '-' || c = '~'

/-- The escape of an octet. -/
def escape (octet : UInt8) : Text := '%' :: Hex.padded 2 (Hex.upper octet.toNat)

/-- An octet of UTF-8 as it is written. -/
def encodeOctet (octet : UInt8) : Text :=
  let c := Char.ofUInt8 octet
  if isUnreserved c then [c] else escape octet

/-- The written form of a text. -/
def encode (t : Text) : Text := (Utf8.encode t).flatMap encodeOctet

/-- The octets that ASCII characters and escapes stand for. -/
def unescape : Text → Octets
  | '%' :: a :: b :: t =>
      match Hex.value? a, Hex.value? b with
      | some x, some y => UInt8.ofNat (16 * x + y) :: unescape t
      | _, _ => '%'.toUInt8 :: unescape (a :: b :: t)
  | c :: t => c.toUInt8 :: unescape t
  | [] => []

/-- Tells whether a character is ASCII. -/
def isAscii (c : Char) : Bool := c.toNat < 0x80

/-- The text that a written form stands for. -/
def decode (t : Text) : Text :=
  Utf8.decode (unescape (t.takeWhile isAscii)) ++
    match _h : t.dropWhile isAscii with
    | [] => []
    | c :: rest => c :: decode rest
termination_by t.length
decreasing_by
  have hle : (t.dropWhile isAscii).length ≤ t.length :=
    (List.dropWhile_sublist isAscii).length_le
  rw [_h, List.length_cons] at hle
  omega

end HttpCodec.Percent
