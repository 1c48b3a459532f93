import HttpCodec.Text.Decimal

set_option autoImplicit false

/-! # Single-octet encodings

Header lines are octets and are read as Latin-1, the encoding that maps each octet to the
character with the same number. Decoding never fails; encoding fails on the first run of characters
beyond the 256 that have an octet. Field names are further restricted to ASCII, the lower half.
-/

namespace HttpCodec.Latin

/-- The text that octets encode. -/
def decode (b : Octets) : Text := b.map Char.ofUInt8

/-- Tells whether a character has an octet. -/
def isLatin (c : Char) : Bool := c.toNat < 0x100

/-- A run of characters that have no octet: its position, its first character and its length. -/
structure Unencodable where
  position : Nat
  first : Char
  count : Nat
  deriving DecidableEq

/-- The wording of an encoding error. -/
def Unencodable.message (e : Unencodable) : Text :=
  (if e.count = 1 then
      "'latin-1' codec can't encode character '" ++ Quoted.codePoint e.first ++
        "' in position " ++ Decimal.ofNat e.position
    else
      "'latin-1' codec can't encode characters in position " ++ Decimal.ofNat e.position ++
        "-" ++ Decimal.ofNat (e.position + e.count - 1)) ++
    ": ordinal not in range(256)"

/-- The octets that encode a text. -/
def encode (t : Text) : Except Unencodable Octets :=
  match t.dropWhile isLatin with
  | [] => .ok (t.map Char.toUInt8)
  | c :: rest =>
      .error ⟨(t.takeWhile isLatin).length, c, 1 + (rest.takeWhile (!isLatin ·)).length⟩

/-- An octet beyond ASCII, where only ASCII is allowed, and its position. -/
structure NotAscii where
  position : Nat
  octet : UInt8
  deriving DecidableEq

/-- The wording of an ASCII decoding error. -/
def NotAscii.message (e : NotAscii) : Text :=
  "'ascii' codec can't decode byte 0x" ++ Hex.padded 2 (Hex.lower e.octet.toNat) ++
    " in position " ++ Decimal.ofNat e.position ++ ": ordinal not in range(128)"

/-- The text that octets encode in ASCII. -/
def decodeAscii (b : Octets) : Except NotAscii Text :=
  match b.dropWhile (· < 0x80) with
  | [] => .ok (decode b)
  | octet :: _ => .error ⟨(b.takeWhile (· < 0x80)).length, octet⟩

/-! ## The character of an octet -/

theorem toUInt8_ofUInt8 (b : UInt8) : (Char.ofUInt8 b).toUInt8 = b := by
  show b.toUInt32.toUInt8 = b
  exact UInt8.toUInt8_toUInt32 b

theorem isLatin_ofUInt8 (b : UInt8) : isLatin (Char.ofUInt8 b) := by
  show decide (b.toNat < 0x100) = true
  exact decide_eq_true b.toNat_lt

end HttpCodec.Latin
