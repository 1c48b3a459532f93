import HttpCodec.Text

set_option autoImplicit false

/-! # UTF-8

Encoding text as UTF-8, and decoding octets that need not be valid. Decoding keeps track of the
character it is in the middle of (`Pending`); when the next octet cannot continue that character,
the octets read of it become one replacement character and the octet is looked at afresh.
-/

namespace HttpCodec.Utf8

/-- The octets that encode a text. -/
def encode (t : Text) : Octets := t.flatMap String.utf8EncodeChar

/-- A character of several octets that is not complete: the bits of it that have been read, how
many octets are missing, and the bounds of the next one. -/
structure Pending where
  bits : Nat
  missing : Nat
  low : Nat
  high : Nat
  deriving DecidableEq

/-- The character that stands for octets that encode nothing. -/
def replacement : Char := '\uFFFD'

/-- What the first octet of a character gives: the text that is complete with it, and the
character it starts. -/
def start (octet : UInt8) : Text × Option Pending :=
  let n := octet.toNat
  if n < 0x80 then ([Char.ofNat n], none)
  else if n < 0xC2 then ([replacement], none)
  else if n < 0xE0 then ([], some ⟨n - 0xC0, 1, 0x80, 0xBF⟩)
  else if n = 0xE0 then ([], some ⟨0, 2, 0xA0, 0xBF⟩)
  else if n = 0xED then ([], some ⟨0xD, 2, 0x80, 0x9F⟩)
  else if n < 0xF0 then ([], some ⟨n - 0xE0, 2, 0x80, 0xBF⟩)
  else if n = 0xF0 then ([], some ⟨0, 3, 0x90, 0xBF⟩)
  else if n < 0xF4 then ([], some ⟨n - 0xF0, 3, 0x80, 0xBF⟩)
  else if n = 0xF4 then ([], some ⟨4, 3, 0x80, 0x8F⟩)
  else ([replacement], none)

/-- What one more octet gives. -/
def advance : Option Pending → UInt8 → Text × Option Pending
  | none, octet => start octet
  | some p, octet =>
      let n := octet.toNat
      if p.low ≤ n ∧ n ≤ p.high then
        let bits := 64 * p.bits + (n - 0x80)
        if p.missing ≤ 1 then ([Char.ofNat bits], none)
        else ([], some ⟨bits, p.missing - 1, 0x80, 0xBF⟩)
      else
        let (t, next) := start octet
        (replacement :: t, next)

/-- The text of octets that follow an incomplete character. -/
def decodeFrom : Option Pending → Octets → Text
  | none, [] => []
  | some _, [] => [replacement]
  | p, octet :: rest => (advance p octet).1 ++ decodeFrom (advance p octet).2 rest

/-- The text that octets encode, with replacement characters for what encodes nothing. -/
def decode (b : Octets) : Text := decodeFrom none b

end HttpCodec.Utf8
