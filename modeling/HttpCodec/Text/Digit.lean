import HttpCodec.Text.CharClass

set_option autoImplicit false

/-! # Digits

Every script has its own ten decimal digits, which stand in a row from its zero on and can write
a number. Other digits, such as superscripts and circled ones, count as digits but cannot write a
number.
-/

namespace HttpCodec.Digit

/-- The zeros of the scripts; the digits one to nine follow each of them. -/
def zeros : List Nat := [
  0x30, 0x660, 0x6F0, 0x7C0, 0x966, 0x9E6, 0xA66, 0xAE6, 0xB66, 0xBE6, 0xC66, 0xCE6, 0xD66, 0xDE6,
  0xE50, 0xED0, 0xF20, 0x1040, 0x1090, 0x17E0, 0x1810, 0x1946, 0x19D0, 0x1A80, 0x1A90, 0x1B50,
  0x1BB0, 0x1C40, 0x1C50, 0xA620, 0xA8D0, 0xA900, 0xA9D0, 0xA9F0, 0xAA50, 0xABF0, 0xFF10, 0x104A0,
  0x10D30, 0x11066, 0x110F0, 0x11136, 0x111D0, 0x112F0, 0x11450, 0x114D0, 0x11650, 0x116C0, 0x11730,
  0x118E0, 0x11950, 0x11C50, 0x11D50, 0x11DA0, 0x16A60, 0x16AC0, 0x16B50, 0x1D7CE, 0x1D7D8, 0x1D7E2,
  0x1D7EC, 0x1D7F6, 0x1E140, 0x1E2F0, 0x1E950, 0x1FBF0]

/-- The value of a decimal digit of any script. -/
def value? (c : Char) : Option Nat :=
  (zeros.find? fun z => z ≤ c.toNat && c.toNat < z + 10).map (c.toNat - ·)

/-- Where runs of digits that cannot write a number begin and end. -/
def specialTurns : List Nat := [
  0xB2, 0xB4, 0xB9, 0xBA, 0x1369, 0x1372, 0x19DA, 0x19DB, 0x2070, 0x2071, 0x2074, 0x207A, 0x2080,
  0x208A, 0x2460, 0x2469, 0x2474, 0x247D, 0x2488, 0x2491, 0x24EA, 0x24EB, 0x24F5, 0x24FE, 0x24FF,
  0x2500, 0x2776, 0x277F, 0x2780, 0x2789, 0x278A, 0x2793, 0x10A40, 0x10A44, 0x10E60, 0x10E69,
  0x11052, 0x1105B, 0x1F100, 0x1F10B]

/-- Tells whether a character counts as a digit. -/
def isDigit (c : Char) : Bool := (value? c).isSome || CharClass.holds specialTurns c

/-- Tells whether a text has characters and all of them count as digits. -/
def allDigits (t : Text) : Bool := !t.isEmpty && t.all isDigit

/-- Tells whether a text has characters and all of them are the digits `0` to `9`. -/
def allAsciiDigits (t : Text) : Bool := !t.isEmpty && t.all Char.isDigit

/-! ## ASCII digits -/

/-- The ASCII digits are the first ten digits of any base. -/
theorem exists_eq_digitChar_of_isDigit {c : Char} (h : c.isDigit) :
    ∃ d : Fin 10, c = d.val.digitChar := by
  simp only [Char.isDigit, Bool.and_eq_true, decide_eq_true_eq] at h
  have h1 : 48 ≤ c.val.toNat := h.1
  have h2 : c.val.toNat ≤ 57 := h.2
  refine ⟨⟨c.val.toNat - 48, by omega⟩, Char.ext (UInt32.toNat_inj.mp ?_)⟩
  have : (Nat.digitChar (c.val.toNat - 48)).val.toNat = 48 + (c.val.toNat - 48) :=
    Nat.toNat_digitChar_of_lt_ten (by omega)
  rw [this]
  omega

/-- The value of an ASCII digit. -/
theorem value?_of_isDigit {c : Char} (h : c.isDigit) : value? c = some (c.toNat - 48) := by
  obtain ⟨d, rfl⟩ := exists_eq_digitChar_of_isDigit h
  revert d
  decide

end HttpCodec.Digit
