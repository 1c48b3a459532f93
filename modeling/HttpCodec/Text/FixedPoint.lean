import HttpCodec.Text.Decimal

set_option autoImplicit false

/-! # Fixed-point numbers

Writing floating-point numbers with a fixed number of decimal places. The exact value of the
number is rounded to the nearest multiple of the last place, and a value half way between two
multiples to the even one.
-/

namespace HttpCodec.FixedPoint

/-- The quotient rounded to the nearest natural number, half way to the even one. -/
def roundDiv (numerator denominator : Nat) : Nat :=
  let quotient := numerator / denominator
  let twice := 2 * (numerator % denominator)
  if twice < denominator then quotient
  else if denominator < twice then quotient + 1
  else quotient + quotient % 2

/-- How many units of the last of `places` decimal places make one. -/
def unitsPerOne (places : Nat) : Nat := Nat.pow 10 places

/-- A whole number of units of the last place, written with `places` decimal places. -/
def ofUnits (places : Nat) (units : Nat) : Text :=
  Decimal.ofNat (units / unitsPerOne places) ++ "." ++
    List.leftpad places '0' (Decimal.ofNat (units % unitsPerOne places))

/-- The fraction written with `places` decimal places. -/
def ofFraction (places numerator denominator : Nat) : Text :=
  ofUnits places (roundDiv (numerator * unitsPerOne places) denominator)

/-- The bit that the mantissa of a normal number has in front of the 52 bits that are stored. -/
def hiddenBit : Nat := 1 <<< 52

/-- The largest exponent, which marks the infinities and what is not a number. -/
def maxExponent : Nat := 0x7FF

/-- A floating-point number written with `places` decimal places. -/
def ofFloat (places : Nat) (x : Float) : Text :=
  let bits := x.toBits.toNat
  let exponent := bits / hiddenBit % (maxExponent + 1)
  let fraction := bits % hiddenBit
  let sign : Text := if 1 <<< 63 ≤ bits then "-" else ""
  if exponent = maxExponent then
    if fraction = 0 then sign ++ "inf" else "nan"
  else
    let mantissa := if exponent = 0 then fraction else hiddenBit + fraction
    let shift := max exponent 1
    sign ++ ofFraction places (mantissa <<< (shift - 1075)) (1 <<< (1075 - shift))

end HttpCodec.FixedPoint
