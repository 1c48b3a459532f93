import HttpCodec.Text.Decimal

set_option autoImplicit false

/-! # Scalars

Callers may hand over a value whose kind is only looked at when it is used: a field name that is
not text, a query value that is a number, a body that is neither text nor octets. Each has a text,
but for numbers that are too long to be written.
-/

namespace HttpCodec

/-- A value of unknown kind. -/
inductive Scalar where
  | null
  | boolean (value : Bool)
  | integer (value : Int)
  | text (value : Text)
  deriving DecidableEq

/-- A scalar as plain text, unless it is a number that is not written. -/
def Scalar.shown : Scalar → Except Decimal.Error Text
  | .null => .ok "None"
  | .boolean true => .ok "True"
  | .boolean false => .ok "False"
  | .integer n => Decimal.write n
  | .text t => .ok t

/-- Tells whether a scalar is neither null, false, zero nor empty. -/
def Scalar.isTruthy : Scalar → Bool
  | .null => false
  | .boolean b => b
  | .integer n => n != 0
  | .text t => !t.isEmpty

end HttpCodec
