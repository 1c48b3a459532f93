import HttpCodec.Scalar
import HttpCodec.Text.Utf8

set_option autoImplicit false

/-! # Content

The content of a body as a caller gives it: octets, text, which is encoded as UTF-8, or nothing.
Other values are refused.
-/

namespace HttpCodec

/-- What a caller gives for a body. -/
inductive Content where
  | octets (data : Octets)
  | scalar (value : Scalar)
  deriving DecidableEq

namespace Content

/-- A value that is neither octets nor text. -/
structure Error where
  value : Scalar
  deriving DecidableEq

/-- The wording of an error, which shows the value if it has a text. -/
def Error.message (e : Error) : Text :=
  match e.value.shown with
  | .ok shown => "Expected bytes or str, got: " ++ shown
  | .error cause => cause.message

/-- No content. -/
def none : Content := .scalar .null

/-- The octets of the content. -/
def toOctets : Content → Except Error Octets
  | .octets data => .ok data
  | .scalar .null => .ok []
  | .scalar (.text t) => .ok (Utf8.encode t)
  | .scalar value => .error ⟨value⟩

/-- Tells whether there is any content, before it is known whether it is acceptable. -/
def isPresent : Content → Bool
  | .octets data => !data.isEmpty
  | .scalar value => value.isTruthy

end Content

end HttpCodec
