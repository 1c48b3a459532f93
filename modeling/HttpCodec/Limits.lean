set_option autoImplicit false

/-! # Limits

Bounds on what is buffered for one element of a message. Lengths are counted without the line
end.
-/

namespace HttpCodec

/-- The limits of a parser. -/
structure Limits where
  /-- The longest start line. -/
  startLine : Int := 8192
  /-- The longest header or trailer line. -/
  headerLine : Int := 8192
  /-- The largest number of header fields, and of trailer fields. -/
  headers : Int := 100
  /-- The longest chunk size line. -/
  chunkLine : Int := 1024
  deriving DecidableEq

end HttpCodec
