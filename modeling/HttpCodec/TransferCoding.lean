import HttpCodec.Text.Blank
import HttpCodec.Text.LetterCase

set_option autoImplicit false

/-! # Transfer codings

A `Transfer-Encoding` value lists codings between commas, in the order in which they were applied.
Only the final one matters for where a body ends.
-/

namespace HttpCodec.TransferCoding

/-- The final coding that a value lists, in lower case and without blanks around it. -/
def final (value : Text) : Text := LetterCase.lower (Blank.strip (afterLast ',' value))

/-- The coding in chunks. -/
def chunked : Text := "chunked"

/-- Tells whether the final coding that a value lists is chunked. -/
def isChunked (value : Text) : Bool := final value = chunked

end HttpCodec.TransferCoding
