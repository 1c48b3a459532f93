import HttpCodec.Fields
import HttpCodec.StartLine
import HttpCodec.TransferCoding

set_option autoImplicit false

/-! # Framing

How a receiver knows where the body of a message ends. The header fields and the start line decide
it once the head is complete (`Framing.decide`): a chunked body ends with its last chunk, a body
of declared length after that many octets, and the body of a response that declares neither when
the connection closes. Fields that leave room for doubt are refused.
-/

namespace HttpCodec

/-- The ways to find the end of a body. -/
inductive Framing where
  /-- After a declared number of octets. -/
  | lengthKnown
  /-- After the last chunk. -/
  | chunked
  /-- Where the data ends. -/
  | untilClose
  deriving DecidableEq

namespace Framing

/-- The name of a framing in reports. -/
def name : Framing → Text
  | .lengthKnown => "LengthKnown"
  | .chunked => "Chunked"
  | .untilClose => "UntilClose"

/-- Why header fields do not say where the body ends. -/
inductive Error where
  /-- Both a coding and a length are declared. -/
  | bothDeclared
  /-- The final coding of a request is not chunked, so the request has no end. -/
  | notChunked (coding : Text)
  /-- Different lengths are declared. -/
  | conflictingLengths (values : List Text)
  /-- The declared length is not a number. -/
  | invalidLength (length : Text)
  /-- A request with the method has a body, but nothing is declared. -/
  | lengthRequired (method : Text)
  deriving DecidableEq

/-- The wording of an error; of a length at most 32 characters are shown. -/
def Error.message : Error → Text
  | .bothDeclared => "Both Transfer-Encoding and Content-Length are present"
  | .notChunked coding => "Request body coding is not chunked: " ++ Quoted.text coding
  | .conflictingLengths values =>
      "Conflicting Content-Length: " ++ Quoted.list (values.map Quoted.text)
  | .invalidLength length => "Invalid Content-Length: " ++ Quoted.text (length.take 32)
  | .lengthRequired method =>
      method ++ " request without Content-Length or Transfer-Encoding"

/-- What the end of the head decides. -/
inductive Decision where
  /-- There is no body. -/
  | empty
  /-- The body has this many octets, at least one. -/
  | length (octets : Nat)
  | chunked
  | untilClose
  /-- The fields are refused. -/
  | refused (cause : Error)
  /-- The declared length has too many digits to be read. -/
  | unreadable (cause : Decimal.Error)
  deriving DecidableEq

/-- The methods whose requests have a body. -/
def methodsWithBody : List Text := ["POST", "PUT", "PATCH"]

/-- The lengths that `Content-Length` values list. -/
def declaredLengths (values : List Text) : List Text :=
  (values.flatMap (splitOn ',')).map (trim CharClass.isSpaceOrTab)

/-- What declared lengths decide: they have to be one and the same number. -/
def ofLengths (values : List Text) : Decision :=
  match declaredLengths values with
  | [] => .refused (.conflictingLengths values)
  | length :: others =>
      if others.any (· ≠ length) then .refused (.conflictingLengths values)
      else if !Digit.allAsciiDigits length then .refused (.invalidLength length)
      else
        match Decimal.read length with
        | .error cause => .unreadable cause
        | .ok n => if n = 0 then .empty else .length n.toNat

/-- What a declared coding decides. -/
def ofCoding (kind : Kind) (coding : Text) : Decision :=
  if TransferCoding.isChunked coding then .chunked
  else
    match kind with
    | .response => .untilClose
    | .request => .refused (.notChunked coding)

/-- What a head decides that declares neither a coding nor a length. -/
def ofNothing : StartLine → Decision
  | .response _ => .untilClose
  | .request l =>
      if methodsWithBody.contains l.method then .refused (.lengthRequired l.method) else .empty

/-- What a start line and header fields decide. -/
def decide (line : StartLine) (headers : Fields) : Decision :=
  let codings := headers.getAll FieldName.transferEncoding
  let lengths := headers.getAll FieldName.contentLength
  if !codings.isEmpty && !lengths.isEmpty then .refused .bothDeclared
  else if !line.allowsBody then .empty
  else
    match codings.getLast? with
    | some coding => ofCoding line.kind coding
    | none => if lengths.isEmpty then ofNothing line else ofLengths lengths

end Framing

end HttpCodec
