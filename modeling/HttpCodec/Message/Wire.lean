import HttpCodec.Chunk
import HttpCodec.Message
import HttpCodec.TransferCoding

set_option autoImplicit false

/-! # Messages on the wire

Writing messages. The body follows the head as it is, framed by a `Content-Length`, or as chunks
if the message declares a chunked coding, has trailers, or is written in pieces. The header fields
that the framing needs are added where the message lacks them.
-/

namespace HttpCodec

/-- The list with `f` applied to the last element that satisfies `p`, if there is one. -/
def modifyLast? {α : Type} (p : α → Bool) (f : α → α) : List α → Option (List α)
  | [] => none
  | a :: l =>
      match modifyLast? p f l with
      | some changed => some (a :: changed)
      | none => if p a then some (f a :: l) else none

namespace Message

/-- Tells whether the message may have a body. -/
def canHaveBody (m : Message) : Bool := m.line.allowsBody

/-- Tells whether the header fields of the message declare a chunked body. -/
def declaresChunked (m : Message) : Bool :=
  match (m.headers.getAll FieldName.transferEncoding).getLast? with
  | none => false
  | some value => TransferCoding.isChunked value

/-- The start line with its end. -/
def startLine (m : Message) : Text := m.line.text ++ "\r\n"

/-- A `Transfer-Encoding` field whose final coding is chunked. -/
def chunkedAtLast (f : Field) : Field :=
  if TransferCoding.isChunked f.value then f
  else { f with value := f.value ++ ", " ++ TransferCoding.chunked }

/-- The header fields of a chunked body: no length, and a final coding that is chunked. -/
def chunkedFields (fields : List Field) : List Field :=
  let kept := fields.filter (·.name ≠ FieldName.contentLength)
  (modifyLast? (·.name = FieldName.transferEncoding) chunkedAtLast kept).getD
    (kept ++ [⟨FieldName.transferEncoding, TransferCoding.chunked⟩])

/-- The header lines, with the framing that the message needs. -/
def headerLines (m : Message) (streaming : Bool) : List Text :=
  if streaming && m.canHaveBody then (chunkedFields m.headers.fields).map Field.line
  else if !m.body.isEmpty && !m.headers.has FieldName.contentLength &&
      !m.headers.has FieldName.transferEncoding then
    m.headers.lines ++ [(⟨FieldName.contentLength, Decimal.ofNat m.body.length⟩ : Field).line]
  else m.headers.lines

/-- The head of the message: start line, header lines and an empty line. -/
def head (m : Message) (streaming : Bool) : Except Latin.Unencodable Octets := do
  let start ← Latin.encode m.startLine
  let lines ← (m.headerLines streaming).mapM Latin.encode
  return start ++ lines.flatten ++ lineEnd

/-- What has been written in parts, and what stopped it. -/
structure Written where
  parts : List Octets
  failure : Option Fault

namespace Written

/-- One more part in front. -/
def cons (part : Octets) (w : Written) : Written := { w with parts := part :: w.parts }

/-- All of it, unless it stopped. -/
def joined (w : Written) : Except Fault Octets :=
  match w.failure with
  | none => .ok w.parts.flatten
  | some fault => .error fault

/-- How many octets have been written, unless it stopped. -/
def count (w : Written) : Except Fault Nat := w.joined.map List.length

end Written

/-- One chunk for each piece that is not empty, and the last chunk. -/
def writeChunks (encoder : Chunk.Encoder) : List Content → Written
  | [] =>
      match encoder.flush with
      | .ok last => ⟨[last], none⟩
      | .error e => ⟨[], some (.encoding e)⟩
  | piece :: pieces =>
      match piece.toOctets with
      | .error e => ⟨[], some (.content e)⟩
      | .ok data =>
          match encoder.feed data with
          | none => writeChunks encoder pieces
          | some part => (writeChunks encoder pieces).cons part

/-- Writes the head and then the pieces of a body as chunks, with the given trailers or those of
the message. -/
def stream (m : Message) (pieces : List Content) (trailers : Option Fields) : Written :=
  match m.line with
  | .response l =>
      if Status.hasBody l.status then write else ⟨[], some (.refused (.noBody l.status))⟩
  | .request _ => write
where
  write : Written :=
    match m.head true with
    | .error e => ⟨[], some (.encoding e)⟩
    | .ok head => (writeChunks ⟨(trailers.getD m.trailers).lines⟩ pieces).cons head

/-- Writes the whole message. A chunked body is written as a single chunk. -/
def build (m : Message) (streaming : Bool) : Except Fault Octets :=
  match m.line with
  | .response l =>
      if Status.hasBody l.status then write
      else if m.trailers.fields.isEmpty then (m.head false).mapError .encoding
      else .error (.refused (.noTrailers l.status))
  | .request _ => write
where
  write : Except Fault Octets :=
    if streaming || m.declaresChunked then (m.stream [.octets m.body] none).joined
    else if m.trailers.fields.isEmpty then
      ((m.head false).map (· ++ m.body)).mapError .encoding
    else if m.headers.has FieldName.contentLength then .error (.refused .trailersWithLength)
    else (m.stream [.octets m.body] none).joined

/-- Writes the message: in pieces if there are any, else as a whole. -/
def write (m : Message) (pieces : Option (List Content)) (trailers : Option Fields) : Written :=
  match pieces with
  | some pieces => m.stream pieces trailers
  | none =>
      match m.build false with
      | .ok data => ⟨[data], none⟩
      | .error fault => ⟨[], some fault⟩

end Message

end HttpCodec
