import HttpCodec.Line
import HttpCodec.Text.Latin

set_option autoImplicit false

/-! # Chunks

A chunked body is a sequence of chunks: the size in hexadecimal digits on a line of its own, that
many octets of data, and a line end. A chunk of size zero, which consists of its size line only,
is the last one; trailer lines and an empty line follow it. The size line may carry extensions
after a semicolon, which are ignored.

`take` takes a chunk off the front of data that may still be incomplete, `encode` writes one. The
functions whose names end in `At` work at an offset in the data, those whose names end in `Back` at
an offset that counts from its end.
-/

namespace HttpCodec.Chunk

/-- Why the framing of a chunk is wrong, whatever follows. -/
inductive Error where
  /-- A size line does not start with one to sixteen hexadecimal digits. -/
  | invalidSize (line : Octets)
  /-- A size line is longer than the limit. -/
  | sizeLineTooLong (limit : Int)
  /-- A size line is not a line. -/
  | malformedSizeLine (cause : Line.Error)
  /-- The data of a chunk goes on beyond its size. -/
  | unterminated
  deriving DecidableEq

/-- The wording of an error; of a size line at most 32 octets are shown. -/
def Error.message : Error → Text
  | .invalidSize line => "Invalid chunk size: " ++ Quoted.octets (line.take 32)
  | .sizeLineTooLong limit => "Chunk size line exceeds " ++ Decimal.ofInt limit ++ " bytes"
  | .malformedSizeLine cause => "Malformed chunk size line: " ++ cause.message
  | .unterminated => "Chunk data is not followed by CRLF"

/-! ## Reading -/

/-- The largest number of digits in a chunk size; sixteen already exceed any body. -/
def maxSizeDigits : Nat := 16

/-- The digits on a size line, without extensions and the blanks before them. -/
def sizeDigits (line : Octets) : Text :=
  trimEnd CharClass.isSpaceOrTab ((Latin.decode line).takeWhile (· ≠ ';'))

/-- The chunk size that a size line gives. -/
def size (line : Octets) : Except Error Nat :=
  let digits := sizeDigits line
  match Hex.read? digits with
  | some n =>
      if 1 ≤ digits.length ∧ digits.length ≤ maxSizeDigits then .ok n
      else .error (.invalidSize line)
  | none => .error (.invalidSize line)

/-- The chunk size on a line that was looked for, with what was found along with the line. -/
def sizeOfScan {α : Type} (limit : Int) :
    Except Line.Error (Option (Octets × α)) → Except Error (Option (Nat × α))
  | .error (.tooLong _) => .error (.sizeLineTooLong limit)
  | .error cause => .error (.malformedSizeLine cause)
  | .ok none => .ok none
  | .ok (some (line, rest)) => (size line).map fun n => some (n, rest)

/-- Takes a size line of at most `limit` octets off the front of the data: the size and what
follows, or nothing if more data is needed. -/
def takeSize (data : Octets) (limit : Int) : Except Error (Option (Nat × Octets)) :=
  sizeOfScan limit (Line.scan data limit)

/-- Tells whether a line end has arrived in the data after a chunk's own. A wrong octet is
noticed at once. -/
def hasEnd : Octets → Except Error Bool
  | [] => .ok false
  | [c] => if c = CR then .ok false else .error .unterminated
  | c :: d :: _ => if c = CR ∧ d = LF then .ok true else .error .unterminated

/-- Takes a chunk off the front of the data: its payload and what follows, or nothing if more
data is needed. The last chunk has an empty payload, and its trailers follow. -/
def take (data : Octets) (limit : Int) : Except Error (Option (Octets × Octets)) :=
  match takeSize data limit with
  | .error e => .error e
  | .ok none => .ok none
  | .ok (some (n, rest)) =>
      if n = 0 then .ok (some ([], rest))
      else
        match hasEnd (rest.drop n) with
        | .error e => .error e
        | .ok false => .ok none
        | .ok true => .ok (some (rest.take n, rest.drop (n + 2)))

/-- The size on the size line at `offset`, and the offset after that line. -/
def takeSizeAt (data : Octets) (offset : Nat) (limit : Int) :
    Except Error (Option (Nat × Nat)) :=
  sizeOfScan limit (Line.scanAt data offset limit)

/-- The payload of the chunk at `offset`, and how many octets the chunk spans. -/
def takeAt (data : Octets) (offset : Nat) (limit : Int) :
    Except Error (Option (Octets × Nat)) :=
  if data.length < offset then
    (takeSizeAt data offset limit).map fun _ => none
  else
    (take (data.drop offset) limit).map fun found =>
      found.map fun (payload, rest) => (payload, data.length - offset - rest.length)

/-- Tells whether a line end has arrived after chunk data that ends at `offset`. -/
def hasEndAt (data : Octets) (offset : Nat) : Except Error Bool :=
  hasEnd (data.drop offset)

/-- The size on the size line that starts `back` octets before the end, and the offset after that
line. -/
def takeSizeBack (data : Octets) (back : Nat) (limit : Int) :
    Except Error (Option (Nat × Nat)) :=
  sizeOfScan limit (Line.scanBack data back limit)

/-- The payload of the chunk that starts `back` octets before the end, and how far its end is from
`back` octets before the beginning. -/
def takeBack (data : Octets) (back : Nat) (limit : Int) : Except Error (Option (Octets × Nat)) :=
  match takeSizeBack data back limit with
  | .error e => .error e
  | .ok none => .ok none
  | .ok (some (n, start)) =>
      if n = 0 then .ok (some ([], start + back))
      else
        (hasEndAt data (start + n)).map fun found =>
          if found then some ((data.drop start).take n, start + n + 2 + back) else none

/-- Tells whether a line end has arrived after chunk data that ends `back` octets before the end.
The octet after the last one is taken to be the first. -/
def hasEndBack (data : Octets) (back : Nat) : Except Error Bool :=
  hasEnd (data.drop (data.length - back) ++ data.take 1)

/-! ## Writing -/

/-- The octets of ASCII text. -/
def ascii (t : Text) : Octets := t.map Char.toUInt8

/-- The data as one chunk. Empty data gives nothing, because an empty chunk would end the
body. -/
def encode (data : Octets) : Octets :=
  if data.isEmpty then []
  else ascii (Hex.upper data.length) ++ lineEnd ++ data ++ lineEnd

/-- The last chunk, with trailer lines that end in line ends. -/
def encodeLast (trailers : List Text) : Except Latin.Unencodable Octets := do
  let lines ← trailers.mapM Latin.encode
  return ascii "0" ++ lineEnd ++ lines.flatten ++ lineEnd

/-- Writes a chunked body, one chunk for each block it is given. -/
structure Encoder where
  /-- The lines to write after the last chunk. -/
  trailers : List Text := []

namespace Encoder

/-- The chunk of a block, if the block has data. -/
def feed (_ : Encoder) (block : Octets) : Option Octets :=
  if block.isEmpty then none else some (encode block)

/-- The end of the body. -/
def flush (e : Encoder) : Except Latin.Unencodable Octets := encodeLast e.trailers

end Encoder

/-! ## Progress -/

theorem length_lt_of_takeSize {data rest : Octets} {limit : Int} {n : Nat}
    (h : takeSize data limit = .ok (some (n, rest))) : rest.length < data.length := by
  simp only [takeSize] at h
  cases hs : Line.scan data limit with
  | error e => cases e <;> simp [sizeOfScan, hs] at h
  | ok found =>
      cases found with
      | none => simp [sizeOfScan, hs] at h
      | some found =>
          obtain ⟨line, after⟩ := found
          have := Line.length_lt_of_scan hs
          cases hn : size line with
          | error e => simp [sizeOfScan, hs, hn, Except.map] at h
          | ok m =>
              simp only [sizeOfScan, hs, hn, Except.map, Except.ok.injEq, Option.some.injEq,
                Prod.mk.injEq] at h
              rw [← h.2]
              exact this

/-- A chunk that was taken ends before the rest. -/
theorem length_lt_of_take {data payload rest : Octets} {limit : Int}
    (h : take data limit = .ok (some (payload, rest))) : rest.length < data.length := by
  simp only [take] at h
  split at h
  · cases h
  · cases h
  · next n after hsize =>
      have := length_lt_of_takeSize hsize
      split at h
      · simp only [Except.ok.injEq, Option.some.injEq, Prod.mk.injEq] at h
        rw [← h.2]
        exact this
      · split at h
        · cases h
        · cases h
        · simp only [Except.ok.injEq, Option.some.injEq, Prod.mk.injEq] at h
          rw [← h.2, List.length_drop]
          omega

end HttpCodec.Chunk
