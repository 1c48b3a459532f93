import HttpCodec.Chunk

set_option autoImplicit false

/-! # Decoding a chunked body

A decoder takes a chunked body in blocks of any size and gives out the data of the chunks that are
complete. After the last chunk it collects trailer lines up to the empty line. What is not
complete stays in its buffer.
-/

namespace HttpCodec.Chunk

/-- The state of decoding a chunked body. -/
structure Decoder where
  /-- The longest size line or trailer line. -/
  limit : Int := 1024
  /-- The data that no complete chunk or line has been made of. -/
  buffer : Octets := []
  /-- The trailer lines so far. -/
  trailers : List Octets := []
  /-- Whether the last chunk has been read. -/
  isLast : Bool := false
  /-- Whether the empty line after the trailers has been read. -/
  isDone : Bool := false

/-- What a block of data gives. -/
inductive Decoded where
  /-- Data, which is not empty. -/
  | data (payload : Octets)
  /-- No data yet. -/
  | nothing
  /-- The framing is wrong. -/
  | invalid
  deriving DecidableEq

namespace Decoder

/-- The outcome of looking at the front of the buffer. -/
inductive Step where
  /-- Nothing is complete. -/
  | wait
  /-- A chunk or a line was read, with its data. -/
  | next (payload : Octets) (decoder : Decoder)
  /-- The framing is wrong. -/
  | invalid

/-- Reads one chunk or trailer line off the front of the buffer. -/
def step (d : Decoder) : Step :=
  if d.isDone then .wait
  else if d.isLast then
    match Line.scan d.buffer d.limit with
    | .error _ => .invalid
    | .ok none => .wait
    | .ok (some ([], rest)) => .next [] { d with buffer := rest, isDone := true }
    | .ok (some (line, rest)) =>
        .next [] { d with buffer := rest, trailers := d.trailers ++ [line] }
  else
    match Chunk.take d.buffer d.limit with
    | .error _ => .invalid
    | .ok none => .wait
    | .ok (some ([], rest)) => .next [] { d with buffer := rest, isLast := true }
    | .ok (some (payload, rest)) => .next payload { d with buffer := rest }

/-- Each chunk or line that is read shortens the buffer. -/
theorem length_lt_of_step {d e : Decoder} {payload : Octets} (h : d.step = .next payload e) :
    e.buffer.length < d.buffer.length := by
  simp only [step] at h
  split at h
  · cases h
  · split at h
    · split at h <;> cases h
      all_goals exact Line.length_lt_of_scan ‹_›
    · split at h <;> cases h
      all_goals exact length_lt_of_take ‹_›

/-- Reads all that is complete: the data, the decoder after the last thing read, and whether the
framing was right up to where more data is needed. -/
def run (d : Decoder) : Octets × Decoder × Bool :=
  match _h : d.step with
  | .wait => ([], d, true)
  | .invalid => ([], d, false)
  | .next payload e =>
      let (more, last, valid) := run e
      (payload ++ more, last, valid)
termination_by d.buffer.length
decreasing_by exact length_lt_of_step ‹_›

/-- Takes a block of data. A decoder that is done takes none. When the framing is wrong, all the
data stays in the buffer, with no data given out, but what has been noted of the last chunk and the
trailers is kept. -/
def feed (d : Decoder) (block : Octets) : Decoded × Decoder :=
  if d.isDone then (.nothing, d)
  else
    let whole := d.buffer ++ block
    match run { d with buffer := whole } with
    | (_, e, false) => (.invalid, { e with buffer := whole })
    | ([], e, true) => (.nothing, e)
    | (payload, e, true) => (.data payload, e)

/-- The end of the data: invalid unless the body is complete. -/
def flush (d : Decoder) : Decoded := if d.isDone then .nothing else .invalid

end Decoder

end HttpCodec.Chunk
