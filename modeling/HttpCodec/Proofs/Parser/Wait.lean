import HttpCodec.Proofs.Parser.Advance

set_option autoImplicit false

/-! # What a step that waits can be

`Pause p` lists the ways in which a parser waits for more data, one constructor for each element
that it may have only a part of, as `Advance` does for steps that go on. A parser that has failed
waits as well, for no data would make it go on.
-/

namespace HttpCodec.Parser

/-- The ways to wait. -/
inductive Pause (p : Parser) : Prop where
  /-- A start line has not arrived as a whole. -/
  | startLine (hphase : p.phase = .awaitStartLine)
      (hscan : Line.scan p.unread p.options.limits.startLine = .ok none)
  /-- A line of a head or of trailers has not arrived as a whole. -/
  | field (part : Part) (hphase : p.phase = phaseOf part)
      (hscan : Line.scan p.unread p.options.limits.headerLine = .ok none)
  /-- All that has arrived of a body has been read, and it is not a chunked one. -/
  | body (hphase : p.phase = .awaitBody) (hchunked : p.draft.framing ≠ some .chunked)
      (hempty : p.unread = [])
  /-- A chunk has not arrived as a whole. -/
  | chunk (hphase : p.phase = .awaitBody) (hframing : p.draft.framing = some .chunked)
      (hs : p.options.streaming = false)
      (htake : Chunk.take p.unread p.options.limits.chunkLine = .ok none)
  /-- The size line of a chunk has not arrived as a whole, when chunks are reported as they
  arrive. -/
  | size (hphase : p.phase = .awaitBody) (hframing : p.draft.framing = some .chunked)
      (hs : p.options.streaming = true) (hremaining : p.draft.remaining = 0)
      (hin : p.draft.inChunk = false)
      (hsize : Chunk.takeSize p.unread p.options.limits.chunkLine = .ok none)
  /-- All that has arrived of the data of a chunk has been read. -/
  | data (hphase : p.phase = .awaitBody) (hframing : p.draft.framing = some .chunked)
      (hs : p.options.streaming = true) (hremaining : 0 < p.draft.remaining)
      (hempty : p.unread = [])
  /-- The line end after the data of a chunk has not arrived as a whole. -/
  | chunkEnd (hphase : p.phase = .awaitBody) (hframing : p.draft.framing = some .chunked)
      (hs : p.options.streaming = true) (hremaining : p.draft.remaining = 0)
      (hin : p.draft.inChunk = true) (hend : Chunk.hasEnd p.unread = .ok false)
  /-- Nothing follows a complete message. -/
  | done (hphase : p.phase = .done) (hempty : p.unread = [])
  | failed (hphase : p.phase = .failed)

variable {p : Parser}

theorem endHeaders_ne_wait (p : Parser) : p.endHeaders ≠ .wait := by
  unfold endHeaders
  split
  · simp
  · split
    · exact finish_ne_wait p []
    all_goals simp

/-- A step with a line waits for the line only, if going on with a line does not wait. -/
theorem withLine_eq_wait {limit : Int} {tooLong : Int → ParseError}
    {unended : Line.Error → ParseError} {go : Octets → Parser → Step}
    (hgo : ∀ line q, go line q ≠ .wait) (h : p.withLine limit tooLong unended go = .wait) :
    Line.scan p.unread limit = .ok none := by
  unfold withLine at h
  split at h
  · cases h
  · cases h
  next hscan => exact hscan
  · exact absurd h (hgo _ _)

theorem scan_of_readStartLine_wait (h : p.readStartLine = .wait) :
    Line.scan p.unread p.options.limits.startLine = .ok none := by
  refine withLine_eq_wait (fun line q => ?_) h
  split_ifs
  · simp
  · split <;> simp

theorem scan_of_readField_wait {part : Part} (h : p.readField part = .wait) :
    Line.scan p.unread p.options.limits.headerLine = .ok none := by
  refine withLine_eq_wait (fun line q => ?_) h
  split_ifs
  · cases part with
    | header => exact endHeaders_ne_wait q
    | trailer => exact finish_ne_wait q []
  · split <;> simp

theorem pause_of_readChunk (hphase : p.phase = .awaitBody)
    (hframing : p.draft.framing = some .chunked) (hs : p.options.streaming = false)
    (h : p.readChunk = .wait) : Pause p := by
  unfold readChunk at h
  split at h
  · cases h
  next htake => exact .chunk hphase hframing hs htake
  · split_ifs at h

theorem pause_of_readChunkPiece (hphase : p.phase = .awaitBody)
    (hframing : p.draft.framing = some .chunked) (hs : p.options.streaming = true)
    (h : p.readChunkPiece = .wait) : Pause p := by
  unfold readChunkPiece at h
  split_ifs at h with hremaining hempty hin
  · exact .data hphase hframing hs hremaining (List.isEmpty_iff.mp hempty)
  · split at h
    · cases h
    next hend => exact .chunkEnd hphase hframing hs (by omega) hin hend
    · cases h
  · split at h
    · cases h
    next hsize => exact .size hphase hframing hs (by omega) (by simpa using hin) hsize
    · split_ifs at h

/-- **A step that waits is one of the ways to wait.** -/
theorem pause_of_step (h : p.step = .wait) : Pause p := by
  unfold step at h
  cases hphase : p.phase with
  | awaitStartLine =>
      simp only [hphase] at h
      exact .startLine hphase (scan_of_readStartLine_wait h)
  | awaitHeaders =>
      simp only [hphase] at h
      exact .field .header hphase (scan_of_readField_wait h)
  | awaitBody =>
      simp only [hphase] at h
      split at h
      next hframing =>
        rw [readCounted_eq] at h
        split_ifs at h with hempty hlen
        · exact .body hphase (by simp [hframing]) hempty
        · exact absurd h (finish_ne_wait _ _)
      next hframing =>
        split_ifs at h with hs
        · exact pause_of_readChunkPiece hphase hframing hs h
        · exact pause_of_readChunk hphase hframing (by simpa using hs) h
      next hchunked =>
        rw [readRest_eq] at h
        split_ifs at h with hempty
        exact .body hphase hchunked hempty
  | awaitTrailers =>
      simp only [hphase] at h
      exact .field .trailer hphase (scan_of_readField_wait h)
  | done =>
      simp only [hphase] at h
      split_ifs at h with hempty
      exact .done hphase (List.isEmpty_iff.mp hempty)
  | failed => exact .failed hphase

end HttpCodec.Parser
