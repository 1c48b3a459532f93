import HttpCodec.Proofs.Parser.Body

set_option autoImplicit false

/-! # What a step that goes on can be

`Advance p events q` lists the ways in which a parser `p` goes on to `q` with `events`, one
constructor for each element of a message, each with what has been seen of the data. It is the
graph of the steps that go on (`advance_of_step`, `step_of_advance`): facts about all steps are
proved by cases on it, and a run over a given message is put together from its constructors.
-/

namespace HttpCodec

/-- The body that a decision announces: its framing, and how many octets are known to be
missing. -/
def Framing.Decision.body? : Framing.Decision → Option (Framing × Nat)
  | .length n => some (.lengthKnown, n)
  | .chunked => some (.chunked, 0)
  | .untilClose => some (.untilClose, 0)
  | .empty | .refused _ | .unreadable _ => none

namespace Parser

/-- The parser with the given data left to read. -/
def leave (p : Parser) (rest : Octets) : Parser := { p with unread := rest }

/-- The parser at rest after its message. -/
def rested (p : Parser) : Parser := { p with phase := .done, completed := p.completed + 1 }

/-- The phase in which the lines of a part are read. -/
def phaseOf : Part → Phase
  | .header => .awaitHeaders
  | .trailer => .awaitTrailers

/-- What the empty line after the fields of a part leads to. -/
def endPart (p : Parser) : Part → Step
  | .header => p.endHeaders
  | .trailer => p.finish []

/-- The ways to go on. -/
inductive Advance : Parser → List Event → Parser → Prop where
  /-- An empty line before a start line is skipped. -/
  | skip {p : Parser} {rest : Octets} (hphase : p.phase = .awaitStartLine)
      (hscan : Line.scan p.unread p.options.limits.startLine = .ok (some ([], rest))) :
      Advance p [] (p.leave rest)
  /-- A start line. -/
  | start {p : Parser} {line rest : Octets} {start : StartLine}
      (hphase : p.phase = .awaitStartLine)
      (hscan : Line.scan p.unread p.options.limits.startLine = .ok (some (line, rest)))
      (hne : line ≠ [])
      (hread : StartLine.read p.options.kind (Latin.decode line) = .ok start) :
      Advance p [.start start]
        { p with
          unread := rest, phase := .awaitHeaders, draft := { p.draft with line := some start } }
  /-- A header or trailer field. -/
  | field {p : Parser} {part : Part} {line rest : Octets} {f : Field}
      (hphase : p.phase = phaseOf part)
      (hscan : Line.scan p.unread p.options.limits.headerLine = .ok (some (line, rest)))
      (hne : line ≠ [])
      (hfield : fieldOf p.options.limits (p.draft.fields part) line = .ok f) :
      Advance p [.field part f]
        { p with
          unread := rest, draft := p.draft.setFields ((p.draft.fields part).append f) part }
  /-- The end of a head that no body follows. -/
  | bodiless {p : Parser} {rest : Octets} {line : StartLine} {m : Message}
      (hphase : p.phase = .awaitHeaders)
      (hscan : Line.scan p.unread p.options.limits.headerLine = .ok (some ([], rest)))
      (hline : p.draft.line = some line)
      (hdecide : Framing.decide line p.draft.headers = .empty)
      (hmessage : p.message = .ok m) :
      Advance p [.complete m] (p.leave rest).rested
  /-- The end of a head that a body follows. -/
  | framed {p : Parser} {rest : Octets} {line : StartLine} {framing : Framing} {n : Nat}
      (hphase : p.phase = .awaitHeaders)
      (hscan : Line.scan p.unread p.options.limits.headerLine = .ok (some ([], rest)))
      (hline : p.draft.line = some line)
      (hdecide : (Framing.decide line p.draft.headers).body? = some (framing, n)) :
      Advance p [] ((p.leave rest).awaitBody framing n)
  /-- A part of a body of declared length. -/
  | counted {p : Parser} (hphase : p.phase = .awaitBody)
      (hframing : p.draft.framing = some .lengthKnown) (hne : p.unread ≠ [])
      (hlen : p.unread.length < p.draft.remaining) :
      Advance p p.countedEvents p.afterCounted
  /-- The end of a body of declared length. -/
  | countedEnd {p : Parser} {m : Message} (hphase : p.phase = .awaitBody)
      (hframing : p.draft.framing = some .lengthKnown) (hne : p.unread ≠ [])
      (hlen : p.draft.remaining ≤ p.unread.length) (hmessage : p.afterCounted.message = .ok m) :
      Advance p (p.countedEvents ++ [.complete m]) p.afterCounted.rested
  /-- A whole chunk. -/
  | chunk {p : Parser} {payload rest : Octets} (hphase : p.phase = .awaitBody)
      (hframing : p.draft.framing = some .chunked) (hs : p.options.streaming = false)
      (htake : Chunk.take p.unread p.options.limits.chunkLine = .ok (some (payload, rest)))
      (hne : payload ≠ []) :
      Advance p [.body payload]
        { p with unread := rest, draft := { p.draft with body := p.draft.body ++ payload } }
  /-- The last chunk. -/
  | lastChunk {p : Parser} {rest : Octets} (hphase : p.phase = .awaitBody)
      (hframing : p.draft.framing = some .chunked) (hs : p.options.streaming = false)
      (htake : Chunk.take p.unread p.options.limits.chunkLine = .ok (some ([], rest))) :
      Advance p [] { p with unread := rest, phase := .awaitTrailers }
  /-- The size line of a chunk, when chunks are reported as they arrive. -/
  | size {p : Parser} {n : Nat} {rest : Octets} (hphase : p.phase = .awaitBody)
      (hframing : p.draft.framing = some .chunked) (hs : p.options.streaming = true)
      (hremaining : p.draft.remaining = 0) (hin : p.draft.inChunk = false)
      (hsize : Chunk.takeSize p.unread p.options.limits.chunkLine = .ok (some (n, rest)))
      (hn : n ≠ 0) :
      Advance p []
        { p with unread := rest, draft := { p.draft with remaining := n, inChunk := true } }
  /-- The size line of the last chunk. -/
  | lastSize {p : Parser} {rest : Octets} (hphase : p.phase = .awaitBody)
      (hframing : p.draft.framing = some .chunked) (hs : p.options.streaming = true)
      (hremaining : p.draft.remaining = 0) (hin : p.draft.inChunk = false)
      (hsize : Chunk.takeSize p.unread p.options.limits.chunkLine = .ok (some (0, rest))) :
      Advance p [] { p with unread := rest, phase := .awaitTrailers }
  /-- What has arrived of the data of a chunk. -/
  | data {p : Parser} (hphase : p.phase = .awaitBody)
      (hframing : p.draft.framing = some .chunked) (hs : p.options.streaming = true)
      (hremaining : 0 < p.draft.remaining) (hne : p.unread ≠ []) :
      Advance p [.body (p.unread.take p.draft.remaining)]
        { p with
          unread := p.unread.drop p.draft.remaining
          draft := { p.draft with remaining := p.draft.remaining - p.unread.length } }
  /-- The line end after the data of a chunk. -/
  | chunkEnd {p : Parser} (hphase : p.phase = .awaitBody)
      (hframing : p.draft.framing = some .chunked) (hs : p.options.streaming = true)
      (hremaining : p.draft.remaining = 0) (hin : p.draft.inChunk = true)
      (hend : Chunk.hasEnd p.unread = .ok true) :
      Advance p [] { p with unread := p.unread.drop 2, draft := { p.draft with inChunk := false } }
  /-- What has arrived of a body that goes on until the input ends. -/
  | rest {p : Parser} (hphase : p.phase = .awaitBody)
      (hcounted : p.draft.framing ≠ some .lengthKnown)
      (hchunked : p.draft.framing ≠ some .chunked) (hne : p.unread ≠ []) :
      Advance p p.restEvents p.afterRest
  /-- The empty line after the trailers. -/
  | trailersEnd {p : Parser} {rest : Octets} {m : Message} (hphase : p.phase = .awaitTrailers)
      (hscan : Line.scan p.unread p.options.limits.headerLine = .ok (some ([], rest)))
      (hmessage : p.message = .ok m) :
      Advance p [.complete m] (p.leave rest).rested
  /-- The next message begins. -/
  | next {p : Parser} (hphase : p.phase = .done) (hne : p.unread ≠ []) : Advance p [] p.next

/-! ## Every step that goes on is one of them -/

theorem finish_eq_next_iff {p q : Parser} {es fs : List Event} :
    p.finish es = .next fs q ↔ ∃ m, p.message = .ok m ∧ fs = es ++ [.complete m] ∧ q = p.rested := by
  unfold finish
  cases p.message with
  | error cause => simp
  | ok m =>
      simp only [Step.next.injEq, Except.ok.injEq, exists_eq_left', rested]
      exact and_congr eq_comm eq_comm

theorem finish_ne_wait (p : Parser) (es : List Event) : p.finish es ≠ .wait := by
  unfold finish
  cases p.message <;> simp

theorem finish_ne_interrupt (p : Parser) (es : List Event) (q : Parser) (cause : Decimal.Error) :
    p.finish es ≠ .interrupt q cause := by
  unfold finish
  cases p.message <;> simp

theorem withLine_eq_next_iff {p q : Parser} {limit : Int} {tooLong : Int → ParseError}
    {unended : Line.Error → ParseError} {go : Octets → Parser → Step} {es : List Event} :
    p.withLine limit tooLong unended go = .next es q ↔
      ∃ line rest, Line.scan p.unread limit = .ok (some (line, rest)) ∧
        go line (p.leave rest) = .next es q := by
  unfold withLine leave
  rcases Line.scan p.unread limit with cause | _ | ⟨line, rest⟩
  · cases cause <;> simp
  · simp
  · simp

theorem advance_of_readStartLine {p q : Parser} {es : List Event}
    (hphase : p.phase = .awaitStartLine) (h : p.readStartLine = .next es q) :
    Advance p es q := by
  obtain ⟨line, rest, hscan, hgo⟩ := withLine_eq_next_iff.mp h
  by_cases hempty : line.isEmpty
  · rw [if_pos hempty] at hgo
    obtain rfl := List.isEmpty_iff.mp hempty
    cases hgo
    exact .skip hphase hscan
  · rw [if_neg hempty] at hgo
    split at hgo
    · cases hgo
    next start hread =>
      cases hgo
      exact .start hphase hscan (by simpa using hempty) hread

theorem advance_of_endHeaders {p q : Parser} {rest : Octets} {es : List Event}
    (hphase : p.phase = .awaitHeaders)
    (hscan : Line.scan p.unread p.options.limits.headerLine = .ok (some ([], rest)))
    (h : (p.leave rest).endHeaders = .next es q) : Advance p es q := by
  unfold endHeaders at h
  split at h
  · cases h
  next line hline =>
    split at h
    next hdecide =>
      obtain ⟨m, hmessage, rfl, rfl⟩ := finish_eq_next_iff.mp h
      exact .bodiless hphase hscan hline hdecide hmessage
    next n hdecide =>
      cases h
      exact .framed hphase hscan hline (congrArg Framing.Decision.body? hdecide)
    next hdecide =>
      cases h
      exact .framed hphase hscan hline (congrArg Framing.Decision.body? hdecide)
    next hdecide =>
      cases h
      exact .framed hphase hscan hline (congrArg Framing.Decision.body? hdecide)
    · cases h
    · cases h

theorem advance_of_readField {p q : Parser} (part : Part) {es : List Event}
    (hphase : p.phase = phaseOf part) (h : p.readField part = .next es q) : Advance p es q := by
  obtain ⟨line, rest, hscan, hgo⟩ := withLine_eq_next_iff.mp h
  by_cases hempty : line.isEmpty
  · rw [if_pos hempty] at hgo
    obtain rfl := List.isEmpty_iff.mp hempty
    cases part with
    | header => exact advance_of_endHeaders hphase hscan hgo
    | trailer =>
        obtain ⟨m, hmessage, rfl, rfl⟩ := finish_eq_next_iff.mp hgo
        exact .trailersEnd hphase hscan hmessage
  · rw [if_neg hempty] at hgo
    split at hgo
    · cases hgo
    next f hfield =>
      cases hgo
      exact .field hphase hscan (by simpa using hempty) hfield

theorem advance_of_readCounted {p q : Parser} {es : List Event} (hphase : p.phase = .awaitBody)
    (hframing : p.draft.framing = some .lengthKnown) (h : p.readCounted = .next es q) :
    Advance p es q := by
  rw [readCounted_eq] at h
  split_ifs at h with hempty hlen
  · obtain ⟨m, hmessage, rfl, rfl⟩ := finish_eq_next_iff.mp h
    exact .countedEnd hphase hframing hempty hlen hmessage
  · cases h
    exact .counted hphase hframing hempty (by omega)

theorem advance_of_readChunk {p q : Parser} {es : List Event} (hphase : p.phase = .awaitBody)
    (hframing : p.draft.framing = some .chunked) (hs : p.options.streaming = false)
    (h : p.readChunk = .next es q) : Advance p es q := by
  unfold readChunk at h
  split at h
  · cases h
  · cases h
  next payload rest htake =>
    split_ifs at h with hempty
    · cases h
      obtain rfl := List.isEmpty_iff.mp hempty
      exact .lastChunk hphase hframing hs htake
    · cases h
      exact .chunk hphase hframing hs htake (by simpa using hempty)

theorem advance_of_readChunkPiece {p q : Parser} {es : List Event}
    (hphase : p.phase = .awaitBody) (hframing : p.draft.framing = some .chunked)
    (hs : p.options.streaming = true) (h : p.readChunkPiece = .next es q) : Advance p es q := by
  unfold readChunkPiece at h
  split_ifs at h with hremaining hempty hin
  · cases h
    have hlen : p.draft.remaining - (p.unread.take p.draft.remaining).length =
        p.draft.remaining - p.unread.length := by
      rw [List.length_take]
      omega
    rw [hlen]
    exact .data hphase hframing hs hremaining (by simpa using hempty)
  · split at h
    · cases h
    · cases h
    next hend =>
      cases h
      exact .chunkEnd hphase hframing hs (by omega) hin hend
  · split at h
    · cases h
    · cases h
    next n rest hsize =>
      split_ifs at h with hn
      · cases h
        subst hn
        exact .lastSize hphase hframing hs (by omega) (by simpa using hin) hsize
      · cases h
        exact .size hphase hframing hs (by omega) (by simpa using hin) hsize hn

/-- **A step that goes on is one of the ways to go on.** -/
theorem advance_of_step {p q : Parser} {es : List Event} (h : p.step = .next es q) :
    Advance p es q := by
  unfold step at h
  cases hphase : p.phase with
  | awaitStartLine =>
      simp only [hphase] at h
      exact advance_of_readStartLine hphase h
  | awaitHeaders =>
      simp only [hphase] at h
      exact advance_of_readField .header hphase h
  | awaitBody =>
      simp only [hphase] at h
      split at h
      next hframing => exact advance_of_readCounted hphase hframing h
      next hframing =>
        split_ifs at h with hs
        · exact advance_of_readChunkPiece hphase hframing hs h
        · exact advance_of_readChunk hphase hframing (by simpa using hs) h
      next hcounted hchunked =>
        rw [readRest_eq] at h
        split_ifs at h with hempty
        cases h
        exact .rest hphase hcounted hchunked hempty
  | awaitTrailers =>
      simp only [hphase] at h
      exact advance_of_readField .trailer hphase h
  | done =>
      simp only [hphase] at h
      split_ifs at h with hempty
      cases h
      exact .next hphase (by simpa using hempty)
  | failed =>
      simp only [hphase] at h
      cases h

/-! ## Each of them is a step -/

theorem step_of_readField {p : Parser} (part : Part) (hphase : p.phase = phaseOf part) :
    p.step = p.readField part := by
  cases part <;> simp only [step, hphase, phaseOf]

theorem step_of_readCounted {p : Parser} (hphase : p.phase = .awaitBody)
    (hframing : p.draft.framing = some .lengthKnown) : p.step = p.readCounted := by
  simp only [step, hphase, hframing]

theorem step_of_readChunk {p : Parser} (hphase : p.phase = .awaitBody)
    (hframing : p.draft.framing = some .chunked) (hs : p.options.streaming = false) :
    p.step = p.readChunk := by
  simp only [step, hphase, hframing, hs, Bool.false_eq_true, if_false]

theorem step_of_readChunkPiece {p : Parser} (hphase : p.phase = .awaitBody)
    (hframing : p.draft.framing = some .chunked) (hs : p.options.streaming = true) :
    p.step = p.readChunkPiece := by
  simp only [step, hphase, hframing, hs, if_true]

theorem step_of_readRest {p : Parser} (hphase : p.phase = .awaitBody)
    (hcounted : p.draft.framing ≠ some .lengthKnown)
    (hchunked : p.draft.framing ≠ some .chunked) : p.step = p.readRest := by
  unfold step
  rcases hframing : p.draft.framing with _ | _ | _ | _ <;> simp_all

theorem readField_of_scan_nil {p : Parser} {part : Part} {rest : Octets}
    (hscan : Line.scan p.unread p.options.limits.headerLine = .ok (some ([], rest))) :
    p.readField part = (p.leave rest).endPart part := by
  unfold readField withLine
  rw [hscan]
  cases part <;> rfl

/-- A head that is refused is rejected at the empty line after it. -/
theorem step_of_refused_head {p : Parser} {line : StartLine} {rest : Octets}
    {cause : Framing.Error} (hphase : p.phase = .awaitHeaders)
    (hscan : Line.scan p.unread p.options.limits.headerLine = .ok (some ([], rest)))
    (hline : p.draft.line = some line)
    (hdecide : Framing.decide line p.draft.headers = .refused cause) :
    p.step = .reject [] (p.leave rest) (.framing cause) := by
  rw [step_of_readField .header hphase, readField_of_scan_nil hscan]
  simp only [endPart, endHeaders, leave, hline, hdecide]

/-- **Each of the ways to go on is a step.** -/
theorem step_of_advance {p q : Parser} {es : List Event} (h : Advance p es q) :
    p.step = .next es q := by
  cases h with
  | skip hphase hscan =>
      simp only [step, hphase]
      exact withLine_eq_next_iff.mpr ⟨_, _, hscan, rfl⟩
  | start hphase hscan hne hread =>
      simp only [step, hphase]
      refine withLine_eq_next_iff.mpr ⟨_, _, hscan, ?_⟩
      simp only [List.isEmpty_iff, if_neg hne, leave, hread]
  | field hphase hscan hne hfield =>
      rw [step_of_readField _ hphase]
      refine withLine_eq_next_iff.mpr ⟨_, _, hscan, ?_⟩
      simp only [List.isEmpty_iff, if_neg hne, leave, hfield]
  | bodiless hphase hscan hline hdecide hmessage =>
      rw [step_of_readField .header hphase, readField_of_scan_nil hscan]
      simp only [endPart, endHeaders, leave, hline, hdecide]
      exact finish_eq_next_iff.mpr ⟨_, hmessage, rfl, rfl⟩
  | @framed rest line framing n hphase hscan hline hdecide =>
      rw [step_of_readField .header hphase, readField_of_scan_nil hscan]
      simp only [endPart, endHeaders, leave, hline]
      cases hd : Framing.decide line p.draft.headers <;>
        simp only [hd, Framing.Decision.body?, Option.some.injEq, Prod.mk.injEq, reduceCtorEq]
          at hdecide
      all_goals
        obtain ⟨rfl, rfl⟩ := hdecide
        rfl
  | counted hphase hframing hne hlen =>
      rw [step_of_readCounted hphase hframing, readCounted_eq, if_neg hne, if_neg (by omega)]
  | countedEnd hphase hframing hne hlen hmessage =>
      rw [step_of_readCounted hphase hframing, readCounted_eq, if_neg hne, if_pos hlen]
      exact finish_eq_next_iff.mpr ⟨_, hmessage, rfl, rfl⟩
  | chunk hphase hframing hs htake hne =>
      simp only [step, hphase, hframing, hs, readChunk, htake, List.isEmpty_iff, if_neg hne]
      rfl
  | lastChunk hphase hframing hs htake =>
      simp only [step, hphase, hframing, hs, readChunk, htake]
      rfl
  | size hphase hframing hs hremaining hin hsize hn =>
      simp only [step, hphase, hframing, hs, readChunkPiece, hremaining, hin, hsize, if_neg hn]
      rfl
  | lastSize hphase hframing hs hremaining hin hsize =>
      simp only [step, hphase, hframing, hs, readChunkPiece, hremaining, hin, hsize]
      rfl
  | data hphase hframing hs hremaining hne =>
      have hlen : p.draft.remaining - (p.unread.take p.draft.remaining).length =
          p.draft.remaining - p.unread.length := by
        rw [List.length_take]
        omega
      simp only [step, hphase, hframing, hs, readChunkPiece, if_pos hremaining, List.isEmpty_iff,
        if_neg hne, hlen]
      rfl
  | chunkEnd hphase hframing hs hremaining hin hend =>
      simp only [step, hphase, hframing, hs, readChunkPiece, hremaining, hin, hend]
      rfl
  | rest hphase hcounted hchunked hne =>
      rw [step_of_readRest hphase hcounted hchunked, readRest_eq, if_neg hne]
  | trailersEnd hphase hscan hmessage =>
      rw [step_of_readField .trailer hphase, readField_of_scan_nil hscan]
      exact finish_eq_next_iff.mpr ⟨_, hmessage, rfl, rfl⟩
  | next hphase hne =>
      simp only [step, hphase, List.isEmpty_iff, if_neg hne]

/-! ## What every step keeps -/

theorem Advance.options_eq {p q : Parser} {es : List Event} (h : Advance p es q) :
    q.options = p.options := by
  cases h <;> rfl

/-- A parser that goes on has not failed, before or after. -/
theorem Advance.phase_ne_failed {p q : Parser} {es : List Event} (h : Advance p es q) :
    p.phase ≠ .failed ∧ q.phase ≠ .failed := by
  cases h with
  | @field part line rest f hphase =>
      cases part <;> simp [hphase, phaseOf]
  | _ => simp_all [leave, rested, awaitBody, afterCounted, afterRest, Parser.next]

end Parser

end HttpCodec
