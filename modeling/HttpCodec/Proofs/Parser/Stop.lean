import HttpCodec.Proofs.Parser.Advance

set_option autoImplicit false

/-! # What a step that stops can be

`Refusal p events q cause` lists the ways in which a parser finds that the input is not a message,
one constructor for each check, as `Advance` does for steps that go on. The parser `q` is what the
error leaves behind. A step can also be interrupted, which only the end of a head does
(`interrupt_of_step`).
-/

namespace HttpCodec.Parser

/-- The ways to find that the input is not a message. -/
inductive Refusal : Parser → List Event → Parser → ParseError → Prop where
  /-- A start line that is too long. -/
  | startLineTooLong {p : Parser} {n : Int} (hphase : p.phase = .awaitStartLine)
      (hscan : Line.scan p.unread p.options.limits.startLine = .error (.tooLong n)) :
      Refusal p [] p (.startLineTooLong n)
  /-- A start line that does not end as a line does. -/
  | startLineUnended {p : Parser} {cause : Line.Error} (hphase : p.phase = .awaitStartLine)
      (hscan : Line.scan p.unread p.options.limits.startLine = .error cause) :
      Refusal p [] p (.startLineUnended cause)
  /-- A start line of no known form. -/
  | startLine {p : Parser} {line rest : Octets} {cause : StartLine.Error}
      (hphase : p.phase = .awaitStartLine)
      (hscan : Line.scan p.unread p.options.limits.startLine = .ok (some (line, rest)))
      (hne : line ≠ [])
      (hread : StartLine.read p.options.kind (Latin.decode line) = .error cause) :
      Refusal p [] (p.leave rest) (.startLine cause)
  /-- A field line that is too long. -/
  | fieldTooLong {p : Parser} {part : Part} {n : Int} (hphase : p.phase = phaseOf part)
      (hscan : Line.scan p.unread p.options.limits.headerLine = .error (.tooLong n)) :
      Refusal p [] p (.fieldTooLong n)
  /-- A field line that does not end as a line does. -/
  | fieldUnended {p : Parser} {part : Part} {cause : Line.Error} (hphase : p.phase = phaseOf part)
      (hscan : Line.scan p.unread p.options.limits.headerLine = .error cause) :
      Refusal p [] p (.fieldUnended cause)
  /-- A line that holds no field, or a field that there is no room for. -/
  | field {p : Parser} {part : Part} {line rest : Octets} {cause : ParseError}
      (hphase : p.phase = phaseOf part)
      (hscan : Line.scan p.unread p.options.limits.headerLine = .ok (some (line, rest)))
      (hne : line ≠ [])
      (hfield : fieldOf p.options.limits (p.draft.fields part) line = .error cause) :
      Refusal p [] (p.leave rest) cause
  /-- The end of a head without a start line. -/
  | noStartLine {p : Parser} {rest : Octets} (hphase : p.phase = .awaitHeaders)
      (hline : p.draft.line = none) : Refusal p [] (p.leave rest) .noStartLine
  /-- The end of a head that does not say where the body ends. -/
  | framing {p : Parser} {rest : Octets} {line : StartLine} {cause : Framing.Error}
      (hphase : p.phase = .awaitHeaders)
      (hscan : Line.scan p.unread p.options.limits.headerLine = .ok (some ([], rest)))
      (hline : p.draft.line = some line)
      (hdecide : Framing.decide line p.draft.headers = .refused cause) :
      Refusal p [] (p.leave rest) (.framing cause)
  /-- The end of a head or of trailers, after which the message cannot be made. -/
  | unwritable {p : Parser} {part : Part} {rest : Octets} {cause : ParseError}
      (hphase : p.phase = phaseOf part)
      (hbodiless : part = .header → ∃ line, p.draft.line = some line ∧
        Framing.decide line p.draft.headers = .empty)
      (hmessage : p.message = .error cause) : Refusal p [] (p.leave rest) cause
  /-- The end of a body of declared length, after which the message cannot be made. -/
  | countedUnwritable {p : Parser} {cause : ParseError} (hphase : p.phase = .awaitBody)
      (hframing : p.draft.framing = some .lengthKnown)
      (hlen : p.draft.remaining ≤ p.unread.length)
      (hmessage : p.afterCounted.message = .error cause) :
      Refusal p p.countedEvents p.afterCounted cause
  /-- A chunk, or a part of one, that is framed wrongly. -/
  | chunk {p : Parser} {cause : Chunk.Error} (hphase : p.phase = .awaitBody)
      (hframing : p.draft.framing = some .chunked) : Refusal p [] p (.chunk cause)

/-- Before an error nothing but a body is reported. -/
theorem Refusal.eq_body_of_mem {p q : Parser} {es : List Event} {cause : ParseError} {e : Event}
    (h : Refusal p es q cause) (he : e ∈ es) : ∃ data, e = .body data := by
  cases h with
  | countedUnwritable => exact eq_body_of_mem_countedEvents he
  | _ => cases he

/-! ## Every step that stops at an error is one of them -/

theorem finish_eq_reject_iff {p q : Parser} {es fs : List Event} {cause : ParseError} :
    p.finish es = .reject fs q cause ↔ p.message = .error cause ∧ fs = es ∧ q = p := by
  unfold finish
  cases p.message with
  | error c =>
      simp only [Step.reject.injEq, Except.error.injEq]
      constructor
      · rintro ⟨rfl, rfl, rfl⟩
        exact ⟨rfl, rfl, rfl⟩
      · rintro ⟨rfl, rfl, rfl⟩
        exact ⟨rfl, rfl, rfl⟩
  | ok m => simp

/-- A step with a line stops at the line or with what is made of it. -/
theorem of_withLine_eq_reject {p q : Parser} {limit : Int} {tooLong : Int → ParseError}
    {unended : Line.Error → ParseError} {go : Octets → Parser → Step} {es : List Event}
    {cause : ParseError} (h : p.withLine limit tooLong unended go = .reject es q cause) :
    (∃ n, Line.scan p.unread limit = .error (.tooLong n) ∧ es = [] ∧ q = p ∧ cause = tooLong n) ∨
    (∃ e, Line.scan p.unread limit = .error e ∧ es = [] ∧ q = p ∧ cause = unended e) ∨
    ∃ line rest, Line.scan p.unread limit = .ok (some (line, rest)) ∧
      go line (p.leave rest) = .reject es q cause := by
  unfold withLine at h
  split at h
  next n hscan =>
    cases h
    exact .inl ⟨n, hscan, rfl, rfl, rfl⟩
  next e _ hscan =>
    cases h
    exact .inr (.inl ⟨e, hscan, rfl, rfl, rfl⟩)
  · cases h
  next line rest hscan => exact .inr (.inr ⟨line, rest, hscan, h⟩)

theorem refusal_of_readStartLine {p q : Parser} {es : List Event} {cause : ParseError}
    (hphase : p.phase = .awaitStartLine) (h : p.readStartLine = .reject es q cause) :
    Refusal p es q cause := by
  obtain ⟨n, hscan, rfl, rfl, rfl⟩ | ⟨e, hscan, rfl, rfl, rfl⟩ | ⟨line, rest, hscan, hgo⟩ :=
    of_withLine_eq_reject h
  · exact .startLineTooLong hphase hscan
  · exact .startLineUnended hphase hscan
  · by_cases hempty : line.isEmpty
    · rw [if_pos hempty] at hgo
      cases hgo
    · rw [if_neg hempty] at hgo
      split at hgo
      next cause hread =>
        cases hgo
        exact .startLine hphase hscan (by simpa using hempty) hread
      · cases hgo

theorem refusal_of_endHeaders {p q : Parser} {rest : Octets} {es : List Event} {cause : ParseError}
    (hphase : p.phase = .awaitHeaders)
    (hscan : Line.scan p.unread p.options.limits.headerLine = .ok (some ([], rest)))
    (h : (p.leave rest).endHeaders = .reject es q cause) : Refusal p es q cause := by
  unfold endHeaders at h
  split at h
  next hline =>
    cases h
    exact .noStartLine hphase hline
  next line hline =>
    split at h
    next hdecide =>
      obtain ⟨hmessage, rfl, rfl⟩ := finish_eq_reject_iff.mp h
      have hhead : p.phase = phaseOf .header := hphase
      exact .unwritable hhead (fun _ => ⟨line, hline, hdecide⟩) hmessage
    · cases h
    · cases h
    · cases h
    next cause hdecide =>
      cases h
      exact .framing hphase hscan hline hdecide
    · cases h

theorem refusal_of_readField {p q : Parser} (part : Part) {es : List Event} {cause : ParseError}
    (hphase : p.phase = phaseOf part) (h : p.readField part = .reject es q cause) :
    Refusal p es q cause := by
  obtain ⟨n, hscan, rfl, rfl, rfl⟩ | ⟨e, hscan, rfl, rfl, rfl⟩ | ⟨line, rest, hscan, hgo⟩ :=
    of_withLine_eq_reject h
  · exact .fieldTooLong hphase hscan
  · exact .fieldUnended hphase hscan
  · by_cases hempty : line.isEmpty
    · rw [if_pos hempty] at hgo
      obtain rfl := List.isEmpty_iff.mp hempty
      cases part with
      | header => exact refusal_of_endHeaders hphase hscan hgo
      | trailer =>
          obtain ⟨hmessage, rfl, rfl⟩ := finish_eq_reject_iff.mp hgo
          exact .unwritable hphase nofun hmessage
    · rw [if_neg hempty] at hgo
      split at hgo
      next cause hfield =>
        cases hgo
        exact .field hphase hscan (by simpa using hempty) hfield
      · cases hgo

theorem refusal_of_readChunk {p q : Parser} {es : List Event} {cause : ParseError}
    (hphase : p.phase = .awaitBody) (hframing : p.draft.framing = some .chunked)
    (h : p.readChunk = .reject es q cause) : Refusal p es q cause := by
  unfold readChunk at h
  split at h
  · cases h
    exact .chunk hphase hframing
  · cases h
  · split_ifs at h

theorem refusal_of_readChunkPiece {p q : Parser} {es : List Event} {cause : ParseError}
    (hphase : p.phase = .awaitBody) (hframing : p.draft.framing = some .chunked)
    (h : p.readChunkPiece = .reject es q cause) : Refusal p es q cause := by
  unfold readChunkPiece at h
  split_ifs at h
  · split at h
    · cases h
      exact .chunk hphase hframing
    · cases h
    · cases h
  · split at h
    · cases h
      exact .chunk hphase hframing
    · cases h
    · split_ifs at h

/-- **A step that stops at an error is one of the ways to find it.** -/
theorem refusal_of_step {p q : Parser} {es : List Event} {cause : ParseError}
    (h : p.step = .reject es q cause) : Refusal p es q cause := by
  unfold step at h
  cases hphase : p.phase with
  | awaitStartLine =>
      simp only [hphase] at h
      exact refusal_of_readStartLine hphase h
  | awaitHeaders =>
      simp only [hphase] at h
      exact refusal_of_readField .header hphase h
  | awaitBody =>
      simp only [hphase] at h
      split at h
      next hframing =>
        rw [readCounted_eq] at h
        split_ifs at h with hempty hlen
        obtain ⟨hmessage, rfl, rfl⟩ := finish_eq_reject_iff.mp h
        exact .countedUnwritable hphase hframing hlen hmessage
      next hframing =>
        split_ifs at h
        · exact refusal_of_readChunkPiece hphase hframing h
        · exact refusal_of_readChunk hphase hframing h
      · rw [readRest_eq] at h
        split_ifs at h
  | awaitTrailers =>
      simp only [hphase] at h
      exact refusal_of_readField .trailer hphase h
  | done =>
      simp only [hphase] at h
      split_ifs at h
  | failed =>
      simp only [hphase] at h
      cases h

theorem Refusal.options_eq {p q : Parser} {es : List Event} {cause : ParseError}
    (h : Refusal p es q cause) : q.options = p.options := by
  cases h <;> rfl

theorem Refusal.completed_eq {p q : Parser} {es : List Event} {cause : ParseError}
    (h : Refusal p es q cause) : q.completed = p.completed := by
  cases h <;> rfl

/-! ## Interruptions -/

theorem of_endHeaders_eq_interrupt {p q : Parser} {cause : Decimal.Error}
    (h : p.endHeaders = .interrupt q cause) :
    q = p ∧ ∃ line, p.draft.line = some line ∧
      Framing.decide line p.draft.headers = .unreadable cause := by
  unfold endHeaders at h
  split at h
  · cases h
  next line hline =>
    split at h
    · exact absurd h (finish_ne_interrupt _ _ _ _)
    all_goals cases h
    next hdecide => exact ⟨rfl, line, hline, hdecide⟩

/-- A step with a line is interrupted where what is made of the line is. -/
theorem of_withLine_eq_interrupt {p q : Parser} {limit : Int} {tooLong : Int → ParseError}
    {unended : Line.Error → ParseError} {go : Octets → Parser → Step} {cause : Decimal.Error}
    (h : p.withLine limit tooLong unended go = .interrupt q cause) :
    ∃ line rest, Line.scan p.unread limit = .ok (some (line, rest)) ∧
      go line (p.leave rest) = .interrupt q cause := by
  unfold withLine at h
  split at h
  · cases h
  · cases h
  · cases h
  next line rest hscan => exact ⟨line, rest, hscan, h⟩

theorem interrupt_of_readField {p q : Parser} {part : Part} {cause : Decimal.Error}
    (h : p.readField part = .interrupt q cause) :
    part = .header ∧ ∃ rest line, q = p.leave rest ∧
      Line.scan p.unread p.options.limits.headerLine = .ok (some ([], rest)) ∧
      p.draft.line = some line ∧ Framing.decide line p.draft.headers = .unreadable cause := by
  obtain ⟨line, rest, hscan, hgo⟩ := of_withLine_eq_interrupt h
  by_cases hempty : line.isEmpty
  · rw [if_pos hempty] at hgo
    obtain rfl := List.isEmpty_iff.mp hempty
    cases part with
    | header =>
        obtain ⟨rfl, start, hline, hdecide⟩ := of_endHeaders_eq_interrupt hgo
        exact ⟨rfl, rest, start, rfl, hscan, hline, hdecide⟩
    | trailer => exact absurd hgo (finish_ne_interrupt _ _ _ _)
  · rw [if_neg hempty] at hgo
    split at hgo <;> cases hgo

theorem readStartLine_ne_interrupt (p q : Parser) (cause : Decimal.Error) :
    p.readStartLine ≠ .interrupt q cause := by
  intro h
  obtain ⟨line, rest, -, hgo⟩ := of_withLine_eq_interrupt h
  split_ifs at hgo
  split at hgo <;> cases hgo

theorem readBody_ne_interrupt (p q : Parser) (cause : Decimal.Error) :
    p.readCounted ≠ .interrupt q cause ∧ p.readChunk ≠ .interrupt q cause ∧
      p.readChunkPiece ≠ .interrupt q cause ∧ p.readRest ≠ .interrupt q cause := by
  refine ⟨fun h => ?_, fun h => ?_, fun h => ?_, fun h => ?_⟩
  · rw [readCounted_eq] at h
    split_ifs at h
    exact finish_ne_interrupt _ _ _ _ h
  · unfold readChunk at h
    split at h
    · cases h
    · cases h
    · split_ifs at h
  · unfold readChunkPiece at h
    split_ifs at h
    · split at h <;> cases h
    · split at h
      · cases h
      · cases h
      · split_ifs at h
  · rw [readRest_eq] at h
    split_ifs at h

/-- **Only the end of a head interrupts a step**, where the declared length cannot be read. -/
theorem interrupt_of_step {p q : Parser} {cause : Decimal.Error}
    (h : p.step = .interrupt q cause) :
    p.phase = .awaitHeaders ∧ ∃ rest line, q = p.leave rest ∧
      Line.scan p.unread p.options.limits.headerLine = .ok (some ([], rest)) ∧
      p.draft.line = some line ∧ Framing.decide line p.draft.headers = .unreadable cause := by
  obtain ⟨hcounted, hchunk, hpiece, hrest⟩ := readBody_ne_interrupt p q cause
  unfold step at h
  split at h
  · exact absurd h (readStartLine_ne_interrupt p q cause)
  next hphase => exact ⟨hphase, (interrupt_of_readField h).2⟩
  · split at h
    · exact absurd h hcounted
    · split_ifs at h
      · exact absurd h hpiece
      · exact absurd h hchunk
    · exact absurd h hrest
  · cases (interrupt_of_readField h).1
  · split_ifs at h
  · cases h

end HttpCodec.Parser
