import HttpCodec.Proofs.Parser.Coherent
import HttpCodec.Proofs.Parser.Cursor.Progress

set_option autoImplicit false

/-! # What holds of a cursor between calls

Between calls nothing is left before the offset, and a cursor that waits for a body, is at rest or has
failed is where its parser is, in which the parts of the state fit together (`Parser.Coherent`) and
which makes no step (`Called.still`). The main statement is `coherent_of_calls`, which puts this
together for all sequences of calls that return.
-/

namespace HttpCodec.Parser.Cursor

variable {o : Options} {c : Cursor}

/-- How the parts of a cursor's state fit together between calls. -/
structure Coherent (c : Cursor) : Prop where
  offset : c.offset = 0
  failed : c.phase = .failed → (∃ cause, c.error = some cause) ∧ c.buffer = []
  done : c.phase = .done → c.buffer = []
  lineless : c.phase = .awaitStartLine → c.draft.line = none
  lined : c.phase ∈ [.awaitHeaders, .awaitBody, .awaitTrailers, .done] →
    ∃ line, c.draft.line = some line
  body : c.phase = .awaitBody → ∃ framing, c.draft.framing = some framing
  trailers : c.phase = .awaitTrailers → c.draft.framing = some .chunked
  counted : c.phase = .awaitBody → c.draft.framing = some .lengthKnown →
    1 ≤ c.draft.remaining ∧ (c.options.streaming = false →
      ∃ digits, Framing.Denotes (c.draft.headers.getAll FieldName.contentLength) digits ∧
        c.draft.body.length + c.draft.remaining = Framing.number digits)
  /-- Of whole chunks nothing is counted. -/
  whole : c.draft.framing = some .chunked → c.options.streaming = false → c.draft.remaining = 0
  pieces : c.draft.framing = some .chunked → c.options.streaming = true → 0 < c.draft.remaining →
    c.draft.inChunk = true
  streaming : c.options.streaming = true → c.draft.body = []
  /-- A message that is complete without a body has an empty one. -/
  bodiless : c.phase = .done → ∀ line, c.draft.line = some line →
    (c.draft.framing = none ∨ Framing.decide line c.draft.headers = .empty) → c.draft.body = []

/-! ## Calls -/

theorem Called.coherent_parser (h : Called o c) : Parser.Coherent c.parser := by
  induction h with
  | new => exact coherent_of_noDraft rfl rfl
  | feed h hfeed _ ih =>
      rw [(matches_of_feed h.reached.offset_le hfeed).1.parser]
      exact (coherent_invariant.feed ⟨h.reached.parser.placed, ih⟩ _).2
  | close h ih =>
      rw [(close_matches h.reached.offset_le).parser]
      exact (coherent_invariant.close ⟨h.reached.parser.placed, ih⟩).2
  | next | reset => exact coherent_of_noDraft rfl rfl

/-- A parser that waits for a start line still does when the input ends, or has failed. -/
theorem still_of_close {p : Parser} (h : p.phase = .awaitStartLine) :
    Still p.close.parser ∨ p.close.parser.phase = .awaitStartLine := by
  by_cases hempty : p.unread = []
  · rw [close_of_start h hempty]
    exact .inr h
  · rw [close_of_within (by simp [h]) (by simp [h]) (fun _ => hempty) (by simp [h])]
    exact .inl (still_fail _ _)

/-- Between calls a cursor that does not wait for a start line makes no step. -/
theorem Called.still (h : Called o c) : Still c.parser ∨ c.phase = .awaitStartLine := by
  induction h with
  | new | next | reset => exact .inr rfl
  | feed h hfeed hreturns =>
      have hmatches := (matches_of_feed h.reached.offset_le hfeed).1
      rw [hmatches.interruption] at hreturns
      rw [hmatches.parser]
      exact .inl (still_of_feed hreturns)
  | @close c h ih =>
      have hparser := (close_matches h.reached.offset_le).parser
      have hphase : c.close.cursor.phase = c.parser.close.parser.phase :=
        congrArg Parser.phase hparser
      rw [hparser, hphase]
      exact ih.elim (fun hstill => .inl hstill.close) (still_of_close (p := c.parser))

/-- Between calls a cursor at rest, or one that has failed, has read its buffer. -/
theorem Called.buffer_eq_nil (h : Called o c) (hphase : c.phase = .done ∨ c.phase = .failed) :
    c.buffer = [] := by
  have hstill := h.still.resolve_right (by rcases hphase with hphase | hphase <;> simp [hphase])
  have hunread : c.parser.unread = [] := by
    rcases hphase with hdone | hfailed
    · by_contra hne
      have hwaits := hstill.waits
      rw [step_of_done (p := c.parser) hdone, if_neg hne] at hwaits
      cases hwaits
    · exact hstill.drops hfailed
  have hbuffer : c.buffer.drop c.offset = [] := hunread
  rwa [h.offset_eq, List.drop_zero] at hbuffer

/-- **Between calls the parts of the state fit together.** -/
theorem Called.coherent (h : Called o c) : Coherent c where
  offset := h.offset_eq
  failed hphase := ⟨h.coherent_parser.failed hphase, h.buffer_eq_nil (.inr hphase)⟩
  done hphase := h.buffer_eq_nil (.inl hphase)
  lineless hphase := congrArg Draft.line (h.reached.parser.placed.draft_of_start hphase)
  lined hphase := by
    by_cases hdone : c.phase = .done
    · obtain ⟨line, hline, -⟩ := h.coherent_parser.done hdone
      exact ⟨line, hline⟩
    · have hother : c.phase ≠ .failed ∧ c.phase ≠ .awaitStartLine := by
        constructor <;> intro hother <;> simp [hother] at hphase
      exact h.reached.parser.placed.line hother.1 hother.2 hdone
  body := h.reached.parser.placed.framing
  trailers := h.coherent_parser.trailers
  counted hphase hframing :=
    ⟨Nat.pos_of_ne_zero (h.reached.parser.placed.remaining_ne_zero hphase hframing),
      h.reached.parser.placed.declared hphase hframing⟩
  whole := h.coherent_parser.draft.whole
  pieces hframing _ := h.coherent_parser.draft.pieces hframing
  streaming := h.coherent_parser.draft.dropped
  bodiless hphase line hline hempty := by
    obtain ⟨decided, hdecided, hframing⟩ := h.coherent_parser.done hphase
    obtain rfl : decided = line := Option.some.inj (hdecided.symm.trans hline)
    have hnone : c.draft.framing = none := by
      rcases hempty with hnone | hdecide
      · exact hnone
      · exact hframing.trans (congrArg _ (congrArg Framing.Decision.body? hdecide))
    exact (h.coherent_parser.draft.unframed hnone).2.2

/-- **What holds in every state that calls lead to which return**: the parts of the state fit
together. Neither more data nor the end of the input leads to an error about a message that has been
read: each message that is complete can be made, and an error about a start line is found before there
is one. -/
theorem coherent_of_calls (h : Called o c) :
    Coherent c ∧
    (∀ block, ∃ n r, c.feed block n = some r ∧ r.Matches (c.parser.feed block) ∧
      ∀ cause, .error cause ∈ r.events → Spares r.cursor.draft.line cause) ∧
    c.close.Matches c.parser.close ∧
      ∀ cause, .error cause ∈ c.close.events → Spares c.close.cursor.draft.line cause := by
  have hplaced := h.reached.parser.placed
  have hclose := close_matches h.reached.offset_le
  refine ⟨h.coherent, fun block => ?_, hclose, fun cause hm => ?_⟩
  · obtain ⟨r, hfeed⟩ := exists_feed h.reached.offset_le hplaced block
    have hmatches := (matches_of_feed h.reached.offset_le hfeed).1
    refine ⟨_, r, hfeed, hmatches, fun cause hm => ?_⟩
    rw [hmatches.events] at hm
    have hspares := hplaced.spares_of_feed hm
    rwa [← hmatches.parser] at hspares
  · rw [hclose.events] at hm
    exact hplaced.spares_of_close hm

/-- Within a body of four octets, of which two have arrived. -/
theorem coherent_of_calls_counted :
    ∃ c : Cursor, Called {} c ∧ c.phase = .awaitBody ∧ c.draft.framing = some .lengthKnown ∧
      c.draft.body.length = 2 ∧ c.draft.remaining = 2 ∧ Coherent c := by
  have hnew : Called {} (new {}) := .new
  obtain ⟨r, hfeed⟩ := exists_feed hnew.reached.offset_le hnew.reached.parser.placed
    (Chunk.ascii "PUT / HTTP/1.1\r\nContent-Length: 4\r\n\r\nab")
  have hmatches := (matches_of_feed hnew.reached.offset_le hfeed).1
  have hcalled : Called {} r.cursor :=
    hnew.feed hfeed (hmatches.interruption.trans (by decide +kernel))
  have hparser : r.cursor.parser = ((Parser.new {}).feed
    (Chunk.ascii "PUT / HTTP/1.1\r\nContent-Length: 4\r\n\r\nab")).parser := hmatches.parser
  refine ⟨r.cursor, hcalled, (congrArg Parser.phase hparser).trans (by decide +kernel),
    (congrArg (·.draft.framing) hparser).trans (by decide +kernel),
    (congrArg (·.draft.body.length) hparser).trans (by decide +kernel),
    (congrArg (·.draft.remaining) hparser).trans (by decide +kernel),
    (coherent_of_calls hcalled).1⟩

end HttpCodec.Parser.Cursor
