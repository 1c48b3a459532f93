import HttpCodec.Proofs.Framing.Coding
import HttpCodec.Proofs.Parser.Buffer
import HttpCodec.Proofs.Parser.Complete

set_option autoImplicit false

/-! # The parts of a parser's state fit together

What a parser keeps of a body fits the framing that it has found (`Draft.Coherent`), whatever the
phase. Together with what each phase says about the framing and the error (`Coherent`) this is kept by
every step, because of where in a message the parser is (`Placed`). No call leads to an error about a
message that has been read: an error about a start line is found only before there is one
(`Placed.spares_of_feed`).
-/

namespace HttpCodec.Parser

variable {o : Options} {p q : Parser} {es : List Event}

/-! ## Drafts -/

/-- What a draft holds of a body fits its framing. -/
structure Draft.Coherent (streaming : Bool) (d : Draft) : Prop where
  unframed : d.framing = none → d.remaining = 0 ∧ d.inChunk = false ∧ d.body = []
  /-- Of whole chunks nothing is counted. -/
  whole : d.framing = some .chunked → streaming = false → d.remaining = 0
  /-- What is missing of a chunk is counted within the chunk. -/
  pieces : d.framing = some .chunked → 0 < d.remaining → d.inChunk = true
  dropped : streaming = true → d.body = []

namespace Draft.Coherent

variable {streaming : Bool} {d e : Draft}

theorem of_noDraft (o : Options) : o.noDraft.Coherent streaming :=
  ⟨fun _ => ⟨rfl, rfl, rfl⟩, nofun, nofun, fun _ => rfl⟩

/-- The head and the trailers have no part in it. -/
theorem same (h : d.Coherent streaming) (hframing : e.framing = d.framing)
    (hremaining : e.remaining = d.remaining) (hinChunk : e.inChunk = d.inChunk)
    (hbody : e.body = d.body) : e.Coherent streaming := by
  obtain ⟨hunframed, hwhole, hpieces, hdropped⟩ := h
  constructor <;> simp only [hframing, hremaining, hinChunk, hbody] <;> assumption

/-- In a body that is not in chunks only the body itself matters. -/
theorem of_unchunked {framing : Framing} (hframing : d.framing = some framing)
    (hchunked : framing ≠ .chunked) (hdropped : streaming = true → d.body = []) :
    d.Coherent streaming := by
  have hother : d.framing ≠ some .chunked := by simpa [hframing] using hchunked
  exact ⟨fun hnone => by simp [hframing] at hnone, fun h => absurd h hother,
    fun h => absurd h hother, hdropped⟩

end Draft.Coherent

/-- A body that is not kept stays as it is. -/
theorem keptBody_eq_nil (h : p.draft.Coherent p.options.streaming) (data : Octets)
    (hs : p.options.streaming = true) : p.keptBody data = [] := by
  rw [keptBody, if_pos hs]
  exact h.dropped hs

/-! ## States -/

/-- A parser in which what is known of the message fits the phase. -/
structure Coherent (p : Parser) : Prop where
  draft : p.draft.Coherent p.options.streaming
  head : p.phase = .awaitHeaders → p.draft.framing = none
  trailers : p.phase = .awaitTrailers → p.draft.framing = some .chunked
  /-- The framing is the one that the head decided on. -/
  done : p.phase = .done → ∃ line, p.draft.line = some line ∧
    p.draft.framing = (Framing.decide line p.draft.headers).body?.map Prod.fst
  failed : p.phase = .failed → ∃ cause, p.error = some cause

/-- A parser that waits for a start line knows nothing of the message. -/
theorem Placed.draft_of_start (h : Placed p) (hphase : p.phase = .awaitStartLine) :
    p.draft = p.options.noDraft := by
  rcases h with hother | (⟨-, hdraft⟩ | hother) | ⟨s, hwithin⟩
  · simp [hphase] at hother
  · exact hdraft
  · simp [hphase] at hother
  · cases hwithin with
    | head hother | counted hother | chunked hother | rest hother | trailers hother =>
        simp [hphase] at hother

/-- Within a message the start line is known. -/
theorem Placed.line (h : Placed p) (hfailed : p.phase ≠ .failed)
    (hstart : p.phase ≠ .awaitStartLine) (hdone : p.phase ≠ .done) :
    ∃ line, p.draft.line = some line := by
  obtain ⟨s, hwithin⟩ := h.exists_within hfailed hstart hdone
  exact ⟨s.line, hwithin.shows.line⟩

/-- Within a body the framing is the one that the head decided on. -/
theorem Placed.framing_eq (h : Placed p)
    (hphase : p.phase = .awaitBody ∨
      p.phase = .awaitTrailers ∧ p.draft.framing = some .chunked) :
    ∃ line, p.draft.line = some line ∧
      p.draft.framing = (Framing.decide line p.draft.headers).body?.map Prod.fst := by
  have hwithin : ∃ s, Within p s := by
    rcases hphase with hphase | ⟨hphase, -⟩
    all_goals exact h.exists_within (by simp [hphase]) (by simp [hphase]) (by simp [hphase])
  obtain ⟨s, hwithin⟩ := hwithin
  refine ⟨s.line, hwithin.shows.line, ?_⟩
  rw [← hwithin.shows.decision_eq]
  cases hwithin with
  | head hother => simp [hother] at hphase
  | counted _ _ _ _ hframing _ hdecide | chunked _ _ _ _ hframing _ hdecide
  | rest _ _ _ _ hframing _ hdecide =>
      rw [hframing, hdecide]
      rfl
  | trailers hother _ _ _ hdecide =>
      rw [(hphase.resolve_left (by simp [hother])).2, hdecide]
      rfl

/-- What is held of a body of declared length and what is missing of it make up its length. -/
theorem Placed.declared (h : Placed p) (hphase : p.phase = .awaitBody)
    (hframing : p.draft.framing = some .lengthKnown) (hs : p.options.streaming = false) :
    ∃ digits, Framing.Denotes (p.draft.headers.getAll FieldName.contentLength) digits ∧
      p.draft.body.length + p.draft.remaining = Framing.number digits := by
  obtain ⟨s, hwithin⟩ := h.exists_within (by simp [hphase]) (by simp [hphase]) (by simp [hphase])
  have hshows := hwithin.shows
  cases hwithin with
  | chunked _ _ _ _ hother | rest _ _ _ _ hother => simp [hframing] at hother
  | head hother | trailers hother => simp [hphase] at hother
  | counted _ _ _ _ _ hheld hdecide =>
      have hpayloads : s.payloads = [] := by simpa [hs] using hheld
      rw [hpayloads, List.flatten_nil, List.nil_append, hshows.decision_eq] at hdecide
      generalize p.draft.body.length + p.draft.remaining = n at hdecide ⊢
      cases Framing.rule_of_decide hshows.readable.line hdecide rfl with
      | length _ _ _ hdenotes => exact ⟨_, hdenotes, rfl⟩

/-! ## Steps -/

/-- A step that goes on keeps what is held of a body in order. -/
theorem Coherent.draft_of_advance (h : Coherent p) (hplaced : Placed p)
    (hadvance : Advance p es q) : q.draft.Coherent p.options.streaming := by
  cases hadvance with
  | skip | bodiless | trailersEnd | lastChunk | lastSize => exact h.draft
  | start => exact h.draft.same rfl rfl rfl rfl
  | @field part => cases part <;> exact h.draft.same rfl rfl rfl rfl
  | @framed rest line framing n hphase _ _ hdecide =>
      obtain ⟨-, -, hbody⟩ := h.draft.unframed (h.head hphase)
      cases hdecision : Framing.decide line p.draft.headers <;> rw [hdecision] at hdecide <;>
        cases hdecide
      case chunked.refl => exact ⟨nofun, fun _ _ => rfl, fun _ => nofun, fun _ => hbody⟩
      all_goals exact .of_unchunked rfl nofun fun _ => hbody
  | counted _ hframing | countedEnd _ hframing =>
      exact .of_unchunked hframing nofun fun hs => keptBody_eq_nil h.draft _ hs
  | chunk _ hframing hs =>
      exact ⟨fun hnone => by simp [hframing] at hnone, h.draft.whole, h.draft.pieces,
        fun hs' => by simp [hs] at hs'⟩
  | size _ hframing hs =>
      exact ⟨fun hnone => by simp [hframing] at hnone, fun _ hs' => by simp [hs] at hs',
        fun _ _ => rfl, h.draft.dropped⟩
  | data _ hframing hs hremaining =>
      exact ⟨fun hnone => by simp [hframing] at hnone, fun _ hs' => by simp [hs] at hs',
        fun _ _ => h.draft.pieces hframing hremaining, h.draft.dropped⟩
  | chunkEnd _ hframing hs hremaining =>
      exact ⟨fun hnone => by simp [hframing] at hnone, fun _ hs' => by simp [hs] at hs',
        fun _ hpos => by simp [hremaining] at hpos, h.draft.dropped⟩
  | rest hphase hcounted hchunked =>
      obtain ⟨framing, hframing⟩ := hplaced.framing hphase
      exact .of_unchunked hframing (by rintro rfl; exact hchunked hframing) fun hs =>
        keptBody_eq_nil h.draft _ hs
  | next => exact .of_noDraft _

/-- **A step that goes on keeps the state in order.** -/
theorem Coherent.advance (h : Coherent p) (hplaced : Placed p) (hadvance : Advance p es q) :
    Coherent q where
  draft := hadvance.options_eq ▸ h.draft_of_advance hplaced hadvance
  head hq := by
    cases hadvance with
    | start hphase =>
        show p.draft.framing = none
        rw [hplaced.draft_of_start hphase]
        rfl
    | @field part => cases part <;> exact h.head hq
    | next | bodiless | framed | countedEnd | trailersEnd | lastChunk | lastSize => nomatch hq
    | _ hphase => exact nomatch hq.symm.trans hphase
  trailers hq := by
    cases hadvance with
    | @field part => cases part <;> exact h.trailers hq
    | lastChunk _ hframing | lastSize _ hframing => exact hframing
    | next | start | bodiless | framed | countedEnd | trailersEnd => nomatch hq
    | _ hphase => exact nomatch hq.symm.trans hphase
  done hq := by
    cases hadvance with
    | @bodiless _ line _ hphase _ hline hdecide =>
        refine ⟨line, hline, ?_⟩
        show p.draft.framing = (Framing.decide line p.draft.headers).body?.map Prod.fst
        rw [h.head hphase, hdecide]
        rfl
    | countedEnd hphase => exact hplaced.framing_eq (.inl hphase)
    | trailersEnd hphase => exact hplaced.framing_eq (.inr ⟨hphase, h.trailers hphase⟩)
    | @field part _ _ _ hphase => cases part <;> exact nomatch hq.symm.trans hphase
    | next | start | framed | lastChunk | lastSize => nomatch hq
    | _ hphase => exact nomatch hq.symm.trans hphase
  failed hq := absurd hq hadvance.phase_ne_failed.2

/-- What is unread has no part in it. -/
theorem Coherent.leave (h : Coherent p) (rest : Octets) : Coherent (p.leave rest) :=
  ⟨h.draft, h.head, h.trailers, h.done, h.failed⟩

/-- A parser that fails keeps its draft. -/
theorem coherent_fail (h : p.draft.Coherent p.options.streaming) (cause : ParseError) :
    Coherent (p.fail cause) :=
  ⟨h, nofun, nofun, nofun, fun _ => ⟨cause, rfl⟩⟩

/-- A step that finds an error keeps what is held of a body in order. -/
theorem Coherent.fail_of_refusal {cause : ParseError} (h : Coherent p)
    (hrefusal : Refusal p es q cause) : Coherent (q.fail cause) := by
  cases hrefusal with
  | countedUnwritable _ hframing =>
      have hdraft : p.afterCounted.draft.Coherent p.options.streaming :=
        .of_unchunked hframing nofun fun hs => keptBody_eq_nil h.draft _ hs
      exact coherent_fail (p := p.afterCounted) hdraft cause
  | _ => exact coherent_fail h.draft _

/-- A parser that has read nothing of a message is in order. -/
theorem coherent_of_noDraft (hphase : p.phase = .awaitStartLine)
    (hdraft : p.draft = p.options.noDraft) : Coherent p := by
  refine ⟨hdraft ▸ .of_noDraft p.options, ?_, ?_, ?_, ?_⟩ <;> rw [hphase] <;> nofun

/-! ## Calls -/

/-- **Every call keeps the state in order.** -/
theorem coherent_invariant : Invariant fun p => Placed p ∧ Coherent p where
  leave rest h := ⟨h.1.leave rest, h.2.leave rest⟩
  advance h hadvance := ⟨h.1.advance hadvance, h.2.advance h.1 hadvance⟩
  refusal h hrefusal := ⟨placed_invariant.refusal h.1 hrefusal, h.2.fail_of_refusal hrefusal⟩
  rested h hphase := ⟨placed_invariant.rested h.1 hphase,
    ⟨h.2.draft, nofun, nofun, fun _ => h.1.framing_eq (.inl hphase), nofun⟩⟩
  fail cause h := ⟨placed_invariant.fail cause h.1, coherent_fail h.2.draft cause⟩

/-! ## Errors -/

/-- Why a message cannot be made. -/
theorem cause_of_message {cause : ParseError} (h : p.message = .error cause) :
    cause = .noStartLine ∧ p.draft.line = none ∨ ∃ e, cause = .unwritable e := by
  unfold message at h
  cases hline : p.draft.line with
  | none =>
      simp only [hline, Except.error.injEq] at h
      exact .inl ⟨h.symm, rfl⟩
  | some line =>
      simp only [hline] at h
      generalize Message.ofStartLine line _ _ _ = made at h
      cases made with
      | error e => exact .inr ⟨e, (Except.error.inj h).symm⟩
      | ok m => cases h

/-- An error that is not about a message which has been read: the message can be made, and what is
wrong with a start line is found before there is one. -/
structure Spares (line : Option StartLine) (cause : ParseError) : Prop where
  ne_noStartLine : cause ≠ .noStartLine
  ne_unwritable : ∀ e, cause ≠ .unwritable e
  line_eq_none : cause.type = .badStartLine → line = none

theorem Placed.spares_of_refusal {cause : ParseError} (h : Placed p)
    (hrefusal : Refusal p es q cause) : Spares q.draft.line cause := by
  have hunwritable := h.writable_of_refusal hrefusal
  cases hrefusal with
  | startLineUnended hphase | startLine hphase =>
      exact ⟨nofun, hunwritable, fun _ => congrArg Draft.line (h.draft_of_start hphase)⟩
  | field _ _ _ hfield =>
      have htype := type_of_fieldOf hfield
      refine ⟨?_, hunwritable, fun hstart => ?_⟩
      · rintro rfl
        split_ifs at htype <;> cases htype
      · rw [hstart] at htype
        split_ifs at htype
  | @framing _ _ cause => exact ⟨nofun, hunwritable, by cases cause <;> nofun⟩
  | noStartLine hphase hnone =>
      obtain ⟨line, hline⟩ := h.line (by simp [hphase]) (by simp [hphase]) (by simp [hphase])
      simp [hnone] at hline
  | unwritable hphase _ hmessage =>
      obtain ⟨s, hwithin⟩ := h.exists_within_of_part hphase
      rcases cause_of_message hmessage with ⟨-, hnone⟩ | ⟨e, rfl⟩
      · simp [hwithin.shows.line] at hnone
      · exact absurd rfl (hunwritable e)
  | countedUnwritable hphase _ _ hmessage =>
      obtain ⟨line, hline⟩ := h.line (by simp [hphase]) (by simp [hphase]) (by simp [hphase])
      rcases cause_of_message hmessage with ⟨-, hnone⟩ | ⟨e, rfl⟩
      · -- what has been read of a body leaves the start line
        have hnone : p.draft.line = none := hnone
        simp [hline] at hnone
      · exact absurd rfl (hunwritable e)
  | _ => exact ⟨nofun, hunwritable, nofun⟩

/-- **Every error that a block leads to spares the message.** -/
theorem Placed.spares_of_feed {block : Octets} {cause : ParseError} (h : Placed p)
    (hm : .error cause ∈ (p.feed block).events) :
    Spares (p.feed block).parser.draft.line cause := by
  have hplaced : Placed (p.supply block) := h.leave (p.unread ++ block)
  obtain ⟨es, q, hreads, hm | ⟨fs, r, found, hrefusal, hparser, hm | hm⟩⟩ := exists_of_mem_feed hm
  · exact absurd hm (hreads.not_mem_error cause)
  · exact absurd hm (hrefusal.not_mem_error cause)
  · obtain rfl := Event.error.inj hm
    rw [hparser]
    show Spares r.draft.line cause
    exact (hplaced.reads hreads).spares_of_refusal hrefusal

/-- The end of the input leads to no error but that it came too early. -/
theorem Placed.spares_of_close {cause : ParseError} {line : Option StartLine} (h : Placed p)
    (hm : .error cause ∈ p.close.events) : Spares line cause := by
  by_cases hfailed : p.phase = .failed
  · rw [close_of_failed hfailed] at hm
    exact absurd hm List.not_mem_nil
  · obtain rfl := (h.reports_close hfailed).2 cause hm
    exact ⟨nofun, nofun, nofun⟩

end HttpCodec.Parser
