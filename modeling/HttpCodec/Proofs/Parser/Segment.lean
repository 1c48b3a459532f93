import HttpCodec.Proofs.Parser.Delimited
import HttpCodec.Proofs.Parser.Stop
import HttpCodec.Proofs.StartLine.Grammar

set_option autoImplicit false

/-! # What has been reported of a message

The events of a message are its start line, its header fields, the data of its body and its trailer
fields, in this order, a `Segment`. `Within p s` tells how what a parser holds of the message that
it is in the middle of goes together with the segment that it has reported. The main statement is
`Within.advance`: a step that goes on extends the segment, or completes it with a message that is
put together from the same parts (`Segment.message`).
-/

namespace HttpCodec.Parser

/-- What is reported of a message before its end. -/
structure Segment where
  line : StartLine
  headers : List Field
  /-- The data of the body, in the pieces in which it is reported. -/
  payloads : List Octets
  trailers : List Field

namespace Segment

/-- The events of a segment. -/
def events (s : Segment) : List Event :=
  .start s.line :: s.headers.map (.field .header) ++ s.payloads.map .body ++
    s.trailers.map (.field .trailer)

/-- The segment of a start line. -/
def ofLine (line : StartLine) : Segment := ⟨line, [], [], []⟩

/-- The segment with one more field in a part. -/
def withField (s : Segment) (f : Field) : Part → Segment
  | .header => { s with headers := s.headers ++ [f] }
  | .trailer => { s with trailers := s.trailers ++ [f] }

/-- The segment with more data of the body. -/
def withPayload (s : Segment) (data : Octets) : Segment :=
  { s with payloads := s.payloads ++ [data] }

theorem events_withHeader {s : Segment} {f : Field} (hpayloads : s.payloads = [])
    (htrailers : s.trailers = []) :
    (s.withField f .header).events = s.events ++ [.field .header f] := by
  simp [events, withField, hpayloads, htrailers]

theorem events_withTrailer (s : Segment) (f : Field) :
    (s.withField f .trailer).events = s.events ++ [.field .trailer f] := by
  simp [events, withField]

theorem events_withPayload {s : Segment} (data : Octets) (htrailers : s.trailers = []) :
    (s.withPayload data).events = s.events ++ [.body data] := by
  simp [events, withPayload, htrailers]

/-- What the head of the message decides about its body. -/
def decision (o : Options) (s : Segment) : Framing.Decision :=
  Framing.decide s.line (o.noFields.appendAll s.headers)

/-- The message that is put together from what was reported. -/
def message (o : Options) (s : Segment) : Message :=
  o.read s.line s.headers (if o.streaming then [] else s.payloads.flatten) s.trailers

/-- The events of a message that is complete. -/
def completeEvents (o : Options) (s : Segment) : List Event :=
  s.events ++ [.complete (s.message o)]

end Segment

/-! ## What was read can be written -/

/-- Fields that were read with certain options. A line may lack the space after the colon, which is
always written. -/
structure FieldsRead (o : Options) (fields : List Field) : Prop where
  sound : ∀ f ∈ fields, f.Sound
  sizes : ∀ f ∈ fields, f.size ≤ o.limits.headerLine + 1
  count : fields.length ≤ o.limits.headers.toNat

theorem FieldsRead.nil (o : Options) : FieldsRead o [] :=
  ⟨nofun, nofun, Nat.zero_le _⟩

/-- A field that is read off a line is one that can be written, and there is room for it. -/
theorem of_fieldOf {limits : Limits} {fields : Fields} {line : Octets} {f : Field}
    (h : fieldOf limits fields line = .ok f) :
    fields.fields.length < limits.headers ∧ f.Sound ∧ f.size ≤ fields.limit := by
  unfold fieldOf at h
  split_ifs at h with hroom
  split at h
  · cases h
  next name value _ =>
    obtain ⟨hsound, hsize, -⟩ := Field.sound_of_check (mapError_eq_ok_iff.mp h)
    exact ⟨by omega, hsound, hsize⟩

theorem limit_appendAll (fs : Fields) (more : List Field) :
    (fs.appendAll more).limit = fs.limit := by
  induction more generalizing fs with
  | nil => rfl
  | cons f more ih => exact ih (fs.append f)

theorem appendAll_append (fs : Fields) (more : List Field) (f : Field) :
    fs.appendAll (more ++ [f]) = (fs.appendAll more).append f := by
  simp [Fields.appendAll]

/-- A field that is read is put behind those that were. -/
theorem FieldsRead.append {o : Options} {fields : List Field} {fs : Fields} {line : Octets}
    {f : Field} (h : FieldsRead o fields) (hfields : fs.fields = fields)
    (hlimit : fs.limit = o.noFields.limit) (hfield : fieldOf o.limits fs line = .ok f) :
    FieldsRead o (fields ++ [f]) := by
  obtain ⟨hroom, hsound, hsize⟩ := of_fieldOf hfield
  rw [hfields] at hroom
  rw [hlimit] at hsize
  refine ⟨fun g hg => ?_, fun g hg => ?_, ?_⟩
  · rcases List.mem_append.mp hg with hg | hg
    · exact h.sound g hg
    · rwa [List.mem_singleton.mp hg]
  · rcases List.mem_append.mp hg with hg | hg
    · exact h.sizes g hg
    · rw [List.mem_singleton.mp hg]
      exact hsize
  · rw [List.length_append, List.length_singleton]
    omega

/-- Reported parts, each of which was read with certain options. -/
structure Segment.Readable (o : Options) (s : Segment) : Prop where
  line : s.line.Sound
  length : s.line.text.length ≤ o.limits.startLine + 1
  headers : FieldsRead o s.headers
  payloads : ∀ data ∈ s.payloads, data ≠ []
  trailers : FieldsRead o s.trailers

theorem Segment.Readable.withPayload {o : Options} {s : Segment} (h : s.Readable o)
    {data : Octets} (hne : data ≠ []) : (s.withPayload data).Readable o := by
  refine ⟨h.line, h.length, h.headers, fun other hother => ?_, h.trailers⟩
  rcases List.mem_append.mp hother with hother | hother
  · exact h.payloads other hother
  · rwa [List.mem_singleton.mp hother]

/-- How the body of a message that is complete goes together with its head. -/
inductive Segment.Framed (o : Options) (s : Segment) : Prop where
  | bodiless (hdecide : s.decision o = .empty) (hpayloads : s.payloads = [])
      (htrailers : s.trailers = [])
  | counted (hdecide : s.decision o = .length s.payloads.flatten.length)
      (hpayloads : s.payloads ≠ []) (htrailers : s.trailers = [])
  | chunked (hdecide : s.decision o = .chunked)
  | untilClose (hdecide : s.decision o = .untilClose) (htrailers : s.trailers = [])

/-- A message that was read as a whole. -/
structure Segment.Whole (o : Options) (s : Segment) : Prop where
  readable : s.Readable o
  /-- The empty line after the head was not too long. -/
  headerLine : 0 ≤ o.limits.headerLine
  framed : s.Framed o

/-! ## Within a message -/

/-- The draft holds the start line and the fields that were reported. -/
structure Shows (p : Parser) (s : Segment) : Prop where
  readable : s.Readable p.options
  line : p.draft.line = some s.line
  headers : p.draft.headers = p.options.noFields.appendAll s.headers
  trailers : p.draft.trailers = p.options.noFields.appendAll s.trailers

/-- What a parser that is within a message has reported of it. -/
inductive Within : Parser → Segment → Prop where
  | head {p : Parser} {s : Segment} (hphase : p.phase = .awaitHeaders) (hshows : p.Shows s)
      (hpayloads : s.payloads = []) (htrailers : s.trailers = []) (hbody : p.draft.body = []) :
      Within p s
  /-- In a body of declared length, which is reported as it arrives, or at its end. -/
  | counted {p : Parser} {s : Segment} (hphase : p.phase = .awaitBody) (hshows : p.Shows s)
      (hlimit : 0 ≤ p.options.limits.headerLine) (htrailers : s.trailers = [])
      (hframing : p.draft.framing = some .lengthKnown)
      (hheld : if p.options.streaming then p.draft.body = [] else s.payloads = [])
      (hdecide : s.decision p.options =
        .length ((s.payloads.flatten ++ p.draft.body).length + p.draft.remaining))
      (hmissing : p.draft.remaining ≠ 0) : Within p s
  /-- In a chunked body, each piece of which is reported when it has been read. -/
  | chunked {p : Parser} {s : Segment} (hphase : p.phase = .awaitBody) (hshows : p.Shows s)
      (hlimit : 0 ≤ p.options.limits.headerLine) (htrailers : s.trailers = [])
      (hframing : p.draft.framing = some .chunked)
      (hbody : p.draft.body = if p.options.streaming then [] else s.payloads.flatten)
      (hdecide : s.decision p.options = .chunked) : Within p s
  /-- In a body that goes on until the input ends, which is reported as it arrives, or there. -/
  | rest {p : Parser} {s : Segment} (hphase : p.phase = .awaitBody) (hshows : p.Shows s)
      (hlimit : 0 ≤ p.options.limits.headerLine) (htrailers : s.trailers = [])
      (hframing : p.draft.framing = some .untilClose)
      (hheld : if p.options.streaming then p.draft.body = [] else s.payloads = [])
      (hdecide : s.decision p.options = .untilClose) : Within p s
  | trailers {p : Parser} {s : Segment} (hphase : p.phase = .awaitTrailers) (hshows : p.Shows s)
      (hlimit : 0 ≤ p.options.limits.headerLine)
      (hbody : p.draft.body = if p.options.streaming then [] else s.payloads.flatten)
      (hdecide : s.decision p.options = .chunked) : Within p s

variable {p q : Parser} {s : Segment} {es : List Event}

theorem Within.shows (h : Within p s) : p.Shows s := by
  cases h <;> assumption

theorem Shows.leave (h : p.Shows s) (rest : Octets) : (p.leave rest).Shows s :=
  ⟨h.readable, h.line, h.headers, h.trailers⟩

/-- What is unread has no part in what was reported. -/
theorem Within.leave (h : Within p s) (rest : Octets) : Within (p.leave rest) s := by
  have hshows := h.shows.leave rest
  cases h with
  | head hphase _ hpayloads htrailers hbody =>
      exact .head hphase hshows hpayloads htrailers hbody
  | counted hphase _ hlimit htrailers hframing hheld hdecide hmissing =>
      exact .counted hphase hshows hlimit htrailers hframing hheld hdecide hmissing
  | chunked hphase _ hlimit htrailers hframing hbody hdecide =>
      exact .chunked hphase hshows hlimit htrailers hframing hbody hdecide
  | rest hphase _ hlimit htrailers hframing hheld hdecide =>
      exact .rest hphase hshows hlimit htrailers hframing hheld hdecide
  | trailers hphase _ hlimit hbody hdecide =>
      exact .trailers hphase hshows hlimit hbody hdecide

/-- Only a chunked message has trailers. -/
theorem Within.decision_of_trailers (h : Within p s) (htrailers : s.trailers ≠ []) :
    s.decision p.options = .chunked := by
  cases h with
  | head _ _ _ hnone => exact absurd hnone htrailers
  | counted _ _ _ hnone => exact absurd hnone htrailers
  | rest _ _ _ hnone => exact absurd hnone htrailers
  | chunked _ _ _ _ _ _ hdecide => exact hdecide
  | trailers _ _ _ _ hdecide => exact hdecide

theorem Segment.Framed.decision_of_trailers {o : Options} (h : s.Framed o)
    (htrailers : s.trailers ≠ []) : s.decision o = .chunked := by
  cases h with
  | bodiless _ _ hnone => exact absurd hnone htrailers
  | counted _ _ hnone => exact absurd hnone htrailers
  | untilClose _ hnone => exact absurd hnone htrailers
  | chunked hdecide => exact hdecide

/-- **The message that a draft makes is the one that was reported.** -/
theorem Shows.message_eq (h : p.Shows s)
    (hbody : (if p.options.streaming then [] else p.draft.body) =
      if p.options.streaming then [] else s.payloads.flatten)
    (hallows : (if p.options.streaming then [] else p.draft.body) = [] ∨
      s.line.allowsBody = true) :
    p.message = .ok (s.message p.options) := by
  have hmade :=
    Message.ofStartLine_of_sound h.readable.line p.draft.headers p.draft.trailers hallows
  unfold message
  simp only [h.line, hmade]
  rw [hbody, h.headers, h.trailers]
  rfl

/-- What a step does to the segment that was reported: more is reported of the same message, or the
message is complete. -/
def Extends (s : Segment) (p : Parser) (es : List Event) (q : Parser) : Prop :=
  (∃ t, Within q t ∧ t.events = s.events ++ es ∧ q.completed = p.completed) ∨
    ∃ t : Segment, t.Whole p.options ∧ q.phase = .done ∧
      t.completeEvents p.options = s.events ++ es ∧ q.completed = p.completed + 1

/-- A step that reports nothing leaves the segment as it is. -/
theorem extends_of_within (h : Within q s) (hcompleted : q.completed = p.completed) :
    Extends s p [] q :=
  .inl ⟨s, h, by rw [List.append_nil], hcompleted⟩

theorem Shows.withHeader {f : Field} {line rest : Octets} (h : p.Shows s)
    (hfield : fieldOf p.options.limits p.draft.headers line = .ok f) :
    Shows { p with
      unread := rest, draft := { p.draft with headers := p.draft.headers.append f } }
      (s.withField f .header) := by
  rw [h.headers] at hfield
  have hheaders :=
    h.readable.headers.append (Fields.fields_appendAll _ _) (limit_appendAll _ _) hfield
  refine ⟨⟨h.readable.line, h.readable.length, hheaders, h.readable.payloads,
    h.readable.trailers⟩, h.line, ?_, h.trailers⟩
  show p.draft.headers.append f = p.options.noFields.appendAll (s.headers ++ [f])
  rw [appendAll_append, h.headers]

theorem Shows.withTrailer {f : Field} {line rest : Octets} (h : p.Shows s)
    (hfield : fieldOf p.options.limits p.draft.trailers line = .ok f) :
    Shows { p with
      unread := rest, draft := { p.draft with trailers := p.draft.trailers.append f } }
      (s.withField f .trailer) := by
  rw [h.trailers] at hfield
  have htrailers :=
    h.readable.trailers.append (Fields.fields_appendAll _ _) (limit_appendAll _ _) hfield
  refine ⟨⟨h.readable.line, h.readable.length, h.readable.headers, h.readable.payloads,
    htrailers⟩, h.line, h.headers, ?_⟩
  show p.draft.trailers.append f = p.options.noFields.appendAll (s.trailers ++ [f])
  rw [appendAll_append, h.trailers]

theorem limit_of_scan_nil {data rest : Octets} {limit : Int}
    (h : Line.scan data limit = .ok (some ([], rest))) : 0 ≤ limit :=
  (Line.data_eq_of_scan h).2.2.2

/-! ## Steps within a message -/

/-- A head that a body follows leads into a body of the framing that the head decides. -/
theorem within_of_framed {rest : Octets} {framing : Framing} {n : Nat} (hshows : p.Shows s)
    (hpayloads : s.payloads = []) (htrailers : s.trailers = []) (hbody : p.draft.body = [])
    (hlimit : 0 ≤ p.options.limits.headerLine)
    (hdecide : (s.decision p.options).body? = some (framing, n)) :
    Within ((p.leave rest).awaitBody framing n) s := by
  have hshows' : ((p.leave rest).awaitBody framing n).Shows s :=
    ⟨hshows.readable, hshows.line, hshows.headers, hshows.trailers⟩
  have hheld : if p.options.streaming then p.draft.body = [] else s.payloads = [] := by
    simp [hbody, hpayloads]
  cases hd : s.decision p.options with
  | length k =>
      rw [hd] at hdecide
      cases hdecide
      refine .counted rfl hshows' hlimit htrailers rfl hheld ?_ (Framing.ne_zero_of_decide hd)
      show s.decision p.options = .length ((s.payloads.flatten ++ p.draft.body).length + n)
      rw [hd, hbody, hpayloads]
      simp
  | chunked =>
      rw [hd] at hdecide
      cases hdecide
      refine .chunked rfl hshows' hlimit htrailers rfl ?_ hd
      show p.draft.body = _
      simp [hbody, hpayloads]
  | untilClose =>
      rw [hd] at hdecide
      cases hdecide
      exact .rest rfl hshows' hlimit htrailers rfl hheld hd
  | empty | refused | unreadable =>
      rw [hd] at hdecide
      cases hdecide

/-- In a head a field is read, or the head ends. -/
theorem extends_of_head (hphase : p.phase = .awaitHeaders) (hshows : p.Shows s)
    (hpayloads : s.payloads = []) (htrailers : s.trailers = []) (hbody : p.draft.body = [])
    (h : Advance p es q) : Extends s p es q := by
  have hline : ∀ {line}, p.draft.line = some line → line = s.line := by
    intro line hline
    rw [hshows.line] at hline
    exact (Option.some.inj hline).symm
  cases h with
  | @field part line rest f hphase' _ _ hfield =>
      cases part with
      | trailer => simp [hphase, phaseOf] at hphase'
      | header =>
          refine .inl
            ⟨s.withField f .header, ?_, Segment.events_withHeader hpayloads htrailers, rfl⟩
          exact .head hphase (hshows.withHeader hfield) hpayloads htrailers hbody
  | bodiless _ hscan hstart hdecide hmessage =>
      obtain rfl := hline hstart
      rw [hshows.headers] at hdecide
      rw [hshows.message_eq (by simp [hbody, hpayloads]) (by simp [hbody])] at hmessage
      cases hmessage
      exact .inr ⟨s, ⟨hshows.readable, limit_of_scan_nil hscan,
        .bodiless hdecide hpayloads htrailers⟩, rfl, rfl, rfl⟩
  | @framed rest line framing n _ hscan hstart hdecide =>
      obtain rfl := hline hstart
      rw [hshows.headers] at hdecide
      exact extends_of_within
        (within_of_framed hshows hpayloads htrailers hbody (limit_of_scan_nil hscan) hdecide) rfl
  | _ hphase' => simp [hphase] at hphase'

/-- The last part of a body of declared length is reported with all that was kept before it, and
the message can be made. -/
theorem message_of_countedEnd (hshows : p.Shows s)
    (hheld : if p.options.streaming then p.draft.body = [] else s.payloads = [])
    (hallows : s.line.allowsBody = true) (hmissing : p.draft.remaining ≠ 0) (hne : p.unread ≠ [])
    (hlen : p.draft.remaining ≤ p.unread.length) :
    ∃ data, data ≠ [] ∧ data = p.draft.body ++ p.unread.take p.draft.remaining ∧
      p.countedEvents = [.body data] ∧
      p.afterCounted.message = .ok ((s.withPayload data).message p.options) := by
  have hdata : p.draft.body ++ p.unread.take p.draft.remaining ≠ [] := by
    simp [hmissing, hne]
  refine ⟨_, hdata, rfl, ?_, ?_⟩
  · by_cases hs : p.options.streaming
    · rw [if_pos hs] at hheld
      rw [countedEvents, if_pos hs, hheld, List.nil_append]
    · rw [countedEvents, if_neg hs, if_pos hlen]
  · have hshows' : p.afterCounted.Shows (s.withPayload _) :=
      ⟨hshows.readable.withPayload hdata, hshows.line, hshows.headers, hshows.trailers⟩
    refine hshows'.message_eq ?_ (.inr hallows)
    show (if p.options.streaming then [] else p.keptBody _) =
      if p.options.streaming then [] else (s.payloads ++ [_]).flatten
    by_cases hs : p.options.streaming
    · rw [if_pos hs, if_pos hs]
    · rw [if_neg hs] at hheld
      rw [if_neg hs, if_neg hs, keptBody, if_neg hs, hheld]
      simp

/-- A part of a body of declared length is reported and not kept, or kept and not reported. -/
theorem extends_of_countedPart (hphase : p.phase = .awaitBody) (hshows : p.Shows s)
    (hlimit : 0 ≤ p.options.limits.headerLine) (htrailers : s.trailers = [])
    (hframing : p.draft.framing = some .lengthKnown)
    (hheld : if p.options.streaming then p.draft.body = [] else s.payloads = [])
    (hdecide : s.decision p.options =
      .length ((s.payloads.flatten ++ p.draft.body).length + p.draft.remaining))
    (hne : p.unread ≠ []) (hlen : p.unread.length < p.draft.remaining) :
    Extends s p p.countedEvents p.afterCounted := by
  have hall : p.unread.take p.draft.remaining = p.unread := List.take_of_length_le (by omega)
  have hleft : p.draft.remaining - p.unread.length ≠ 0 := by omega
  by_cases hs : p.options.streaming
  · rw [if_pos hs] at hheld
    have hevents : p.countedEvents = [.body p.unread] := by
      rw [countedEvents, if_pos hs, hall]
    have hkept : p.afterCounted.draft.body = [] := by
      show p.keptBody _ = []
      rw [keptBody, if_pos hs, hheld]
    refine .inl ⟨s.withPayload p.unread, ?_, ?_, rfl⟩
    · refine .counted hphase ⟨hshows.readable.withPayload hne, hshows.line, hshows.headers,
        hshows.trailers⟩ hlimit htrailers hframing ?_ ?_ hleft
      · show if p.options.streaming then p.afterCounted.draft.body = [] else _
        rw [if_pos hs, hkept]
      · show s.decision p.options = .length (((s.payloads ++ [p.unread]).flatten ++
          p.afterCounted.draft.body).length + (p.draft.remaining - p.unread.length))
        rw [hdecide, hheld, hkept]
        simp
        omega
    · rw [hevents]
      exact Segment.events_withPayload _ htrailers
  · rw [if_neg hs] at hheld
    have hevents : p.countedEvents = [] := by
      rw [countedEvents, if_neg hs, if_neg (by omega)]
    have hkept : p.afterCounted.draft.body = p.draft.body ++ p.unread := by
      show p.keptBody _ = _
      rw [keptBody, if_neg hs, hall]
    rw [hevents]
    refine extends_of_within ?_ rfl
    refine .counted hphase ⟨hshows.readable, hshows.line, hshows.headers, hshows.trailers⟩
      hlimit htrailers hframing ?_ ?_ hleft
    · show if p.options.streaming then _ else s.payloads = []
      rw [if_neg hs, hheld]
    · show s.decision p.options = .length ((s.payloads.flatten ++
        p.afterCounted.draft.body).length + (p.draft.remaining - p.unread.length))
      rw [hdecide, hkept]
      simp
      omega

/-- In a body of declared length what has arrived of it is read. -/
theorem extends_of_counted (hphase : p.phase = .awaitBody) (hshows : p.Shows s)
    (hlimit : 0 ≤ p.options.limits.headerLine) (htrailers : s.trailers = [])
    (hframing : p.draft.framing = some .lengthKnown)
    (hheld : if p.options.streaming then p.draft.body = [] else s.payloads = [])
    (hdecide : s.decision p.options =
      .length ((s.payloads.flatten ++ p.draft.body).length + p.draft.remaining))
    (hmissing : p.draft.remaining ≠ 0) (h : Advance p es q) : Extends s p es q := by
  have hallows : s.line.allowsBody = true :=
    Framing.allowsBody_of_body? (congrArg Framing.Decision.body? hdecide)
  cases h with
  | counted _ _ hne hlen =>
      exact extends_of_countedPart hphase hshows hlimit htrailers hframing hheld hdecide hne hlen
  | countedEnd _ _ hne hlen hmessage =>
      obtain ⟨data, hdataNe, hdata, hevents, hm⟩ :=
        message_of_countedEnd hshows hheld hallows hmissing hne hlen
      rw [hm] at hmessage
      cases hmessage
      have hlength : (p.unread.take p.draft.remaining).length = p.draft.remaining := by
        rw [List.length_take]
        omega
      refine .inr ⟨s.withPayload data, ⟨hshows.readable.withPayload hdataNe, hlimit, ?_⟩, rfl, ?_,
        rfl⟩
      · refine .counted ?_ (by simp [Segment.withPayload]) htrailers
        show s.decision p.options = .length (s.payloads ++ [data]).flatten.length
        rw [hdecide, hdata]
        simp [hlength]
        omega
      · rw [Segment.completeEvents, hevents, Segment.events_withPayload _ htrailers]
        simp
  | @field part _ _ _ hphase' => cases part <;> simp [hphase, phaseOf] at hphase'
  | chunk _ hframing' | lastChunk _ hframing' | size _ hframing' | lastSize _ hframing'
  | data _ hframing' | chunkEnd _ hframing' => simp [hframing] at hframing'
  | rest _ hcounted => exact absurd hframing hcounted
  | _ hphase' => simp [hphase] at hphase'

/-- In a chunked body a chunk is read, or a part of one. -/
theorem extends_of_chunked (hphase : p.phase = .awaitBody) (hshows : p.Shows s)
    (hlimit : 0 ≤ p.options.limits.headerLine) (htrailers : s.trailers = [])
    (hframing : p.draft.framing = some .chunked)
    (hbody : p.draft.body = if p.options.streaming then [] else s.payloads.flatten)
    (hdecide : s.decision p.options = .chunked) (h : Advance p es q) : Extends s p es q := by
  cases h with
  | @chunk payload rest _ _ hs _ hne =>
      refine .inl ⟨s.withPayload payload, ?_, Segment.events_withPayload _ htrailers, rfl⟩
      refine .chunked hphase ⟨hshows.readable.withPayload hne, hshows.line, hshows.headers,
        hshows.trailers⟩ hlimit htrailers hframing ?_ hdecide
      show p.draft.body ++ payload =
        if p.options.streaming then [] else (s.payloads ++ [payload]).flatten
      simp [hbody, hs]
  | data _ _ hs hremaining hne =>
      have hdata : p.unread.take p.draft.remaining ≠ [] := by
        simp [hne, Nat.ne_of_gt hremaining]
      refine .inl ⟨s.withPayload _, ?_, Segment.events_withPayload _ htrailers, rfl⟩
      refine .chunked hphase ⟨hshows.readable.withPayload hdata, hshows.line, hshows.headers,
        hshows.trailers⟩ hlimit htrailers hframing ?_ hdecide
      show p.draft.body = if p.options.streaming then [] else _
      rw [hbody, if_pos hs, if_pos hs]
  | lastChunk | lastSize =>
      exact extends_of_within (.trailers rfl ⟨hshows.readable, hshows.line, hshows.headers,
        hshows.trailers⟩ hlimit hbody hdecide) rfl
  | size | chunkEnd =>
      exact extends_of_within (.chunked hphase ⟨hshows.readable, hshows.line, hshows.headers,
        hshows.trailers⟩ hlimit htrailers hframing hbody hdecide) rfl
  | @field part _ _ _ hphase' => cases part <;> simp [hphase, phaseOf] at hphase'
  | counted _ hframing' | countedEnd _ hframing' => simp [hframing] at hframing'
  | rest _ _ hchunked => exact absurd hframing hchunked
  | _ hphase' => simp [hphase] at hphase'

/-- In a body that goes on until the input ends all that has arrived is read. -/
theorem extends_of_rest (hphase : p.phase = .awaitBody) (hshows : p.Shows s)
    (hlimit : 0 ≤ p.options.limits.headerLine) (htrailers : s.trailers = [])
    (hframing : p.draft.framing = some .untilClose)
    (hheld : if p.options.streaming then p.draft.body = [] else s.payloads = [])
    (hdecide : s.decision p.options = .untilClose) (h : Advance p es q) : Extends s p es q := by
  cases h with
  | rest _ _ _ hne =>
      by_cases hs : p.options.streaming
      · have hevents : p.restEvents = [.body p.unread] := by rw [restEvents, if_pos hs]
        refine .inl ⟨s.withPayload p.unread, ?_, ?_, rfl⟩
        · refine .rest hphase ⟨hshows.readable.withPayload hne, hshows.line, hshows.headers,
            hshows.trailers⟩ hlimit htrailers hframing ?_ hdecide
          show if p.options.streaming then p.keptBody p.unread = [] else _
          rw [if_pos hs] at hheld ⊢
          rw [keptBody, if_pos hs, hheld]
        · rw [hevents]
          exact Segment.events_withPayload _ htrailers
      · have hevents : p.restEvents = [] := by rw [restEvents, if_neg hs]
        rw [hevents]
        refine extends_of_within (.rest hphase ⟨hshows.readable, hshows.line, hshows.headers,
          hshows.trailers⟩ hlimit htrailers hframing ?_ hdecide) rfl
        rw [if_neg hs] at hheld
        show if p.options.streaming then _ else s.payloads = []
        rw [if_neg hs, hheld]
  | @field part _ _ _ hphase' => cases part <;> simp [hphase, phaseOf] at hphase'
  | counted _ hframing' | countedEnd _ hframing' => simp [hframing] at hframing'
  | chunk _ hframing' | lastChunk _ hframing' | size _ hframing' | lastSize _ hframing'
  | data _ hframing' | chunkEnd _ hframing' => simp [hframing] at hframing'
  | _ hphase' => simp [hphase] at hphase'

/-- After the last chunk a trailer field is read, or the message ends. -/
theorem extends_of_trailers (hphase : p.phase = .awaitTrailers) (hshows : p.Shows s)
    (hlimit : 0 ≤ p.options.limits.headerLine)
    (hbody : p.draft.body = if p.options.streaming then [] else s.payloads.flatten)
    (hdecide : s.decision p.options = .chunked) (h : Advance p es q) : Extends s p es q := by
  cases h with
  | @field part line rest f hphase' _ _ hfield =>
      cases part with
      | header => simp [hphase, phaseOf] at hphase'
      | trailer =>
          refine .inl ⟨s.withField f .trailer, ?_, Segment.events_withTrailer s f, rfl⟩
          exact .trailers hphase (hshows.withTrailer hfield) hlimit hbody hdecide
  | trailersEnd _ _ hmessage =>
      have hallows : s.line.allowsBody = true :=
        Framing.allowsBody_of_body? (congrArg Framing.Decision.body? hdecide)
      have hsame : (if p.options.streaming then [] else p.draft.body) =
          if p.options.streaming then [] else s.payloads.flatten := by
        rw [hbody]
        split_ifs <;> rfl
      rw [hshows.message_eq hsame (.inr hallows)] at hmessage
      cases hmessage
      exact .inr ⟨s, ⟨hshows.readable, hlimit, .chunked hdecide⟩, rfl, rfl, rfl⟩
  | _ hphase' => simp [hphase] at hphase'

/-- **A step within a message reports more of it, or completes it.** -/
theorem Within.advance (h : Within p s) (hadvance : Advance p es q) : Extends s p es q := by
  cases h with
  | head hphase hshows hpayloads htrailers hbody =>
      exact extends_of_head hphase hshows hpayloads htrailers hbody hadvance
  | counted hphase hshows hlimit htrailers hframing hheld hdecide hmissing =>
      exact extends_of_counted hphase hshows hlimit htrailers hframing hheld hdecide hmissing
        hadvance
  | chunked hphase hshows hlimit htrailers hframing hbody hdecide =>
      exact extends_of_chunked hphase hshows hlimit htrailers hframing hbody hdecide hadvance
  | rest hphase hshows hlimit htrailers hframing hheld hdecide =>
      exact extends_of_rest hphase hshows hlimit htrailers hframing hheld hdecide hadvance
  | trailers hphase hshows hlimit hbody hdecide =>
      exact extends_of_trailers hphase hshows hlimit hbody hdecide hadvance

/-! ## Between messages -/

/-- A parser that has reported nothing of a message. -/
def Resting (p : Parser) : Prop :=
  p.phase = .awaitStartLine ∧ p.draft = p.options.noDraft ∨ p.phase = .done

/-- A start line that is read begins a segment. -/
theorem within_of_start {line rest : Octets} {start : StartLine}
    (hdraft : p.draft = p.options.noDraft)
    (hscan : Line.scan p.unread p.options.limits.startLine = .ok (some (line, rest)))
    (hread : StartLine.read p.options.kind (Latin.decode line) = .ok start) :
    Within { p with
      unread := rest, phase := .awaitHeaders, draft := { p.draft with line := some start } }
      (Segment.ofLine start) := by
  obtain ⟨hsound, hlen⟩ := StartLine.sound_of_read (fun _ => Latin.isLatin_of_mem_decode) hread
  have hlimit := (Line.data_eq_of_scan hscan).2.2.2
  have hdecoded : (Latin.decode line).length = line.length := List.length_map _
  refine .head rfl ⟨⟨hsound, ?_, .nil _, nofun, .nil _⟩, rfl, ?_, ?_⟩ rfl rfl ?_
  · show (start.text.length : Int) ≤ p.options.limits.startLine + 1
    omega
  all_goals rw [hdraft]; rfl

/-- **A step between messages reports nothing, or begins the next one.** -/
theorem Resting.advance (h : Resting p) (hadvance : Advance p es q) :
    q.completed = p.completed ∧
      (Resting q ∧ es = [] ∨ ∃ s : Segment, Within q s ∧ s.events = es) := by
  have hphase : p.phase = .awaitStartLine ∨ p.phase = .done := h.imp And.left id
  cases hadvance with
  | skip hstart hscan =>
      have hdraft := (h.resolve_right (by simp [hstart])).2
      exact ⟨rfl, .inl ⟨.inl ⟨hstart, hdraft⟩, rfl⟩⟩
  | start hstart hscan _ hread =>
      have hdraft := (h.resolve_right (by simp [hstart])).2
      exact ⟨rfl, .inr ⟨_, within_of_start hdraft hscan hread, rfl⟩⟩
  | next => exact ⟨rfl, .inl ⟨.inl ⟨rfl, rfl⟩, rfl⟩⟩
  | @field part _ _ _ hphase' => cases part <;> simp [hphase', phaseOf] at hphase
  | _ hphase' => simp [hphase'] at hphase

end HttpCodec.Parser
