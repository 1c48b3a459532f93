import HttpCodec.Proofs.Message.Building
import HttpCodec.Proofs.Parser.Boundary
import HttpCodec.Proofs.RoundTrip.Streamed

set_option autoImplicit false

/-! # Messages that leave their framing to the writer

A message for which neither a coding nor a length was declared is written with at most one more
field (`Message.addedFields`), which says how the body ends: the chunked coding if there are
trailers, and else the length of the body if there is one. What is built of it is parsed as the same
message with that field (`parse_of_build_undeclared`), except where there is nothing to add and the
parser asks for a length: a request whose method has a body, sent without one
(`Message.LacksLength`).
-/

namespace HttpCodec

open HttpCodec.Parser

/-- **A head that is refused ends the input**, whatever follows it. -/
theorem parse_of_refused_head {kind : Option Kind} {limits : Limits} {line : StartLine}
    {fields : List Field} {cause : Framing.Error} (h : HeadFits { kind, limits } line fields)
    (hdecide : Framing.decide line
      ((Options.noFields { kind, limits }).appendAll fields) = .refused cause) (rest : Octets) :
    parse (headOctets line fields ++ rest) kind limits = .error (.invalid (.framing cause)) := by
  have hreads := reads_head (fresh_new rfl (headOctets line fields ++ rest)) h rfl
  have hscan : Line.scan (lineEnd ++ rest) limits.headerLine = .ok (some ([], rest)) :=
    Line.scan_lineEnd h.headerLine
  exact parse_of_reject hreads (step_of_refused_head rfl hscan rfl hdecide)

namespace Message

/-- A message for which the caller has declared neither a coding nor a length. Setting a body
declares the length of that body. -/
structure Undeclared (m : Message) : Prop where
  codings : m.codings = []
  lengths : m.lengths = [] ∨ m.lengths = [Decimal.ofNat m.body.length]

/-- The field that is added when the message is written. -/
def addedFields (m : Message) : List Field :=
  if m.lengths ≠ [] then []
  else if m.trailers.fields ≠ [] then [chunkedField]
  else if m.body ≠ [] then [m.lengthField]
  else []

/-- The header fields as they are written. -/
def sentFields (m : Message) : List Field := m.headers.fields ++ m.addedFields

/-- What is written behind the head. -/
def sentBody (m : Message) : Octets :=
  if m.trailers.fields ≠ [] then chunkedOctets [m.body] m.trailers.fields else m.body

/-- A request whose method has a body, without a body, a length or trailers. -/
structure LacksLength (m : Message) (l : RequestLine) : Prop where
  line : m.line = .request l
  method : Framing.TakesBody l.method
  body : m.body = []
  lengths : m.lengths = []
  trailers : m.trailers.fields = []

/-- What has to fit the limits of the parser, the added field included. No octets in memory are too
many for a chunk size or a length. -/
structure SentFits (limits : Limits) (m : Message) : Prop where
  startLine : m.line.text.length ≤ limits.startLine
  /-- There is room for the empty line. -/
  headerLine : 0 ≤ limits.headerLine
  headerLines : ∀ f ∈ m.sentFields, f.size ≤ limits.headerLine
  headers : m.sentFields.length ≤ limits.headers
  trailerLines : ∀ f ∈ m.trailers.fields, f.size ≤ limits.headerLine
  trailers : m.trailers.fields.length ≤ limits.headers
  sizeLines : m.trailers.fields ≠ [] →
    Chunk.SizeFits limits.chunkLine m.body.length ∧ Chunk.SizeFits limits.chunkLine 0
  body : m.body.length < 16 ^ 16

variable {m : Message} {o : Options} {l : RequestLine}

theorem addedFields_cases (m : Message) :
    m.addedFields = [] ∨
      m.addedFields = [⟨FieldName.contentLength, Decimal.ofNat m.body.length⟩] ∨
      m.addedFields = [⟨FieldName.transferEncoding, TransferCoding.chunked⟩] := by
  unfold addedFields
  split_ifs
  · exact .inl rfl
  · exact .inr (.inr rfl)
  · exact .inr (.inl rfl)
  · exact .inl rfl

theorem sound_sentFields (hm : m.Sound) : ∀ f ∈ m.sentFields, f.Sound := by
  intro f hf
  rcases List.mem_append.mp hf with hf | hf
  · exact hm.headers.fields f hf
  · rcases m.addedFields_cases with hadded | hadded | hadded
    · rw [hadded] at hf
      exact absurd hf List.not_mem_nil
    · rw [hadded] at hf
      rw [List.mem_singleton.mp hf]
      exact sound_lengthField m
    · rw [hadded] at hf
      rw [List.mem_singleton.mp hf]
      exact sound_chunkedField

theorem SentFits.head (h : m.SentFits o.limits) (hm : m.Sound)
    (hkind : o.kind = none ∨ o.kind = some m.line.kind) : HeadFits o m.line m.sentFields where
  soundLine := hm.line
  soundFields := sound_sentFields hm
  kind := hkind
  startLine := h.startLine
  headerLine := h.headerLine
  sizes := h.headerLines
  count := by
    have := h.headers
    omega

theorem SentFits.chunks (h : m.SentFits o.limits) (hm : m.Sound)
    (htrailers : m.trailers.fields ≠ []) : ChunksFit o [m.body] m.trailers.fields where
  lastLine := (h.sizeLines htrailers).2
  sizeLines := by simpa using (h.sizeLines htrailers).1
  blocks := by simpa using h.body
  soundTrailers := hm.trailers.fields
  sizes := h.trailerLines
  count := by
    have := h.trailers
    omega

/-! ## Writing -/

section

variable (hm : m.Sound) (h : m.Undeclared)

include hm h

theorem Undeclared.getAll_transferEncoding :
    m.headers.getAll FieldName.transferEncoding = [] := by
  rw [hm.headers.indexed.getAll_eq]
  exact h.codings

/-- Trailers are sent with a message that may have a body and that declares no length. -/
theorem Undeclared.of_build {w : Octets} (hw : m.build false = .ok w) :
    m.trailers.fields = [] ∨ m.line.allowsBody = true ∧ m.lengths = [] := by
  by_contra hno
  obtain ⟨htrailers, hother⟩ := not_or.mp hno
  have hrefused : ∃ cause, m.Unbuildable false cause := by
    by_cases hstatus : Framing.Bodiless m.line
    · obtain ⟨line, hline, -⟩ := id hstatus
      exact ⟨_, .bodiless hline hstatus htrailers⟩
    · have hlengths : m.lengths ≠ [] := fun hnone =>
        hother ⟨hm.not_bodiless_iff.mp hstatus, hnone⟩
      exact ⟨_, .counted hstatus rfl (by simp [h.codings]) hlengths htrailers⟩
  obtain ⟨cause, hcause⟩ := hrefused
  rw [hcause.build_eq hm] at hw
  cases hw

theorem Undeclared.writtenFields_eq (htrailers : m.trailers.fields = []) :
    m.writtenFields false = m.sentFields := by
  have hcoding : m.headers.has FieldName.transferEncoding = false :=
    hm.headers.indexed.getAll_eq_nil_iff.mp (h.getAll_transferEncoding hm)
  unfold sentFields addedFields
  by_cases hlengths : m.lengths = []
  · have hlength : m.headers.has FieldName.contentLength = false := by
      simp [hm.has_contentLength_eq, hlengths]
    rw [if_neg (by simpa using hlengths), if_neg (by simpa using htrailers)]
    by_cases hbody : m.body = []
    · rw [writtenFields_of_declared (.inl hbody), if_neg (by simpa using hbody), List.append_nil]
    · rw [writtenFields_of_undeclared hbody hlength hcoding, if_pos hbody]
  · have hlength : m.headers.has FieldName.contentLength = true := by
      simp [hm.has_contentLength_eq, hlengths]
    rw [writtenFields_of_declared (.inr (.inl hlength)), if_pos hlengths, List.append_nil]

/-- **What is built of a message that declares nothing.** -/
theorem Undeclared.build_eq
    (hsent : m.trailers.fields = [] ∨ m.line.allowsBody = true ∧ m.lengths = []) :
    m.build false = .ok (headOctets m.line m.sentFields ++ m.sentBody) := by
  have hchunked := declaresChunked_of_getAll (h.getAll_transferEncoding hm)
  unfold sentBody
  by_cases htrailers : m.trailers.fields = []
  · rw [if_neg (by simpa using htrailers)]
    cases hallows : m.line.allowsBody with
    | false =>
        have hbody : m.body = [] := hm.body.resolve_right (by simp [hallows])
        have hfields : m.sentFields = m.headers.fields := by
          rw [← h.writtenFields_eq hm htrailers, writtenFields_of_declared (.inl hbody)]
        rw [build_eq_head hm hallows htrailers, hfields, hbody, List.append_nil]
    | true =>
        rw [build_eq_whole hm hallows hchunked htrailers, h.writtenFields_eq hm htrailers]
  · obtain ⟨hallows, hlengths⟩ := hsent.resolve_left htrailers
    have hlength : m.headers.has FieldName.contentLength = false := by
      simp [hm.has_contentLength_eq, hlengths]
    have hreframed : Reframed m.headers.fields m.sentFields := by
      unfold sentFields addedFields
      rw [if_neg (by simpa using hlengths), if_pos htrailers]
      exact reframed_of_undeclared h.codings hlengths
    rw [build_eq_stream_of_trailers hallows hchunked htrailers hlength, if_pos htrailers]
    exact joined_stream hm hallows hreframed rfl hm.trailers

/-! ## Reading -/

omit hm in
/-- The codings and the lengths that are read are those of the message and of the added field. -/
theorem Undeclared.getAll_sentFields (o : Options) :
    (o.noFields.appendAll m.sentFields).getAll FieldName.transferEncoding =
        Fields.valuesOf m.addedFields (LetterCase.lower FieldName.transferEncoding) ∧
      (o.noFields.appendAll m.sentFields).getAll FieldName.contentLength =
        m.lengths ++ Fields.valuesOf m.addedFields (LetterCase.lower FieldName.contentLength) := by
  constructor
  · rw [getAll_read, sentFields, Fields.valuesOf_append]
    exact congrArg (· ++ _) h.codings
  · rw [getAll_read, sentFields, Fields.valuesOf_append]
    rfl

omit hm in
/-- Trailers make the head decide for chunks. -/
theorem Undeclared.decide_of_trailers (hallows : m.line.allowsBody = true)
    (htrailers : m.trailers.fields ≠ []) (hnone : m.lengths = []) (o : Options) :
    Framing.decide m.line (o.noFields.appendAll m.sentFields) = .chunked := by
  obtain ⟨hcodings, hlengths⟩ := h.getAll_sentFields o
  have hadded : m.addedFields = [chunkedField] := by simp [addedFields, hnone, htrailers]
  rw [hadded] at hcodings hlengths
  rw [hnone] at hlengths
  exact Framing.decide_of_coding hallows (by rw [hcodings]; rfl) hlengths

omit hm in
/-- A body, or a length that was declared with it, makes the head decide for the length. -/
theorem Undeclared.decide_of_length (hallows : m.line.allowsBody = true)
    (htrailers : m.trailers.fields = []) (hdeclared : m.lengths ≠ [] ∨ m.body ≠ [])
    (hshort : m.body.length < 16 ^ 16) (o : Options) :
    Framing.decide m.line (o.noFields.appendAll m.sentFields) =
      if m.body = [] then .empty else .length m.body.length := by
  obtain ⟨hcodings, hlengths⟩ := h.getAll_sentFields o
  -- the length is declared by the message or by the added field, but not by both
  have hone : (o.noFields.appendAll m.sentFields).getAll FieldName.transferEncoding = [] ∧
      (o.noFields.appendAll m.sentFields).getAll FieldName.contentLength =
        [Decimal.ofNat m.body.length] := by
    rcases h.lengths with hnone | hone
    · have hbody := hdeclared.resolve_left (by simpa using hnone)
      have hadded : m.addedFields = [m.lengthField] := by
        simp [addedFields, hnone, htrailers, hbody]
      rw [hadded] at hcodings hlengths
      rw [hnone] at hlengths
      exact ⟨hcodings, hlengths⟩
    · have hadded : m.addedFields = [] := by simp [addedFields, hone]
      rw [hadded] at hcodings hlengths
      rw [hone] at hlengths
      exact ⟨hcodings, hlengths⟩
  rw [Framing.decide_of_ofNat hallows hone.1 hone.2 hshort]
  simp only [List.length_eq_zero_iff]

omit hm in
/-- Where nothing is declared or added, the start line decides. -/
theorem Undeclared.decide_of_nothing (hallows : m.line.allowsBody = true)
    (htrailers : m.trailers.fields = []) (hnone : m.lengths = []) (hbody : m.body = [])
    (o : Options) :
    Framing.decide m.line (o.noFields.appendAll m.sentFields) = Framing.ofNothing m.line := by
  obtain ⟨hcodings, hlengths⟩ := h.getAll_sentFields o
  have hadded : m.addedFields = [] := by simp [addedFields, hnone, htrailers, hbody]
  rw [hadded] at hcodings hlengths
  rw [hnone] at hlengths
  exact Framing.decide_of_nothing hallows hcodings hlengths

omit hm in
/-- A status that allows no body decides. -/
theorem Undeclared.decide_of_bodiless (hallows : m.line.allowsBody = false)
    (htrailers : m.trailers.fields = []) (hbody : m.body = []) (o : Options) :
    Framing.decide m.line (o.noFields.appendAll m.sentFields) = .empty := by
  have hadded : m.addedFields = [] := by simp [addedFields, htrailers, hbody]
  obtain ⟨hcodings, -⟩ := h.getAll_sentFields o
  rw [hadded] at hcodings
  exact Framing.decide_of_not_allowsBody hallows (.inl hcodings)

/-- **What is built of a message that declares nothing conveys it**, with the added field. -/
theorem Undeclared.conveys
    (hsent : m.trailers.fields = [] ∨ m.line.allowsBody = true ∧ m.lengths = [])
    (hlacks : ∀ l, ¬ m.LacksLength l) (hkind : o.kind = none ∨ o.kind = some m.line.kind)
    (hfits : m.SentFits o.limits) :
    Conveys o (headOctets m.line m.sentFields ++ m.sentBody)
      [o.read m.line m.sentFields m.body m.trailers.fields] := by
  have hhead := hfits.head hm hkind
  have h0 : 0 ≤ o.limits.startLine := le_trans (Int.natCast_nonneg _) hfits.startLine
  have hne : headOctets m.line m.sentFields ++ m.sentBody ≠ [] := by
    simp [headOctets_ne_nil]
  by_cases htrailers : m.trailers.fields = []
  · have hbody : m.sentBody = m.body := if_neg (by simpa using htrailers)
    -- a head that decides that there is no body is all of the message
    have hempty : m.body = [] →
        Framing.decide m.line (o.noFields.appendAll m.sentFields) = .empty →
        Conveys o (headOctets m.line m.sentFields ++ m.sentBody)
          [o.read m.line m.sentFields m.body m.trailers.fields] := by
      intro hnil hdecide
      have hdelimited := delimited_bodiless hhead hdecide
      rw [hbody, hnil, List.append_nil] at hne ⊢
      rw [htrailers]
      exact hdelimited.conveys hne h0
    cases hallows : m.line.allowsBody with
    | false =>
        have hnil : m.body = [] := hm.body.resolve_right (by simp [hallows])
        exact hempty hnil (h.decide_of_bodiless hallows htrailers hnil o)
    | true =>
        by_cases hdeclared : m.lengths ≠ [] ∨ m.body ≠ []
        · have hdecide := h.decide_of_length hallows htrailers hdeclared hfits.body o
          by_cases hnil : m.body = []
          · exact hempty hnil (hdecide.trans (if_pos hnil))
          · rw [if_neg hnil] at hdecide
            rw [hbody] at hne ⊢
            rw [htrailers]
            exact (delimited_counted hhead hnil hdecide).conveys hne h0
        · obtain ⟨hnone, hnil⟩ : m.lengths = [] ∧ m.body = [] := by simpa using hdeclared
          have hdecide := h.decide_of_nothing hallows htrailers hnone hnil o
          cases hline : m.line with
          | request l =>
              have hmethod : ¬ Framing.TakesBody l.method := fun hmethod =>
                hlacks l ⟨hline, hmethod, hnil, hnone, htrailers⟩
              have hnothing : Framing.ofNothing m.line = .empty := by
                rw [hline, Framing.ofNothing_of_request, if_neg hmethod]
              rw [← hline]
              exact hempty hnil (hdecide.trans hnothing)
          | response l =>
              have hnothing : Framing.ofNothing m.line = .untilClose := by
                rw [hline]
                rfl
              rw [← hline, hbody, htrailers]
              exact conveys_untilClose hhead m.body (hdecide.trans hnothing)
  · obtain ⟨hallows, hnone⟩ := hsent.resolve_left htrailers
    have hdecide := h.decide_of_trailers hallows htrailers hnone o
    have hdelimited := delimited_chunked hhead (hfits.chunks hm htrailers) hdecide
    have hbody : m.sentBody = chunkedOctets [m.body] m.trailers.fields := if_pos htrailers
    rw [List.flatten_singleton] at hdelimited
    rw [hbody] at hne ⊢
    exact hdelimited.conveys hne h0

/-- **A request that lacks a length is refused when it is parsed.** -/
theorem Undeclared.parse_of_lacksLength {kind : Option Kind} {limits : Limits}
    (hlacks : m.LacksLength l) (hkind : kind = none ∨ kind = some m.line.kind)
    (hfits : m.SentFits limits) :
    parse (headOctets m.line m.sentFields ++ m.sentBody) kind limits =
      .error (.invalid (.framing (.lengthRequired l.method))) := by
  have hhead := SentFits.head (o := { kind, limits }) hfits hm hkind
  have hallows : m.line.allowsBody = true := by
    rw [hlacks.line]
    rfl
  have hnothing : Framing.ofNothing m.line = .refused (.lengthRequired l.method) := by
    rw [hlacks.line, Framing.ofNothing_of_request, if_pos hlacks.method]
  have hdecide :=
    h.decide_of_nothing hallows hlacks.trailers hlacks.lengths hlacks.body { kind, limits }
  exact parse_of_refused_head hhead (hdecide.trans hnothing) m.sentBody

end

end Message

open Message

/-- **The field that is added is the one that the parser needs.** Whatever message has been made and
changed, if neither a coding nor a length was declared for it, and it is built at all, parsing what
was built gives the message with at most one more field, the length of its body or the chunked
coding. The exceptions are the requests that lack a length, which are refused. -/
theorem parse_of_build_undeclared {m : Message} {kind : Option Kind} {limits : Limits} {w : Octets}
    (hmade : m.Made) (h : m.Undeclared) (hw : m.build false = .ok w)
    (hkind : kind = none ∨ kind = some m.line.kind) (hfits : m.SentFits limits) :
    ((∀ l, ¬ m.LacksLength l) → ∃ n added, parse w kind limits = .ok [n] ∧ n.line = m.line ∧
      n.body = m.body ∧ n.trailers.fields = m.trailers.fields ∧
      n.headers.fields = m.headers.fields ++ added ∧
      (added = [] ∨ added = [⟨FieldName.contentLength, Decimal.ofNat m.body.length⟩] ∨
        added = [⟨FieldName.transferEncoding, TransferCoding.chunked⟩])) ∧
    ∀ l, m.LacksLength l →
      parse w kind limits = .error (.invalid (.framing (.lengthRequired l.method))) := by
  have hm := hmade.sound
  have hsent := h.of_build hm hw
  obtain rfl := Except.ok.inj ((h.build_eq hm hsent).symm.trans hw)
  constructor
  · intro hlacks
    have hconveys := h.conveys hm (o := { kind, limits }) hsent hlacks hkind hfits
    refine ⟨_, m.addedFields, parse_of_conveys hconveys, rfl, rfl, ?_, ?_, m.addedFields_cases⟩
    · exact Fields.fields_appendAll _ _
    · exact Fields.fields_appendAll _ _
  · intro l hlacks
    exact h.parse_of_lacksLength hm hlacks hkind hfits

/-- A request with a body and a trailer, for which the chunked coding is added. -/
theorem parse_of_build_undeclared_trailer :
    let m : Message :=
      ⟨.request ⟨"GET", "/", [], .http11⟩, {}, Chunk.ascii "abc", ({} : Fields).append ⟨"T", "1"⟩⟩
    ∃ w n, m.build false = .ok w ∧ parse w none {} = .ok [n] ∧ n.line = m.line ∧
      n.body = m.body ∧ n.trailers.fields = m.trailers.fields ∧
      (n.headers.fields = [] ∨
        n.headers.fields = [⟨FieldName.contentLength, Decimal.ofNat m.body.length⟩] ∨
        n.headers.fields = [⟨FieldName.transferEncoding, TransferCoding.chunked⟩]) := by
  intro m
  have hrequest : request "GET" "/" none { body := .octets (Chunk.ascii "abc") } =
      .ok ⟨.request ⟨"GET", "/", [], .http11⟩, {}, Chunk.ascii "abc", {}⟩ := rfl
  have hrequested := Made.request (Parts.filled_of_pairs _ _ _) hrequest
  have hmade : m.Made := hrequested.apply (.addTrailer (.text "T") (.text "1"))
  have hundeclared : m.Undeclared := ⟨rfl, .inl rfl⟩
  have hfits : m.SentFits {} := by
    constructor
    case sizeLines =>
      exact fun _ => ⟨Chunk.sizeFits_of_le (by decide) (by decide),
        Chunk.sizeFits_of_le (by decide) (by decide)⟩
    all_goals decide
  have hw := hundeclared.build_eq hmade.sound (.inr ⟨rfl, rfl⟩)
  obtain ⟨n, added, hparse, hline, hbody, htrailers, hfields, hadded⟩ :=
    (parse_of_build_undeclared hmade hundeclared hw (.inl rfl) hfits).1
      fun l hlacks => absurd hlacks.body (List.cons_ne_nil _ _)
  have hsame : n.headers.fields = added := hfields
  rw [← hsame] at hadded
  exact ⟨_, n, hw, hparse, hline, hbody, htrailers, hadded⟩

/-- A request whose method has a body is built without a length, and refused for the lack of it. -/
theorem length_required_of_build :
    let m : Message := ⟨.request ⟨"POST", "/", [], .http11⟩, {}, [], {}⟩
    m.Made ∧ m.Undeclared ∧ m.SentFits {} ∧ ∃ w, m.build false = .ok w ∧
      parse w none {} = .error (.invalid (.framing (.lengthRequired "POST"))) := by
  intro m
  have hrequest : request "POST" "/" none {} = .ok m := rfl
  have hmade : m.Made := .request (Parts.filled_of_pairs _ _ _) hrequest
  have hundeclared : m.Undeclared := ⟨rfl, .inl rfl⟩
  have hlacks : m.LacksLength ⟨"POST", "/", [], .http11⟩ :=
    ⟨rfl, by decide, rfl, rfl, rfl⟩
  have hfits : m.SentFits {} := by
    constructor
    case sizeLines => exact fun hne => absurd rfl hne
    all_goals decide
  exact ⟨hmade, hundeclared, hfits, _, hundeclared.build_eq hmade.sound (.inl rfl),
    hundeclared.parse_of_lacksLength hmade.sound hlacks (.inl rfl) hfits⟩

end HttpCodec
