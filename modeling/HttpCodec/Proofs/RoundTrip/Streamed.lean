import HttpCodec.Proofs.Parser.Input

set_option autoImplicit false

/-! # Messages that are written in pieces are read again

A message that is written in pieces is read as one message (`parse_of_stream`), with the fields of a
chunked body (`Message.Reframed`), whatever coding or length its own fields declare. Each piece that
is not empty is one chunk, and is reported as such; an empty piece is not written, so it does not end
the body.
-/

namespace HttpCodec

open HttpCodec.Parser

/-! ## Pieces -/

/-- Tells whether content can be written: it is octets, text or nothing. -/
def Content.IsData : Content → Prop
  | .octets _ | .scalar .null | .scalar (.text _) => True
  | .scalar (.boolean _) | .scalar (.integer _) => False

theorem Content.toOctets_of_isData {piece : Content} (h : piece.IsData) :
    ∃ data, piece.toOctets = .ok data := by
  match piece with
  | .octets data => exact ⟨data, rfl⟩
  | .scalar .null => exact ⟨[], rfl⟩
  | .scalar (.text t) => exact ⟨Utf8.encode t, rfl⟩
  | .scalar (.boolean _) => cases h
  | .scalar (.integer _) => cases h

/-- Pieces that can be written are blocks of octets. -/
theorem mapM_toOctets {pieces : List Content} (h : ∀ piece ∈ pieces, piece.IsData) :
    ∃ blocks, pieces.mapM Content.toOctets = .ok blocks :=
  exists_mapM_iff.mpr fun piece hpiece => Content.toOctets_of_isData (h piece hpiece)

/-! ## What is reported of a body -/

/-- The body data that events report, event by event. -/
def Event.payloads (es : List Event) : List Octets :=
  es.filterMap fun
    | .body data => some data
    | _ => none

theorem payloads_eventsOf (n : Message) (payloads : List Octets) :
    Event.payloads (eventsOf n payloads) = payloads := by
  simp [Event.payloads, eventsOf, List.filterMap_append, List.filterMap_map]

/-! ## Messages -/

namespace Message

/-- What has to fit the limits of the parser of a message that is written in pieces. -/
structure StreamFits (limits : Limits) (line : StartLine) (written trailers : List Field)
    (pieces : List Content) : Prop where
  startLine : line.text.length ≤ limits.startLine
  headerCount : written.length ≤ limits.headers
  headerLines : ∀ f ∈ written, f.size ≤ limits.headerLine
  trailerCount : trailers.length ≤ limits.headers
  trailerLines : ∀ f ∈ trailers, f.size ≤ limits.headerLine
  chunkLine : 16 ≤ limits.chunkLine
  pieces : ∀ piece ∈ pieces, ∀ data, piece.toOctets = .ok data → data.length < 16 ^ 16

variable {m : Message} {o : Options} {pieces : List Content} {trailers : Option Fields}
  {written : List Field}

/-- The fields of a chunked body always decide for chunks. -/
theorem Reframed.decide_eq (h : Reframed m.headers.fields written) (hm : m.Sound)
    (hallows : m.line.allowsBody = true) (o : Options) :
    Framing.decide m.line (o.noFields.appendAll written) = .chunked := by
  obtain ⟨coding, hlast, hcoding⟩ := h.isChunked hm.headers.fields
  have hlength := h.contentLength hm.headers.fields
  rw [Framing.decide_of_coding hallows (by rw [getAll_read, hlast]) (by rw [getAll_read, hlength])]
  exact if_pos hcoding

/-- The head of a message that is written in pieces fits. -/
theorem StreamFits.headFits {fields : List Field} (hm : m.Sound)
    (hwritten : Reframed m.headers.fields written)
    (hkind : o.kind = none ∨ o.kind = some m.line.kind)
    (hfits : StreamFits o.limits m.line written fields pieces) : HeadFits o m.line written where
  soundLine := hm.line
  soundFields := hwritten.sound hm.headers.fields
  kind := hkind
  startLine := hfits.startLine
  -- there is at least the field that declares the coding
  headerLine := by
    obtain ⟨f, hf⟩ := hwritten.exists_mem
    have := hfits.headerLines f hf
    omega
  sizes := hfits.headerLines
  count := by
    have := hfits.headerCount
    omega

/-- The blocks of pieces that fit are short enough for a size line. -/
theorem StreamFits.length_lt {line : StartLine} {fields : List Field} {blocks : List Octets}
    (hfits : StreamFits o.limits line written fields pieces)
    (hblocks : pieces.mapM Content.toOctets = .ok blocks) :
    ∀ block ∈ blocks, block.length < 16 ^ 16 := by
  intro block hblock
  obtain ⟨piece, hpiece, hdata⟩ := exists_of_mapM hblocks block hblock
  exact hfits.pieces piece hpiece block hdata

/-- **What is written in pieces is one message**, whatever follows. -/
theorem delimited_stream (hm : m.Sound) (hallows : m.line.allowsBody = true)
    (htrailers : (trailers.getD m.trailers).Sound) (hwritten : Reframed m.headers.fields written)
    (hkind : o.kind = none ∨ o.kind = some m.line.kind) {blocks : List Octets}
    (hblocks : pieces.mapM Content.toOctets = .ok blocks)
    (hfits : StreamFits o.limits m.line written (trailers.getD m.trailers).fields pieces) :
    Delimited o (headOctets m.line written ++ chunkedOctets blocks (trailers.getD m.trailers).fields)
      (o.read m.line written blocks.flatten (trailers.getD m.trailers).fields)
      (blocks.filter (· ≠ [])) := by
  have hhead := hfits.headFits hm hwritten hkind
  have hcount : (trailers.getD m.trailers).fields.length ≤ o.limits.headers.toNat := by
    have := hfits.trailerCount
    omega
  have hchunks : ChunksFit o blocks (trailers.getD m.trailers).fields :=
    chunksFit_of_le hfits.chunkLine (hfits.length_lt hblocks) htrailers.fields hfits.trailerLines
      hcount
  exact delimited_chunked hhead hchunks (hwritten.decide_eq hm hallows o)

end Message

open Message

variable {m : Message} {o : Options} {pieces : List Content} {trailers : Option Fields}
  {written : List Field}

/-- **A message that is written in pieces is read again**, as exactly one message, with the fields of
a chunked body, the pieces put together for a body, and the given trailers or those of the message.
A parser that keeps bodies reports each piece that is not empty by itself. Writing the message with
its own body in this way is the case of a single piece. -/
theorem parse_of_stream (hmade : m.Made) (hallows : m.line.allowsBody = true)
    (hpieces : ∀ piece ∈ pieces, piece.IsData) (htrailers : ∀ fs, trailers = some fs → fs.Filled)
    (hwritten : Reframed m.headers.fields written) (hs : o.streaming = false)
    (hkind : o.kind = none ∨ o.kind = some m.line.kind)
    (hfits : StreamFits o.limits m.line written (trailers.getD m.trailers).fields pieces) :
    (∃ blocks data n, pieces.mapM Content.toOctets = .ok blocks ∧
      (m.stream pieces trailers).joined = .ok data ∧ parse data o.kind o.limits = .ok [n] ∧
      n.line = m.line ∧ n.headers.fields = written ∧ n.body = blocks.flatten ∧
      n.trailers.fields = (trailers.getD m.trailers).fields ∧
      ((Parser.new o).feed data).interruption = none ∧
      Event.payloads ((Parser.new o).feed data).events = blocks.filter (· ≠ [])) ∧
    m.build true = (m.stream [.octets m.body] none).joined := by
  have hm := hmade.sound
  have htrailers : (trailers.getD m.trailers).Sound := by
    cases trailers with
    | none => exact hm.trailers
    | some fs => exact (htrailers fs rfl).sound
  obtain ⟨blocks, hblocks⟩ := mapM_toOctets hpieces
  have hstream := joined_stream hm hallows hwritten hblocks htrailers
  set data := headOctets m.line written ++
    chunkedOctets blocks (trailers.getD m.trailers).fields with hdata
  have hne : data ≠ [] := by simp [hdata, headOctets_ne_nil]
  have h0 : 0 ≤ o.limits.startLine := by
    have := hfits.startLine
    omega
  -- parsing joins repeated fields when they are looked up, whatever the other parser does
  have hdelimited := delimited_stream (o := { kind := o.kind, limits := o.limits }) hm hallows
    htrailers hwritten hkind hblocks hfits
  have hparse := parse_of_conveys (hdelimited.conveys_append hne (conveys_nil h0))
  rw [List.append_nil] at hparse
  obtain ⟨hrun, hevents⟩ :=
    (delimited_stream (o := o) hm hallows htrailers hwritten hkind hblocks hfits).feed_eq hs
  refine ⟨⟨blocks, data, _, hblocks, hstream, hparse, rfl, ?_, rfl, ?_, hrun, ?_⟩,
    build_eq_stream hallows (Or.inl rfl)⟩
  · exact Fields.fields_appendAll _ _
  · exact Fields.fields_appendAll _ _
  · rw [hevents, payloads_eventsOf]

/-- A response that declares both a length and another coding, in pieces one of which is empty. -/
theorem parse_of_stream_recoded :
    let m : Message :=
      ⟨.response ⟨.http11, 200, "OK"⟩,
        (({} : Fields).append ⟨"Content-Length", "5"⟩).append ⟨"Transfer-Encoding", "gzip"⟩, [], {}⟩
    let pieces : List Content :=
      [.octets (Chunk.ascii "ab"), .scalar (.text ""), .scalar (.text "c")]
    ∃ blocks data n, pieces.mapM Content.toOctets = .ok blocks ∧
      (m.stream pieces none).joined = .ok data ∧ parse data none {} = .ok [n] ∧
      n.line = m.line ∧ n.headers.fields = [⟨"Transfer-Encoding", "gzip, chunked"⟩] ∧
      n.body = blocks.flatten ∧ n.trailers.fields = [] ∧
      ((Parser.new {}).feed data).interruption = none ∧
      Event.payloads ((Parser.new {}).feed data).events = blocks.filter (· ≠ []) := by
  intro m pieces
  have hresponse : response 200 none
      { headers := .pairs
          [(.text "Content-Length", .text "5"), (.text "Transfer-Encoding", .text "gzip")] } =
        .ok m := rfl
  have hmade : m.Made := by
    refine .response ⟨?_, fun fs hfs => ?_⟩ hresponse
    · trivial
    · cases hfs
  have hwritten : Reframed m.headers.fields [⟨"Transfer-Encoding", "gzip, chunked"⟩] := by
    have hsplit : unmeasured m.headers.fields = [] ++ ⟨"Transfer-Encoding", "gzip"⟩ :: [] := rfl
    exact .last hsplit rfl (by simp)
  have hpieces : ∀ piece ∈ pieces, piece.IsData := by
    simp [pieces, Content.IsData]
  have hshort : ∀ piece ∈ pieces, ∀ data, piece.toOctets = .ok data → data.length < 16 ^ 16 := by
    intro piece hpiece data hdata
    simp only [pieces, List.mem_cons, List.not_mem_nil, or_false] at hpiece
    rcases hpiece with rfl | rfl | rfl <;> cases hdata <;> decide
  have hfits : StreamFits {} m.line [⟨"Transfer-Encoding", "gzip, chunked"⟩] [] pieces := by
    constructor
    case pieces => exact hshort
    all_goals decide
  have htrailers : ∀ fs, (none : Option Fields) = some fs → fs.Filled := fun _ hfs => nomatch hfs
  exact (parse_of_stream (o := {}) hmade rfl hpieces htrailers hwritten rfl (Or.inl rfl) hfits).1

end HttpCodec
