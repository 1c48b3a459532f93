import HttpCodec.Message.Wire
import HttpCodec.Proofs.Chunk.Written
import HttpCodec.Proofs.Message.ChunkedFields
import HttpCodec.Proofs.Message.Made

set_option autoImplicit false

/-! # What is written

The octets that a message is written as, in terms of its parts: a head (`headOctets`), and a body
that is there as it is (`build_eq_whole`) or in chunks (`joined_stream`).
-/

namespace HttpCodec

/-! ## Lines -/

/-- The octets of the lines of fields. -/
def Fields.octetsOf (fields : List Field) : Octets :=
  (fields.map fun f => f.octets ++ lineEnd).flatten

/-- The octets of a head: a start line, field lines and an empty line. -/
def headOctets (line : StartLine) (fields : List Field) : Octets :=
  Latin.octets line.text ++ lineEnd ++ (Fields.octetsOf fields ++ lineEnd)

/-- The octets of a chunked body: a chunk for each block that is not empty, the last chunk, and the
trailers. -/
def chunkedOctets (blocks : List Octets) (trailers : List Field) : Octets :=
  (blocks.map Chunk.encode).flatten ++
    (Chunk.ascii "0" ++ lineEnd ++ (Fields.octetsOf trailers ++ lineEnd))

theorem headOctets_ne_nil (line : StartLine) (fields : List Field) :
    headOctets line fields ≠ [] := by
  simp [headOctets, lineEnd]

theorem encode_lines {fields : List Field} (h : ∀ f ∈ fields, f.Sound) :
    (fields.map Field.line).mapM Latin.encode =
      .ok (fields.map fun f => f.octets ++ lineEnd) := by
  induction fields with
  | nil => rfl
  | cons f fields ih =>
      have hrest := ih fun g hg => h g (List.mem_cons_of_mem f hg)
      rw [List.map_cons, List.mapM_cons, Field.encode_line (h f List.mem_cons_self), hrest]
      rfl

theorem encode_startLine {m : Message} (h : m.line.Sound) :
    Latin.encode m.startLine = .ok (Latin.octets m.line.text ++ lineEnd) :=
  h.plain.encode_line

namespace Message

variable {m : Message}

/-! ## Heads -/

theorem declaresChunked_iff :
    m.declaresChunked = true ↔
      ∃ coding, (m.headers.getAll FieldName.transferEncoding).getLast? = some coding ∧
        TransferCoding.isChunked coding = true := by
  unfold declaresChunked
  cases (m.headers.getAll FieldName.transferEncoding).getLast? <;> simp

theorem declaresChunked_of_getAll (h : m.headers.getAll FieldName.transferEncoding = []) :
    m.declaresChunked = false := by
  simp [declaresChunked, h]

/-- The field that declares the length of the body. -/
def lengthField (m : Message) : Field := ⟨FieldName.contentLength, Decimal.ofNat m.body.length⟩

theorem sound_lengthField (m : Message) : m.lengthField.Sound :=
  Field.sound_of_digits fun _ hc => Decimal.isDigit_of_mem_ofNat hc

theorem size_lengthField (m : Message) :
    m.lengthField.size = 16 + (Decimal.ofNat m.body.length).length := rfl

/-- The header fields as they are written: those of a chunked body, or those of the message with the
length that it needs. -/
def writtenFields (m : Message) (streaming : Bool) : List Field :=
  if streaming = true ∧ m.line.allowsBody = true then chunkedFields m.headers.fields
  else if m.body ≠ [] ∧ m.headers.has FieldName.contentLength = false ∧
      m.headers.has FieldName.transferEncoding = false then m.headers.fields ++ [m.lengthField]
  else m.headers.fields

theorem headerLines_eq (m : Message) (streaming : Bool) :
    m.headerLines streaming = (m.writtenFields streaming).map Field.line := by
  unfold headerLines writtenFields
  by_cases hstreaming : streaming = true ∧ m.line.allowsBody = true
  · rw [if_pos hstreaming, if_pos (by simp [canHaveBody, hstreaming])]
  · rw [if_neg hstreaming, if_neg (by simpa [canHaveBody] using hstreaming)]
    split_ifs with hlines hfields hfields
    · simp [Fields.lines, lengthField]
    · exact absurd (by simpa [and_assoc] using hlines) hfields
    · exact absurd (by simpa [and_assoc] using hfields) hlines
    · rfl

theorem sound_writtenFields (hm : m.Sound) (streaming : Bool) :
    ∀ f ∈ m.writtenFields streaming, f.Sound := by
  unfold writtenFields
  split_ifs
  · exact (reframed_chunkedFields m.headers.fields).sound hm.headers.fields
  · intro f hf
    rcases List.mem_append.mp hf with hf | hf
    · exact hm.headers.fields f hf
    · rw [List.mem_singleton.mp hf]
      exact sound_lengthField m
  · exact hm.headers.fields

theorem writtenFields_of_reframed {written : List Field} (hallows : m.line.allowsBody = true)
    (h : Reframed m.headers.fields written) : m.writtenFields true = written := by
  rw [writtenFields, if_pos ⟨rfl, hallows⟩, h.eq_chunkedFields]

theorem writtenFields_of_undeclared (hbody : m.body ≠ [])
    (hlength : m.headers.has FieldName.contentLength = false)
    (hcoding : m.headers.has FieldName.transferEncoding = false) :
    m.writtenFields false = m.headers.fields ++ [m.lengthField] := by
  rw [writtenFields, if_neg (by simp), if_pos ⟨hbody, hlength, hcoding⟩]

/-- The fields are written as they are if there is no length to declare. -/
theorem writtenFields_of_declared
    (hdeclared : m.body = [] ∨ m.headers.has FieldName.contentLength = true ∨
      m.headers.has FieldName.transferEncoding = true) :
    m.writtenFields false = m.headers.fields := by
  rw [writtenFields, if_neg (by simp), if_neg]
  rcases hdeclared with h | h | h <;> simp [h]

/-- **The head of a message is always written.** -/
theorem head_eq (hm : m.Sound) (streaming : Bool) :
    m.head streaming = .ok (headOctets m.line (m.writtenFields streaming)) := by
  unfold head
  rw [encode_startLine hm.line, headerLines_eq, encode_lines (sound_writtenFields hm streaming)]
  show Except.ok _ = Except.ok _
  unfold headOctets Fields.octetsOf
  rw [List.append_assoc]

/-! ## Bodies -/

theorem stream_eq_write (hallows : m.line.allowsBody = true) (pieces : List Content)
    (trailers : Option Fields) : m.stream pieces trailers = stream.write m pieces trailers := by
  unfold stream
  split
  next l hline =>
    rw [hline] at hallows
    exact if_pos hallows
  · rfl

theorem build_eq_write (hallows : m.line.allowsBody = true) (streaming : Bool) :
    m.build streaming = build.write m streaming := by
  unfold build
  split
  next l hline =>
    rw [hline] at hallows
    exact if_pos hallows
  · rfl

theorem flush_eq {trailers : Fields} (h : trailers.Sound) :
    Chunk.Encoder.flush ⟨trailers.lines⟩ =
      .ok (Chunk.ascii "0" ++ lineEnd ++ (Fields.octetsOf trailers.fields ++ lineEnd)) := by
  unfold Chunk.Encoder.flush Chunk.encodeLast
  show ((trailers.fields.map Field.line).mapM Latin.encode >>= _) = _
  rw [encode_lines h.fields]
  show Except.ok _ = Except.ok _
  unfold Fields.octetsOf
  rw [List.append_assoc]

/-- Pieces that can be written go before the others, each that is not empty as one chunk. -/
theorem writeChunks_append (encoder : Chunk.Encoder) {pieces : List Content}
    {blocks : List Octets} (hpieces : pieces.mapM Content.toOctets = .ok blocks)
    (others : List Content) :
    writeChunks encoder (pieces ++ others) =
      ⟨(blocks.filter (· ≠ [])).map Chunk.encode ++ (writeChunks encoder others).parts,
        (writeChunks encoder others).failure⟩ := by
  induction pieces generalizing blocks with
  | nil =>
      cases hpieces
      rfl
  | cons piece pieces ih =>
      rw [List.mapM_cons] at hpieces
      obtain ⟨data, hdata, hrest⟩ := bind_eq_ok_iff.mp hpieces
      obtain ⟨rest, hmap, hblocks⟩ := bind_eq_ok_iff.mp hrest
      cases hblocks
      -- an empty piece is not written, as it would end the body
      by_cases hempty : data = []
      · subst hempty
        simp only [List.cons_append, writeChunks, hdata, Chunk.Encoder.feed, List.isEmpty_nil,
          if_true, ih hmap]
        simp
      · have hfeed : encoder.feed data = some (Chunk.encode data) := by
          unfold Chunk.Encoder.feed
          rw [if_neg (by simpa using hempty)]
        simp only [List.cons_append, writeChunks, hdata, hfeed, ih hmap]
        simp [Written.cons, hempty]

/-- Where all pieces can be written, the last chunk follows them. -/
theorem writeChunks_eq {encoder : Chunk.Encoder} {last : Octets} (hlast : encoder.flush = .ok last)
    {pieces : List Content} {blocks : List Octets}
    (hpieces : pieces.mapM Content.toOctets = .ok blocks) :
    writeChunks encoder pieces = ⟨(blocks.filter (· ≠ [])).map Chunk.encode ++ [last], none⟩ := by
  have happend := writeChunks_append encoder hpieces []
  simpa only [List.append_nil, writeChunks, hlast] using happend

theorem flatten_map_encode (blocks : List Octets) :
    ((blocks.filter (· ≠ [])).map Chunk.encode).flatten = (blocks.map Chunk.encode).flatten := by
  induction blocks with
  | nil => rfl
  | cons block blocks ih =>
      by_cases hempty : block = []
      · subst hempty
        simpa [Chunk.encode] using ih
      · simp only [List.filter_cons, hempty, ne_eq, not_false_eq_true, decide_true, if_true,
          List.map_cons, List.flatten_cons]
        rw [← ih]

/-- **What is written in pieces** begins with the head of a chunked body. -/
theorem stream_eq_cons (hm : m.Sound) (hallows : m.line.allowsBody = true) {written : List Field}
    (hwritten : Reframed m.headers.fields written) (pieces : List Content)
    (trailers : Option Fields) :
    m.stream pieces trailers =
      (writeChunks ⟨(trailers.getD m.trailers).lines⟩ pieces).cons (headOctets m.line written) := by
  have hhead : m.head true = .ok (headOctets m.line written) := by
    rw [head_eq hm, writtenFields_of_reframed hallows hwritten]
  rw [stream_eq_write hallows, stream.write, hhead]

/-- Pieces that can be written follow the head as chunks, and the last chunk ends the body. -/
theorem joined_stream (hm : m.Sound) (hallows : m.line.allowsBody = true) {written : List Field}
    (hwritten : Reframed m.headers.fields written) {pieces : List Content} {blocks : List Octets}
    (hpieces : pieces.mapM Content.toOctets = .ok blocks) {trailers : Option Fields}
    (htrailers : (trailers.getD m.trailers).Sound) :
    (m.stream pieces trailers).joined =
      .ok (headOctets m.line written ++
        chunkedOctets blocks (trailers.getD m.trailers).fields) := by
  rw [stream_eq_cons hm hallows hwritten, writeChunks_eq (flush_eq htrailers) hpieces]
  simp only [Written.cons, Written.joined, List.flatten_cons, List.flatten_append,
    flatten_map_encode, chunkedOctets, List.flatten_nil, List.append_nil]

/-- A chunked body is written as a single piece. -/
theorem build_eq_stream (hallows : m.line.allowsBody = true) {streaming : Bool}
    (h : streaming = true ∨ m.declaresChunked = true) :
    m.build streaming = (m.stream [.octets m.body] none).joined := by
  rw [build_eq_write hallows]
  unfold build.write
  rw [if_pos (by simpa using h)]

/-- A message that declares a chunked body and no length is written with the fields that it has. -/
theorem build_eq_chunked (hm : m.Sound) (hallows : m.line.allowsBody = true)
    (hchunked : m.declaresChunked = true)
    (hlengths : m.headers.getAll FieldName.contentLength = []) :
    m.build false =
      .ok (headOctets m.line m.headers.fields ++ chunkedOctets [m.body] m.trailers.fields) := by
  obtain ⟨coding, hlast, hcoding⟩ := declaresChunked_iff.mp hchunked
  have hreframed : Reframed m.headers.fields m.headers.fields := by
    rw [hm.headers.indexed.getAll_eq] at hlast hlengths
    exact reframed_self hm.headers.fields hlast hcoding hlengths
  rw [build_eq_stream hallows (.inr hchunked)]
  exact joined_stream hm hallows hreframed rfl hm.trailers

/-- Trailers make the body a chunked one, if no length is declared. -/
theorem build_eq_stream_of_trailers (hallows : m.line.allowsBody = true)
    (hchunked : m.declaresChunked = false) (htrailers : m.trailers.fields ≠ [])
    (hlength : m.headers.has FieldName.contentLength = false) :
    m.build false = (m.stream [.octets m.body] none).joined := by
  rw [build_eq_write hallows]
  simp only [build.write, hchunked, Bool.or_self, Bool.false_eq_true, if_false, List.isEmpty_iff,
    if_neg htrailers, hlength]

/-- **What is written as a whole**, without chunks, is the head and the body as it is. -/
theorem build_eq_whole (hm : m.Sound) (hallows : m.line.allowsBody = true)
    (hchunked : m.declaresChunked = false) (htrailers : m.trailers.fields = []) :
    m.build false = .ok (headOctets m.line (m.writtenFields false) ++ m.body) := by
  rw [build_eq_write hallows]
  simp only [build.write, hchunked, Bool.or_self, Bool.false_eq_true, if_false, htrailers,
    List.isEmpty_nil, if_true, head_eq hm]
  rfl

/-- What is written as a whole of a message that has no length left to declare. -/
theorem build_eq_append (hm : m.Sound) (hallows : m.line.allowsBody = true)
    (hchunked : m.declaresChunked = false) (htrailers : m.trailers.fields = [])
    (hdeclared : m.body = [] ∨ m.headers.has FieldName.contentLength = true ∨
      m.headers.has FieldName.transferEncoding = true) :
    m.build false = .ok (headOctets m.line m.headers.fields ++ m.body) := by
  rw [build_eq_whole hm hallows hchunked htrailers, writtenFields_of_declared hdeclared]

/-- Where the start line allows no body, the head is all there is. -/
theorem build_eq_head (hm : m.Sound) (hallows : m.line.allowsBody = false)
    (htrailers : m.trailers.fields = []) (streaming : Bool) :
    m.build streaming = .ok (headOctets m.line m.headers.fields) := by
  have hbody : m.body = [] := hm.body.resolve_right (by simp [hallows])
  have hhead : m.head false = .ok (headOctets m.line m.headers.fields) := by
    rw [head_eq hm, writtenFields_of_declared (.inl hbody)]
  unfold build
  split
  next l hline =>
    have hstatus : Status.hasBody l.status = false := by
      rw [hline] at hallows
      exact hallows
    rw [if_neg (by simp [hstatus]), if_pos (by simp [htrailers]), hhead]
    rfl
  next l hline =>
    rw [hline] at hallows
    cases hallows

end Message

end HttpCodec
