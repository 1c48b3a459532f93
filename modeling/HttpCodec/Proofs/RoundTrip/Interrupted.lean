import HttpCodec.Proofs.Parser.Split
import HttpCodec.Proofs.RoundTrip.Streamed
import HttpCodec.Source

set_option autoImplicit false

/-! # Writing that is interrupted

A message that is written in pieces goes to a sink part by part (`Written.into`), so that a piece
that cannot be written stops it after octets have been written. The main statement is
`writing_in_pieces`: the sink then holds the head and the chunks of the pieces before, which no
parser takes for a message, and the end of the input is an error; otherwise it holds the message.
-/

namespace HttpCodec

open HttpCodec.Parser

/-! ## Sinks -/

/-- Writes parts one after the other: how many octets were written, and the sink after them. -/
def Sink.writeAll (s : Sink) : List Octets → Nat × Sink
  | [] => (0, s)
  | part :: parts =>
      let (n, t) := s.write part
      let (more, last) := t.writeAll parts
      (n + more, last)

/-- **A sink takes all that is written to it**, in the order in which it is written. -/
theorem Sink.writeAll_eq (s : Sink) (parts : List Octets) :
    s.writeAll parts = (parts.flatten.length, ⟨s.value ++ parts.flatten⟩) := by
  induction parts generalizing s with
  | nil =>
      show (0, s) = (0, (⟨s.value ++ []⟩ : Sink))
      rw [List.append_nil]
  | cons part parts ih =>
      have hrest := ih ⟨s.value ++ part⟩
      have hlen : part.length + parts.flatten.length = (part :: parts).flatten.length := by
        simp
      show (part.length + (Sink.writeAll ⟨s.value ++ part⟩ parts).1,
        (Sink.writeAll ⟨s.value ++ part⟩ parts).2) = _
      rw [hrest, hlen, List.append_assoc, List.flatten_cons]

namespace Message

/-- Writes the parts to a sink: how many octets were written, unless it stopped, and the sink after
what was written. -/
def Written.into (w : Written) (s : Sink) : Except Fault Nat × Sink :=
  let (n, last) := s.writeAll w.parts
  match w.failure with
  | none => (.ok n, last)
  | some fault => (.error fault, last)

/-- **The sink holds the parts**, and what is counted is how many octets they are. -/
theorem Written.into_eq (w : Written) (s : Sink) :
    w.into s = (w.count, ⟨s.value ++ w.parts.flatten⟩) := by
  unfold Written.into Written.count Written.joined
  rw [Sink.writeAll_eq]
  cases w.failure with
  | none => rfl
  | some fault => rfl

/-- What is written as a whole is what the sink holds. -/
theorem Written.into_of_joined {w : Written} {data : Octets} (h : w.joined = .ok data) (s : Sink) :
    w.into s = (.ok data.length, ⟨s.value ++ data⟩) := by
  have hparts : w.parts.flatten = data := by
    unfold Written.joined at h
    split at h
    · exact Except.ok.inj h
    · cases h
  rw [Written.into_eq, Written.count, h, hparts]
  rfl

/-- What stops the writing leaves the parts before it in the sink. -/
theorem Written.into_of_failure {w : Written} {fault : Fault} (h : w.failure = some fault)
    (s : Sink) : w.into s = (.error fault, ⟨s.value ++ w.parts.flatten⟩) := by
  rw [Written.into_eq, Written.count, Written.joined, h]
  rfl

/-! ## Pieces -/

variable {m : Message} {pieces before after : List Content} {piece : Content}
  {cause : Content.Error} {blocks : List Octets} {trailers : Option Fields} {written : List Field}

/-- Pieces without the empty ones. -/
def solid (pieces : List Content) : List Content :=
  pieces.filter (·.toOctets ≠ .ok [])

/-- **Empty pieces are not written.** -/
theorem writeChunks_solid (encoder : Chunk.Encoder) (pieces : List Content) :
    writeChunks encoder (solid pieces) = writeChunks encoder pieces := by
  induction pieces with
  | nil => rfl
  | cons piece pieces ih =>
      by_cases hempty : piece.toOctets = .ok []
      · have hskipped : solid (piece :: pieces) = solid pieces := by
          simp [solid, hempty]
        rw [hskipped, ih, writeChunks, hempty]
        rfl
      · have hkept : solid (piece :: pieces) = piece :: solid pieces := by
          simp [solid, hempty]
        rw [hkept, writeChunks, writeChunks, ih]

theorem stream_solid (m : Message) (pieces : List Content) (trailers : Option Fields) :
    m.stream (solid pieces) trailers = m.stream pieces trailers := by
  unfold stream stream.write
  rw [writeChunks_solid]

/-- The first piece that cannot be written stops the writing after the chunks before it. -/
theorem writeChunks_of_error (encoder : Chunk.Encoder)
    (hbefore : before.mapM Content.toOctets = .ok blocks) (hpiece : piece.toOctets = .error cause)
    (after : List Content) :
    writeChunks encoder (before ++ piece :: after) =
      ⟨(blocks.filter (· ≠ [])).map Chunk.encode, some (.content cause)⟩ := by
  have hstop : writeChunks encoder (piece :: after) = ⟨[], some (.content cause)⟩ := by
    rw [writeChunks, hpiece]
  rw [writeChunks_append encoder hbefore, hstop, List.append_nil]

/-- **What is written before a piece that cannot be written** is the head and the chunks before
it. -/
theorem into_of_error (hm : m.Sound) (hallows : m.line.allowsBody = true)
    (hwritten : Reframed m.headers.fields written)
    (hbefore : before.mapM Content.toOctets = .ok blocks) (hpiece : piece.toOctets = .error cause)
    (after : List Content) (trailers : Option Fields) (s : Sink) :
    (m.stream (before ++ piece :: after) trailers).into s =
      (.error (.content cause),
        ⟨s.value ++ (headOctets m.line written ++ (blocks.map Chunk.encode).flatten)⟩) := by
  have hstream := stream_eq_cons hm hallows hwritten (before ++ piece :: after) trailers
  rw [writeChunks_of_error _ hbefore hpiece] at hstream
  rw [Written.into_of_failure (by rw [hstream]; rfl), hstream, ← flatten_map_encode]
  rfl

/-- Where the status allows no body, no piece is written. -/
theorem stream_of_bodiless (hallows : m.line.allowsBody = false) (pieces : List Content)
    (trailers : Option Fields) :
    ∃ l, m.line = .response l ∧
      m.stream pieces trailers = ⟨[], some (.refused (.noBody l.status))⟩ := by
  cases hline : m.line with
  | request l =>
      rw [hline] at hallows
      cases hallows
  | response l =>
      rw [hline] at hallows
      have hstatus : Status.hasBody l.status = false := hallows
      refine ⟨l, rfl, ?_⟩
      unfold stream
      simp only [hline, hstatus, Bool.false_eq_true, if_false]

end Message

/-! ## Parsing what was interrupted -/

namespace Parser

variable {p : Parser} {o : Options} {line : StartLine} {fields : List Field} {blocks : List Octets}

/-- The front of a message: however it is cut, a parser reports certain events of it, and then the
end of the input is an error within the body. -/
def Unfinished (o : Options) (data : Octets) (es : List Event) : Prop :=
  ∀ cuts : List Octets, cuts.flatten = data →
    ∃ q, (new o).feedAll cuts = { parser := q, events := es } ∧
      q.close.events = [.error (.endOfStream .awaitBody)]

/-- A parser that awaits a chunk waits if nothing is left to read. -/
theorem step_chunksRead (hs : p.options.streaming = false)
    (hlimit : 0 ≤ p.options.limits.chunkLine) (line : StartLine) (fields : List Field)
    (blocks : List Octets) : (p.chunksRead line fields blocks []).step = .wait := by
  have htake : Chunk.take (p.chunksRead line fields blocks []).unread
      (p.chunksRead line fields blocks []).options.limits.chunkLine = .ok none :=
    Chunk.take_nil hlimit
  rw [step_of_readChunk (p := p.chunksRead line fields blocks []) rfl rfl hs, readChunk, htake]

/-- Within a chunked body the end of the input is an error. -/
theorem close_chunksRead (p : Parser) (line : StartLine) (fields : List Field)
    (blocks : List Octets) (rest : Octets) :
    (p.chunksRead line fields blocks rest).close.events = [.error (.endOfStream .awaitBody)] := by
  have hphase : (p.chunksRead line fields blocks rest).phase = .awaitBody := rfl
  have hframing : (p.chunksRead line fields blocks rest).draft.framing = some .chunked := rfl
  rw [close_of_within (by simp [hphase]) (by simp [hphase]) (by simp [hphase])
    (by simp [hframing]), hphase]

/-- **A head and chunks, without the last one, are no message.** -/
theorem unfinished_of_chunks (hs : o.streaming = false) (h : HeadFits o line fields)
    (hlimit : 16 ≤ o.limits.chunkLine) (hblocks : ∀ b ∈ blocks, b.length < 16 ^ 16)
    (hdecide : Framing.decide line (o.noFields.appendAll fields) = .chunked) :
    Unfinished o (headOctets line fields ++ (blocks.map Chunk.encode).flatten)
      (.start line :: fields.map (.field .header) ++ (blocks.filter (· ≠ [])).map .body) := by
  set data := headOctets line fields ++ (blocks.map Chunk.encode).flatten with hdata
  have hfits : ∀ b ∈ blocks, Chunk.SizeFits o.limits.chunkLine b.length := fun b hb =>
    Chunk.sizeFits_of_le (hblocks b hb) hlimit
  have hfresh : ((new o).supply data).Fresh := fresh_new hs data
  have hunread : ((new o).supply data).unread =
      headOctets line fields ++ ((blocks.map Chunk.encode).flatten ++ []) := by
    rw [List.append_nil]
    exact List.nil_append data
  have hreads := reads_chunksRead hfresh h hblocks hfits hdecide hunread
  have hroom : 0 ≤ o.limits.chunkLine := by omega
  have hfeed := feed_of_reads hreads (step_chunksRead hs hroom line fields blocks)
  intro cuts hcuts
  -- there is a head, so there is a block
  have hne : cuts ≠ [] := by
    rintro rfl
    have hempty : headOctets line fields ++ _ = [] := hcuts.symm
    exact headOctets_ne_nil _ _ (List.append_eq_nil_iff.mp hempty).1
  refine ⟨((new o).supply data).chunksRead line fields blocks [], ?_, close_chunksRead _ _ _ _ _⟩
  rw [← hcuts] at hfeed
  rw [feedAll_eq_feed hs (hasFailed_new o) hne (by rw [hfeed]), hfeed, hcuts]

end Parser

namespace Message

variable {m : Message} {trailers : Option Fields}

/-- **What is written in pieces is a message, or is not taken for one.** For a message that can be
written, as all those that a caller can hold (`Held.sound`), whose start line allows a body:

- if all pieces can be written, the sink holds the head of a chunked body, the pieces as chunks and
  the end of the body, and the count is how many octets these are;
- empty pieces make no difference;
- if a piece cannot be written, and those before it can, the sink holds the head and the chunks of
  those. A parser that keeps bodies reports the head and each of the chunks, and nothing more, and
  the end of the input is an error.

Where the start line allows no body, nothing is written. -/
theorem writing_in_pieces (hm : m.Sound) (htrailers : ∀ fs, trailers = some fs → fs.Sound)
    (pieces : List Content) :
    ∃ written, Reframed m.headers.fields written ∧
      (m.line.allowsBody = true → ∀ blocks, pieces.mapM Content.toOctets = .ok blocks →
        ∃ data, (m.stream pieces trailers).joined = .ok data ∧
          data = headOctets m.line written ++
            chunkedOctets blocks (trailers.getD m.trailers).fields ∧
          (m.write (some pieces) trailers).into {} = (.ok data.length, ⟨data⟩)) ∧
      (∀ others, solid others = solid pieces →
        m.write (some others) trailers = m.write (some pieces) trailers) ∧
      (m.line.allowsBody = true → ∀ before piece after blocks cause,
        pieces = before ++ piece :: after → before.mapM Content.toOctets = .ok blocks →
        piece.toOctets = .error cause →
        ∃ data, data = headOctets m.line written ++ (blocks.map Chunk.encode).flatten ∧
          (m.write (some pieces) trailers).into {} = (.error (.content cause), ⟨data⟩) ∧
          ∀ o : Options, o.streaming = false → (o.kind = none ∨ o.kind = some m.line.kind) →
            StreamFits o.limits m.line written [] before →
            Unfinished o data (.start m.line :: written.map (.field .header) ++
              (blocks.filter (· ≠ [])).map .body)) ∧
      (m.line.allowsBody = false → ∃ l, m.line = .response l ∧
        (m.write (some pieces) trailers).into {} = (.error (.refused (.noBody l.status)), {})) := by
  have hwritten := reframed_chunkedFields m.headers.fields
  refine ⟨chunkedFields m.headers.fields, hwritten, ?_, ?_, ?_, ?_⟩
  · intro hallows blocks hblocks
    have hsound : (trailers.getD m.trailers).Sound := by
      cases trailers with
      | none => exact hm.trailers
      | some fs => exact htrailers fs rfl
    have hjoined := joined_stream hm hallows hwritten hblocks hsound
    exact ⟨_, hjoined, rfl, Written.into_of_joined hjoined {}⟩
  · intro others hsame
    calc m.stream others trailers
        = m.stream (solid others) trailers := (stream_solid m others trailers).symm
      _ = m.stream (solid pieces) trailers := by rw [hsame]
      _ = m.stream pieces trailers := stream_solid m pieces trailers
  · intro hallows before piece after blocks cause hpieces hbefore hpiece
    subst hpieces
    refine ⟨_, rfl, into_of_error hm hallows hwritten hbefore hpiece after trailers {}, ?_⟩
    intro o hs hkind hfits
    exact unfinished_of_chunks hs (hfits.headFits hm hwritten hkind) hfits.chunkLine
      (hfits.length_lt hbefore) (hwritten.decide_eq hm hallows o)
  · intro hallows
    obtain ⟨l, hline, hstream⟩ := stream_of_bodiless hallows pieces trailers
    refine ⟨l, hline, ?_⟩
    show (m.stream pieces trailers).into {} = _
    rw [hstream]
    rfl

/-- A number among the pieces, behind one that is empty. -/
theorem writing_in_pieces_of_number :
    let m : Message := ⟨.request ⟨"POST", "/", [], .http11⟩, {}, [], {}⟩
    let before : List Content := [.octets (Chunk.ascii "ab"), .scalar (.text "")]
    let pieces : List Content := before ++ .scalar (.integer 5) :: [.scalar (.text "c")]
    let data := Chunk.ascii "POST / HTTP/1.1\r\nTransfer-Encoding: chunked\r\n\r\n2\r\nab\r\n"
    m.Sound ∧ (m.write (some pieces) none).into {} = (.error (.content ⟨.integer 5⟩), ⟨data⟩) ∧
      Unfinished {} data
        [.start m.line, .field .header chunkedField, .body (Chunk.ascii "ab")] := by
  intro m before pieces data
  have hrequest : request "POST" "/" none {} = .ok m := rfl
  have hm : m.Sound := (Made.request (Parts.filled_of_pairs _ [] _) hrequest).sound
  have htrailers : ∀ fs, (none : Option Fields) = some fs → fs.Sound := fun _ hfs => nomatch hfs
  obtain ⟨written, hwritten, -, -, hrefused, -⟩ := writing_in_pieces hm htrailers pieces
  obtain ⟨front, hfront, hinto, hunfinished⟩ :=
    hrefused rfl before _ _ [Chunk.ascii "ab", []] _ rfl rfl rfl
  obtain rfl : written = [chunkedField] := hwritten.eq_chunkedFields.symm
  obtain rfl : front = data := hfront.trans (by decide)
  have hshort : ∀ piece ∈ before, ∀ data, piece.toOctets = .ok data → data.length < 16 ^ 16 := by
    intro piece hpiece data hdata
    simp only [before, List.mem_cons, List.not_mem_nil, or_false] at hpiece
    rcases hpiece with rfl | rfl <;> cases hdata <;> decide
  have hfits : StreamFits {} m.line [chunkedField] [] before := by
    constructor
    case pieces => exact hshort
    all_goals decide
  exact ⟨hm, hinto, hunfinished {} rfl (.inl rfl) hfits⟩

end Message

end HttpCodec
