import HttpCodec.Proofs.Framing
import HttpCodec.Proofs.Parser.Reads

set_option autoImplicit false

/-! # Messages that end by themselves

`Delimited o w n payloads` says that the octets `w` are read as the message `n`, whatever follows
them, with its body reported in the given payloads. A head without a body is such a message, and so
is a head with a body of declared length or a chunked one. A body that goes on until the input ends
is none, as everything that follows belongs to it.
-/

namespace HttpCodec

theorem Framing.allowsBody_of_body? {line : StartLine} {headers : Fields} {body : Framing × Nat}
    (h : (Framing.decide line headers).body? = some body) : line.allowsBody = true := by
  have hempty : Framing.decide line headers ≠ .empty := by
    intro hempty
    rw [hempty] at h
    cases h
  have hrefused : ∀ cause, Framing.decide line headers ≠ .refused cause := by
    intro cause hrefused
    rw [hrefused] at h
    cases h
  exact allowsBody_of_decide hempty hrefused

namespace Parser

/-- A parser that has read nothing of a message. -/
structure Fresh (p : Parser) : Prop where
  buffered : p.options.streaming = false
  phase : p.phase = .awaitStartLine
  draft : p.draft = p.options.noDraft

/-- A head that a parser with certain options can read. -/
structure HeadFits (o : Options) (line : StartLine) (fields : List Field) : Prop where
  soundLine : line.Sound
  soundFields : ∀ f ∈ fields, f.Sound
  kind : o.kind = none ∨ o.kind = some line.kind
  startLine : line.text.length ≤ o.limits.startLine
  /-- The line limit leaves room for the empty line. -/
  headerLine : 0 ≤ o.limits.headerLine
  sizes : ∀ f ∈ fields, f.size ≤ o.limits.headerLine
  count : fields.length ≤ o.limits.headers.toNat

/-- The message that is read with certain options. -/
def Options.read (o : Options) (line : StartLine) (fields : List Field) (body : Octets)
    (trailers : List Field) : Message :=
  ⟨line, o.noFields.appendAll fields, body, o.noFields.appendAll trailers⟩

theorem indexed_noFields (o : Options) : o.noFields.Indexed :=
  Fields.indexed_empty o.join (o.limits.headerLine + 1)

/-- What is looked up in a head that was read. -/
theorem getAll_read (o : Options) (fields : List Field) (name : Text) :
    (o.noFields.appendAll fields).getAll name =
      Fields.valuesOf fields (LetterCase.lower name) := by
  rw [((indexed_noFields o).appendAll fields).getAll_eq, Fields.fields_appendAll]
  rfl

/-- The parser after the lines of a head, before the empty line. -/
def headRead (p : Parser) (line : StartLine) (fields : List Field) (rest : Octets) : Parser :=
  { p with
    unread := rest
    phase := .awaitHeaders
    draft :=
      { p.options.noDraft with
        line := some line, headers := p.options.noFields.appendAll fields } }

variable {p : Parser} {line : StartLine} {fields : List Field} {rest : Octets}

/-- **The lines of a head that was written are read.** -/
theorem reads_head (hp : p.Fresh) (h : HeadFits p.options line fields)
    (hunread : p.unread = headOctets line fields ++ rest) :
    Reads p (.start line :: fields.map (.field .header))
      (p.headRead line fields (lineEnd ++ rest)) := by
  have hsplit : p.unread = Latin.octets line.text ++ lineEnd ++
      (Fields.octetsOf fields ++ (lineEnd ++ rest)) := by
    rw [hunread]
    simp [headOctets]
  have hstart := advance_startLine h.soundLine hp.phase hsplit h.startLine h.kind
  show Reads p ([.start line] ++ fields.map (.field .header)) _
  refine .step hstart ?_
  -- the parser after the start line
  set q : Parser :=
    { p with
      unread := Fields.octetsOf fields ++ (lineEnd ++ rest)
      phase := .awaitHeaders
      draft := { p.draft with line := some line } } with hq
  have hfields : q.draft.fields .header = p.options.noFields := by
    rw [hq, hp.draft]
    rfl
  have hcount : (q.draft.fields .header).fields.length + fields.length ≤
      q.options.limits.headers.toNat := by
    rw [hfields]
    show 0 + fields.length ≤ p.options.limits.headers.toNat
    rw [Nat.zero_add]
    exact h.count
  have hread : Reads q (fields.map (.field .header)) (q.withFields .header fields (lineEnd ++ rest)) :=
    reads_fields .header h.soundFields rfl rfl h.sizes (by rw [hfields]; rfl) hcount
  have hsame : q.withFields .header fields (lineEnd ++ rest) =
      p.headRead line fields (lineEnd ++ rest) := by
    unfold withFields headRead
    rw [hq, hp.draft]
    rfl
  rwa [hsame] at hread

/-- The parser after a head that announces a body. -/
def headEnded (p : Parser) (line : StartLine) (fields : List Field) (rest : Octets)
    (framing : Framing) (n : Nat) : Parser :=
  ((p.headRead line fields (lineEnd ++ rest)).leave rest).awaitBody framing n

/-- **A head that announces a body is read**, and the body is awaited. -/
theorem reads_headEnded {framing : Framing} {n : Nat} (hp : p.Fresh)
    (h : HeadFits p.options line fields) (hunread : p.unread = headOctets line fields ++ rest)
    (hdecide : (Framing.decide line (p.options.noFields.appendAll fields)).body? =
      some (framing, n)) :
    Reads p (.start line :: fields.map (.field .header))
      (p.headEnded line fields rest framing n) := by
  have hscan : Line.scan (lineEnd ++ rest) p.options.limits.headerLine = .ok (some ([], rest)) :=
    Line.scan_lineEnd h.headerLine
  have hframed := Advance.framed (p := p.headRead line fields (lineEnd ++ rest)) rfl hscan rfl hdecide
  have hreads := (reads_head hp h hunread).trans hframed.reads
  rwa [List.append_nil] at hreads

/-- What a parser makes of sound parts. -/
theorem message_eq {body : Octets} (hs : p.options.streaming = false) (hline : line.Sound)
    (hdraft : p.draft.line = some line) (hbody : p.draft.body = body)
    (hallows : body = [] ∨ line.allowsBody = true) :
    p.message = .ok ⟨line, p.draft.headers, body, p.draft.trailers⟩ := by
  unfold message
  simp only [hdraft, hs, hbody, Bool.false_eq_true, if_false]
  rw [Message.ofStartLine_of_sound hline _ _ hallows]
  rfl

/-! ## Messages -/

/-- The events of a message. -/
def eventsOf (n : Message) (payloads : List Octets) : List Event :=
  .start n.line :: n.headers.fields.map (.field .header) ++ payloads.map .body ++
    n.trailers.fields.map (.field .trailer) ++ [.complete n]

/-- Octets that are read as a message, whatever follows them. -/
def Delimited (o : Options) (w : Octets) (n : Message) (payloads : List Octets) : Prop :=
  ∀ (p : Parser) (rest : Octets), p.Fresh → p.options = o → p.unread = w ++ rest →
    ∃ q, Reads p (eventsOf n payloads) q ∧ q.phase = .done ∧ q.options = o ∧ q.unread = rest

theorem eventsOf_read (o : Options) (line : StartLine) (fields : List Field) (body : Octets)
    (trailers : List Field) (payloads : List Octets) :
    eventsOf (o.read line fields body trailers) payloads =
      .start line :: fields.map (.field .header) ++ (payloads.map .body ++
        (trailers.map (.field .trailer) ++ [.complete (o.read line fields body trailers)])) := by
  unfold eventsOf Options.read
  simp only [Fields.fields_appendAll]
  simp [Options.noFields]

/-- **A head that decides that there is no body** is a message. -/
theorem delimited_bodiless {o : Options} (h : HeadFits o line fields)
    (hdecide : Framing.decide line (o.noFields.appendAll fields) = .empty) :
    Delimited o (headOctets line fields) (o.read line fields [] []) [] := by
  rintro p rest hp rfl hunread
  have hhead := reads_head hp h hunread
  have hscan : Line.scan (lineEnd ++ rest) p.options.limits.headerLine = .ok (some ([], rest)) :=
    Line.scan_lineEnd h.headerLine
  have hmessage : (p.headRead line fields (lineEnd ++ rest)).message =
      .ok (p.options.read line fields [] []) :=
    message_eq hp.buffered h.soundLine rfl rfl (Or.inl rfl)
  have hend := Advance.bodiless (p := p.headRead line fields (lineEnd ++ rest)) rfl hscan rfl hdecide
    hmessage
  rw [eventsOf_read]
  exact ⟨_, hhead.trans hend.reads, rfl, rfl, rfl⟩

/-- **A head that decides for a declared length and as many octets** are a message. -/
theorem delimited_counted {o : Options} (h : HeadFits o line fields) {body : Octets}
    (hne : body ≠ [])
    (hdecide : Framing.decide line (o.noFields.appendAll fields) = .length body.length) :
    Delimited o (headOctets line fields ++ body) (o.read line fields body []) [body] := by
  rintro p rest hp rfl hunread
  rw [List.append_assoc] at hunread
  have hbody? := congrArg Framing.Decision.body? hdecide
  have hallows : line.allowsBody = true := Framing.allowsBody_of_body? hbody?
  have hhead := reads_headEnded hp h hunread hbody?
  set q := p.headEnded line fields (body ++ rest) .lengthKnown body.length
  have hs : q.options.streaming = false := hp.buffered
  -- the body has arrived as a whole, so it is read in one step
  have htake : q.unread.take q.draft.remaining = body := List.take_left
  have hbody : q.afterCounted.draft.body = body := by
    show q.keptBody (q.unread.take q.draft.remaining) = body
    rw [htake]
    show (if q.options.streaming then ([] : Octets) else [] ++ body) = body
    rw [hs]
    rfl
  have hmessage : q.afterCounted.message = .ok (p.options.read line fields body []) :=
    message_eq hs h.soundLine rfl hbody (Or.inr hallows)
  have hlen : q.draft.remaining ≤ q.unread.length := by
    show body.length ≤ (body ++ rest).length
    simp
  have hsome : q.unread ≠ [] := by
    show body ++ rest ≠ []
    simp [hne]
  have hend := Advance.countedEnd (p := q) rfl rfl hsome hlen hmessage
  have hevents : q.countedEvents = [.body body] := by
    unfold countedEvents
    rw [if_neg (by simp [hs]), if_pos hlen, htake]
    rfl
  rw [hevents] at hend
  rw [eventsOf_read]
  exact ⟨_, hhead.trans hend.reads, rfl, rfl, List.drop_left⟩

/-! ## Chunks -/

/-- **Chunks that were written are read**, each as a whole. -/
theorem reads_chunks {blocks : List Octets} (hs : p.options.streaming = false)
    (hphase : p.phase = .awaitBody) (hframing : p.draft.framing = some .chunked)
    (hblocks : ∀ b ∈ blocks, b.length < 16 ^ 16)
    (hfits : ∀ b ∈ blocks, Chunk.SizeFits p.options.limits.chunkLine b.length)
    (hunread : p.unread = (blocks.map Chunk.encode).flatten ++ rest) :
    Reads p ((blocks.filter (· ≠ [])).map .body)
      { p with
        unread := rest, draft := { p.draft with body := p.draft.body ++ blocks.flatten } } := by
  -- by induction on the blocks, the body growing by each
  induction blocks generalizing p with
  | nil =>
      have hsame : ({ p with
          unread := rest
          draft := { p.draft with body := p.draft.body ++ [] } } : Parser) = p := by
        have hunread : rest = p.unread := hunread.symm
        rw [hunread, List.append_nil]
      show Reads p [] { p with
        unread := rest, draft := { p.draft with body := p.draft.body ++ [] } }
      rw [hsame]
      exact .refl p
  | cons block blocks ih =>
      have hrest : ∀ b ∈ blocks, b.length < 16 ^ 16 := fun b hb =>
        hblocks b (List.mem_cons_of_mem block hb)
      have hrestFits : ∀ b ∈ blocks, Chunk.SizeFits p.options.limits.chunkLine b.length :=
        fun b hb => hfits b (List.mem_cons_of_mem block hb)
      have hsplit : p.unread =
          Chunk.encode block ++ ((blocks.map Chunk.encode).flatten ++ rest) := by
        rw [hunread]
        simp
      by_cases hempty : block = []
      · -- an empty block is not written
        subst hempty
        have hreads := ih hs hphase hframing hrest hrestFits (by simpa [Chunk.encode] using hsplit)
        simpa using hreads
      · have htake : Chunk.take p.unread p.options.limits.chunkLine =
            .ok (some (block, (blocks.map Chunk.encode).flatten ++ rest)) := by
          rw [hsplit]
          exact Chunk.take_encode hempty (hblocks block List.mem_cons_self)
            (hfits block List.mem_cons_self) _
        have hadvance := Advance.chunk hphase hframing hs htake hempty
        have hreads := ih (p := { p with
            unread := (blocks.map Chunk.encode).flatten ++ rest
            draft := { p.draft with body := p.draft.body ++ block } })
          hs hphase hframing hrest hrestFits rfl
        have hall := Reads.step hadvance hreads
        simpa [hempty] using hall

/-- The parser after a head that announces chunks and the chunks of some blocks. -/
def chunksRead (p : Parser) (line : StartLine) (fields : List Field) (blocks : List Octets)
    (rest : Octets) : Parser :=
  let q := p.headEnded line fields rest .chunked 0
  { q with draft := { q.draft with body := blocks.flatten } }

/-- **A head that announces chunks, and chunks, are read**, and the next chunk is awaited. -/
theorem reads_chunksRead {blocks : List Octets} (hp : p.Fresh) (h : HeadFits p.options line fields)
    (hblocks : ∀ b ∈ blocks, b.length < 16 ^ 16)
    (hfits : ∀ b ∈ blocks, Chunk.SizeFits p.options.limits.chunkLine b.length)
    (hdecide : Framing.decide line (p.options.noFields.appendAll fields) = .chunked)
    (hunread : p.unread =
      headOctets line fields ++ ((blocks.map Chunk.encode).flatten ++ rest)) :
    Reads p (.start line :: fields.map (.field .header) ++ (blocks.filter (· ≠ [])).map .body)
      (p.chunksRead line fields blocks rest) := by
  have hhead := reads_headEnded hp h hunread (congrArg Framing.Decision.body? hdecide)
  exact hhead.trans (reads_chunks hp.buffered rfl rfl hblocks hfits rfl)

/-- What has to fit of a chunked body. -/
structure ChunksFit (o : Options) (blocks : List Octets) (trailers : List Field) : Prop where
  lastLine : Chunk.SizeFits o.limits.chunkLine 0
  sizeLines : ∀ b ∈ blocks, Chunk.SizeFits o.limits.chunkLine b.length
  blocks : ∀ b ∈ blocks, b.length < 16 ^ 16
  soundTrailers : ∀ f ∈ trailers, f.Sound
  sizes : ∀ f ∈ trailers, f.size ≤ o.limits.headerLine
  count : trailers.length ≤ o.limits.headers.toNat

/-- A limit of sixteen octets has room for all size lines. -/
theorem chunksFit_of_le {o : Options} {blocks : List Octets} {trailers : List Field}
    (hlimit : 16 ≤ o.limits.chunkLine) (hblocks : ∀ b ∈ blocks, b.length < 16 ^ 16)
    (hsound : ∀ f ∈ trailers, f.Sound) (hsizes : ∀ f ∈ trailers, f.size ≤ o.limits.headerLine)
    (hcount : trailers.length ≤ o.limits.headers.toNat) : ChunksFit o blocks trailers where
  lastLine := Chunk.sizeFits_of_le (by decide) hlimit
  sizeLines := fun b hb => Chunk.sizeFits_of_le (hblocks b hb) hlimit
  blocks := hblocks
  soundTrailers := hsound
  sizes := hsizes
  count := hcount

/-- **A head that decides for chunks, with chunks and trailers**, is a message. -/
theorem delimited_chunked {o : Options} (h : HeadFits o line fields) {blocks : List Octets}
    {trailers : List Field} (hfit : ChunksFit o blocks trailers)
    (hdecide : Framing.decide line (o.noFields.appendAll fields) = .chunked) :
    Delimited o (headOctets line fields ++ chunkedOctets blocks trailers)
      (o.read line fields blocks.flatten trailers) (blocks.filter (· ≠ [])) := by
  rintro p rest hp rfl hunread
  have hallows : line.allowsBody = true :=
    Framing.allowsBody_of_body? (congrArg Framing.Decision.body? hdecide)
  -- all chunks but the last
  set last := Chunk.ascii "0" ++ lineEnd ++ (Fields.octetsOf trailers ++ (lineEnd ++ rest)) with hlast
  have hsplit : p.unread = headOctets line fields ++ ((blocks.map Chunk.encode).flatten ++ last) := by
    rw [hunread, hlast]
    simp [chunkedOctets]
  have hchunks := reads_chunksRead hp h hfit.blocks hfit.sizeLines hdecide hsplit
  set q := p.chunksRead line fields blocks last
  -- the last chunk, after which trailers are read as header fields are
  have hend := Advance.lastChunk (p := q) rfl rfl hp.buffered (Chunk.take_last hfit.lastLine _)
  set r : Parser :=
    { q with
      unread := Fields.octetsOf trailers ++ (lineEnd ++ rest), phase := .awaitTrailers } with hr
  have hcount : (r.draft.fields .trailer).fields.length + trailers.length ≤
      r.options.limits.headers.toNat := by
    show 0 + trailers.length ≤ p.options.limits.headers.toNat
    rw [Nat.zero_add]
    exact hfit.count
  have htrailers : Reads r (trailers.map (.field .trailer))
      (r.withFields .trailer trailers (lineEnd ++ rest)) :=
    reads_fields .trailer hfit.soundTrailers rfl rfl hfit.sizes rfl hcount
  have hmessage : (r.withFields .trailer trailers (lineEnd ++ rest)).message =
      .ok (p.options.read line fields blocks.flatten trailers) :=
    message_eq hp.buffered h.soundLine rfl rfl (Or.inr hallows)
  have hcomplete := Advance.trailersEnd (p := r.withFields .trailer trailers (lineEnd ++ rest)) rfl
    (Line.scan_lineEnd h.headerLine) hmessage
  have hreads := hchunks.trans (hend.reads.trans (htrailers.trans hcomplete.reads))
  rw [List.append_assoc] at hreads
  rw [eventsOf_read]
  exact ⟨_, hreads, rfl, rfl, rfl⟩

end Parser

end HttpCodec
