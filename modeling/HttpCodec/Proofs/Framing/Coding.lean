import HttpCodec.Proofs.Message.Wire
import HttpCodec.Proofs.Parser.Complete
import HttpCodec.Proofs.TransferCoding

set_option autoImplicit false

/-! # What is framed in chunks

The last `Transfer-Encoding` value decides alone whether a body is framed in chunks, for whoever
reads a message and for whoever writes it. The main statement is `framing_of_coding`: a body is
framed in chunks exactly if that value names the coding with all blanks of Latin-1 trimmed, the
message can have a body, and no length is declared. That is more than the values that name the
coding between tabs and spaces, which are all that may surround a field value
(`chunked_beside_noBreakSpace`).
-/

namespace HttpCodec

open TransferCoding (Names NamesWidely isWideBlank lastElement)

/-- The last value that declares a coding names the chunked one, with all blanks of Latin-1
trimmed. -/
def Fields.DeclaresChunked (fs : Fields) : Prop :=
  ∃ value ∈ (fs.getAll FieldName.transferEncoding).getLast?, NamesWidely value

/-- **Values in a list that was filled are trimmed and plain.** -/
theorem Fields.Sound.of_mem_getAll {fs : Fields} (h : fs.Sound) {name value : Text}
    (hvalue : value ∈ fs.getAll name) :
    Trimmed CharClass.isSpaceOrTab value ∧ Latin.Plain value := by
  rw [h.indexed.getAll_eq] at hvalue
  obtain ⟨f, hf, rfl⟩ := List.mem_map.mp hvalue
  have hsound := h.fields f (List.mem_of_mem_filter hf)
  exact ⟨hsound.trimmed, hsound.plain⟩

/-- What is taken for chunked in a list that was filled. -/
theorem Fields.Sound.declaresChunked_iff {fs : Fields} (h : fs.Sound) :
    (∃ value, (fs.getAll FieldName.transferEncoding).getLast? = some value ∧
      TransferCoding.isChunked value = true) ↔ fs.DeclaresChunked := by
  constructor
  · rintro ⟨value, hlast, hchunked⟩
    have hplain := (h.of_mem_getAll (List.mem_of_getLast? hlast)).2
    exact ⟨value, hlast, (TransferCoding.isChunked_iff hplain).mp hchunked⟩
  · rintro ⟨value, hlast, hnames⟩
    have hplain := (h.of_mem_getAll (List.mem_of_getLast? hlast)).2
    exact ⟨value, hlast, (TransferCoding.isChunked_iff hplain).mpr hnames⟩

namespace Framing

variable {line : StartLine} {headers : Fields}

/-- Only a coding that is taken for chunked makes a head decide for chunks. -/
theorem decide_eq_chunked_iff :
    decide line headers = .chunked ↔
      line.allowsBody = true ∧ headers.getAll FieldName.contentLength = [] ∧
        ∃ value, (headers.getAll FieldName.transferEncoding).getLast? = some value ∧
          TransferCoding.isChunked value = true := by
  constructor
  · intro h
    have hallows : line.allowsBody = true :=
      allowsBody_of_decide (by rw [h]; nofun) (by rw [h]; nofun)
    cases hlast : (headers.getAll FieldName.transferEncoding).getLast? with
    | none =>
        -- without a coding there is a length or nothing to decide
        have hcodings := List.getLast?_eq_none_iff.mp hlast
        by_cases hlengths : headers.getAll FieldName.contentLength = []
        · rw [decide_of_nothing hallows hcodings hlengths, ofNothing.eq_def] at h
          split at h
          · cases h
          · split_ifs at h
        · rw [decide_of_lengths hallows hcodings hlengths, ofLengths_eq] at h
          split at h
          · cases h
          · split_ifs at h
    | some value =>
        have hcodings : headers.getAll FieldName.transferEncoding ≠ [] := by
          intro hnone
          rw [hnone] at hlast
          cases hlast
        have hlengths : headers.getAll FieldName.contentLength = [] := by
          by_contra hsome
          have hboth : decide line headers = .refused .bothDeclared := by
            simp [decide, hcodings, hsome]
          rw [hboth] at h
          cases h
        refine ⟨hallows, hlengths, value, rfl, ?_⟩
        by_contra hother
        rw [decide_of_coding hallows hlast hlengths, ofCoding.eq_def, if_neg hother] at h
        split at h <;> cases h
  · rintro ⟨hallows, hlengths, value, hlast, hchunked⟩
    rw [decide_of_coding hallows hlast hlengths, ofCoding.eq_def, if_pos hchunked]

end Framing

namespace Parser

variable {o : Options} {p : Parser} {s : Segment}

/-- The parser is in a body in chunks, or in the trailers after one. -/
def InChunks (p : Parser) : Prop :=
  p.phase = .awaitBody ∧ p.draft.framing = some .chunked ∨ p.phase = .awaitTrailers

instance : DecidablePred InChunks := fun _ => instDecidableOr

theorem Shows.decision_eq (h : p.Shows s) :
    s.decision p.options = Framing.decide s.line p.draft.headers := by
  rw [h.headers]
  rfl

/-- The fields in a draft can be written. -/
theorem Shows.sound_headers (h : p.Shows s) : p.draft.headers.Sound := by
  rw [h.headers]
  exact h.readable.headers.sound_appendAll

/-- **Within a body a parser is in chunks if the head of the message decides so.** -/
theorem Within.inChunks_iff (h : Within p s)
    (hphase : p.phase = .awaitBody ∨ p.phase = .awaitTrailers) :
    p.InChunks ↔ s.decision p.options = .chunked := by
  unfold InChunks
  cases h with
  | head hother => simp [hother] at hphase
  | counted hbody _ _ _ hframing _ hdecide => simp [hbody, hframing, hdecide]
  | chunked hbody _ _ _ hframing _ hdecide => simp [hbody, hframing, hdecide]
  | rest hbody _ _ _ hframing _ hdecide => simp [hbody, hframing, hdecide]
  | trailers htrailers _ _ _ hdecide => simp [htrailers, hdecide]

/-- The empty line after a head leads into chunks if the head decides so. -/
theorem step_eq_awaitChunks_iff {line : StartLine} {rest : Octets}
    (hphase : p.phase = .awaitHeaders) (hline : p.draft.line = some line)
    (hscan : Line.scan p.unread p.options.limits.headerLine = .ok (some ([], rest))) :
    p.step = .next [] ((p.leave rest).awaitBody .chunked 0) ↔
      Framing.decide line p.draft.headers = .chunked := by
  have hend : p.step = (p.leave rest).endHeaders := by
    rw [step_of_readField .header hphase, readField_of_scan_nil hscan]
    rfl
  have hdraft : (p.leave rest).draft = p.draft := rfl
  rw [hend, endHeaders, hdraft, hline]
  simp only
  cases Framing.decide line p.draft.headers with
  | empty =>
      simp only [reduceCtorEq, iff_false]
      intro hfinish
      -- the message would be complete, which chunks do not begin with
      have hdone := (finish_eq_next hfinish).2
      cases hdone
  | length n => simp [awaitBody]
  | chunked => simp
  | untilClose => simp [awaitBody]
  | refused cause => simp
  | unreadable cause => simp

end Parser

/-- **What is framed in chunks.** Take fields of any list that was filled, which is sound
(`Fields.Filled.sound`), and a parser in any state that it can come to. A head with the fields
decides for chunks, a message with them declares a body in chunks, the empty line after a head leads
a parser into chunks, and a parser in a body is in chunks, exactly if the last value that declares a
coding names the chunked one with all blanks trimmed (where a body is allowed and no length is
declared, as far as the head decides). So do all values that name it between tabs and spaces, and of
the others only those that have a blank beyond ASCII at an end of their last element. -/
theorem framing_of_coding {headers : Fields} (hheaders : headers.Sound) (line : StartLine)
    {m : Message} (hm : m.headers = headers) {o : Parser.Options} {p : Parser}
    (hp : Parser.Reached o p) :
    (Framing.decide line headers = .chunked ↔
      line.allowsBody = true ∧ headers.getAll FieldName.contentLength = [] ∧
        headers.DeclaresChunked) ∧
    (m.declaresChunked = true ↔ headers.DeclaresChunked) ∧
    (∀ start rest, p.phase = .awaitHeaders → p.draft.line = some start →
      Line.scan p.unread p.options.limits.headerLine = .ok (some ([], rest)) →
      (p.step = .next [] ((p.leave rest).awaitBody .chunked 0) ↔
        start.allowsBody = true ∧ p.draft.headers.getAll FieldName.contentLength = [] ∧
          p.draft.headers.DeclaresChunked)) ∧
    (p.phase = .awaitBody ∨ p.phase = .awaitTrailers →
      (p.InChunks ↔ p.draft.headers.getAll FieldName.contentLength = [] ∧
        p.draft.headers.DeclaresChunked)) ∧
    ∀ value, (Names value → NamesWidely value) ∧
      (NamesWidely value → Trimmed isWideBlank (lastElement value) → Names value) := by
  refine ⟨?_, ?_, ?_, ?_, fun value => ⟨Names.namesWidely, NamesWidely.names⟩⟩
  · rw [Framing.decide_eq_chunked_iff, hheaders.declaresChunked_iff]
  · rw [Message.declaresChunked_iff, hm, hheaders.declaresChunked_iff]
  · intro start rest hphase hline hscan
    obtain ⟨s, hwithin⟩ :=
      hp.exists_within (by simp [hphase]) (by simp [hphase]) (by simp [hphase])
    rw [Parser.step_eq_awaitChunks_iff hphase hline hscan, Framing.decide_eq_chunked_iff,
      hwithin.shows.sound_headers.declaresChunked_iff]
  · intro hphase
    obtain ⟨s, hwithin⟩ := hp.exists_within
      (by rcases hphase with h | h <;> simp [h]) (by rcases hphase with h | h <;> simp [h])
      (by rcases hphase with h | h <;> simp [h])
    have hallows := hwithin.allowsBody hphase
    rw [hwithin.inChunks_iff hphase, hwithin.shows.decision_eq, Framing.decide_eq_chunked_iff,
      hwithin.shows.sound_headers.declaresChunked_iff]
    exact and_iff_right hallows

/-- Two codings, the last of them in capitals between a tab and a space, in a list of fields and in
a head that a parser reads. -/
theorem framing_of_capitals :
    let value : Text := "gzip,\tCHUNKED"
    let line : StartLine := .request ⟨"POST", "/", [], .http11⟩
    let headers : Fields := Fields.append {} ⟨FieldName.transferEncoding, value⟩
    let head := Chunk.ascii "POST / HTTP/1.1\r\nTransfer-Encoding: gzip,\tCHUNKED \r\n\r\n"
    let p := ((Parser.new {}).feed head).parser
    headers.Filled ∧ Parser.Reached {} p ∧ Framing.decide line headers = .chunked ∧
      (⟨line, headers, [], {}⟩ : Message).declaresChunked = true ∧ p.InChunks := by
  intro value line headers head p
  have hempty : Fields.Filled {} := .empty true 8192
  have hadd : Fields.add {} "transfer-encoding" (.text "gzip,\tCHUNKED ") = .ok headers := rfl
  have hheaders : headers.Filled := .add hempty hadd
  have hp : Parser.Reached {} p := .feed .new head
  have hnames : NamesWidely value := by decide
  have hdeclares : headers.DeclaresChunked := ⟨value, by decide +kernel, hnames⟩
  have hparsed : p.draft.headers.DeclaresChunked := ⟨value, by decide +kernel, hnames⟩
  have hphase : p.phase = .awaitBody := by decide +kernel
  obtain ⟨hdecide, hmessage, -, hbody, -⟩ :=
    framing_of_coding hheaders.sound line (m := ⟨line, headers, [], {}⟩) rfl hp
  exact ⟨hheaders, hp, hdecide.mpr ⟨rfl, by decide +kernel, hdeclares⟩, hmessage.mpr hdeclares,
    (hbody (.inl hphase)).mpr ⟨by decide +kernel, hparsed⟩⟩

/-- A no-break space after the coding: no list of codings between tabs and spaces names the chunked
one, but the body is framed in chunks by a parser, and declared so by a message with the same
fields. -/
theorem chunked_beside_noBreakSpace :
    let value : Text := "chunked\u00a0"
    let head := Latin.octets "POST / HTTP/1.1\r\nTransfer-Encoding: chunked\u00a0\r\n\r\n"
    let p := ((Parser.new {}).feed head).parser
    ¬ Names value ∧ p.draft.headers.getAll FieldName.transferEncoding = [value] ∧ p.InChunks ∧
      (⟨.request ⟨"POST", "/", [], .http11⟩, p.draft.headers, [], {}⟩ : Message).declaresChunked =
        true := by
  intro value head p
  exact ⟨by decide, by decide +kernel, by decide +kernel, by decide +kernel⟩

end HttpCodec
