import HttpCodec.Proofs.Chunk.Decoder
import HttpCodec.Proofs.Field.Grammar
import HttpCodec.Proofs.Parser.Head
import HttpCodec.Proofs.Parser.Transcript

set_option autoImplicit false

/-! # A parser and a decoder in the same body

A parser that keeps bodies and a decoder read a chunked body and its trailers each in its own way.
`Abreast d p` says that they have come equally far. From there both wait, both find the framing
wrong, the parser refuses a trailer line, which a decoder does not look into, or both go on
(`Abreast.step`). So they part nowhere else (`Abreast.run`), and what one of them tells of the data
is what the other tells (`decoding_of_parsing`).
-/

namespace HttpCodec

/-! ## The message that is completed first -/

/-- The first message that events complete. -/
def Event.firstComplete? : List Event → Option Message
  | [] => none
  | .complete m :: _ => some m
  | _ :: es => firstComplete? es

theorem Event.firstComplete?_append {es : List Event} (h : firstComplete? es = none)
    (fs : List Event) : firstComplete? (es ++ fs) = firstComplete? fs := by
  induction es with
  | nil => rfl
  | cons e es ih =>
      cases e with
      | complete m => cases h
      | _ => exact ih h

namespace Parser

/-- The first message that a run completes, be it reported or kept back by an interruption. -/
def Run.firstComplete? (r : Run) : Option Message := Event.firstComplete? (r.events ++ r.lost)

variable {p q r : Parser} {d e : Chunk.Decoder} {es fs : List Event}

/-- What a parser that has read all it has been given completes first of a block. -/
theorem firstComplete?_feed (hp : p.hasFailed = false) (hunread : p.unread = []) (block : Octets) :
    (p.feed block).firstComplete? = Event.firstComplete? (run (p.leave block)).events := by
  have hsupply : p.supply block = p.leave block := by
    simp [supply, leave, hunread]
  rw [Parser.feed_eq hp, hsupply, Run.firstComplete?, Run.settle]
  split_ifs
  · rw [List.nil_append]
  · rw [lost_run, List.append_nil]

/-! ## Reading a part of a message -/

/-- The parser reads `front`, whatever follows it, and completes no message with it. -/
structure Passes (p : Parser) (front : Octets) (es : List Event) (q : Parser) : Prop where
  reads : ∀ more, Reads (p.leave (front ++ more)) es (q.leave more)
  quiet : Event.firstComplete? es = none
  completed : q.completed = p.completed

theorem Passes.refl (p : Parser) : Passes p [] [] p :=
  ⟨fun more => .refl (p.leave more), rfl, rfl⟩

theorem Passes.trans {front back : Octets} (h : Passes p front es q) (h' : Passes q back fs r) :
    Passes p (front ++ back) (es ++ fs) r := by
  refine ⟨fun more => ?_, ?_, h'.completed.trans h.completed⟩
  · rw [List.append_assoc]
    exact (h.reads (back ++ more)).trans (h'.reads more)
  · rw [Event.firstComplete?_append h.quiet, h'.quiet]

/-! ## Equally far -/

/-- A parser in a chunked body or its trailers and a decoder that have read the same. -/
structure Abreast (d : Chunk.Decoder) (p : Parser) : Prop where
  buffered : p.options.streaming = false
  chunkLine : p.options.limits.chunkLine = d.limit
  headerLine : p.options.limits.headerLine = d.limit
  limit : 0 ≤ d.limit
  running : d.isDone = false
  place : d.isLast = false ∧ p.phase = .awaitBody ∧ p.draft.framing = some .chunked ∨
    d.isLast = true ∧ p.phase = .awaitTrailers
  trailers : List.Forall₂ FieldLine.Gives d.trailers p.draft.trailers.fields
  writable : ∃ line, p.draft.line = some line ∧ line.Sound ∧ line.allowsBody = true

/-- Where the parser, or both, go no further together. The decoder has in its buffer what the
parser has left to read. -/
inductive Parts (d : Chunk.Decoder) (p : Parser) : Prop where
  /-- Both wait. -/
  | waits (hd : d.step = .wait) (hp : (p.leave d.buffer).step = .wait)
  /-- Both find an error. -/
  | fails {q : Parser} {cause : ParseError} (hd : d.step = .invalid)
      (hp : (p.leave d.buffer).step = .reject [] q cause)
  /-- The parser finds an error in a trailer line. -/
  | refuses {q : Parser} {cause : ParseError} (hphase : p.phase = .awaitTrailers)
      (htype : cause.type = .badHeader ∨ cause.type = .oversizedHeader)
      (hp : (p.leave d.buffer).step = .reject [] q cause)
  /-- The empty line ends the body. -/
  | ends {rest : Octets} (hlast : d.isLast = true) (hphase : p.phase = .awaitTrailers)
      (hscan : Line.scan d.buffer d.limit = .ok (some ([], rest)))

/-- Both have gone on: the parser has read what the decoder has read, and has kept the data that the
decoder gave out. -/
structure Keeps (d : Chunk.Decoder) (p : Parser) (data : Octets) (e : Chunk.Decoder)
    (q : Parser) : Prop where
  abreast : Abreast e q
  body : q.draft.body = p.draft.body ++ data
  passes : ∃ front es, d.buffer = front ++ e.buffer ∧ Passes p front es q

theorem Abreast.keeps (h : Abreast d p) : Keeps d p [] d p :=
  ⟨h, (List.append_nil _).symm, [], [], rfl, .refl p⟩

theorem Keeps.trans {c : Chunk.Decoder} {data more : Octets} (h : Keeps c p data d q)
    (h' : Keeps d q more e r) : Keeps c p (data ++ more) e r := by
  obtain ⟨front, es, hfront, hpasses⟩ := h.passes
  obtain ⟨back, fs, hback, hpasses'⟩ := h'.passes
  refine ⟨h'.abreast, ?_, front ++ back, es ++ fs, ?_, hpasses.trans hpasses'⟩
  · rw [h'.body, h.body, List.append_assoc]
  · rw [hfront, hback, List.append_assoc]

namespace Abreast

/-- In the chunks both read a chunk, or neither does. -/
theorem step_of_chunks (h : Abreast d p) (hlast : d.isLast = false) (hphase : p.phase = .awaitBody)
    (hframing : p.draft.framing = some .chunked) :
    Parts d p ∨ ∃ payload e q, d.step = .next payload e ∧ Keeps d p payload e q := by
  have hchunk : (p.leave d.buffer).step = (p.leave d.buffer).readChunk :=
    step_of_readChunk hphase hframing h.buffered
  unfold readChunk at hchunk
  simp only [leave, h.chunkLine] at hchunk
  rcases htake : Chunk.take d.buffer d.limit with cause | _ | ⟨payload, rest⟩
  · refine .inl (.fails ?_ (by rw [leave, hchunk, htake]))
    rw [Chunk.Decoder.step_of_chunks h.running hlast, htake]
  · refine .inl (.waits ?_ (by rw [leave, hchunk, htake]))
    rw [Chunk.Decoder.step_of_chunks h.running hlast, htake]
  · right
    obtain ⟨front, hfront, htakes⟩ := Chunk.exists_front_of_take htake
    rw [← h.chunkLine] at htakes
    by_cases hempty : payload = []
    · subst hempty
      have hgoes : Passes p front [] { p with phase := .awaitTrailers } :=
        ⟨fun more => (Advance.lastChunk (p := p.leave (front ++ more)) hphase hframing h.buffered
          (htakes more)).reads, rfl, rfl⟩
      refine ⟨[], _, { p with phase := .awaitTrailers },
        Chunk.Decoder.step_of_lastChunk h.running hlast htake, ?_, (List.append_nil _).symm,
        front, [], hfront, hgoes⟩
      exact ⟨h.buffered, h.chunkLine, h.headerLine, h.limit, h.running, .inr ⟨rfl, rfl⟩, h.trailers,
        h.writable⟩
    · have hgoes : Passes p front [.body payload]
          { p with draft := { p.draft with body := p.draft.body ++ payload } } :=
        ⟨fun more => (Advance.chunk (p := p.leave (front ++ more)) hphase hframing h.buffered
          (htakes more) hempty).reads, rfl, rfl⟩
      refine ⟨payload, _, _, Chunk.Decoder.step_of_chunk h.running hlast htake hempty, ?_, rfl,
        front, _, hfront, hgoes⟩
      exact ⟨h.buffered, h.chunkLine, h.headerLine, h.limit, h.running,
        .inl ⟨hlast, hphase, hframing⟩, h.trailers, h.writable⟩

/-- In the trailers both read a line, unless the parser does not accept it. -/
theorem step_of_trailers (h : Abreast d p) (hlast : d.isLast = true)
    (hphase : p.phase = .awaitTrailers) :
    Parts d p ∨ ∃ payload e q, d.step = .next payload e ∧ Keeps d p payload e q := by
  have htrailer : p.phase = phaseOf .trailer := hphase
  have hfield : (p.leave d.buffer).step = (p.leave d.buffer).readField .trailer :=
    step_of_readField .trailer hphase
  unfold readField withLine at hfield
  simp only [leave, h.headerLine] at hfield
  rcases hscan : Line.scan d.buffer d.limit with cause | _ | ⟨line, rest⟩
  · have hinvalid : d.step = .invalid := by
      rw [Chunk.Decoder.step_of_trailers h.running hlast, hscan]
    rw [hscan] at hfield
    cases cause with
    | tooLong n => exact .inl (.fails hinvalid hfield)
    | _ => exact .inl (.fails hinvalid hfield)
  · refine .inl (.waits ?_ (by rw [leave, hfield, hscan]))
    rw [Chunk.Decoder.step_of_trailers h.running hlast, hscan]
  · by_cases hempty : line = []
    · subst hempty
      exact .inl (.ends hlast hphase hscan)
    · obtain ⟨hfront, hCR, hLF, hlen⟩ := Line.data_eq_of_scan hscan
      simp only [hscan, List.isEmpty_iff, if_neg hempty] at hfield
      cases hf : fieldOf p.options.limits p.draft.trailers line with
      | error cause =>
          simp only [Draft.fields, hf] at hfield
          refine .inl (.refuses hphase ?_ hfield)
          rw [type_of_fieldOf hf]
          split_ifs
          · exact .inl rfl
          · exact .inr rfl
      | ok f =>
          right
          have hscans : ∀ more, Line.scan (line ++ lineEnd ++ more)
              p.options.limits.headerLine = .ok (some (line, more)) := by
            intro more
            rw [h.headerLine]
            exact Line.scan_line more hCR hLF hlen
          have hgoes : Passes p (line ++ lineEnd) [.field .trailer f]
              { p with draft := p.draft.setFields (p.draft.trailers.append f) .trailer } :=
            ⟨fun more => (Advance.field (p := p.leave (line ++ lineEnd ++ more)) htrailer
              (hscans more) hempty hf).reads, rfl, rfl⟩
          refine ⟨[], _, { p with
              draft := p.draft.setFields (p.draft.trailers.append f) .trailer },
            Chunk.Decoder.step_of_trailer h.running hlast hscan hempty, ?_,
            (List.append_nil _).symm, _, _, hfront, hgoes⟩
          have hgives := FieldLine.gives_of_fieldOf hf
          exact ⟨h.buffered, h.chunkLine, h.headerLine, h.limit, h.running, .inr ⟨hlast, hphase⟩,
            List.rel_append h.trailers (.cons hgives .nil), h.writable⟩

/-- In the trailers a parser that has nothing to read waits. -/
theorem step_of_nothing (h : Abreast d p) (hphase : p.phase = .awaitTrailers) :
    (p.leave []).step = .wait := by
  have hfield : (p.leave []).step = (p.leave []).readField .trailer :=
    step_of_readField .trailer hphase
  rw [hfield]
  unfold readField withLine
  simp only [leave, h.headerLine, Line.scan_nil h.limit]

/-- What is left to read has no part in how far they are. -/
theorem supply (h : Abreast d p) (more : Octets) : Abreast (d.supply more) p :=
  ⟨h.buffered, h.chunkLine, h.headerLine, h.limit, h.running, h.place, h.trailers, h.writable⟩

/-- **From where they are equally far both go on, or they part.** -/
theorem step (h : Abreast d p) :
    Parts d p ∨ ∃ payload e q, d.step = .next payload e ∧ Keeps d p payload e q := by
  rcases h.place with ⟨hlast, hphase, hframing⟩ | ⟨hlast, hphase⟩
  · exact h.step_of_chunks hlast hphase hframing
  · exact h.step_of_trailers hlast hphase

/-- **Both go on up to where they part.** -/
theorem run (h : Abreast d p) : ∃ data e q, Keeps d p data e q ∧ Parts e q ∧
    Chunk.Decoder.run d = (data ++ (Chunk.Decoder.run e).1, (Chunk.Decoder.run e).2) := by
  -- by induction on the run of the decoder, of which each step that goes on is one of the parser
  induction d using Chunk.Decoder.run.induct generalizing p with
  | case1 d hwait =>
      rcases h.step with hparts | ⟨payload, e, q, hstep, -⟩
      · exact ⟨[], d, p, h.keeps, hparts, rfl⟩
      · rw [hwait] at hstep
        cases hstep
  | case2 d hinvalid =>
      rcases h.step with hparts | ⟨payload, e, q, hstep, -⟩
      · exact ⟨[], d, p, h.keeps, hparts, rfl⟩
      · rw [hinvalid] at hstep
        cases hstep
  | case3 d payload e hnext later last valid hrun ih =>
      rcases h.step with hparts | ⟨payload', e', q, hstep, hkeeps⟩
      · exact ⟨[], d, p, h.keeps, hparts, rfl⟩
      · rw [hnext] at hstep
        cases hstep
        obtain ⟨data, e'', r, hkeeps', hparts, hrest⟩ := ih hkeeps.abreast
        refine ⟨payload ++ data, e'', r, hkeeps.trans hkeeps', hparts, ?_⟩
        rw [Chunk.Decoder.run_of_next hnext, hrest, List.append_assoc]

end Abreast

/-! ## What the parser does with a block -/

/-- The parser fails before it has completed a message. -/
structure Fails (p : Parser) (block : Octets) (cause : ParseError) : Prop where
  phase : (p.feed block).parser.phase = .failed
  error : (p.feed block).parser.error = some cause
  incomplete : (p.feed block).firstComplete? = none

/-- The parser comes to the trailers of its message and fails there, with an error of a header. -/
def FailsInTrailers (p : Parser) (block : Octets) : Prop :=
  ∃ cause front back, Fails p block cause ∧
    (cause.type = .badHeader ∨ cause.type = .oversizedHeader) ∧ block = front ++ back ∧
    (p.feed front).parser.phase = .awaitTrailers ∧ (p.feed front).firstComplete? = none

/-- The parser waits for more of its message. -/
structure Waits (p : Parser) (block : Octets) : Prop where
  phase : (p.feed block).parser.phase = .awaitBody ∨ (p.feed block).parser.phase = .awaitTrailers
  interruption : (p.feed block).interruption = none
  incomplete : (p.feed block).firstComplete? = none

/-- The block is the rest of the message `m`. -/
structure Finishes (p : Parser) (block : Octets) (m : Message) : Prop where
  phase : (p.feed block).parser.phase = .done
  unread : (p.feed block).parser.unread = []
  complete : (p.feed block).firstComplete? = some m

section Blocks

variable {front back : Octets}

/-- A block of which the parser has read a part is read from there. -/
theorem Passes.feed_eq (h : Passes p front es q) (hp : p.hasFailed = false)
    (hunread : p.unread = []) :
    p.feed (front ++ back) = ((Parser.run (q.leave back)).after es).settle := by
  have hsupply : p.supply (front ++ back) = p.leave (front ++ back) := by
    simp [supply, leave, hunread]
  rw [Parser.feed_eq hp, hsupply, (h.reads back).run_eq]

theorem Passes.firstComplete?_eq (h : Passes p front es q) (hp : p.hasFailed = false)
    (hunread : p.unread = []) :
    (p.feed (front ++ back)).firstComplete? =
      Event.firstComplete? (Parser.run (q.leave back)).events := by
  rw [firstComplete?_feed hp hunread, (h.reads back).run_eq]
  exact Event.firstComplete?_append h.quiet _

theorem Passes.feed_of_wait (h : Passes p front es q) (hp : p.hasFailed = false)
    (hunread : p.unread = []) (hwait : (q.leave back).step = .wait) :
    p.feed (front ++ back) = { parser := q.leave back, events := es } ∧
      (p.feed (front ++ back)).firstComplete? = none := by
  rw [h.firstComplete?_eq hp hunread, h.feed_eq hp hunread, Parser.run_eq, hwait]
  refine ⟨?_, rfl⟩
  rw [settle_of_none rfl, Run.after, List.append_nil]

theorem Passes.fails (h : Passes p front es q) (hp : p.hasFailed = false) (hunread : p.unread = [])
    {cause : ParseError} (hreject : (q.leave back).step = .reject [] r cause) :
    Fails p (front ++ back) cause := by
  have hfeed : p.feed (front ++ back) = _ := h.feed_eq hp hunread
  rw [Parser.run_eq, hreject, settle_of_none rfl] at hfeed
  refine ⟨by rw [hfeed]; rfl, by rw [hfeed]; rfl, ?_⟩
  rw [h.firstComplete?_eq hp hunread, Parser.run_eq, hreject]
  rfl

end Blocks

/-! ## Agreement -/

/-- What a parser makes of a block and what a decoder gives for it tell the same. -/
structure Agreement (p : Parser) (block : Octets) (given : Chunk.Decoded) (d : Chunk.Decoder) :
    Prop where
  /-- A message that the parser completes has the body that the decoder gives, and its trailers are
  what the decoder's lines give. The decoder holds what follows the message. -/
  complete : ∀ m, (p.feed block).firstComplete? = some m →
    given = .ofOctets m.body ∧ d.isDone = true ∧
      List.Forall₂ FieldLine.Gives d.trailers m.trailers.fields ∧
      ∃ front, block = front ++ d.buffer ∧ Finishes p front m
  done : d.isDone = true →
    (∃ m, (p.feed block).firstComplete? = some m ∧ given = .ofOctets m.body) ∨
      FailsInTrailers p block
  invalid : given = .invalid → ∃ cause, Fails p block cause
  unfinished : given ≠ .invalid → d.isDone = false → Waits p block ∨ FailsInTrailers p block

section Agreement

variable {b data : Octets} {given : Chunk.Decoded}

/-- A parser that fails in the trailers agrees with every decoder. -/
theorem agreement_of_failsInTrailers (h : FailsInTrailers p b) : Agreement p b given d := by
  have ⟨cause, _, _, hfails, _⟩ := h
  refine ⟨fun m hm => ?_, fun _ => .inr h, fun _ => ⟨cause, hfails⟩, fun _ _ => .inr h⟩
  rw [hfails.incomplete] at hm
  cases hm

/-- A parser that fails agrees with a decoder that finds the framing wrong. -/
theorem agreement_of_fails {cause : ParseError} (h : Fails p b cause) (hd : d.isDone = false) :
    Agreement p b .invalid d := by
  refine ⟨fun m hm => ?_, fun hdone => ?_, fun _ => ⟨cause, h⟩, fun hvalid => absurd rfl hvalid⟩
  · rw [h.incomplete] at hm
    cases hm
  · rw [hd] at hdone
    cases hdone

/-- A parser that waits agrees with a decoder that waits. -/
theorem agreement_of_waits (h : Waits p b) (hd : d.isDone = false) (hgiven : given ≠ .invalid) :
    Agreement p b given d := by
  refine ⟨fun m hm => ?_, fun hdone => ?_, fun hinvalid => absurd hinvalid hgiven,
    fun _ _ => .inl h⟩
  · rw [h.incomplete] at hm
    cases hm
  · rw [hd] at hdone
    cases hdone

/-- A parser that completes a message agrees with a decoder that gives its body. -/
theorem agreement_of_complete {m : Message} {front : Octets}
    (h : (p.feed b).firstComplete? = some m) (hd : d.isDone = true)
    (htrailers : List.Forall₂ FieldLine.Gives d.trailers m.trailers.fields)
    (hfront : b = front ++ d.buffer) (hfinishes : Finishes p front m) :
    Agreement p b (.ofOctets m.body) d := by
  refine ⟨fun n hn => ?_, fun _ => .inl ⟨m, h, rfl⟩, fun hinvalid => ?_, fun _ hnot => ?_⟩
  · rw [h] at hn
    cases hn
    exact ⟨rfl, hd, htrailers, front, hfront, hfinishes⟩
  · exact absurd hinvalid (Chunk.Decoded.ofOctets_ne_invalid _)
  · rw [hd] at hnot
    cases hnot

/-- The end of the body completes the message with the data and the trailers that have been
read. -/
theorem Keeps.agreement_of_ends {rest : Octets} (h : Keeps d p data e q)
    (hp : p.hasFailed = false) (hunread : p.unread = []) (hbody : p.draft.body = [])
    (hphase : q.phase = .awaitTrailers)
    (hscan : Line.scan e.buffer e.limit = .ok (some ([], rest))) :
    Agreement p d.buffer (.ofOctets data) { e with buffer := rest, isDone := true } := by
  obtain ⟨front, es, hfront, hpasses⟩ := h.passes
  obtain ⟨line, hline, hsound, hallows⟩ := h.abreast.writable
  have hdata : q.draft.body = data := by
    rw [h.body, hbody, List.nil_append]
  have hmessage : q.message = .ok ⟨line, q.draft.headers, data, q.draft.trailers⟩ :=
    message_eq h.abreast.buffered hsound hline hdata (.inr hallows)
  have hrest : e.buffer = lineEnd ++ rest := (Line.data_eq_of_scan hscan).1
  have hlimit : 0 ≤ q.options.limits.headerLine := by
    rw [h.abreast.headerLine]
    exact h.abreast.limit
  -- the empty line is read in the same way whatever follows it
  have hstep : ∀ more, (q.leave (lineEnd ++ more)).step =
      .next [.complete ⟨line, q.draft.headers, data, q.draft.trailers⟩] (q.leave more).rested :=
    fun more => step_of_advance (.trailersEnd (p := q.leave (lineEnd ++ more)) hphase
      (Line.scan_lineEnd hlimit) hmessage)
  have hcomplete : ∀ more, (p.feed (front ++ (lineEnd ++ more))).firstComplete? =
      some ⟨line, q.draft.headers, data, q.draft.trailers⟩ := by
    intro more
    rw [hpasses.firstComplete?_eq hp hunread, Parser.run_eq, hstep]
    rfl
  have hfinishes : Finishes p (front ++ lineEnd) ⟨line, q.draft.headers, data, q.draft.trailers⟩ := by
    have hfeed : p.feed (front ++ lineEnd) = ((Parser.run (q.leave lineEnd)).after es).settle :=
      hpasses.feed_eq hp hunread
    have hlast : ((q.leave []).rested).step = .wait := by
      rw [step_of_done rfl]
      rfl
    have hstep' := hstep []
    rw [List.append_nil] at hstep'
    rw [Parser.run_eq, hstep'] at hfeed
    simp only [Parser.run_eq, hlast] at hfeed
    rw [settle_of_none rfl] at hfeed
    refine ⟨by rw [hfeed]; rfl, by rw [hfeed]; rfl, ?_⟩
    have := hcomplete []
    rwa [List.append_nil] at this
  rw [hfront, hrest]
  refine agreement_of_complete (hcomplete rest) rfl h.abreast.trailers ?_ hfinishes
  rw [List.append_assoc]

/-- **A parser and a decoder that are equally far agree on what follows.** -/
theorem Abreast.agreement (h : Abreast d p) (hp : p.hasFailed = false) (hunread : p.unread = [])
    (hbody : p.draft.body = []) (hbuffer : d.buffer = []) :
    Agreement p b (d.feed b).1 (d.feed b).2 := by
  have hsupplied : Abreast (d.supply b) p := h.supply b
  obtain ⟨data, e, q, hkeeps, hparts, hrun⟩ := hsupplied.run
  have hb : (d.supply b).buffer = b := by
    rw [Chunk.Decoder.supply_buffer, hbuffer, List.nil_append]
  obtain ⟨front, es, hfront, hpasses⟩ := hkeeps.passes
  rw [hb] at hfront
  have hdone : e.isDone = false := hkeeps.abreast.running
  rw [Chunk.Decoder.feed_eq h.running, hrun]
  cases hparts with
  | waits hd hq =>
      obtain ⟨hfeed, hincomplete⟩ := hpasses.feed_of_wait hp hunread hq
      rw [Chunk.Decoder.run_of_wait hd, List.append_nil]
      refine agreement_of_waits ?_ hdone (Chunk.Decoded.ofOctets_ne_invalid data)
      rw [← hfront] at hfeed hincomplete
      refine ⟨?_, by rw [hfeed], hincomplete⟩
      rw [hfeed]
      exact hkeeps.abreast.place.imp (fun hplace => hplace.2.1) fun hplace => hplace.2
  | fails hd hq =>
      rw [Chunk.Decoder.run_eq e, hd]
      have hfails := hpasses.fails hp hunread hq
      rw [← hfront] at hfails
      exact agreement_of_fails hfails hdone
  | refuses hphase htype hq =>
      have hwait := hkeeps.abreast.step_of_nothing hphase
      obtain ⟨hfeed, hincomplete⟩ := hpasses.feed_of_wait hp hunread hwait
      rw [List.append_nil] at hfeed hincomplete
      have hfails := hpasses.fails hp hunread hq
      rw [← hfront] at hfails
      refine agreement_of_failsInTrailers ⟨_, front, e.buffer, hfails, htype, hfront, ?_, hincomplete⟩
      rw [hfeed]
      exact hphase
  | ends hlast hphase hscan =>
      rw [Chunk.Decoder.run_of_next (Chunk.Decoder.step_of_end hdone hlast hscan),
        Chunk.Decoder.run_of_wait (Chunk.Decoder.step_of_done rfl), List.append_nil, List.append_nil]
      have := hkeeps.agreement_of_ends hp hunread hbody hphase hscan
      rwa [hb] at this

end Agreement

/-- A parser that has read a head which announces a chunked body, and nothing after it. -/
structure BeforeChunks (p : Parser) : Prop where
  phase : p.phase = .awaitBody
  framing : p.draft.framing = some .chunked
  body : p.draft.body = []
  unread : p.unread = []

/-- After the head a parser is as far as a new decoder. -/
theorem Account.abreast {o : Options} (h : Account o p es) (hp : BeforeChunks p)
    (hs : o.streaming = false) {limit : Int} (hchunk : o.limits.chunkLine = limit)
    (hheader : o.limits.headerLine = limit) : Abreast { limit := limit } p := by
  cases h with
  | resting _ hrest =>
      rcases hrest with ⟨hstart, -⟩ | hdone
      · simp [hp.phase] at hstart
      · simp [hp.phase] at hdone
  | failed _ _ hfailed => simp [hp.phase] at hfailed
  | within hpast hwithin =>
      obtain rfl := hpast.options
      cases hwithin with
      | head hother | trailers hother => simp [hp.phase] at hother
      | counted _ _ _ _ hother | rest _ _ _ _ hother => simp [hp.framing] at hother
      | chunked _ hshows hlimit htrailers _ _ hdecide =>
          have hallows := Framing.allowsBody_of_body? (congrArg Framing.Decision.body? hdecide)
          have hnone : p.draft.trailers.fields = [] := by
            rw [hshows.trailers, htrailers]
            rfl
          refine ⟨hs, hchunk, hheader, by rw [← hheader]; exact hlimit, rfl,
            .inl ⟨rfl, hp.phase, hp.framing⟩, ?_, _, hshows.line, hshows.readable.line, hallows⟩
          rw [hnone]
          exact .nil

/-- **A parser that keeps bodies and a decoder agree on every chunked body**, complete, cut off or
malformed, and on what follows it, if both allow lines of the same length. -/
theorem decoding_of_parsing {o : Options} {cs : List Call} {limit : Int} (b : Octets)
    (hs : o.streaming = false) (hchunk : o.limits.chunkLine = limit)
    (hheader : o.limits.headerLine = limit) (hcs : ((new o).serve cs).interruption = none)
    (hhead : BeforeChunks ((new o).serve cs).parser) :
    let (given, d) := Chunk.Decoder.feed { limit := limit } b
    Agreement ((new o).serve cs).parser b given d := by
  have habreast := ((account_new o).serve hcs).abreast hhead hs hchunk hheader
  have hfailed : ((new o).serve cs).parser.hasFailed = false := by
    simp [hasFailed, hhead.phase]
  exact habreast.agreement hfailed hhead.unread hhead.body rfl

/-- A body with a trailer and the start of a response after it, fed to a parser that has read a
response and the head of another. -/
theorem decoding_of_parsing_pipelined :
    let o : Options := { limits := { chunkLine := 32, headerLine := 32 } }
    let x := Chunk.ascii "HTTP/1.1 204\r\n\r\nHTTP/1.1 200\r\nTransfer-Encoding:"
    let y := Chunk.ascii "chunked\r\n\r\n"
    let b := Chunk.ascii "3;x\r\nabc\r\n0\r\na:  b \r\n\r\nHTTP"
    let p := ((new o).serve [.feed x, .feed y]).parser
    let (given, d) := Chunk.Decoder.feed { limit := 32 } b
    BeforeChunks p ∧ Agreement p b given d ∧ given = .data (Chunk.ascii "abc") ∧
      d.trailers = [Chunk.ascii "a:  b "] ∧ d.buffer = Chunk.ascii "HTTP" := by
  intro o x y b p
  have hcs : ((new o).serve [.feed x, .feed y]).interruption = none := by decide +kernel
  have hhead : BeforeChunks p :=
    ⟨by decide +kernel, by decide +kernel, by decide +kernel, by decide +kernel⟩
  exact ⟨hhead, decoding_of_parsing b rfl rfl rfl hcs hhead, by decide +kernel, by decide +kernel,
    by decide +kernel⟩

end Parser

end HttpCodec
