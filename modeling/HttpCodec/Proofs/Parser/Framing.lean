import HttpCodec.Proofs.Parser.Head
import HttpCodec.Proofs.Parser.Streaming

set_option autoImplicit false

/-! # Framing is decided and obeyed

What the names and the values on the lines of a head say decides, by the rules of framing, what the
empty line leads to; and where they declare a length, the body is as many octets as that, however
the input is cut, and a new parser reads what follows (`framing_of_head`).
-/

namespace HttpCodec

namespace Event

theorem outlines_head (line : StartLine) (fields : List Field) (es : List Event) :
    outlines (.start line :: fields.map (.field .header) ++ es) =
      .start line :: fields.map (.field .header) ++ outlines es := by
  have hfields : outlines (fields.map (.field .header)) = fields.map (.field .header) := by
    induction fields with
    | nil => rfl
    | cons f fields ih => exact congrArg (Event.field .header f :: ·) ih
  rw [outlines_append]
  exact congrArg (Event.start line :: · ++ outlines es) hfields

theorem deliveries_head (line : StartLine) (fields : List Field) (es : List Event) :
    deliveries [] (.start line :: fields.map (.field .header) ++ es) = deliveries [] es := by
  show deliveries [] (fields.map (.field .header) ++ es) = _
  induction fields with
  | nil => rfl
  | cons f fields ih => exact ih

/-- What one parser reports of the messages that another reports is determined. -/
theorem eq_of_delivered {xs ys zs : List (Octets × Message)} (hx : List.Forall₂ Delivered xs zs)
    (hy : List.Forall₂ Delivered ys zs) : xs = ys := by
  induction hx generalizing ys with
  | nil =>
      cases hy
      rfl
  | cons hx _ ih =>
      cases hy with
      | cons hy hys => rw [Prod.ext (hx.1.trans hy.1.symm) (hx.2.2.trans hy.2.2.symm), ih hys]

end Event

/-- Only a length that is decided has a length as its outcome. -/
theorem Framing.decide_of_outcome_length {line : StartLine} {headers : Fields} {n : Nat}
    (h : (decide line headers).outcome = some (.length n)) : decide line headers = .length n := by
  cases hdecide : decide line headers <;> rw [hdecide] at h <;> cases h
  rfl

/-- A line gives one field. -/
theorem FieldLine.eq_of_gives {lines : List Octets} {fields others : List Field}
    (h : List.Forall₂ Gives lines fields) (h' : List.Forall₂ Gives lines others) :
    fields = others := by
  induction h generalizing others with
  | nil =>
      cases h'
      rfl
  | @cons line f lines fields hf _ ih =>
      cases h' with
      | @cons _ g _ others hg hothers =>
          obtain ⟨name, value⟩ := f
          obtain ⟨name', value'⟩ := g
          obtain rfl : name = name' := hf.name.trans hg.name.symm
          obtain rfl : value = value' := hf.value.trans hg.value.symm
          rw [ih hothers]

namespace Parser

open Event (deliveries outlines Delivered)

variable {o : Options} {p r : Parser} {line : StartLine} {fields : List Field} {b rest : Octets}

/-! ## A body of declared length -/

/-- **After a head that declares a length, as many octets complete the message**, all of them and
no more. -/
theorem HeadRead.completes {head : Octets} {es : List Event} (h : HeadRead o line fields r)
    (hreads : Reads ((new o).supply head) es r) (h0 : 0 ≤ o.limits.headerLine)
    (hdecide : Framing.decide line (o.noFields.appendAll fields) = .length b.length) :
    ∃ q, Completes o (head ++ (lineEnd ++ b))
      (es ++ [.body b, .complete (o.read line fields (if o.streaming then [] else b) [])]) q ∧
      q.completed = 1 := by
  have hne : b ≠ [] := by
    have := Framing.ne_zero_of_decide hdecide
    simpa using this
  have hallows : line.allowsBody = true :=
    Framing.allowsBody_of_body? (congrArg Framing.Decision.body? hdecide)
  -- the head, and then the empty line
  have hhead := hreads.supply (by simp [h.phase]) (lineEnd ++ b)
  rw [supply_supply] at hhead
  have hframed := h.advance_framed h0 (by rw [hdecide]; rfl) b
  set q := (r.awaitBody .lengthKnown b.length).supply b
  have hoptions : q.options = o := h.options
  have hshows : q.Shows ⟨line, fields, [], []⟩ :=
    ⟨h.options ▸ h.shows.readable, h.shows.line, h.shows.headers, h.shows.trailers⟩
  have hbody : q.draft.body = [] := h.body
  have hremaining : q.draft.remaining = b.length := rfl
  have hunread : q.unread = b := by
    show r.unread ++ b = b
    rw [h.unread, List.nil_append]
  have hmissing : q.draft.remaining ≠ 0 := by simpa [hremaining] using hne
  have hsome : q.unread ≠ [] := by rwa [hunread]
  have hlen : q.draft.remaining ≤ q.unread.length := by rw [hremaining, hunread]
  -- all of the body has arrived
  obtain ⟨data, -, hdata, hevents, hmessage⟩ :=
    message_of_countedEnd hshows (by simp [hbody]) hallows hmissing hsome hlen
  rw [hbody, hremaining, hunread, List.nil_append, List.take_length] at hdata
  rw [hdata] at hevents hmessage
  have hend := Advance.countedEnd (p := q) rfl rfl hsome hlen hmessage
  have hmade : (Segment.withPayload ⟨line, fields, [], []⟩ b).message q.options =
      o.read line fields (if o.streaming then [] else b) [] := by
    rw [hoptions]
    simp [Segment.message, Segment.withPayload]
  rw [hevents, hmade] at hend
  have hall := hhead.trans (hframed.reads.trans hend.reads)
  refine ⟨q.afterCounted.rested, ⟨hall, rfl, ?_⟩, ?_⟩
  · show q.unread.drop q.draft.remaining = []
    rw [hremaining, hunread, List.drop_length]
  · show r.completed + 1 = 1
    rw [h.completed]

/-- A run that has read a head, a body of a certain length and nothing else of that message, and
then, as a new parser, the rest. -/
structure TakesBody (o : Options) (line : StartLine) (fields : List Field) (b rest : Octets)
    (r : Run) : Prop where
  uninterrupted : r.interruption = none
  /-- Without body data the events are those of the head, the completion and those of the rest. -/
  outlines : outlines r.events = .start line :: fields.map (.field .header) ++
    .complete (o.read line fields [] []) :: outlines ((new o).feed rest).events
  /-- The data that is reported of the body is the body. -/
  deliveries : deliveries [] r.events =
    (b, o.read line fields (if o.streaming then [] else b) []) ::
      deliveries [] ((new o).feed rest).events
  phase : r.parser.phase = if rest = [] then .done else ((new o).feed rest).parser.phase
  completed : r.parser.completed = 1 + ((new o).feed rest).parser.completed
  error : r.parser.error = ((new o).feed rest).parser.error
  /-- A parser that keeps bodies reports the body at once, and ends in the same state. -/
  exact : o.streaming = false →
    r.events = .start line :: fields.map (.field .header) ++
      (.body b :: .complete (o.read line fields b []) :: ((new o).feed rest).events) ∧
    (rest ≠ [] → r.parser = ((new o).feed rest).parser.ahead 1)

/-- What follows a complete message, if anything does, is read by a new parser. -/
theorem Completes.feed_later {data : Octets} {es : List Event} {q : Parser}
    (h : Completes o data es q) (hrest : ((new o).feed rest).interruption = none) :
    ((new o).feed (data ++ rest)).interruption = none ∧
      ((new o).feed (data ++ rest)).events = es ++ ((new o).feed rest).events ∧
      ((new o).feed (data ++ rest)).parser =
        if rest = [] then q else ((new o).feed rest).parser.ahead q.completed := by
  by_cases hnil : rest = []
  · subst hnil
    rw [feed_nil_new h.startLine_nonneg, List.append_nil, List.append_nil, h.feed_eq, if_pos rfl]
    exact ⟨rfl, rfl, rfl⟩
  · rw [h.feed_append hnil hrest, if_neg hnil]
    exact ⟨hrest, rfl, rfl⟩

/-- **A parser that keeps bodies takes a body of declared length**, however the input is cut. -/
theorem takesBody_of_completes {data : Octets} {q : Parser} (hs : o.streaming = false)
    (h : Completes o data (.start line :: fields.map (.field .header) ++
      [.body b, .complete (o.read line fields b [])]) q)
    (hdata : data ≠ []) (hcompleted : q.completed = 1)
    (hrest : ((new o).feed rest).interruption = none) {blocks : List Octets}
    (hblocks : blocks.flatten = data ++ rest) :
    TakesBody o line fields b rest ((new o).feedAll blocks) := by
  obtain ⟨hnone, hevents, hparser⟩ := h.feed_later hrest
  have hne : blocks ≠ [] := by
    rintro rfl
    simp [hdata] at hblocks
  have hfeed : (new o).feedAll blocks = (new o).feed (data ++ rest) := by
    rw [← hblocks] at hnone ⊢
    exact feedAll_eq_feed hs (hasFailed_new o) hne hnone
  rw [List.append_assoc] at hevents
  rw [hfeed]
  refine ⟨hnone, ?_, ?_, ?_, ?_, ?_, fun _ => ⟨hevents, fun hrest => ?_⟩⟩
  · rw [hevents, Event.outlines_head]
    rfl
  · rw [hevents, Event.deliveries_head, hs]
    rfl
  · rw [hparser]
    split_ifs
    · exact h.phase
    · rfl
  · rw [hparser]
    split_ifs with hnil
    · rw [hnil, feed_nil_new h.startLine_nonneg, hcompleted]
      rfl
    · rw [hcompleted]
      rfl
  · rw [hparser]
    split_ifs with hnil
    · rw [hnil, feed_nil_new h.startLine_nonneg, h.reads.error_eq]
      rfl
    · rfl
  · rw [hparser, if_neg hrest, hcompleted]

/-- Two new parsers, of which the first reports bodies as they arrive and the second keeps them. -/
theorem twin_new (hs : o.streaming = true) :
    Twin (new o) (new { o with streaming := false }) [] [] := by
  refine ⟨hs, ?_⟩
  show Place _ ((new o).buffered [] [] 0) [] []
  exact .head (.inl rfl) rfl

/-- **A parser that reports bodies as they arrive takes the same body.** -/
theorem takesBody_of_buffered (hs : o.streaming = true) {blocks : List Octets}
    (h : TakesBody { o with streaming := false } line fields b rest
      ((new { o with streaming := false }).feedAll blocks))
    (hrest : ((new { o with streaming := false }).feed rest).interruption = none) :
    TakesBody o line fields b rest ((new o).feedAll blocks) := by
  have hfar := (feedAll_matches (twin_new hs) blocks).equallyFar h.uninterrupted
  have hlater := (feed_matches (twin_new hs) rest).equallyFar hrest
  refine ⟨hfar.uninterrupted, ?_, ?_, ?_, ?_, ?_, fun hno => ?_⟩
  · rw [hfar.outlines, h.outlines, hlater.outlines]
    rfl
  · refine Event.eq_of_delivered hfar.deliveries ?_
    rw [h.deliveries, hs]
    exact .cons ⟨rfl, rfl, rfl⟩ hlater.deliveries
  · rw [hfar.phase, h.phase, hlater.phase]
  · rw [hfar.completed, h.completed, hlater.completed]
  · rw [hfar.error, h.error, hlater.error]
  · rw [hs] at hno
    cases hno

/-! ## Heads that are accepted -/

/-- A head that a new parser accepts: a start line and field lines after which it waits for more. -/
structure Accepts (o : Options) (start : Octets) (lines : List Octets) : Prop where
  proper : ∀ line ∈ start :: lines, Line.Proper line
  uninterrupted : ((new o).feed (Line.octetsOf (start :: lines))).interruption = none
  phase : ((new o).feed (Line.octetsOf (start :: lines))).parser.phase = .awaitHeaders

variable {start : Octets} {lines : List Octets}

/-- **A head that is accepted is read**: the start line, and each field line as the field that it
gives. -/
theorem Accepts.headRead (h : Accepts o start lines) :
    ∃ line fields, StartLine.read o.kind (Latin.decode start) = .ok line ∧
      List.Forall₂ FieldLine.Gives lines fields ∧
      Reads ((new o).supply (Line.octetsOf (start :: lines)))
        (.start line :: fields.map (.field .header))
        ((new o).feed (Line.octetsOf (start :: lines))).parser ∧
      ((new o).feed (Line.octetsOf (start :: lines))).events =
        .start line :: fields.map (.field .header) ∧
      HeadRead o line fields ((new o).feed (Line.octetsOf (start :: lines))).parser := by
  have hrun := feed_eq_run (hasFailed_new o) h.uninterrupted
  have hover : (run ((new o).supply (Line.octetsOf (start :: lines)))).isOver = false := by
    rw [← hrun, Run.isOver, h.uninterrupted, hasFailed, h.phase]
    rfl
  obtain ⟨hreads, hwait⟩ := reads_of_run hover (hasFailed_new o)
  rw [← hrun] at hreads hwait
  obtain ⟨line, fields, hread, hgives, hevents, hhead⟩ :=
    headRead_of_reads (h.proper start List.mem_cons_self)
      (fun line hline => h.proper line (List.mem_cons_of_mem start hline)) hreads h.phase hwait
  rw [hevents] at hreads
  exact ⟨line, fields, hread, hgives, hreads, hevents, hhead⟩

/-- Whether bodies are kept has no part in what heads are accepted. -/
theorem Accepts.buffered (h : Accepts o start lines) (hs : o.streaming = true) :
    Accepts { o with streaming := false } start lines := by
  have hmatches := feed_matches (twin_new hs) (Line.octetsOf (start :: lines))
  refine ⟨h.proper, hmatches.interruption.symm.trans h.uninterrupted, ?_⟩
  rw [← (hmatches.alike h.uninterrupted).phase, h.phase]

/-- A parser that keeps bodies takes a body of the length that a head declares. -/
theorem Accepts.takesBody (h : Accepts o start lines) (hs : o.streaming = false)
    (h0 : 0 ≤ o.limits.headerLine) (hread : StartLine.read o.kind (Latin.decode start) = .ok line)
    (hgives : List.Forall₂ FieldLine.Gives lines fields)
    (hdecide : Framing.decide line (o.noFields.appendAll fields) = .length b.length)
    (hrest : ((new o).feed rest).interruption = none) {blocks : List Octets}
    (hblocks : blocks.flatten = Line.octetsOf (start :: lines) ++ (lineEnd ++ b) ++ rest) :
    TakesBody o line fields b rest ((new o).feedAll blocks) := by
  obtain ⟨line', fields', hread', hgives', hreads, -, hhead⟩ := h.headRead
  obtain rfl : line' = line := by
    rw [hread] at hread'
    cases hread'
    rfl
  obtain rfl := FieldLine.eq_of_gives hgives' hgives
  obtain ⟨q, hcompletes, hcompleted⟩ := hhead.completes hreads h0 hdecide
  rw [hs] at hcompletes
  exact takesBody_of_completes hs hcompletes (by simp [lineEnd]) hcompleted hrest hblocks

/-- **Framing is decided and obeyed.** For every start line and field lines that a new parser
accepts, in whatever letter case, the rules of framing give one outcome for the values on the lines
of the two fields, as long as no length has too many digits, and the empty line, for which the limit
has room, leads to it. Where it is a length, the body is as many octets as that and a new parser
reads what follows, however the input is cut. -/
theorem framing_of_head (h : Accepts o start lines) (h0 : 0 ≤ o.limits.headerLine)
    (hshort : ∀ digits,
      Framing.Denotes (FieldLine.valuesOf lines FieldName.contentLength) digits →
        digits.length ≤ Decimal.maxDigits) :
    ∃ line fields, StartLine.read o.kind (Latin.decode start) = .ok line ∧
      List.Forall₂ FieldLine.Gives lines fields ∧
      ((new o).feed (Line.octetsOf (start :: lines))).events =
        .start line :: fields.map (.field .header) ∧
      (∃! x, Framing.Rule line (FieldLine.valuesOf lines FieldName.transferEncoding)
        (FieldLine.valuesOf lines FieldName.contentLength) x) ∧
      ∀ x, Framing.Rule line (FieldLine.valuesOf lines FieldName.transferEncoding)
          (FieldLine.valuesOf lines FieldName.contentLength) x →
        ((new o).feed (Line.octetsOf (start :: lines))).parser.Leads (o.read line fields [] []) x ∧
        ∀ b rest : Octets, x = .length b.length → ((new o).feed rest).interruption = none →
          ∀ blocks : List Octets,
            blocks.flatten = Line.octetsOf (start :: lines) ++ (lineEnd ++ b) ++ rest →
            TakesBody o line fields b rest ((new o).feedAll blocks) := by
  obtain ⟨line, fields, hread, hgives, hreads, hevents, hhead⟩ := h.headRead
  refine ⟨line, fields, hread, hgives, hevents, ?_, fun x hrule => ?_⟩
  · obtain ⟨x, hrule⟩ := Framing.exists_rule line
      (FieldLine.valuesOf lines FieldName.transferEncoding)
      (FieldLine.valuesOf lines FieldName.contentLength)
    refine ⟨x, hrule, fun y hother => ?_⟩
    have hx := hhead.outcome_eq hgives hshort hrule
    rw [hhead.outcome_eq hgives hshort hother] at hx
    exact Option.some.inj hx
  · have houtcome := hhead.outcome_eq hgives hshort hrule
    refine ⟨hhead.leads h0 houtcome, fun b rest hx hrest blocks hblocks => ?_⟩
    rw [hx] at houtcome
    have hdecide := Framing.decide_of_outcome_length houtcome
    cases hs : o.streaming with
    | false => exact h.takesBody hs h0 hread hgives hdecide hrest hblocks
    | true =>
        have hrest' : ((new { o with streaming := false }).feed rest).interruption = none :=
          (feed_matches (twin_new hs) rest).interruption.symm.trans hrest
        exact takesBody_of_buffered hs
          ((h.buffered hs).takesBody rfl h0 hread hgives hdecide hrest' hblocks) hrest'

/-- A request that declares its length twice, in a letter case of its own, cut within the name and
within the body by a parser that reports bodies as they arrive, and followed by another request. -/
theorem framing_of_head_counted :
    let o : Options := { streaming := true }
    let start := Chunk.ascii "POST /a HTTP/1.1"
    let lines := [Chunk.ascii "content-LENGTH:3 , 3", Chunk.ascii "A: b"]
    let rest := Chunk.ascii "GET /b HTTP/1.1\r\n\r\n"
    let data := Line.octetsOf (start :: lines) ++ (lineEnd ++ Chunk.ascii "abc") ++ rest
    let blocks := [data.take 24, (data.drop 24).take 25, data.drop 49]
    Accepts o start lines ∧ 0 ≤ o.limits.headerLine ∧
      ((new o).feed rest).interruption = none ∧ blocks.flatten = data ∧
      ∃ line fields, TakesBody o line fields (Chunk.ascii "abc") rest ((new o).feedAll blocks) := by
  intro o start lines rest data blocks
  have hproper : ∀ line ∈ start :: lines, Line.Proper line := by
    intro line hline
    have hall : ∀ l ∈ start :: lines, l ≠ [] ∧ CR ∉ l ∧ LF ∉ l := by decide +kernel
    exact ⟨(hall line hline).1, (hall line hline).2.1, (hall line hline).2.2⟩
  have haccepts : Accepts o start lines := ⟨hproper, by decide +kernel, by decide +kernel⟩
  have hrest : ((new o).feed rest).interruption = none := by decide +kernel
  have hblocks : blocks.flatten = data := by decide +kernel
  have hcodings : FieldLine.valuesOf lines FieldName.transferEncoding = [] := by decide +kernel
  have hlengths : FieldLine.valuesOf lines FieldName.contentLength = [("3 , 3" : Text)] := by
    decide +kernel
  have hdeclared : Framing.declaredLengths [("3 , 3" : Text)] = [("3" : Text), ("3" : Text)] := by
    decide +kernel
  have hdenotes : Framing.Denotes [("3 , 3" : Text)] "3" := by
    refine ⟨by rw [hdeclared]; decide, fun element helement => ?_, by decide,
      List.all_eq_true.mp (by decide)⟩
    rw [hdeclared] at helement
    simpa using helement
  have hshort : ∀ digits,
      Framing.Denotes (FieldLine.valuesOf lines FieldName.contentLength) digits →
      digits.length ≤ Decimal.maxDigits := by
    intro digits hdigits
    rw [hlengths] at hdigits
    rw [hdenotes.single digits hdigits.listed]
    decide
  obtain ⟨line, fields, hread, -, -, -, hrules⟩ := framing_of_head haccepts (by decide) hshort
  have hstart : StartLine.read o.kind (Latin.decode start) =
      .ok (.request ⟨"POST", "/a", [], .http11⟩) := by
    decide
  rw [hstart] at hread
  cases hread
  have hrule : Framing.Rule (.request ⟨"POST", "/a", [], .http11⟩)
      (FieldLine.valuesOf lines FieldName.transferEncoding)
      (FieldLine.valuesOf lines FieldName.contentLength) (.length (Framing.number "3")) := by
    rw [hcodings, hlengths]
    exact .length (by rintro ⟨l, hl, -⟩; cases hl) rfl (by simp) hdenotes (by decide)
  exact ⟨haccepts, by decide, hrest, hblocks, _, fields,
    (hrules _ hrule).2 _ rest (by decide) hrest blocks hblocks⟩

end Parser

end HttpCodec
