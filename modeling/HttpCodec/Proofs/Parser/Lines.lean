import HttpCodec.Proofs.Parser.Complete

set_option autoImplicit false

/-! # What a parser makes of a line

A parser that waits for a start line or a field line is given one, perhaps in several blocks and
perhaps with more behind it. It accepts the line, reports it and goes on (`GoesOn`), or refuses it,
reports the error and stops (`StopsAt`). Which of them it does depends on the grammar of the line
alone: `accepting_start_lines` and `accepting_field_lines`.
-/

namespace HttpCodec

namespace Parser

variable {o : Options} {p q r : Parser} {block line rest : Octets} {e : Event}
  {cause : ParseError}

/-- The parser behind a start line. -/
def started (p : Parser) (start : StartLine) (rest : Octets) : Parser :=
  { p with
    unread := rest, phase := .awaitHeaders, draft := { p.draft with line := some start } }

/-- The parser behind a field line. -/
def extended (p : Parser) (part : Part) (f : Field) (rest : Octets) : Parser :=
  { p with unread := rest, draft := p.draft.setFields ((p.draft.fields part).append f) part }

/-- Tells that a parser that is given a block reports an event first and goes on as another one. -/
def GoesOn (p : Parser) (block : Octets) (e : Event) (q : Parser) : Prop :=
  p.feed block = ((run q).after [e]).settle

/-- Tells that a parser that is given a block reports an error, and nothing else, and stops. -/
def StopsAt (p : Parser) (block : Octets) (cause : ParseError) : Prop :=
  p.feed block = { parser := p.fail cause, events := [.error cause] }

/-- Tells that a block brings a line: what has arrived begins with it and its end. The line is not
empty, holds no line end and is not too long. -/
structure Brings (p : Parser) (limit : Int) (block line rest : Octets) : Prop where
  arrived : p.unread ++ block = line ++ lineEnd ++ rest
  proper : Line.Proper line
  length : line.length ≤ limit

theorem Brings.scan {limit : Int} (h : p.Brings limit block line rest) :
    Line.scan (p.supply block).unread limit = .ok (some (line, rest)) := by
  rw [unread_supply, h.arrived]
  exact Line.scan_line rest h.proper.noCR h.proper.noLF h.length

/-- A line that comes alone. -/
theorem brings_line {limit : Int} (hunread : p.unread = []) (hproper : Line.Proper line)
    (hlength : line.length ≤ limit) : p.Brings limit (line ++ lineEnd) line [] :=
  ⟨by simp [hunread], hproper, hlength⟩

/-! ## A parser accepts or refuses -/

theorem goesOn_of_advance (hp : p.hasFailed = false) (h : Advance (p.supply block) [e] q) :
    p.GoesOn block e q := by
  unfold GoesOn
  rw [feed_eq hp, h.reads.run_eq]

theorem stopsAt_of_step (hp : p.hasFailed = false)
    (h : (p.supply block).step = .reject [] q cause) (hq : q.fail cause = p.fail cause) :
    p.StopsAt block cause := by
  unfold StopsAt
  rw [feed_eq hp, run_eq, h, ← hq]
  rfl

/-- The events of a run, those included that an interruption keeps from the caller. -/
def Run.found (r : Run) : List Event := r.lost ++ r.events

theorem GoesOn.found_eq (h : p.GoesOn block e q) :
    (p.feed block).found = e :: (run q).events := by
  have hlost : ((run q).after [e]).lost = [] := lost_run q
  have hevents : ((run q).after [e]).events = e :: (run q).events := rfl
  rw [h]
  unfold Run.found Run.settle
  split_ifs
  · rw [hevents, List.append_nil]
  · rw [hlost, hevents, List.nil_append]

/-- A parser reports one event first. -/
theorem GoesOn.unique {e' : Event} (h : p.GoesOn block e q) (h' : p.GoesOn block e' r) :
    e = e' := by
  have heq := h.found_eq.symm.trans h'.found_eq
  exact (List.cons.inj heq).1

theorem GoesOn.eq_error (h : p.GoesOn block e q) (h' : p.StopsAt block cause) :
    e = .error cause := by
  have heq := h.found_eq
  rw [h'] at heq
  exact (List.cons.inj heq).1.symm

theorem withLine_of_scan {limit : Int} {tooLong : Int → ParseError}
    {unended : Line.Error → ParseError} {go : Octets → Parser → Step}
    (h : Line.scan p.unread limit = .ok (some (line, rest))) :
    p.withLine limit tooLong unended go = go line (p.leave rest) := by
  unfold withLine
  rw [h]
  rfl

/-! ## Start lines -/

theorem step_of_refused_start {cause : StartLine.Error} (hphase : p.phase = .awaitStartLine)
    (hscan : Line.scan p.unread p.options.limits.startLine = .ok (some (line, rest)))
    (hne : line ≠ []) (hread : StartLine.read p.options.kind (Latin.decode line) = .error cause) :
    p.step = .reject [] (p.leave rest) (.startLine cause) := by
  simp only [step, hphase, readStartLine]
  rw [withLine_of_scan hscan]
  simp only [List.isEmpty_iff, if_neg hne, leave, hread]

theorem goesOn_of_read {start : StartLine} (hphase : p.phase = .awaitStartLine)
    (hline : p.Brings p.options.limits.startLine block line rest)
    (hread : StartLine.read p.options.kind (Latin.decode line) = .ok start) :
    p.GoesOn block (.start start) (p.started start rest) :=
  goesOn_of_advance (by simp [hasFailed, hphase])
    (.start hphase hline.scan hline.proper.nonempty hread)

theorem stopsAt_of_read {cause : StartLine.Error} (hphase : p.phase = .awaitStartLine)
    (hline : p.Brings p.options.limits.startLine block line rest)
    (hread : StartLine.read p.options.kind (Latin.decode line) = .error cause) :
    p.StopsAt block (.startLine cause) :=
  stopsAt_of_step (by simp [hasFailed, hphase])
    (step_of_refused_start hphase hline.scan hline.proper.nonempty hread) rfl

/-- A parser accepts the start line that is read off the line, and no other. -/
theorem goesOn_start_iff {start : StartLine} (hphase : p.phase = .awaitStartLine)
    (hline : p.Brings p.options.limits.startLine block line rest) :
    p.GoesOn block (.start start) (p.started start rest) ↔
      StartLine.read p.options.kind (Latin.decode line) = .ok start := by
  refine ⟨fun h => ?_, goesOn_of_read hphase hline⟩
  cases hread : StartLine.read p.options.kind (Latin.decode line) with
  | ok start' => rw [Event.start.inj (h.unique (goesOn_of_read hphase hline hread))]
  | error cause => cases h.eq_error (stopsAt_of_read hphase hline hread)

/-- **Start lines that a parser accepts.** Take a parser that waits for a start line, and a line
that is not empty, holds no line end and is not too long, whatever blocks it comes in and whatever
follows it. The parser accepts it as a start line exactly if the line spells one of the kind that
the parser expects, if it expects any. A line spells one start line at most, so a line that spells a
request spells no response. All other lines are refused as bad start lines. A start line that is
spelled makes a message with any fields, and with any body if one is allowed, and is written as it
was spelled but for a question mark without a query, which is dropped, and for the space after a
status without a reason, which is added. So no message is refused when it is complete. -/
theorem accepting_start_lines (hphase : p.phase = .awaitStartLine)
    (hline : p.Brings p.options.limits.startLine block line rest) :
    (∀ start : StartLine, p.GoesOn block (.start start) (p.started start rest) ↔
      (p.options.kind = none ∨ p.options.kind = some start.kind) ∧
        start.Spelled (Latin.decode line)) ∧
    (∀ start start' : StartLine, start.Spelled (Latin.decode line) →
      start'.Spelled (Latin.decode line) → start = start') ∧
    ((∀ start : StartLine, ¬ p.GoesOn block (.start start) (p.started start rest)) →
      ∃ cause, cause.type = .badStartLine ∧ p.StopsAt block cause) ∧
    (∀ start : StartLine, start.Spelled (Latin.decode line) → ∀ headers trailers body,
      body = [] ∨ start.allowsBody = true →
      ∃ m built, Message.ofStartLine start headers body trailers = .ok m ∧
        Latin.encode m.startLine = .ok (Latin.octets built ++ lineEnd) ∧
        start.Rewrites (Latin.decode line) built) ∧
    ∀ o q, Reached o q → ∀ (c : Call) (e : MessageError),
      .error (.unwritable e) ∉ (q.call c).events := by
  refine ⟨fun start => ?_, fun start start' => StartLine.Spelled.unique, fun hnone => ?_, ?_,
    fun o q hreached => hreached.writable⟩
  · rw [goesOn_start_iff hphase hline, StartLine.read_eq_ok_iff]
  · cases hread : StartLine.read p.options.kind (Latin.decode line) with
    | ok start => exact absurd (goesOn_of_read hphase hline hread) (hnone start)
    | error cause => exact ⟨_, rfl, stopsAt_of_read hphase hline hread⟩
  · intro start hspelled headers trailers body hbody
    have hsound := hspelled.sound fun _ => Latin.isLatin_of_mem_decode
    exact ⟨_, start.text, Message.ofStartLine_of_sound hsound headers trailers hbody,
      encode_startLine hsound, hspelled.rewrites⟩

/-- A request line with a question mark and nothing behind it, a status line without the space after
the status, and a request line without a path. -/
theorem accepting_start_lines_of_text :
    let p := new {}
    let line := fun t : Text => Latin.octets t ++ lineEnd
    let request := StartLine.request ⟨"GET", "/a", [], .http10⟩
    let response := StartLine.response ⟨.http11, 204, []⟩
    (p.phase = .awaitStartLine ∧
      ∀ t ∈ (["GET /a? HTTP/1.0", "HTTP/1.1 204", "GET ?a HTTP/1.1"] : List Text),
        p.Brings 8192 (line t) (Latin.octets t) []) ∧
    p.GoesOn (line "GET /a? HTTP/1.0") (.start request) (p.started request []) ∧
    p.GoesOn (line "HTTP/1.1 204") (.start response) (p.started response []) ∧
    ∃ cause, cause.type = .badStartLine ∧ p.StopsAt (line "GET ?a HTTP/1.1") cause := by
  intro p line request response
  have hproper : ∀ t ∈ (["GET /a? HTTP/1.0", "HTTP/1.1 204", "GET ?a HTTP/1.1"] : List Text),
      Latin.octets t ≠ [] ∧ CR ∉ Latin.octets t ∧ LF ∉ Latin.octets t ∧
        ((Latin.octets t).length : Int) ≤ 8192 := by decide +kernel
  have hbrings : ∀ t ∈ (["GET /a? HTTP/1.0", "HTTP/1.1 204", "GET ?a HTTP/1.1"] : List Text),
      p.Brings 8192 (line t) (Latin.octets t) [] := by
    intro t ht
    obtain ⟨hne, hCR, hLF, hlen⟩ := hproper t ht
    exact brings_line rfl ⟨hne, hCR, hLF⟩ hlen
  obtain ⟨hrequest, -⟩ := accepting_start_lines (p := p) rfl (hbrings _ (.head _))
  obtain ⟨hresponse, -⟩ := accepting_start_lines (p := p) rfl (hbrings _ (.tail _ (.head _)))
  obtain ⟨hnone, -, hrefused, -⟩ :=
    accepting_start_lines (p := p) rfl (hbrings _ (.tail _ (.tail _ (.head _))))
  refine ⟨⟨rfl, hbrings⟩, (hrequest _).mpr (StartLine.read_eq_ok_iff.mp (by decide +kernel)),
    (hresponse _).mpr (StartLine.read_eq_ok_iff.mp (by decide +kernel)), hrefused fun start h => ?_⟩
  -- nothing is read off the third line
  have hread := StartLine.read_eq_ok_iff.mpr ((hnone start).mp h)
  have herror : StartLine.read none (Latin.decode (Latin.octets "GET ?a HTTP/1.1")) =
      .error (.emptyPath "?a") := by decide +kernel
  cases herror.symm.trans hread

/-! ## Field lines -/

theorem step_of_refused_field {part : Part} (hphase : p.phase = phaseOf part)
    (hscan : Line.scan p.unread p.options.limits.headerLine = .ok (some (line, rest)))
    (hne : line ≠ [])
    (hfield : fieldOf p.options.limits (p.draft.fields part) line = .error cause) :
    p.step = .reject [] (p.leave rest) cause := by
  rw [step_of_readField part hphase, readField, withLine_of_scan hscan]
  simp only [List.isEmpty_iff, if_neg hne, leave, hfield]

theorem hasFailed_of_phaseOf {part : Part} (hphase : p.phase = phaseOf part) :
    p.hasFailed = false := by
  cases part <;> simp [hasFailed, hphase, phaseOf]

theorem goesOn_of_fieldOf {part : Part} {f : Field} (hphase : p.phase = phaseOf part)
    (hline : p.Brings p.options.limits.headerLine block line rest)
    (hfield : fieldOf p.options.limits (p.draft.fields part) line = .ok f) :
    p.GoesOn block (.field part f) (p.extended part f rest) :=
  goesOn_of_advance (hasFailed_of_phaseOf hphase)
    (.field hphase hline.scan hline.proper.nonempty hfield)

theorem stopsAt_of_fieldOf {part : Part} (hphase : p.phase = phaseOf part)
    (hline : p.Brings p.options.limits.headerLine block line rest)
    (hfield : fieldOf p.options.limits (p.draft.fields part) line = .error cause) :
    p.StopsAt block cause :=
  stopsAt_of_step (hasFailed_of_phaseOf hphase)
    (step_of_refused_field hphase hline.scan hline.proper.nonempty hfield) rfl

/-- A parser accepts the field that is read off the line, and no other. -/
theorem goesOn_field_iff {part : Part} {f : Field} (hphase : p.phase = phaseOf part)
    (hline : p.Brings p.options.limits.headerLine block line rest) :
    p.GoesOn block (.field part f) (p.extended part f rest) ↔
      fieldOf p.options.limits (p.draft.fields part) line = .ok f := by
  refine ⟨fun h => ?_, goesOn_of_fieldOf hphase hline⟩
  cases hfield : fieldOf p.options.limits (p.draft.fields part) line with
  | ok g => rw [(Event.field.inj (h.unique (goesOn_of_fieldOf hphase hline hfield))).2]
  | error cause => cases h.eq_error (stopsAt_of_fieldOf hphase hline hfield)

/-- A parser refuses a line for the reason why no field is read off it. -/
theorem stopsAt_field_iff {part : Part} (hphase : p.phase = phaseOf part)
    (hline : p.Brings p.options.limits.headerLine block line rest) :
    p.StopsAt block cause ↔
      fieldOf p.options.limits (p.draft.fields part) line = .error cause := by
  refine ⟨fun h => ?_, stopsAt_of_fieldOf hphase hline⟩
  cases hfield : fieldOf p.options.limits (p.draft.fields part) line with
  | ok f => cases (goesOn_of_fieldOf hphase hline hfield).eq_error h
  | error other =>
      have hsame := congrArg Run.events ((stopsAt_of_fieldOf hphase hline hfield).symm.trans h)
      simpa using hsame

/-- A line that no field is read off is refused, as one too many if there is no room for it. -/
theorem exists_stopsAt_field {part : Part} (hphase : p.phase = phaseOf part)
    (hline : p.Brings p.options.limits.headerLine block line rest)
    (hnone : ∀ f, fieldOf p.options.limits (p.draft.fields part) line ≠ .ok f) :
    ∃ cause, p.StopsAt block cause ∧
      cause.type = if (p.draft.fields part).fields.length < p.options.limits.headers
        then .badHeader else .oversizedHeader := by
  cases hfield : fieldOf p.options.limits (p.draft.fields part) line with
  | ok f => exact absurd hfield (hnone f)
  | error cause => exact ⟨cause, stopsAt_of_fieldOf hphase hline hfield, type_of_fieldOf hfield⟩

/-- A field list that a parser fills allows one octet more than a line has. -/
theorem Shows.limit_fields {s : Segment} (h : p.Shows s) (part : Part) :
    (p.draft.fields part).limit = p.options.limits.headerLine + 1 := by
  cases part with
  | header =>
      show p.draft.headers.limit = _
      rw [h.headers, limit_appendAll]
      rfl
  | trailer =>
      show p.draft.trailers.limit = _
      rw [h.trailers, limit_appendAll]
      rfl

/-- **Field lines that a parser accepts.** Take a parser in any state that it can come to in which
it waits for a header or a trailer, and a line that is not empty, holds no line end and is not too
long. If there are as many fields already as the limit allows, the parser refuses the line as an
oversized header. Else it accepts the line exactly if the line spells a field: a token, the first
colon, and a value that is free of control characters but tabs when the blanks around it are
trimmed. The field, with its name in normal form and its value trimmed, is put behind the others and
reported once. All other lines are refused as bad headers. A line that is refused changes no field,
and the reason is never that the field list finds the field too long. -/
theorem accepting_field_lines (hreached : Reached o p) {part : Part}
    (hphase : p.phase = phaseOf part) (hline : p.Brings o.limits.headerLine block line rest) :
    (o.limits.headers ≤ (p.draft.fields part).fields.length →
      ∃ cause, cause.type = .oversizedHeader ∧ p.StopsAt block cause) ∧
    ((p.draft.fields part).fields.length < o.limits.headers →
      (∀ f : Field, p.GoesOn block (.field part f) (p.extended part f rest) ↔
        ∃ name value, f.Spelled name value (Latin.decode line)) ∧
      (∀ f : Field, ((p.extended part f rest).draft.fields part).fields =
        (p.draft.fields part).fields ++ [f]) ∧
      ((∀ f name value, ¬ Field.Spelled f name value (Latin.decode line)) →
        ∃ cause, cause.type = .badHeader ∧ p.StopsAt block cause)) ∧
    ∀ cause, p.StopsAt block cause → (p.feed block).parser.draft = p.draft ∧
      ∀ name limit, cause ≠ .field (.tooLong name limit) := by
  obtain ⟨s, hwithin⟩ := hreached.placed.exists_within_of_part hphase
  obtain rfl := hreached.options_eq
  have hlist : (line.length : Int) + 1 ≤ (p.draft.fields part).limit := by
    have hlen := hline.length
    rw [hwithin.shows.limit_fields part]
    omega
  refine ⟨fun hmany => ?_, fun hroom => ⟨fun f => ?_, fun f => ?_, fun hnone => ?_⟩,
    fun cause hcause => ⟨?_, ?_⟩⟩
  · obtain ⟨cause, hstops, htype⟩ := exists_stopsAt_field hphase hline fun f hfield =>
      absurd (fieldOf_eq_ok_iff.mp hfield).1 (by omega)
    rw [if_neg (by omega)] at htype
    exact ⟨cause, htype, hstops⟩
  · rw [goesOn_field_iff hphase hline, fieldOf_eq_ok_iff_of_room hroom hlist]
  · unfold extended
    rw [fields_setFields]
    rfl
  · obtain ⟨cause, hstops, htype⟩ := exists_stopsAt_field hphase hline fun f hfield => by
      obtain ⟨name, value, h⟩ := (fieldOf_eq_ok_iff_of_room hroom hlist).mp hfield
      exact hnone f name value h
    rw [if_pos hroom] at htype
    exact ⟨cause, htype, hstops⟩
  · rw [hcause]
    rfl
  · rintro name limit rfl
    exact fieldOf_ne_tooLong hlist name limit ((stopsAt_field_iff hphase hline).mp hcause)

/-- A field that takes all of the line, without a space after the colon, and a line that continues
the one before it. -/
theorem accepting_field_lines_of_text :
    let o : Options := { limits := { headerLine := 4 } }
    let p := ((new o).feed (Chunk.ascii "GET / HTTP/1.1\r\n")).parser
    let line := fun t : Text => Latin.octets t ++ lineEnd
    (Reached o p ∧ p.phase = phaseOf .header ∧
      ∀ t ∈ (["ab:c", " a:b"] : List Text), p.Brings 4 (line t) (Latin.octets t) []) ∧
    p.GoesOn (line "ab:c") (.field .header ⟨"Ab", "c"⟩) (p.extended .header ⟨"Ab", "c"⟩ []) ∧
    ∃ cause, cause.type = .badHeader ∧ p.StopsAt (line " a:b") cause := by
  intro o p line
  have hreached : Reached o p := .feed .new _
  have hphase : p.phase = phaseOf .header := by decide +kernel
  have hunread : p.unread = [] := by decide +kernel
  have hroom : ((p.draft.fields .header).fields.length : Int) < o.limits.headers := by
    decide +kernel
  have hproper : ∀ t ∈ (["ab:c", " a:b"] : List Text),
      Latin.octets t ≠ [] ∧ CR ∉ Latin.octets t ∧ LF ∉ Latin.octets t ∧
        ((Latin.octets t).length : Int) ≤ 4 := by decide +kernel
  have hbrings : ∀ t ∈ (["ab:c", " a:b"] : List Text),
      p.Brings 4 (line t) (Latin.octets t) [] := by
    intro t ht
    obtain ⟨hne, hCR, hLF, hlen⟩ := hproper t ht
    exact brings_line hunread ⟨hne, hCR, hLF⟩ hlen
  obtain ⟨-, hfield, -⟩ := accepting_field_lines hreached hphase (hbrings _ (.head _))
  obtain ⟨-, hfolded, -⟩ := accepting_field_lines hreached hphase (hbrings _ (.tail _ (.head _)))
  refine ⟨⟨hreached, hphase, hbrings⟩, ((hfield hroom).1 _).mpr ⟨"ab", "c", ?_⟩,
    (hfolded hroom).2.2 fun f name value h => ?_⟩
  · exact ⟨by decide +kernel, by decide +kernel, List.forall_mem_singleton.mpr (by decide),
      by decide +kernel, by decide +kernel⟩
  · -- the name would begin with a space
    have hcut : (cut ':' (Latin.decode (Latin.octets " a:b"))).1 = " a" := by decide +kernel
    have hname : name = " a" := (congrArg Prod.fst h.cut_line).symm.trans hcut
    have htoken := h.token
    rw [hname] at htoken
    exact absurd htoken (by decide +kernel)

end Parser

end HttpCodec
