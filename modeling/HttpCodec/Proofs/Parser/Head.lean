import HttpCodec.Proofs.Framing.Rule
import HttpCodec.Proofs.Parser.Boundary
import HttpCodec.Proofs.Parser.Segment
import HttpCodec.Proofs.Parser.Wait

set_option autoImplicit false

/-! # Heads as they arrive

A head is a start line and field lines, in whatever letter case and with whatever blanks they
arrive. When a parser has accepted them and waits for more, it holds the fields that the lines give
(`headRead_of_reads`), so the empty line leads to what the rules of framing say of the names and
values on the lines (`HeadRead.leads`).
-/

namespace HttpCodec

/-! ## Field lines as they arrive -/

namespace FieldLine

/-- The name on a field line, as it arrives. -/
def name (line : Octets) : Text := Latin.decode (cut colon line).1

/-- The value on a field line, without tabs and spaces around it. -/
def value (line : Octets) : Text := trim CharClass.isSpaceOrTab (Latin.decode (cut colon line).2)

/-- The values on the lines that have a name, whatever the case of its letters. -/
def valuesOf (lines : List Octets) (known : Text) : List Text :=
  (lines.filter fun line => (name line).map Char.toLower = known.map Char.toLower).map value

/-- The field that a line gives. -/
structure Gives (line : Octets) (f : Field) : Prop where
  token : FieldName.isToken (name line) = true
  name : f.name = FieldName.normalize (name line)
  value : f.value = value line

/-- A field that is read off a line is the one that the line gives. -/
theorem gives_of_fieldOf {limits : Limits} {fields : Fields} {line : Octets} {f : Field}
    (h : Parser.fieldOf limits fields line = .ok f) : Gives line f := by
  unfold Parser.fieldOf at h
  split_ifs at h
  split at h
  · cases h
  next n v hread =>
    obtain ⟨-, rfl, rfl⟩ := eq_of_read hread
    obtain ⟨t, hadmissible, rfl⟩ := Field.check_eq_ok_iff.mp (mapError_eq_ok_iff.mp h)
    cases hadmissible.written
    exact ⟨hadmissible.token, rfl, rfl⟩

theorem Gives.lower_name {line : Octets} {f : Field} (h : Gives line f) :
    LetterCase.lower f.name = (FieldLine.name line).map Char.toLower := by
  rw [h.name, FieldName.lower_normalize h.token,
    LetterCase.lower_eq_map_toLower (FieldName.ascii_of_isToken h.token)]

/-- **What is looked up of fields is what the lines say that give them.** -/
theorem valuesOf_eq {lines : List Octets} {fields : List Field}
    (h : List.Forall₂ Gives lines fields) {known : Text} (hknown : FieldName.isToken known = true) :
    Fields.valuesOf fields (LetterCase.lower known) = valuesOf lines known := by
  rw [LetterCase.lower_eq_map_toLower (FieldName.ascii_of_isToken hknown)]
  induction h with
  | nil => rfl
  | @cons line f lines fields hgives _ ih =>
      have hname := hgives.lower_name
      unfold Fields.valuesOf valuesOf at ih ⊢
      by_cases hsame : (FieldLine.name line).map Char.toLower = known.map Char.toLower
      · simp only [List.filter_cons, hname, hsame, decide_true, if_true, List.map_cons, ih,
          hgives.value]
      · simp only [List.filter_cons, hname, hsame, decide_false, Bool.false_eq_true, if_false, ih]

end FieldLine

namespace Parser

variable {o : Options} {p q r : Parser} {es : List Event} {s : Segment}

/-! ## Accepted lines -/

/-- A field line that has arrived is not waited for. -/
theorem step_ne_wait_of_line {line rest : Octets} (hphase : p.phase = .awaitHeaders)
    (hunread : p.unread = line ++ lineEnd ++ rest) : p.step ≠ .wait := by
  intro hwait
  rw [step_of_readField .header hphase] at hwait
  have hscan := scan_of_readField_wait hwait
  rw [hunread] at hscan
  exact Line.scan_ne_none line rest _ hscan

/-- A parser that has read a start line and header fields, and nothing more. -/
structure HeadRead (o : Options) (line : StartLine) (fields : List Field) (p : Parser) : Prop where
  options : p.options = o
  phase : p.phase = .awaitHeaders
  shows : p.Shows ⟨line, fields, [], []⟩
  body : p.draft.body = []
  unread : p.unread = []
  error : p.error = none
  completed : p.completed = 0

/-- **Field lines that are accepted are read, each as the field that it gives.** -/
theorem fields_of_reads {lines : List Octets} (hlines : ∀ line ∈ lines, Line.Proper line)
    (hreads : Reads p es r) (hphase : p.phase = .awaitHeaders)
    (hunread : p.unread = Line.octetsOf lines) (hshows : p.Shows s) (hwait : r.step = .wait) :
    ∃ fields, es = fields.map (.field .header) ∧ List.Forall₂ FieldLine.Gives lines fields ∧
      r.Shows { s with headers := s.headers ++ fields } ∧ r.draft.body = p.draft.body ∧
      r.unread = [] ∧ r.completed = p.completed := by
  -- by induction on the lines: a run that has not failed has read each of them
  induction lines generalizing p es s with
  | nil =>
      cases hreads with
      | refl => exact ⟨[], rfl, .nil, by rwa [List.append_nil], rfl, hunread, rfl⟩
      | step hadvance => exact absurd hunread hadvance.unread_ne_nil
  | cons line lines ih =>
      have hline := hlines line List.mem_cons_self
      have hsplit : p.unread = line ++ lineEnd ++ Line.octetsOf lines := by
        rw [hunread]
        rfl
      cases hreads with
      | refl => exact absurd hwait (step_ne_wait_of_line hphase hsplit)
      | step hadvance hrest =>
          cases hadvance with
          | @field part taken left f hphase' hscan _ hfield =>
              cases part with
              | trailer => simp [hphase, phaseOf] at hphase'
              | header =>
                  rw [hsplit] at hscan
                  obtain ⟨rfl, rfl⟩ := hline.eq_of_scan hscan
                  obtain ⟨fields, rfl, hgives, hshows', hbody, hleft, hcompleted⟩ :=
                    ih (fun l hl => hlines l (List.mem_cons_of_mem _ hl)) hrest hphase rfl
                      (hshows.withHeader hfield)
                  refine ⟨f :: fields, rfl, .cons (FieldLine.gives_of_fieldOf hfield) hgives, ?_,
                    hbody, hleft, hcompleted⟩
                  simpa [Segment.withField] using hshows'
          | bodiless _ hscan | framed _ hscan =>
              rw [hsplit] at hscan
              exact absurd (hline.eq_of_scan hscan).1.symm hline.nonempty
          | _ hphase' => simp [hphase] at hphase'

/-- **A start line and field lines that are accepted are read**, each field line as the field that
it gives. -/
theorem headRead_of_reads {start : Octets} {lines : List Octets} (hstart : Line.Proper start)
    (hlines : ∀ line ∈ lines, Line.Proper line)
    (hreads : Reads ((new o).supply (Line.octetsOf (start :: lines))) es r)
    (hphase : r.phase = .awaitHeaders) (hwait : r.step = .wait) :
    ∃ line fields, StartLine.read o.kind (Latin.decode start) = .ok line ∧
      List.Forall₂ FieldLine.Gives lines fields ∧ es = .start line :: fields.map (.field .header) ∧
      HeadRead o line fields r := by
  have hoptions : r.options = o := hreads.options_eq
  have herror : r.error = none := hreads.error_eq
  have hsplit : ((new o).supply (Line.octetsOf (start :: lines))).unread =
      start ++ lineEnd ++ Line.octetsOf lines := rfl
  cases hreads with
  | refl => cases hphase
  | step hadvance hrest =>
      cases hadvance with
      | skip _ hscan =>
          rw [hsplit] at hscan
          exact absurd (hstart.eq_of_scan hscan).1.symm hstart.nonempty
      | @start taken left line _ hscan _ hread =>
          have hwithin := within_of_start rfl hscan hread
          rw [hsplit] at hscan
          obtain ⟨rfl, rfl⟩ := hstart.eq_of_scan hscan
          obtain ⟨fields, rfl, hgives, hshows, hbody, hunread, hcompleted⟩ :=
            fields_of_reads hlines hrest rfl rfl hwithin.shows hwait
          exact ⟨line, fields, hread, hgives, rfl,
            ⟨hoptions, hphase, hshows, hbody, hunread, herror, hcompleted⟩⟩
      | @field part _ _ _ hphase' => cases part <;> cases hphase'
      | _ hphase' => cases hphase'

/-! ## The empty line -/

/-- **What the empty line after a head leads to**, for a parser that waits for it: the head is
refused, or a message without a body is complete, or the parser goes on as one that awaits a body
of a certain framing, whatever follows. -/
def Leads (p : Parser) (m : Message) : Framing.Outcome → Prop
  | .fails type => ∃ cause : ParseError, cause.type = type ∧
      ∀ more, p.feed (lineEnd ++ more) = { parser := p.fail cause, events := [.error cause] }
  | .empty => p.feed lineEnd = { parser := p.rested, events := [.complete m] }
  | .length n => ∀ more, p.feed (lineEnd ++ more) = (p.awaitBody .lengthKnown n).feed more
  | .chunked => ∀ more, p.feed (lineEnd ++ more) = (p.awaitBody .chunked 0).feed more
  | .untilClose => ∀ more, p.feed (lineEnd ++ more) = (p.awaitBody .untilClose 0).feed more

variable {line : StartLine} {fields : List Field}

theorem HeadRead.hasFailed_eq (h : HeadRead o line fields p) : p.hasFailed = false := by
  simp [hasFailed, h.phase]

/-- The empty line is taken off the front of what follows a head. -/
theorem HeadRead.scan_eq (h : HeadRead o line fields p) (h0 : 0 ≤ o.limits.headerLine)
    (more : Octets) :
    Line.scan (p.supply (lineEnd ++ more)).unread p.options.limits.headerLine =
      .ok (some ([], more)) := by
  show Line.scan (p.unread ++ (lineEnd ++ more)) p.options.limits.headerLine = _
  rw [h.unread, h.options, List.nil_append]
  exact Line.scan_lineEnd h0

/-- The empty line after a head that a body follows. -/
theorem HeadRead.advance_framed (h : HeadRead o line fields p) (h0 : 0 ≤ o.limits.headerLine)
    {framing : Framing} {n : Nat}
    (hdecide : (Framing.decide line (o.noFields.appendAll fields)).body? = some (framing, n))
    (more : Octets) :
    Advance (p.supply (lineEnd ++ more)) [] ((p.awaitBody framing n).supply more) := by
  have hdecided : (Framing.decide line (p.supply (lineEnd ++ more)).draft.headers).body? =
      some (framing, n) := by
    show (Framing.decide line p.draft.headers).body? = _
    rw [h.shows.headers, h.options, hdecide]
  have hframed := Advance.framed (p := p.supply (lineEnd ++ more)) h.phase (h.scan_eq h0 more)
    h.shows.line hdecided
  have hsame : ((p.supply (lineEnd ++ more)).leave more).awaitBody framing n =
      (p.awaitBody framing n).supply more := by
    simp [leave, awaitBody, supply, h.unread]
  rwa [hsame] at hframed

/-- A head that a body follows leaves the parser awaiting it. -/
theorem HeadRead.feed_of_body? (h : HeadRead o line fields p) (h0 : 0 ≤ o.limits.headerLine)
    {framing : Framing} {n : Nat}
    (hdecide : (Framing.decide line (o.noFields.appendAll fields)).body? = some (framing, n))
    (more : Octets) : p.feed (lineEnd ++ more) = (p.awaitBody framing n).feed more := by
  rw [feed_eq h.hasFailed_eq, feed_eq (p := p.awaitBody framing n) rfl,
    (h.advance_framed h0 hdecide more).reads.run_eq]
  rfl

/-- A head that decides that there is no body completes the message. -/
theorem HeadRead.feed_of_empty (h : HeadRead o line fields p) (h0 : 0 ≤ o.limits.headerLine)
    (hdecide : Framing.decide line (o.noFields.appendAll fields) = .empty) :
    p.feed lineEnd =
      { parser := p.rested, events := [.complete (o.read line fields [] [])] } := by
  have hscan := h.scan_eq h0 []
  rw [List.append_nil] at hscan
  have hdecided : Framing.decide line (p.supply lineEnd).draft.headers = .empty := by
    show Framing.decide line p.draft.headers = _
    rw [h.shows.headers, h.options, hdecide]
  have hmessage : (p.supply lineEnd).message = .ok (o.read line fields [] []) := by
    have hmade := h.shows.message_eq (by simp [h.body]) (by simp [h.body])
    rw [h.options] at hmade
    have hempty : Segment.message o ⟨line, fields, [], []⟩ = o.read line fields [] [] := by
      simp [Segment.message]
    rwa [hempty] at hmade
  have hend := Advance.bodiless (p := p.supply lineEnd) h.phase hscan h.shows.line hdecided hmessage
  have hsame : ((p.supply lineEnd).leave []).rested = p.rested := by
    simp [leave, rested, supply, h.unread]
  rw [hsame] at hend
  have hwait : p.rested.step = .wait := by
    rw [step_of_done rfl]
    exact if_pos h.unread
  rw [feed_eq h.hasFailed_eq, hend.reads.run_eq, run_eq p.rested, hwait]
  rfl

/-- A head that is refused ends the input, whatever follows. -/
theorem HeadRead.feed_of_refused (h : HeadRead o line fields p) (h0 : 0 ≤ o.limits.headerLine)
    {cause : Framing.Error}
    (hdecide : Framing.decide line (o.noFields.appendAll fields) = .refused cause) (more : Octets) :
    p.feed (lineEnd ++ more) =
      { parser := p.fail (.framing cause), events := [.error (.framing cause)] } := by
  have hdecided : Framing.decide line p.draft.headers = .refused cause := by
    rw [h.shows.headers, h.options, hdecide]
  have hline : p.draft.line = some line := h.shows.line
  have hstep : (p.supply (lineEnd ++ more)).step =
      .reject [] ((p.supply (lineEnd ++ more)).leave more) (.framing cause) :=
    step_of_refused_head h.phase (h.scan_eq h0 more) hline hdecided
  rw [feed_eq h.hasFailed_eq, run_eq (p.supply _), hstep]
  rfl

/-- **What a head decides is what the rules say** of the names and the values on its lines. -/
theorem HeadRead.outcome_eq (h : HeadRead o line fields p) {lines : List Octets}
    (hgives : List.Forall₂ FieldLine.Gives lines fields)
    (hshort : ∀ digits,
      Framing.Denotes (FieldLine.valuesOf lines FieldName.contentLength) digits →
        digits.length ≤ Decimal.maxDigits)
    {x : Framing.Outcome}
    (hrule : Framing.Rule line (FieldLine.valuesOf lines FieldName.transferEncoding)
      (FieldLine.valuesOf lines FieldName.contentLength) x) :
    (Framing.decide line (o.noFields.appendAll fields)).outcome = some x := by
  have hcodings : (o.noFields.appendAll fields).getAll FieldName.transferEncoding =
      FieldLine.valuesOf lines FieldName.transferEncoding := by
    rw [getAll_read, FieldLine.valuesOf_eq hgives (by decide)]
  have hlengths : (o.noFields.appendAll fields).getAll FieldName.contentLength =
      FieldLine.valuesOf lines FieldName.contentLength := by
    rw [getAll_read, FieldLine.valuesOf_eq hgives (by decide)]
  rw [← hlengths] at hshort
  rw [← hcodings, ← hlengths] at hrule
  exact Framing.outcome_of_rule h.shows.readable.line (Framing.decide_ne_unreadable line hshort)
    hrule

/-- **The empty line after a head leads to the outcome** of what the head decides. -/
theorem HeadRead.leads (h : HeadRead o line fields p) (h0 : 0 ≤ o.limits.headerLine)
    {x : Framing.Outcome}
    (houtcome : (Framing.decide line (o.noFields.appendAll fields)).outcome = some x) :
    p.Leads (o.read line fields [] []) x := by
  cases hdecide : Framing.decide line (o.noFields.appendAll fields) with
  | empty =>
      rw [hdecide] at houtcome
      cases houtcome
      exact h.feed_of_empty h0 hdecide
  | length n | chunked | untilClose =>
      rw [hdecide] at houtcome
      cases houtcome
      exact h.feed_of_body? h0 (by rw [hdecide]; rfl)
  | refused cause =>
      rw [hdecide] at houtcome
      cases houtcome
      exact ⟨_, rfl, h.feed_of_refused h0 hdecide⟩
  | unreadable cause =>
      rw [hdecide] at houtcome
      cases houtcome

end Parser

end HttpCodec
