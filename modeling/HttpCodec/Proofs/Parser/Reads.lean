import HttpCodec.Proofs.Message.Wire
import HttpCodec.Proofs.Parser.Supply

set_option autoImplicit false

/-! # Reading what was written, element by element

`Reads p es q` says that `p` goes on to `q` in any number of steps, with the events `es`. The parts
of a message that was written are read off the front of the data: the head (`reads_head`), the
chunks of a body (`reads_chunks`), the fields of either part (`reads_fields`).
-/

namespace HttpCodec.Parser

/-- One parser goes on to the other. -/
inductive Reads : Parser → List Event → Parser → Prop
  | refl (p : Parser) : Reads p [] p
  | step {p q r : Parser} {es fs : List Event} (h : Advance p es q) (hrest : Reads q fs r) :
      Reads p (es ++ fs) r

theorem Advance.reads {p q : Parser} {es : List Event} (h : Advance p es q) : Reads p es q := by
  have hreads := Reads.step h (.refl q)
  rwa [List.append_nil] at hreads

theorem Reads.trans {p q r : Parser} {es fs : List Event} (h : Reads p es q)
    (h' : Reads q fs r) : Reads p (es ++ fs) r := by
  induction h with
  | refl p => exact h'
  | step hadvance _ ih =>
      rw [List.append_assoc]
      exact .step hadvance (ih h')

theorem after_append (r : Run) (es fs : List Event) : (r.after fs).after es = r.after (es ++ fs) := by
  simp [Run.after]

/-- **A run makes all the steps that can be made.** -/
theorem Reads.run_eq {p q : Parser} {es : List Event} (h : Reads p es q) :
    run p = (run q).after es := by
  -- a run makes the first step and goes on from there
  induction h with
  | refl p => rw [after_nil]
  | step hadvance _ ih =>
      rw [Parser.run_eq, step_of_advance hadvance]
      show (run _).after _ = _
      rw [ih, after_append]

/-! ## Lines -/

variable {p : Parser} {rest : Octets}

/-- A start line that was written is read. -/
theorem advance_startLine {l : StartLine} (hl : l.Sound) (hphase : p.phase = .awaitStartLine)
    (hunread : p.unread = Latin.octets l.text ++ lineEnd ++ rest)
    (hlen : l.text.length ≤ p.options.limits.startLine)
    (hkind : p.options.kind = none ∨ p.options.kind = some l.kind) :
    Advance p [.start l]
      { p with
        unread := rest, phase := .awaitHeaders, draft := { p.draft with line := some l } } := by
  have hscan : Line.scan p.unread p.options.limits.startLine =
      .ok (some (Latin.octets l.text, rest)) := by
    rw [hunread]
    exact Line.scan_line rest hl.plain.not_mem_CR hl.plain.not_mem_LF
      (by rwa [Latin.length_octets])
  have hne : Latin.octets l.text ≠ [] := fun h => l.text_ne_nil (List.map_eq_nil_iff.mp h)
  refine .start hphase hscan hne ?_
  rw [Latin.decode_octets hl.plain.latin]
  exact StartLine.read_text hl hkind

/-- The field on a line that was written, if there is room for it. -/
theorem fieldOf_octets {limits : Limits} {fields : Fields} {f : Field} (hf : f.Sound)
    (hsize : f.size ≤ fields.limit) (hroom : fields.fields.length < limits.headers) :
    fieldOf limits fields f.octets = .ok f := by
  unfold fieldOf
  rw [if_neg (by omega), FieldLine.read_octets hf]
  show (Field.check fields.limit f.name (.text (' ' :: f.value))).mapError ParseError.field = .ok f
  rw [Field.check_of_sound hf hsize]
  rfl

/-- A field line that was written is read, if there is room for the field. -/
theorem advance_field (part : Part) {f : Field} (hf : f.Sound) (hphase : p.phase = phaseOf part)
    (hunread : p.unread = f.octets ++ lineEnd ++ rest) (hsize : f.size ≤ p.options.limits.headerLine)
    (hlimit : (p.draft.fields part).limit = p.options.limits.headerLine + 1)
    (hroom : (p.draft.fields part).fields.length < p.options.limits.headers) :
    Advance p [.field part f]
      { p with
        unread := rest, draft := p.draft.setFields ((p.draft.fields part).append f) part } := by
  have hscan : Line.scan p.unread p.options.limits.headerLine = .ok (some (f.octets, rest)) := by
    rw [hunread]
    exact Line.scan_line _ hf.plain_line.not_mem_CR hf.plain_line.not_mem_LF
      (by rwa [f.length_octets])
  have hfield : fieldOf p.options.limits (p.draft.fields part) f.octets = .ok f :=
    fieldOf_octets hf (by omega) hroom
  exact .field hphase hscan f.octets_ne_nil hfield

theorem setFields_setFields (d : Draft) (fs gs : Fields) (part : Part) :
    (d.setFields fs part).setFields gs part = d.setFields gs part := by
  cases part <;> rfl

theorem fields_setFields (d : Draft) (fs : Fields) (part : Part) :
    (d.setFields fs part).fields part = fs := by
  cases part <;> rfl

theorem setFields_fields (d : Draft) (part : Part) : d.setFields (d.fields part) part = d := by
  cases part <;> rfl

/-- The parser after fields of a part. -/
def withFields (p : Parser) (part : Part) (fields : List Field) (rest : Octets) : Parser :=
  { p with
    unread := rest
    draft := p.draft.setFields ((p.draft.fields part).appendAll fields) part }

/-- **Field lines that were written are read.** -/
theorem reads_fields (part : Part) {fields : List Field} (hfields : ∀ f ∈ fields, f.Sound)
    (hphase : p.phase = phaseOf part) (hunread : p.unread = Fields.octetsOf fields ++ rest)
    (hsizes : ∀ f ∈ fields, f.size ≤ p.options.limits.headerLine)
    (hlimit : (p.draft.fields part).limit = p.options.limits.headerLine + 1)
    (hcount : (p.draft.fields part).fields.length + fields.length ≤
      p.options.limits.headers.toNat) :
    Reads p (fields.map (.field part)) (p.withFields part fields rest) := by
  -- by induction on the fields: each leaves the parser where the next one is read, with one more
  -- field in the list
  induction fields generalizing p with
  | nil =>
      have hsame : p.withFields part [] rest = p := by
        have hunread : rest = p.unread := hunread.symm
        unfold withFields
        rw [hunread]
        show ({ p with draft := p.draft.setFields (p.draft.fields part) part } : Parser) = p
        rw [setFields_fields]
      rw [hsame]
      exact .refl p
  | cons f fields ih =>
      have hsplit : p.unread = f.octets ++ lineEnd ++ (Fields.octetsOf fields ++ rest) := by
        rw [hunread]
        simp [Fields.octetsOf]
      rw [List.length_cons] at hcount
      have hadvance := advance_field part (hfields f List.mem_cons_self) hphase hsplit
        (hsizes f List.mem_cons_self) hlimit (by omega)
      refine .step hadvance ?_
      set q : Parser :=
        { p with
          unread := Fields.octetsOf fields ++ rest
          draft := p.draft.setFields ((p.draft.fields part).append f) part } with hq
      have hq' : (q.draft.fields part) = (p.draft.fields part).append f := fields_setFields _ _ _
      have hreads := ih (p := q) (fun g hg => hfields g (List.mem_cons_of_mem f hg)) hphase rfl
        (fun g hg => hsizes g (List.mem_cons_of_mem f hg)) (by rw [hq']; exact hlimit)
        (by
          rw [hq']
          simp only [Fields.append, List.length_append, List.length_singleton]
          show _ ≤ p.options.limits.headers.toNat
          omega)
      have hsame : q.withFields part fields rest = p.withFields part (f :: fields) rest := by
        unfold withFields
        rw [hq', hq]
        simp only [setFields_setFields]
        rfl
      rwa [hsame] at hreads

end HttpCodec.Parser
