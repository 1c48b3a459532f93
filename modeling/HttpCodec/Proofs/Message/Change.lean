import HttpCodec.Proofs.Message.Building
import HttpCodec.Proofs.RoundTrip.Parsed

set_option autoImplicit false

/-! # Changes that fail

A change that fails leaves a message as it was, with one exception (`Message.OutgrownBy`): a body is
set before its length, for which the header fields may have no room. A body that is set is declared
by the one length that there is afterwards. Both hold of every message that a caller can hold, be it
made or parsed (`Message.Held.changing`).
-/

namespace HttpCodec

/-- A length is refused only where it is too long for the list. -/
theorem Field.check_contentLength (limit : Int) (n : Nat) :
    Field.check limit FieldName.contentLength (.text (Decimal.ofNat n)) =
      if 16 + ((Decimal.ofNat n).length : Int) ≤ limit then
        .ok ⟨FieldName.contentLength, Decimal.ofNat n⟩
      else .error (.tooLong FieldName.contentLength limit) := by
  have hdigits : ∀ c ∈ Decimal.ofNat n, c.isDigit := fun c hc => Decimal.isDigit_of_mem_ofNat hc
  have hwritten : Written (.text (Decimal.ofNat n)) (Decimal.ofNat n) :=
    written_of_trimmed (trimmed_of_isDigit hdigits)
  rw [check_of_plain (by decide) hwritten (Latin.plain_of_isDigit hdigits),
    FieldName.normalize_contentLength]
  rfl

namespace Message

/-- The messages that a caller can hold: those that are made, those that a parser completes, and
those that changes lead to. -/
inductive Held : Message → Prop
  | made {m : Message} (h : m.Made) : Held m
  | reported {o : Parser.Options} {p : Parser} {c : Parser.Call} {m : Message}
      (h : Parser.Reached o p) (hm : .complete m ∈ (p.call c).events) : Held m
  | parsed {data : Octets} {kind : Option Kind} {limits : Limits} {ms : List Message} {m : Message}
      (h : parse data kind limits = .ok ms) (hm : m ∈ ms) : Held m
  | apply {m : Message} (h : Held m) (e : Edit) : Held (m.apply e).1

variable {m : Message} {e : Edit} {content : Content} {body : Octets}

/-- **Messages that a caller can hold can be written.** -/
theorem Held.sound (h : m.Held) : m.Sound := by
  induction h with
  | made h => exact h.sound
  | reported h hm => exact h.sound_of_complete hm
  | parsed h hm => exact (parsed_of_parse h hm).sound
  | apply _ e ih => exact ih.apply e

/-! ## Changes of the body -/

/-- Tells that content can be set as the body of a message, as far as the start line is
concerned. -/
def Admits (m : Message) (content : Content) : Prop :=
  m.line.allowsBody = true ∨ content.isPresent = false

/-- The header fields have no room for the length of a body that is set. -/
inductive OutgrownBy (m : Message) : Edit → Octets → Prop
  | setBody {content : Content} {body : Octets} (hadmits : m.Admits content)
      (hcontent : content.toOctets = .ok body)
      (hroom : m.headers.limit < 16 + ((Decimal.ofNat body.length).length : Int)) :
      OutgrownBy m (.setBody content) body

theorem setBody_of_admits (h : m.Admits content) : m.setBody content = setBody.write m content := by
  unfold setBody
  cases hline : m.line with
  | request l => rfl
  | response l =>
      refine if_neg ?_
      rcases h with hallows | habsent
      · rw [hline] at hallows
        have hbody : Status.hasBody l.status = true := hallows
        simp [hbody]
      · simp [habsent]

/-- Content that the status does not allow is refused at once. -/
theorem setBody_of_not_admits (h : ¬ m.Admits content) :
    ∃ status, m.setBody content = (m, .error (.refused (.noBody status))) := by
  obtain ⟨hallows, hpresent⟩ := not_or.mp h
  unfold setBody
  cases hline : m.line with
  | request l =>
      rw [hline] at hallows
      exact absurd rfl hallows
  | response l =>
      have hbody : Status.hasBody l.status = false := by
        rw [hline] at hallows
        exact Bool.eq_false_iff.mpr hallows
      exact ⟨l.status, if_pos (by simp [hbody, hpresent])⟩

/-- The length of a body that is set takes the place of all others. -/
theorem write_of_content (hm : m.Sound) (hcontent : content.toOctets = .ok body) :
    setBody.write m content =
      if 16 + ((Decimal.ofNat body.length).length : Int) ≤ m.headers.limit then
        ({ m with
          body
          headers := (m.headers.remove FieldName.contentLength).append
            ⟨FieldName.contentLength, Decimal.ofNat body.length⟩ }, .ok ())
      else
        ({ m with body }, .error (.field (.tooLong FieldName.contentLength m.headers.limit))) := by
  unfold setBody.write
  rw [hcontent]
  dsimp only
  rw [Fields.set_eq_append hm.headers, Field.check_contentLength]
  split_ifs <;> rfl

/-- The fields but for the lengths are those that are left when the lengths are removed. -/
theorem fields_remove_contentLength (hm : m.Sound) :
    (m.headers.remove FieldName.contentLength).fields = unmeasured m.headers.fields := by
  rw [hm.headers.indexed.fields_remove]
  refine List.filter_congr fun f hf => ?_
  have hiff := (hm.headers.fields f hf).name_eq_iff FieldName.normalize_contentLength
  simp only [ne_eq, decide_not, hiff]

/-! ## All changes -/

/-- A change that is made as a whole leaves the message alone if it fails. -/
theorem settle_of_failed {r : Except Fault Message} {fault : Fault}
    (h : (m.settle r).2 = .error fault) : (m.settle r).1 = m := by
  cases r with
  | error cause => rfl
  | ok changed => cases h

/-- **A change that fails leaves the message alone**, unless the message is outgrown by the body. -/
theorem apply_of_failed (hm : m.Sound) {fault : Fault} (hfailed : (m.apply e).2 = .error fault)
    (hroom : ∀ body, ¬ m.OutgrownBy e body) : (m.apply e).1 = m := by
  cases e with
  | setBody content =>
      by_cases hadmits : m.Admits content
      · have hwrite : m.apply (.setBody content) = setBody.write m content :=
          setBody_of_admits hadmits
        cases hcontent : content.toOctets with
        | error cause =>
            rw [hwrite, setBody.write, hcontent]
        | ok body =>
            have hfits : 16 + ((Decimal.ofNat body.length).length : Int) ≤ m.headers.limit :=
              not_lt.mp fun hlimit => hroom body (.setBody hadmits hcontent hlimit)
            rw [hwrite, write_of_content hm hcontent, if_pos hfits] at hfailed
            cases hfailed
      · obtain ⟨status, hrefused⟩ := setBody_of_not_admits hadmits
        exact congrArg Prod.fst hrefused
  | _ => exact settle_of_failed hfailed

/-- A message that is outgrown by a body is left with the body and the lengths that it had. -/
theorem OutgrownBy.apply_eq (h : m.OutgrownBy e body) (hm : m.Sound) :
    m.apply e =
      ({ m with body }, .error (.field (.tooLong FieldName.contentLength m.headers.limit))) := by
  cases h with
  | @setBody content body hadmits hcontent hroom =>
      show m.setBody content = _
      rw [setBody_of_admits hadmits, write_of_content hm hcontent, if_neg (not_le.mpr hroom)]

/-- **A body that is set is declared by one length**, behind the other fields. -/
theorem setBody_of_ok (hm : m.Sound) (hok : (m.setBody content).2 = .ok ()) :
    content.toOctets = .ok (m.setBody content).1.body ∧
      (m.setBody content).1.headers.fields =
        unmeasured m.headers.fields ++ [(m.setBody content).1.lengthField] := by
  by_cases hadmits : m.Admits content
  · rw [setBody_of_admits hadmits] at hok ⊢
    cases hcontent : content.toOctets with
    | error cause =>
        rw [setBody.write, hcontent] at hok
        cases hok
    | ok body =>
        rw [write_of_content hm hcontent] at hok ⊢
        split_ifs at hok ⊢ with hfits
        refine ⟨rfl, ?_⟩
        show (m.headers.remove FieldName.contentLength).fields ++ [_] = _
        rw [fields_remove_contentLength hm]
        rfl
  · obtain ⟨status, hrefused⟩ := setBody_of_not_admits hadmits
    rw [hrefused] at hok
    cases hok

/-- Where the length of the body takes the place of all others, it is the only one. -/
theorem lengths_of_fields {changed : Message} (hm : m.Sound)
    (hfields : changed.headers.fields = unmeasured m.headers.fields ++ [changed.lengthField]) :
    changed.lengths = [Decimal.ofNat changed.body.length] := by
  have hsound : ∀ f ∈ unmeasured m.headers.fields, f.Sound :=
    fun f hf => hm.headers.fields f (List.mem_of_mem_filter hf)
  have hnone : ∀ f ∈ unmeasured m.headers.fields, f.name ≠ FieldName.contentLength :=
    fun f hf => of_decide_eq_true (List.mem_filter.mp hf).2
  rw [lengths, hfields, Fields.valuesOf_append, Fields.valuesOf_singleton,
    Fields.valuesOf_eq_nil_of_ne hsound FieldName.normalize_contentLength hnone]
  rfl

/-- **What changes do to a message that a caller can hold.** A change that fails leaves all of it as
it was, unless the message is outgrown by the body that is set: then the body has been replaced, and
nothing else. A body that is set is declared by exactly one length. -/
theorem Held.changing (hheld : m.Held) (e : Edit) :
    (∀ fault, (m.apply e).2 = .error fault → (∀ body, ¬ m.OutgrownBy e body) →
      (m.apply e).1 = m) ∧
    (∀ body, m.OutgrownBy e body → m.apply e =
      ({ m with body }, .error (.field (.tooLong FieldName.contentLength m.headers.limit)))) ∧
    ∀ content, e = .setBody content → (m.apply e).2 = .ok () →
      content.toOctets = .ok (m.apply e).1.body ∧
      (m.apply e).1.lengths = [Decimal.ofNat (m.apply e).1.body.length] ∧
      (m.apply e).1.headers.fields =
        unmeasured m.headers.fields ++ [(m.apply e).1.lengthField] := by
  have hm := hheld.sound
  refine ⟨fun fault => apply_of_failed hm, fun body h => h.apply_eq hm, ?_⟩
  rintro content rfl hok
  obtain ⟨hbody, hfields⟩ := setBody_of_ok hm hok
  exact ⟨hbody, lengths_of_fields hm hfields, hfields⟩

/-- A new request whose fields are limited. -/
def limitedRequest (limit : Int) : Message :=
  ⟨.request ⟨"GET", "/", [], .http11⟩, { limit }, [], {}⟩

theorem held_limitedRequest (limit : Int) : (limitedRequest limit).Held := by
  have hparts : Parts.Filled { headers := .ready { limit } } := by
    refine ⟨Fields.Filled.empty true limit, fun fs hfs => ?_⟩
    cases hfs
  have hrequest : request "GET" "/" none { headers := .ready { limit } } =
      .ok (limitedRequest limit) := rfl
  exact .made (.request hparts hrequest)

/-- Where there is room for a length of one digit, a short body is set. -/
theorem changing_of_short_body :
    let e : Edit := .setBody (.scalar (.text "abc"))
    (limitedRequest 17).Held ∧ ((limitedRequest 17).apply e).2 = .ok () ∧
      ((limitedRequest 17).apply e).1.lengths = [Decimal.ofNat 3] := by
  intro e
  have hheld := held_limitedRequest 17
  have hok : ((limitedRequest 17).apply e).2 = .ok () := rfl
  exact ⟨hheld, hok, ((hheld.changing e).2.2 _ rfl hok).2.1⟩

/-- Where there is no room for a length, a body is set, and the change fails. -/
theorem body_without_length :
    let e : Edit := .setBody (.scalar (.text "abc"))
    (limitedRequest 10).Held ∧
      ((limitedRequest 10).apply e).2 = .error (.field (.tooLong FieldName.contentLength 10)) ∧
      (limitedRequest 10).body = [] ∧ ((limitedRequest 10).apply e).1.body = Chunk.ascii "abc" :=
  ⟨held_limitedRequest 10, rfl, rfl, rfl⟩

end Message

end HttpCodec
