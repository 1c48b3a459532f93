import HttpCodec.Proofs.Framing.Rule
import HttpCodec.Proofs.RoundTrip.Built

set_option autoImplicit false

/-! # Messages whose body is framed as their head decides

`Message.Framed` says that the body and the trailers of a message go together with what its head
decides, in whatever words: a length may be listed several times, and a status that allows no body
may come with any fields. Such a message is written as `Message.wire` says (`Framed.build_eq`), and
what is written of it is read as the same message (`Framed.conveys`). Only a body that went on until
the input ended, in a response that declares nothing, is given a length when it is written
(`Message.asWritten`).
-/

namespace HttpCodec.Message

open HttpCodec.Parser

/-- How the body and the trailers of a message go together with what its head decides. -/
inductive Framed (m : Message) : Prop
  | bodiless (hdecide : Framing.decide m.line m.headers = .empty) (hbody : m.body = [])
      (htrailers : m.trailers.fields = [])
  | counted (hdecide : Framing.decide m.line m.headers = .length m.body.length)
      (htrailers : m.trailers.fields = [])
  | chunked (hdecide : Framing.decide m.line m.headers = .chunked)
  | untilClose (hdecide : Framing.decide m.line m.headers = .untilClose)
      (htrailers : m.trailers.fields = [])

/-! ## What is written -/

/-- The message with one more field, which declares the length of the body. -/
def measured (m : Message) : Message := { m with headers := m.headers.append m.lengthField }

/-- Tells that the message is a response whose body, which is not empty, goes on until the input
ends, and that it declares no coding. -/
def needsLength (m : Message) : Bool :=
  m.line.kind = .response && Framing.decide m.line m.headers = .untilClose && m.body ≠ [] &&
    !m.headers.has FieldName.transferEncoding

/-- The message as it is written. -/
def asWritten (m : Message) : Message := if m.needsLength then m.measured else m

/-- The octets of a message that is framed as its head decides. -/
def wire (m : Message) : Octets :=
  headOctets m.line m.headers.fields ++
    if Framing.decide m.line m.headers = .chunked then chunkedOctets [m.body] m.trailers.fields
    else m.body

variable {m : Message} {o : Options}

theorem needsLength_eq_true_iff :
    m.needsLength = true ↔
      m.line.kind = .response ∧ Framing.decide m.line m.headers = .untilClose ∧ m.body ≠ [] ∧
        m.headers.has FieldName.transferEncoding = false := by
  simp [needsLength, and_assoc]

theorem asWritten_of_needsLength (h : m.needsLength = true) : m.asWritten = m.measured := if_pos h

theorem asWritten_of_not_needsLength (h : m.needsLength = false) : m.asWritten = m := by
  rw [asWritten, h]
  rfl

theorem asWritten_line (m : Message) : m.asWritten.line = m.line := by
  unfold asWritten
  split_ifs <;> rfl

theorem asWritten_body (m : Message) : m.asWritten.body = m.body := by
  unfold asWritten
  split_ifs <;> rfl

theorem asWritten_trailers (m : Message) : m.asWritten.trailers = m.trailers := by
  unfold asWritten
  split_ifs <;> rfl

theorem wire_ne_nil (m : Message) : m.wire ≠ [] := by
  simp [wire, headOctets_ne_nil]

/-- What is looked up in the message that was measured. -/
theorem getAll_measured (hm : m.headers.Indexed) (name : Text) :
    m.measured.headers.getAll name = m.headers.getAll name ++
      if LetterCase.lower FieldName.contentLength = LetterCase.lower name
        then [Decimal.ofNat m.body.length] else [] := by
  have hindexed : m.measured.headers.Indexed := hm.append m.lengthField
  rw [hindexed.getAll_eq, hm.getAll_eq]
  show Fields.valuesOf (m.headers.fields ++ [m.lengthField]) _ = _
  rw [Fields.valuesOf_append, Fields.valuesOf_singleton]
  rfl

/-- The message that was measured declares its length and no coding. -/
theorem getAll_of_needsLength (hm : m.Sound) (h : m.needsLength = true) :
    m.measured.headers.getAll FieldName.transferEncoding = [] ∧
      m.measured.headers.getAll FieldName.contentLength = [Decimal.ofNat m.body.length] := by
  obtain ⟨-, hdecide, -, hcoding⟩ := needsLength_eq_true_iff.mp h
  obtain ⟨-, hnoLength, -⟩ := Framing.of_untilClose hm.line hdecide
  constructor
  · rw [getAll_measured hm.headers.indexed, hm.headers.indexed.getAll_eq_nil_iff.mpr hcoding,
      if_neg (by decide)]
    rfl
  · rw [getAll_measured hm.headers.indexed, hnoLength, if_pos rfl]
    rfl

/-- **The length that is declared when the message is written is the one that is decided.** -/
theorem decide_measured (hm : m.Sound) (h : m.needsLength = true)
    (hshort : m.body.length < 16 ^ 16) :
    Framing.decide m.measured.line m.measured.headers = .length m.body.length := by
  obtain ⟨-, hdecide, hbody, -⟩ := needsLength_eq_true_iff.mp h
  have hallows : m.line.allowsBody = true :=
    Framing.allowsBody_of_body? (congrArg Framing.Decision.body? hdecide)
  obtain ⟨hcodings, hlengths⟩ := getAll_of_needsLength hm h
  have hmeasured : m.measured.line.allowsBody = true := hallows
  rw [Framing.decide_of_ofNat hmeasured hcodings hlengths hshort, if_neg (by simpa using hbody)]

theorem Framed.asWritten (h : m.Framed) (hm : m.Sound) (hshort : m.body.length < 16 ^ 16) :
    m.asWritten.Framed := by
  cases hneeds : m.needsLength with
  | false => rwa [asWritten_of_not_needsLength hneeds]
  | true =>
      rw [asWritten_of_needsLength hneeds]
      refine .counted (decide_measured hm hneeds hshort) ?_
      obtain ⟨-, hdecide, -⟩ := needsLength_eq_true_iff.mp hneeds
      cases h with
      | untilClose _ htrailers => exact htrailers
      | bodiless hother | counted hother | chunked hother =>
          rw [hdecide] at hother
          cases hother

/-! ## Writing -/

theorem declaresChunked_of_untilClose (hm : m.Sound)
    (hdecide : Framing.decide m.line m.headers = .untilClose) : m.declaresChunked = false := by
  obtain ⟨-, -, hcodings⟩ := Framing.of_untilClose hm.line hdecide
  refine Bool.eq_false_iff.mpr fun hchunked => ?_
  obtain ⟨coding, hlast, hcoding⟩ := declaresChunked_iff.mp hchunked
  rw [hcodings coding hlast] at hcoding
  cases hcoding

/-- The length that a message needs is declared when it is written. -/
theorem build_of_needsLength (hm : m.Sound) (h : m.needsLength = true)
    (htrailers : m.trailers.fields = []) :
    m.build false = .ok (headOctets m.line m.measured.headers.fields ++ m.body) := by
  obtain ⟨-, hdecide, hbody, hcoding⟩ := needsLength_eq_true_iff.mp h
  have hallows : m.line.allowsBody = true :=
    Framing.allowsBody_of_body? (congrArg Framing.Decision.body? hdecide)
  obtain ⟨-, hlengths, -⟩ := Framing.of_untilClose hm.line hdecide
  have hnoLength := hm.headers.indexed.getAll_eq_nil_iff.mp hlengths
  rw [build_eq_whole hm hallows (declaresChunked_of_untilClose hm hdecide) htrailers,
    writtenFields_of_undeclared hbody hnoLength hcoding]
  rfl

/-- Any other response that goes on until the input ends is written as it is. -/
theorem build_of_untilClose (hm : m.Sound)
    (hdecide : Framing.decide m.line m.headers = .untilClose) (h : m.needsLength = false)
    (htrailers : m.trailers.fields = []) :
    m.build false = .ok (headOctets m.line m.headers.fields ++ m.body) := by
  have hallows : m.line.allowsBody = true :=
    Framing.allowsBody_of_body? (congrArg Framing.Decision.body? hdecide)
  obtain ⟨hkind, -, -⟩ := Framing.of_untilClose hm.line hdecide
  refine build_eq_append hm hallows (declaresChunked_of_untilClose hm hdecide) htrailers ?_
  -- a body without a coding would have needed a length
  by_contra hno
  simp only [not_or, Bool.not_eq_true] at hno
  rw [needsLength_eq_true_iff.mpr ⟨hkind, hdecide, hno.1, hno.2.2⟩] at h
  cases h

/-- A head that decides that there is no body is all that is written. -/
theorem build_of_bodiless (hm : m.Sound) (hdecide : Framing.decide m.line m.headers = .empty)
    (hbody : m.body = []) (htrailers : m.trailers.fields = []) :
    m.build false = .ok (headOctets m.line m.headers.fields) := by
  cases hallows : m.line.allowsBody with
  | false => exact build_eq_head hm hallows htrailers false
  | true =>
      have hcodings : m.headers.getAll FieldName.transferEncoding = [] := by
        cases Framing.rule_of_decide hm.line hdecide rfl with
        | bodiless _ hline => simp [(Framing.bodiless_iff hm.line).mp hline] at hallows
        | zero _ hcodings => exact hcodings
        | none hcodings => exact hcodings
      have hbuild := build_eq_append hm hallows (declaresChunked_of_getAll hcodings) htrailers
        (.inl hbody)
      rwa [hbody, List.append_nil] at hbuild

theorem build_of_counted (hm : m.Sound) {n : Nat}
    (hdecide : Framing.decide m.line m.headers = .length n) (htrailers : m.trailers.fields = []) :
    m.build false = .ok (headOctets m.line m.headers.fields ++ m.body) := by
  have hallows : m.line.allowsBody = true :=
    Framing.allowsBody_of_body? (congrArg Framing.Decision.body? hdecide)
  cases Framing.rule_of_decide hm.line hdecide rfl with
  | length _ hcodings hlengths =>
      refine build_eq_append hm hallows (declaresChunked_of_getAll hcodings) htrailers
        (.inr (.inl ?_))
      by_contra hno
      exact hlengths (hm.headers.indexed.getAll_eq_nil_iff.mpr (by simpa using hno))

theorem build_of_chunked (hm : m.Sound) (hdecide : Framing.decide m.line m.headers = .chunked) :
    m.build false =
      .ok (headOctets m.line m.headers.fields ++ chunkedOctets [m.body] m.trailers.fields) := by
  have hallows : m.line.allowsBody = true :=
    Framing.allowsBody_of_body? (congrArg Framing.Decision.body? hdecide)
  cases Framing.rule_of_decide hm.line hdecide rfl with
  | chunked _ hlengths hlast hchunked =>
      exact build_eq_chunked hm hallows (declaresChunked_iff.mpr ⟨_, hlast, hchunked⟩) hlengths

theorem wire_of_ne_chunked (h : Framing.decide m.line m.headers ≠ .chunked) :
    m.wire = headOctets m.line m.headers.fields ++ m.body := by
  rw [wire, if_neg h]

/-- A message that needs a length is one that is not in chunks when it has been measured, however
long it is. -/
theorem wire_measured (hm : m.Sound) (h : m.needsLength = true) :
    m.measured.wire = headOctets m.line m.measured.headers.fields ++ m.body := by
  refine wire_of_ne_chunked fun hdecide => ?_
  obtain ⟨-, hlengths⟩ := getAll_of_needsLength hm h
  have hline : m.measured.line.Sound := hm.line
  cases Framing.rule_of_decide hline hdecide rfl with
  | chunked _ hnone => simp [hlengths] at hnone

/-- **A message that is framed as its head decides is written**, with a length if it needs one. -/
theorem Framed.build_eq (h : m.Framed) (hm : m.Sound) : m.build false = .ok m.asWritten.wire := by
  have hplain : Framing.decide m.line m.headers ≠ .untilClose → m.asWritten = m := by
    intro hdecide
    refine asWritten_of_not_needsLength (Bool.eq_false_iff.mpr fun hneeds => ?_)
    exact hdecide (needsLength_eq_true_iff.mp hneeds).2.1
  cases h with
  | bodiless hdecide hbody htrailers =>
      rw [hplain (by simp [hdecide]), wire_of_ne_chunked (by simp [hdecide]), hbody,
        List.append_nil]
      exact build_of_bodiless hm hdecide hbody htrailers
  | counted hdecide htrailers =>
      rw [hplain (by simp [hdecide]), wire_of_ne_chunked (by simp [hdecide])]
      exact build_of_counted hm hdecide htrailers
  | chunked hdecide =>
      rw [hplain (by simp [hdecide]), wire, if_pos hdecide]
      exact build_of_chunked hm hdecide
  | untilClose hdecide htrailers =>
      cases hneeds : m.needsLength with
      | false =>
          rw [asWritten_of_not_needsLength hneeds, wire_of_ne_chunked (by simp [hdecide])]
          exact build_of_untilClose hm hdecide hneeds htrailers
      | true =>
          rw [asWritten_of_needsLength hneeds, wire_measured hm hneeds]
          exact build_of_needsLength hm hneeds htrailers

/-! ## Reading again -/

/-- What a head decides does not depend on how its fields were read. -/
theorem decide_reread (hm : m.headers.Indexed) (o : Options) :
    Framing.decide m.line (o.noFields.appendAll m.headers.fields) =
      Framing.decide m.line m.headers := by
  unfold Framing.decide
  simp only [getAll_read, hm.getAll_eq]

/-- **What is written of a message that is framed as its head decides is read as the message.** -/
theorem Framed.conveys (h : m.Framed) (hindexed : m.headers.Indexed)
    (hhead : HeadFits o m.line m.headers.fields)
    (hchunks : ChunksFit o [m.body] m.trailers.fields) :
    Conveys o m.wire [m.reread o] := by
  have h0 : 0 ≤ o.limits.startLine := by
    have := hhead.startLine
    omega
  have halone : ∀ payloads, Delimited o m.wire (m.reread o) payloads →
      Conveys o m.wire [m.reread o] := fun _ hdelimited => hdelimited.conveys (wire_ne_nil m) h0
  have hsame := decide_reread hindexed o
  cases h with
  | bodiless hdecide hbody htrailers =>
      refine halone [] ?_
      rw [wire_of_ne_chunked (by simp [hdecide]), hbody, List.append_nil, reread, hbody, htrailers]
      exact delimited_bodiless hhead (hsame.trans hdecide)
  | counted hdecide htrailers =>
      have hne : m.body ≠ [] := by
        have := Framing.ne_zero_of_decide hdecide
        simpa using this
      refine halone [m.body] ?_
      rw [wire_of_ne_chunked (by simp [hdecide]), reread, htrailers]
      exact delimited_counted hhead hne (hsame.trans hdecide)
  | chunked hdecide =>
      have hdelimited := delimited_chunked hhead hchunks (hsame.trans hdecide)
      rw [List.flatten_singleton] at hdelimited
      refine halone ([m.body].filter (· ≠ [])) ?_
      rwa [wire, if_pos hdecide, reread]
  | untilClose hdecide htrailers =>
      rw [wire_of_ne_chunked (by simp [hdecide]), reread, htrailers]
      exact conveys_untilClose hhead m.body (hsame.trans hdecide)

/-! ## Writing again -/

theorem wire_reread (hm : m.headers.Indexed) (o : Options) : (m.reread o).wire = m.wire := by
  show headOctets m.line (o.noFields.appendAll m.headers.fields).fields ++
    (if Framing.decide m.line (o.noFields.appendAll m.headers.fields) = .chunked then
      chunkedOctets [m.body] (o.noFields.appendAll m.trailers.fields).fields else m.body) = _
  rw [decide_reread hm, Fields.fields_appendAll, Fields.fields_appendAll]
  rfl

theorem needsLength_reread (hm : m.headers.Indexed) (o : Options) :
    (m.reread o).needsLength = m.needsLength := by
  have hhas : (o.noFields.appendAll m.headers.fields).has FieldName.transferEncoding =
      m.headers.has FieldName.transferEncoding := by
    rw [((indexed_noFields o).appendAll m.headers.fields).has_eq, hm.has_eq,
      Fields.fields_appendAll]
    rfl
  show ((m.line.kind = .response : Bool) &&
    (Framing.decide m.line (o.noFields.appendAll m.headers.fields) = .untilClose : Bool) &&
      (m.body ≠ [] : Bool) &&
        !(o.noFields.appendAll m.headers.fields).has FieldName.transferEncoding) = _
  rw [decide_reread hm, hhas]
  rfl

theorem indexed_asWritten (hm : m.headers.Indexed) : m.asWritten.headers.Indexed := by
  unfold asWritten
  split_ifs
  · exact hm.append m.lengthField
  · exact hm

/-- As it is written, a message does not need a length. -/
theorem needsLength_asWritten (hm : m.Sound) (hshort : m.body.length < 16 ^ 16) :
    m.asWritten.needsLength = false := by
  cases hneeds : m.needsLength with
  | false => rwa [asWritten_of_not_needsLength hneeds]
  | true =>
      rw [asWritten_of_needsLength hneeds]
      refine Bool.eq_false_iff.mpr fun hagain => ?_
      obtain ⟨-, hdecide, -⟩ := needsLength_eq_true_iff.mp hagain
      rw [decide_measured hm hneeds hshort] at hdecide
      cases hdecide

end HttpCodec.Message
