import HttpCodec.Proofs.Parser.Input

set_option autoImplicit false

/-! # Messages that are built are read again

A message whose end can be told from what is built of it (`Message.SelfDelimiting`) is read as the
same message, whatever follows (`SelfDelimiting.rereadable`): chunks, a declared length, a request
that has no body and a status that allows none are the four cases. So messages that are built one
after the other are read again, as long as only the last one goes on until the input ends
(`parse_of_build`).
-/

namespace HttpCodec

open HttpCodec.Parser

namespace Message

/-! ## What is read again -/

/-- A message whose end can be told from its head. -/
inductive SelfDelimiting (m : Message) : Prop
  /-- The body is in chunks. -/
  | chunked (hallows : m.line.allowsBody = true) (hchunked : m.declaresChunked = true)
      (hlength : m.headers.has FieldName.contentLength = false)
  /-- The length of the body is declared once. -/
  | counted (hallows : m.line.allowsBody = true)
      (hlength : m.headers.getAll FieldName.contentLength = [Decimal.ofNat m.body.length])
      (hcoding : m.headers.has FieldName.transferEncoding = false)
      (htrailers : m.trailers.fields = [])
  /-- A request declares nothing and has no body, as its method allows. -/
  | undeclared {l : RequestLine} (hline : m.line = .request l)
      (hmethod : ¬ Framing.TakesBody l.method) (hbody : m.body = [])
      (hlength : m.headers.has FieldName.contentLength = false)
      (hcoding : m.headers.has FieldName.transferEncoding = false)
      (htrailers : m.trailers.fields = [])
  /-- The status of a response allows no body. -/
  | bodiless (hallows : m.line.allowsBody = false)
      (hboth : m.headers.has FieldName.transferEncoding = false ∨
        m.headers.has FieldName.contentLength = false)
      (htrailers : m.trailers.fields = [])

/-- A response whose body goes on until the input ends. -/
structure EndsWithInput (m : Message) : Prop where
  response : m.line.kind = .response
  allowsBody : m.line.allowsBody = true
  length : m.headers.has FieldName.contentLength = false
  trailers : m.trailers.fields = []
  /-- A coding is declared that is not chunked, or nothing is declared and there is no body. -/
  coding : (m.headers.has FieldName.transferEncoding = true ∧ m.declaresChunked = false) ∨
    (m.headers.has FieldName.transferEncoding = false ∧ m.body = [])

/-- Messages that can be told apart when they are written one after the other: only the last one
may go on until the input ends. -/
inductive Pipelined : List Message → Prop
  | nil : Pipelined []
  | last {m : Message} (h : m.EndsWithInput) : Pipelined [m]
  | cons {m : Message} {ms : List Message} (h : m.SelfDelimiting) (hrest : Pipelined ms) :
      Pipelined (m :: ms)

/-- What has to fit the limits of the parser. Lines of fields are never longer than the limit that
their own list was filled with (`Fields.Sound.sizes`). -/
structure Fits (limits : Limits) (m : Message) : Prop where
  startLine : m.line.text.length ≤ limits.startLine
  headers : m.headers.fields.length ≤ limits.headers
  headerLines : ∀ f ∈ m.headers.fields, f.size ≤ limits.headerLine
  trailers : m.trailers.fields.length ≤ limits.headers
  trailerLines : ∀ f ∈ m.trailers.fields, f.size ≤ limits.headerLine
  chunkLine : m.declaresChunked = true → 16 ≤ limits.chunkLine
  body : m.body.length < 16 ^ 16

variable {m : Message} {o : Options}

/-- The message as it is read again with certain options. -/
def reread (m : Message) (o : Options) : Message :=
  o.read m.line m.headers.fields m.body m.trailers.fields

theorem same_reread (m : Message) (o : Options) : m.same (m.reread o) = true := by
  simp [same, reread, Options.read, Options.noFields, Fields.fields_appendAll]

/-- What is looked up in the fields that are read is what is looked up in those of the message. -/
theorem getAll_reread (hm : m.Sound) (o : Options) (name : Text) :
    (o.noFields.appendAll m.headers.fields).getAll name = m.headers.getAll name := by
  rw [getAll_read, hm.headers.indexed.getAll_eq]

theorem Fits.head (h : m.Fits o.limits) (hm : m.Sound) (h0 : 0 ≤ o.limits.headerLine)
    (hkind : o.kind = none ∨ o.kind = some m.line.kind) :
    HeadFits o m.line m.headers.fields where
  soundLine := hm.line
  soundFields := hm.headers.fields
  kind := hkind
  startLine := h.startLine
  headerLine := h0
  sizes := h.headerLines
  count := by
    have := h.headers
    omega

/-- The message is built, and what is built of it is read as the same message, whatever follows. -/
def Rereadable (m : Message) (o : Options) : Prop :=
  ∃ w payloads, m.build false = .ok w ∧ w ≠ [] ∧ Delimited o w (m.reread o) payloads

/-- What reading the message again fails with, if it is built. -/
def rereadFailure? (m : Message) (limits : Limits) : Option ParseFailure :=
  (m.build false).toOption.bind fun w => failure? (parse w none limits)

theorem rereadFailure?_eq_some_iff {limits : Limits} {failure : ParseFailure} :
    m.rereadFailure? limits = some failure ↔
      ∃ w, m.build false = .ok w ∧ parse w none limits = .error failure := by
  simp only [rereadFailure?, Option.bind_eq_some_iff, toOption_eq_some_iff, failure?_eq_some_iff]

/-! ## Each message -/

/-- A head that is all of the message. -/
theorem rereadable_of_head (hhead : HeadFits o m.line m.headers.fields)
    (hbuild : m.build false = .ok (headOctets m.line m.headers.fields))
    (hbody : m.body = []) (htrailers : m.trailers.fields = [])
    (hdecide : Framing.decide m.line (o.noFields.appendAll m.headers.fields) = .empty) :
    m.Rereadable o := by
  refine ⟨_, [], hbuild, headOctets_ne_nil _ _, ?_⟩
  unfold reread
  rw [hbody, htrailers]
  exact delimited_bodiless hhead hdecide

section

variable (hm : m.Sound) (hhead : HeadFits o m.line m.headers.fields)

include hm hhead

theorem rereadable_of_chunked (hfits : m.Fits o.limits) (hallows : m.line.allowsBody = true)
    (hchunked : m.declaresChunked = true)
    (hlength : m.headers.has FieldName.contentLength = false) :
    m.Rereadable o := by
  obtain ⟨coding, hlast, hcoding⟩ := declaresChunked_iff.mp hchunked
  have hnone := hm.headers.indexed.getAll_eq_nil_iff.mpr hlength
  have hbuild := build_eq_chunked hm hallows hchunked hnone
  have hdecide : Framing.decide m.line (o.noFields.appendAll m.headers.fields) = .chunked := by
    rw [Framing.decide_of_coding hallows (by rw [getAll_reread hm, hlast])
      (by rw [getAll_reread hm, hnone])]
    exact if_pos hcoding
  have hcount : m.trailers.fields.length ≤ o.limits.headers.toNat := by
    have := hfits.trailers
    omega
  have hchunks : ChunksFit o [m.body] m.trailers.fields :=
    chunksFit_of_le (hfits.chunkLine hchunked) (by simpa using hfits.body) hm.trailers.fields
      hfits.trailerLines hcount
  have hdelimited := delimited_chunked hhead hchunks hdecide
  rw [List.flatten_singleton] at hdelimited
  exact ⟨_, _, hbuild, by simp [headOctets_ne_nil], hdelimited⟩

theorem rereadable_of_counted (hfits : m.Fits o.limits) (hallows : m.line.allowsBody = true)
    (hlength : m.headers.getAll FieldName.contentLength = [Decimal.ofNat m.body.length])
    (hcoding : m.headers.has FieldName.transferEncoding = false)
    (htrailers : m.trailers.fields = []) : m.Rereadable o := by
  have hnone := hm.headers.indexed.getAll_eq_nil_iff.mpr hcoding
  have hhas : m.headers.has FieldName.contentLength = true := by
    by_contra hno
    rw [hm.headers.indexed.getAll_eq_nil_iff.mpr (by simpa using hno)] at hlength
    cases hlength
  have hbuild := build_eq_append hm hallows (declaresChunked_of_getAll hnone) htrailers
    (Or.inr (Or.inl hhas))
  have hdecide : Framing.decide m.line (o.noFields.appendAll m.headers.fields) =
      if m.body.length = 0 then .empty else .length m.body.length :=
    Framing.decide_of_ofNat hallows (by rw [getAll_reread hm, hnone])
      (by rw [getAll_reread hm, hlength]) hfits.body
  -- a declared length of zero decides that there is no body
  by_cases hempty : m.body = []
  · rw [if_pos (by simp [hempty])] at hdecide
    rw [hempty, List.append_nil] at hbuild
    refine ⟨_, [], hbuild, headOctets_ne_nil _ _, ?_⟩
    unfold reread
    rw [htrailers, hempty]
    exact delimited_bodiless hhead hdecide
  · rw [if_neg (by simpa using hempty)] at hdecide
    refine ⟨_, [m.body], hbuild, by simp [hempty], ?_⟩
    unfold reread
    rw [htrailers]
    exact delimited_counted hhead hempty hdecide

theorem rereadable_of_undeclared {l : RequestLine} (hline : m.line = .request l)
    (hmethod : ¬ Framing.TakesBody l.method) (hbody : m.body = [])
    (hlength : m.headers.has FieldName.contentLength = false)
    (hcoding : m.headers.has FieldName.transferEncoding = false)
    (htrailers : m.trailers.fields = []) : m.Rereadable o := by
  have hallows : m.line.allowsBody = true := by rw [hline]; rfl
  have hnoLength := hm.headers.indexed.getAll_eq_nil_iff.mpr hlength
  have hnoCoding := hm.headers.indexed.getAll_eq_nil_iff.mpr hcoding
  have hbuild := build_eq_append hm hallows (declaresChunked_of_getAll hnoCoding) htrailers
    (Or.inl hbody)
  rw [hbody, List.append_nil] at hbuild
  refine rereadable_of_head hhead hbuild hbody htrailers ?_
  rw [Framing.decide_of_nothing hallows (by rw [getAll_reread hm, hnoCoding])
    (by rw [getAll_reread hm, hnoLength]), hline, Framing.ofNothing_of_request, if_neg hmethod]

theorem rereadable_of_bodiless (hallows : m.line.allowsBody = false)
    (hboth : m.headers.has FieldName.transferEncoding = false ∨
      m.headers.has FieldName.contentLength = false) (htrailers : m.trailers.fields = []) :
    m.Rereadable o := by
  have hbody : m.body = [] := hm.body.resolve_right (by simp [hallows])
  refine rereadable_of_head hhead (build_eq_head hm hallows htrailers false) hbody htrailers ?_
  refine Framing.decide_of_not_allowsBody hallows ?_
  rw [getAll_reread hm, getAll_reread hm, hm.headers.indexed.getAll_eq_nil_iff,
    hm.headers.indexed.getAll_eq_nil_iff]
  exact hboth

/-- **A message whose end can be told from its head is read again, whatever follows.** -/
theorem SelfDelimiting.rereadable (h : m.SelfDelimiting) (hfits : m.Fits o.limits) :
    m.Rereadable o := by
  cases h with
  | chunked hallows hchunked hlength =>
      exact rereadable_of_chunked hm hhead hfits hallows hchunked hlength
  | counted hallows hlength hcoding htrailers =>
      exact rereadable_of_counted hm hhead hfits hallows hlength hcoding htrailers
  | undeclared hline hmethod hbody hlength hcoding htrailers =>
      exact rereadable_of_undeclared hm hhead hline hmethod hbody hlength hcoding htrailers
  | bodiless hallows hboth htrailers =>
      exact rereadable_of_bodiless hm hhead hallows hboth htrailers

omit hhead in
theorem EndsWithInput.decide_eq (h : m.EndsWithInput) (o : Options) :
    Framing.decide m.line (o.noFields.appendAll m.headers.fields) = .untilClose := by
  have hnoLength : (o.noFields.appendAll m.headers.fields).getAll FieldName.contentLength = [] := by
    rw [getAll_reread hm, hm.headers.indexed.getAll_eq_nil_iff]
    exact h.length
  rcases h.coding with ⟨hsome, hchunked⟩ | ⟨hnone, _⟩
  · cases hlast : (m.headers.getAll FieldName.transferEncoding).getLast? with
    | none =>
        rw [List.getLast?_eq_none_iff, hm.headers.indexed.getAll_eq_nil_iff, hsome] at hlast
        cases hlast
    | some coding =>
        have hcoding : TransferCoding.isChunked coding = false := by
          simpa [declaresChunked, hlast] using hchunked
        rw [Framing.decide_of_coding h.allowsBody (by rw [getAll_reread hm, hlast]) hnoLength]
        exact Framing.ofCoding_of_response h.response hcoding
  · have hnoCoding := hm.headers.indexed.getAll_eq_nil_iff.mpr hnone
    rw [Framing.decide_of_nothing h.allowsBody (by rw [getAll_reread hm, hnoCoding]) hnoLength]
    exact Framing.ofNothing_of_response h.response

/-- **A response whose body goes on until the input ends** is read again as the last message. -/
theorem EndsWithInput.conveys (h : m.EndsWithInput) :
    ∃ w, m.build false = .ok w ∧ Conveys o w [m.reread o] := by
  have hchunked : m.declaresChunked = false := by
    rcases h.coding with ⟨_, hchunked⟩ | ⟨hnone, _⟩
    · exact hchunked
    · exact declaresChunked_of_getAll (hm.headers.indexed.getAll_eq_nil_iff.mpr hnone)
  -- nothing makes the writer declare a length of its own
  have hdeclared : m.body = [] ∨ m.headers.has FieldName.contentLength = true ∨
      m.headers.has FieldName.transferEncoding = true := by
    rcases h.coding with ⟨hsome, _⟩ | ⟨_, hbody⟩
    · exact Or.inr (Or.inr hsome)
    · exact Or.inl hbody
  have hbuild := build_eq_append hm h.allowsBody hchunked h.trailers hdeclared
  refine ⟨_, hbuild, ?_⟩
  unfold reread
  rw [h.trailers]
  exact conveys_untilClose hhead m.body (h.decide_eq hm o)

end

/-! ## All messages -/

/-- **What is built of messages, one after the other, conveys them.** -/
theorem Pipelined.conveys {ms : List Message} (h : Pipelined ms) (hsound : ∀ m ∈ ms, m.Sound)
    (hhead : ∀ m ∈ ms, HeadFits o m.line m.headers.fields) (hfits : ∀ m ∈ ms, m.Fits o.limits)
    (h0 : 0 ≤ o.limits.startLine) :
    ∃ wires, ms.mapM (·.build false) = .ok wires ∧
      Conveys o wires.flatten (ms.map (·.reread o)) := by
  -- by induction from the last message, which alone may go on until the input ends
  induction h with
  | nil => exact ⟨[], rfl, conveys_nil h0⟩
  | @last m hlast =>
      obtain ⟨w, hbuild, hconveys⟩ := hlast.conveys (hsound m (by simp)) (hhead m (by simp))
      refine ⟨[w], ?_, by simpa using hconveys⟩
      rw [List.mapM_cons, hbuild]
      rfl
  | @cons m ms hm _ ih =>
      obtain ⟨w, payloads, hbuild, hne, hdelimited⟩ := hm.rereadable (hsound m (by simp))
        (hhead m (by simp)) (hfits m (by simp))
      obtain ⟨wires, hrest, hconveys⟩ := ih (fun m hm => hsound m (by simp [hm]))
        (fun m hm => hhead m (by simp [hm])) (fun m hm => hfits m (by simp [hm]))
      refine ⟨w :: wires, ?_, hdelimited.conveys_append hne hconveys⟩
      rw [List.mapM_cons, hbuild, hrest]
      rfl

end Message

open Message

/-- **Messages that are built one after the other are read again.** Whatever messages have been made
and changed, if all but the last one end by themselves and the limits leave room for them, they are
built, and parsing what was built gives the same messages. -/
theorem parse_of_build {ms : List Message} {kind : Option Kind} {limits : Limits}
    (hstart : 0 ≤ limits.startLine) (hheader : 0 ≤ limits.headerLine)
    (hmade : ∀ m ∈ ms, m.Made) (hkind : ∀ m ∈ ms, kind = none ∨ kind = some m.line.kind)
    (hfits : ∀ m ∈ ms, m.Fits limits) (hms : Pipelined ms) :
    ∃ wires ns, ms.mapM (·.build false) = .ok wires ∧ parse wires.flatten kind limits = .ok ns ∧
      List.Forall₂ (fun m n => m.same n = true) ms ns := by
  have hhead : ∀ m ∈ ms, HeadFits { kind, limits } m.line m.headers.fields := fun m hm =>
    (hfits m hm).head (hmade m hm).sound hheader (hkind m hm)
  obtain ⟨wires, hbuild, hconveys⟩ := hms.conveys (fun m hm => (hmade m hm).sound) hhead hfits hstart
  refine ⟨wires, _, hbuild, parse_of_conveys hconveys, ?_⟩
  rw [List.forall₂_map_right_iff]
  exact List.forall₂_same.mpr fun m _ => same_reread m _

/-- A request with a chunked body before a response that goes on until the input ends. -/
theorem parse_of_build_chunked :
    let put : Message :=
      ⟨.request ⟨"PUT", "/a", "b=1", .http11⟩, ({} : Fields).append chunkedField,
        Chunk.ascii "abc", ({} : Fields).append ⟨"T", "1"⟩⟩
    let ok : Message := ⟨.response ⟨.http10, 200, "OK"⟩, {}, [], {}⟩
    ∃ wires ns, [put, ok].mapM (·.build false) = .ok wires ∧
      parse wires.flatten none {} = .ok ns ∧
      List.Forall₂ (fun m n => m.same n = true) [put, ok] ns := by
  intro put ok
  have hput : put.Made := by
    have hadd : ({} : Fields).add "T" (.text "1") = .ok put.trailers := rfl
    have hrequest : request "PUT" "/a?b=1" none
        { headers := .pairs [(.text "Transfer-Encoding", .text "chunked")]
          body := .octets (Chunk.ascii "abc")
          trailers := some put.trailers } = .ok put := rfl
    refine .request ⟨?_, fun fs hfs => ?_⟩ hrequest
    · trivial
    · cases hfs
      exact .add (.empty true 8192) hadd
  have hok : ok.Made := by
    have hresponse : response 200 none { protocol := "HTTP/1.0" } = .ok ok := rfl
    refine .response ⟨?_, fun fs hfs => ?_⟩ hresponse
    · trivial
    · cases hfs
  have hfits : put.Fits {} ∧ ok.Fits {} := by
    constructor <;> constructor <;> decide
  refine parse_of_build (by decide) (by decide) ?_ (fun _ _ => Or.inl rfl) ?_ ?_
  · rintro m (_ | ⟨_, _ | ⟨_, hm⟩⟩)
    · exact hput
    · exact hok
    · cases hm
  · rintro m (_ | ⟨_, _ | ⟨_, hm⟩⟩)
    · exact hfits.1
    · exact hfits.2
    · cases hm
  · refine .cons (.chunked rfl (by decide) (by decide)) (.last ?_)
    exact ⟨rfl, rfl, by decide, rfl, Or.inr ⟨by decide, rfl⟩⟩

end HttpCodec
