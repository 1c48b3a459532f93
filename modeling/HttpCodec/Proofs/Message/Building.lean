import HttpCodec.Proofs.Framing.Rule
import HttpCodec.Proofs.Message.Wire

set_option autoImplicit false

/-! # When messages are not built

A message that was made is built, unless it has trailers that nothing can carry: its status allows
no body, or the length of its body is declared (`Message.Unbuildable`). No other error occurs
(`Message.Made.building`), as every line that the message leads to can be encoded.
-/

namespace HttpCodec

/-- The characters of a reason phrase that can be written. -/
theorem StatusLine.Sound.of_mem_reason {l : StatusLine} (h : l.Sound) {c : Char}
    (hc : c ∈ l.reason) : c.toNat < 0x100 ∧ (c.toNat < 0x20 ∨ c.toNat = 0x7F → c = '\t') := by
  obtain ⟨hlatin, hplain⟩ := StartLine.plain_of_isReason h.reason c hc
  refine ⟨of_decide_eq_true hlatin, fun hcontrol => ?_⟩
  by_contra hne
  rcases hcontrol with hlow | hdelete
  · simp [CharClass.isForbiddenControl, hlow, hne] at hplain
  · obtain rfl : c = '\x7f' := Char.toNat_inj.mp hdelete
    simp [CharClass.isForbiddenControl] at hplain

theorem Version.text_eq (v : Version) : v.text = "HTTP/1.0" ∨ v.text = "HTTP/1.1" := by
  cases v
  · exact .inl rfl
  · exact .inr rfl

namespace Message

/-- The values of `Transfer-Encoding`, in the order of the fields. -/
def codings (m : Message) : List Text :=
  Fields.valuesOf m.headers.fields (LetterCase.lower FieldName.transferEncoding)

/-- The values of `Content-Length`, in the order of the fields. -/
def lengths (m : Message) : List Text :=
  Fields.valuesOf m.headers.fields (LetterCase.lower FieldName.contentLength)

/-- Why a message is not built. -/
inductive Unbuildable (m : Message) (streaming : Bool) : MessageError → Prop
  /-- The status allows no body, so that no trailers can follow one. -/
  | bodiless {l : StatusLine} (hline : m.line = .response l) (hstatus : Framing.Bodiless m.line)
      (htrailers : m.trailers.fields ≠ []) : Unbuildable m streaming (.noTrailers l.status)
  /-- The last coding is not the chunked one, and the declared length rules it out. -/
  | counted (hline : ¬ Framing.Bodiless m.line) (hstreaming : streaming = false)
      (hcoding : ∀ coding, m.codings.getLast? = some coding →
        TransferCoding.isChunked coding = false)
      (hlengths : m.lengths ≠ []) (htrailers : m.trailers.fields ≠ []) :
      Unbuildable m streaming .trailersWithLength

variable {m : Message} {streaming : Bool}

theorem Sound.has_contentLength_eq (hm : m.Sound) :
    m.headers.has FieldName.contentLength = !m.lengths.isEmpty :=
  hm.headers.indexed.has_eq FieldName.contentLength

theorem Sound.declaresChunked_eq_false_iff (hm : m.Sound) :
    m.declaresChunked = false ↔
      ∀ coding, m.codings.getLast? = some coding → TransferCoding.isChunked coding = false := by
  have hiff : m.declaresChunked = true ↔
      ∃ coding, m.codings.getLast? = some coding ∧ TransferCoding.isChunked coding = true := by
    rw [declaresChunked_iff, hm.headers.indexed.getAll_eq]
    rfl
  rw [← Bool.not_eq_true, hiff]
  simp

theorem Sound.not_bodiless_iff (hm : m.Sound) :
    ¬ Framing.Bodiless m.line ↔ m.line.allowsBody = true := by
  rw [Framing.bodiless_iff hm.line, Bool.not_eq_false]

/-! ## Building -/

/-- A message that is not built is refused for the reason that is given. -/
theorem Unbuildable.build_eq {cause : MessageError} (h : m.Unbuildable streaming cause)
    (hm : m.Sound) : m.build streaming = .error (.refused cause) := by
  cases h with
  | @bodiless l hline hstatus htrailers =>
      have hallows := (Framing.bodiless_iff hm.line).mp hstatus
      rw [hline] at hallows
      have hbody : Status.hasBody l.status = false := hallows
      unfold build
      simp only [hline, hbody, Bool.false_eq_true, if_false, List.isEmpty_iff, if_neg htrailers]
  | counted hline hstreaming hcoding hlengths htrailers =>
      have hlength : m.headers.has FieldName.contentLength = true := by
        simp [hm.has_contentLength_eq, hlengths]
      rw [build_eq_write (hm.not_bodiless_iff.mp hline)]
      simp only [build.write, hstreaming, hm.declaresChunked_eq_false_iff.mpr hcoding,
        Bool.or_self, Bool.false_eq_true, if_false, List.isEmpty_iff, if_neg htrailers, hlength,
        if_true]

/-- A message that is not refused is built. -/
theorem exists_build (hm : m.Sound) (h : ∀ cause, ¬ m.Unbuildable streaming cause) :
    ∃ w, m.build streaming = .ok w := by
  by_cases hline : Framing.Bodiless m.line
  · have htrailers : m.trailers.fields = [] := by
      by_contra hsome
      obtain ⟨l, hresponse, -⟩ := id hline
      exact h _ (.bodiless hresponse hline hsome)
    exact ⟨_, build_eq_head hm ((Framing.bodiless_iff hm.line).mp hline) htrailers streaming⟩
  · have hallows := hm.not_bodiless_iff.mp hline
    -- a chunked body is written whatever the fields are
    have hchunks : (m.stream [.octets m.body] none).joined =
        .ok (headOctets m.line (chunkedFields m.headers.fields) ++
          chunkedOctets [m.body] m.trailers.fields) :=
      joined_stream hm hallows (reframed_chunkedFields m.headers.fields) rfl hm.trailers
    by_cases hchunked : streaming = true ∨ m.declaresChunked = true
    · exact ⟨_, (build_eq_stream hallows hchunked).trans hchunks⟩
    · obtain ⟨rfl, hdeclared⟩ : streaming = false ∧ m.declaresChunked = false := by
        simpa using hchunked
      by_cases htrailers : m.trailers.fields = []
      · exact ⟨_, build_eq_whole hm hallows hdeclared htrailers⟩
      · have hlengths : m.lengths = [] := by
          by_contra hsome
          exact h _ (.counted hline rfl (hm.declaresChunked_eq_false_iff.mp hdeclared) hsome
            htrailers)
        have hlength : m.headers.has FieldName.contentLength = false := by
          simp [hm.has_contentLength_eq, hlengths]
        exact ⟨_, (build_eq_stream_of_trailers hallows hdeclared htrailers hlength).trans hchunks⟩

/-- **The errors of building** are the ones that `Unbuildable` lists. -/
theorem Sound.build_eq_error_iff (hm : m.Sound) {fault : Fault} :
    m.build streaming = .error fault ↔
      ∃ cause, fault = .refused cause ∧ m.Unbuildable streaming cause := by
  constructor
  · intro hbuild
    by_cases h : ∃ cause, m.Unbuildable streaming cause
    · obtain ⟨cause, hcause⟩ := h
      rw [hcause.build_eq hm] at hbuild
      exact ⟨cause, (Except.error.inj hbuild).symm, hcause⟩
    · obtain ⟨w, hw⟩ := exists_build hm (not_exists.mp h)
      rw [hw] at hbuild
      cases hbuild
  · rintro ⟨cause, rfl, hcause⟩
    exact hcause.build_eq hm

/-- **What can be said of every message that was made**, however it has been changed since: the
parts of its start line are such that it can be written, there is no body where the status allows
none, and building fails in two cases only, always with a refusal. -/
theorem Made.building (hmade : m.Made) (streaming : Bool) :
    (∀ l, m.line = .request l →
      FieldName.isToken l.method = true ∧ l.path ≠ [] ∧ '?' ∉ l.path ∧ (∀ c ∈ l.path, Visible c) ∧
        ∀ c ∈ l.query, Visible c) ∧
    (∀ l, m.line = .response l →
      100 ≤ l.status ∧ l.status ≤ 599 ∧
        ∀ c ∈ l.reason, c.toNat < 0x100 ∧ (c.toNat < 0x20 ∨ c.toNat = 0x7F → c = '\t')) ∧
    (m.line.version.text = "HTTP/1.0" ∨ m.line.version.text = "HTTP/1.1") ∧
    (Framing.Bodiless m.line → m.body = []) ∧
    ∀ fault, m.build streaming = .error fault ↔
      ∃ cause, fault = .refused cause ∧ m.Unbuildable streaming cause := by
  have hm := hmade.sound
  refine ⟨fun l hline => ?_, fun l hline => ?_, m.line.version.text_eq, fun hstatus => ?_,
    fun fault => hm.build_eq_error_iff⟩
  · have hl : (StartLine.request l).Sound := hline ▸ hm.line
    exact ⟨hl.method, hl.path, hl.unqueried, hl.visiblePath, hl.visibleQuery⟩
  · have hl : (StartLine.response l).Sound := hline ▸ hm.line
    have hstatus := hl.status
    simp only [Status.isValid, Bool.and_eq_true, decide_eq_true_eq] at hstatus
    exact ⟨hstatus.1, hstatus.2, fun c hc => StatusLine.Sound.of_mem_reason hl hc⟩
  · have hallows := (Framing.bodiless_iff hm.line).mp hstatus
    exact hm.body.resolve_right (by simp [hallows])

/-- A request to which a trailer and a length are added, one after the other. -/
theorem building_of_trailers_with_length :
    let m : Message :=
      ⟨.request ⟨"GET", "/", [], .http11⟩, ({} : Fields).append ⟨"Content-Length", "0"⟩, [],
        ({} : Fields).append ⟨"T", "1"⟩⟩
    m.Made ∧ m.Unbuildable false .trailersWithLength ∧
      ∀ fault, m.build false = .error fault ↔
        ∃ cause, fault = .refused cause ∧ m.Unbuildable false cause := by
  intro m
  have hrequest : request "GET" "/" none {} =
      .ok ⟨.request ⟨"GET", "/", [], .http11⟩, {}, [], {}⟩ := rfl
  have hrequested := Made.request (Parts.filled_of_pairs _ _ _) hrequest
  have hmade : m.Made :=
    (hrequested.apply (.addTrailer (.text "T") (.text "1"))).apply (.setBody (.octets []))
  refine ⟨hmade, ?_, (hmade.building false).2.2.2.2⟩
  refine .counted ?_ rfl ?_ ?_ ?_
  · rintro ⟨l, hline, -⟩
    cases hline
  · intro coding hlast
    cases hlast
  · exact List.cons_ne_nil _ _
  · exact List.cons_ne_nil _ _

end Message

end HttpCodec
