import HttpCodec.Proofs.Fields
import HttpCodec.Proofs.Message
import HttpCodec.Proofs.StartLine

set_option autoImplicit false

/-! # Messages that can be written

`Message.Made` are the messages that the constructors make and the changes lead to, whatever the
changes are and whether they succeed. All of them are sound (`Made.sound`): the start line can be
written, the fields are sound, and there is no body where the status allows none.
-/

namespace HttpCodec

open StartLine (isTarget isTarget_iff)

/-! ## Parts of start lines -/

/-- The parts of a target are visible where the target is. -/
theorem cut_target {target path query : Text} (h : isTarget target = true)
    (hcut : cut '?' target = (path, query)) :
    '?' ∉ path ∧ (∀ c ∈ path, Visible c) ∧ ∀ c ∈ query, Visible c := by
  have hvisible := (isTarget_iff.mp h).2
  unfold cut at hcut
  simp only [Prod.mk.injEq] at hcut
  obtain ⟨rfl, rfl⟩ := hcut
  refine ⟨fun hmem => ?_, fun c hc => ?_, fun c hc => ?_⟩
  · simpa using List.mem_takeWhile_imp hmem
  · exact hvisible c (List.takeWhile_subset _ hc)
  · exact hvisible c ((List.dropWhile_suffix _).subset (List.mem_of_mem_drop hc))

namespace RequestLine

variable {l made : RequestLine}

theorem setMethod_eq_ok_iff {method : Text} :
    l.setMethod method = .ok made ↔
      FieldName.isToken method = true ∧ { l with method } = made := by
  unfold setMethod
  split_ifs with h <;> simp [h]

theorem of_setUrl {target : Text} (h : l.setUrl target = .ok made) :
    ∃ path query, path ≠ [] ∧ '?' ∉ path ∧ (∀ c ∈ path, Visible c) ∧ (∀ c ∈ query, Visible c) ∧
      { l with path, query } = made := by
  unfold setUrl at h
  split_ifs at h with htarget
  have htarget : isTarget target = true := by simpa using htarget
  rcases hcut : cut '?' target with ⟨path, query⟩
  simp only [hcut] at h
  split_ifs at h with hempty
  cases h
  obtain ⟨hunqueried, hpath, hquery⟩ := cut_target htarget hcut
  exact ⟨path, query, by simpa using hempty, hunqueried, hpath, hquery, rfl⟩

theorem of_setQuery {query : Text} (h : l.setQuery query = .ok made) :
    (∀ c ∈ query, Visible c) ∧ { l with query } = made := by
  unfold setQuery at h
  split_ifs at h with hquery
  cases h
  refine ⟨?_, rfl⟩
  cases query with
  | nil => exact fun c hc => absurd hc List.not_mem_nil
  | cons c query =>
      have htarget : isTarget (c :: query) = true := by simpa using hquery
      exact (isTarget_iff.mp htarget).2

theorem Sound.setMethod (hl : l.Sound) {method : Text} (h : l.setMethod method = .ok made) :
    made.Sound := by
  obtain ⟨hmethod, rfl⟩ := setMethod_eq_ok_iff.mp h
  exact ⟨hmethod, hl.path, hl.unqueried, hl.visiblePath, hl.visibleQuery⟩

/-- A target can be set whatever the target was before. -/
theorem sound_setUrl (hl : FieldName.isToken l.method = true) {target : Text}
    (h : l.setUrl target = .ok made) : made.Sound := by
  obtain ⟨path, query, hne, hunqueried, hpath, hquery, rfl⟩ := of_setUrl h
  exact ⟨hl, hne, hunqueried, hpath, hquery⟩

theorem Sound.setQuery (hl : l.Sound) {query : Text} (h : l.setQuery query = .ok made) :
    made.Sound := by
  obtain ⟨hquery, rfl⟩ := of_setQuery h
  exact ⟨hl.method, hl.path, hl.unqueried, hl.visiblePath, hquery⟩

theorem sound_of_make {version : Version} {method target : Text} {query : Option Text}
    (h : make version method target query = .ok made) : made.Sound := by
  obtain ⟨l, hmethod, hrest⟩ := bind_eq_ok_iff.mp h
  obtain ⟨l', hurl, hlast⟩ := bind_eq_ok_iff.mp hrest
  obtain ⟨htoken, rfl⟩ := setMethod_eq_ok_iff.mp hmethod
  have hl' : l'.Sound := sound_setUrl htoken hurl
  cases query with
  | none =>
      cases hlast
      exact hl'
  | some query => exact hl'.setQuery hlast

/-- The parts of a sound line make it again. -/
theorem make_of_sound (h : l.Sound) :
    make l.version l.method l.path (if l.query.isEmpty then none else some l.query) = .ok l := by
  have hpath : isTarget l.path = true := isTarget_iff.mpr ⟨h.path, h.visiblePath⟩
  have hne : l.path.isEmpty = false := by simpa using h.path
  have hmethod : RequestLine.setMethod ⟨[], [], [], l.version⟩ l.method =
      .ok ⟨l.method, [], [], l.version⟩ := if_pos h.method
  have hurl : RequestLine.setUrl ⟨l.method, [], [], l.version⟩ l.path =
      .ok ⟨l.method, l.path, [], l.version⟩ := by
    simp only [setUrl, hpath, cut_of_not_mem h.unqueried, hne, Bool.not_true, Bool.false_eq_true,
      if_false]
  show (RequestLine.setMethod ⟨[], [], [], l.version⟩ l.method >>= fun l' => l'.setUrl l.path >>= _) =
    _
  rw [hmethod]
  show (RequestLine.setUrl ⟨l.method, [], [], l.version⟩ l.path >>= _) = _
  rw [hurl]
  by_cases hquery : l.query = []
  · rw [hquery]
    show Except.ok _ = Except.ok l
    rw [← hquery]
  · have htarget : isTarget l.query = true := isTarget_iff.mpr ⟨hquery, h.visibleQuery⟩
    rw [if_neg (by simpa using hquery)]
    show setQuery ⟨l.method, l.path, [], l.version⟩ l.query = .ok l
    simp only [setQuery, htarget, Bool.not_true, Bool.and_false, Bool.false_eq_true, if_false]

end RequestLine

namespace StatusLine

variable {l made : StatusLine}

theorem of_setStatus {status : Int} {reason : Option Text} {body : Octets}
    (h : l.setStatus status reason body = .ok made) :
    made.Sound ∧ (body = [] ∨ Status.hasBody made.status = true) := by
  simp only [setStatus] at h
  split_ifs at h with hvalid hreason hbody
  cases h
  refine ⟨⟨by simpa using hvalid, by simpa using hreason⟩, ?_⟩
  simp only [Bool.and_eq_true, Bool.not_eq_true', not_and, Bool.not_eq_false,
    List.isEmpty_eq_false_iff] at hbody
  exact or_iff_not_imp_left.mpr hbody

/-- The parts of a sound line make it again, with a body that the status allows. -/
theorem make_of_sound (h : l.Sound) {body : Octets}
    (hbody : body = [] ∨ Status.hasBody l.status = true) :
    make l.version l.status (some l.reason) body = .ok l := by
  have hallowed : (!body.isEmpty && !Status.hasBody l.status) = false := by
    rcases hbody with rfl | hbody
    · rfl
    · simp [hbody]
  simp only [make, setStatus, Option.getD_some, h.status, h.reason, hallowed, Bool.not_true,
    Bool.false_eq_true, if_false]

end StatusLine

namespace Message

/-- **A message whose parts can be written is made of them.** -/
theorem ofStartLine_of_sound {line : StartLine} (h : line.Sound) (headers trailers : Fields)
    {body : Octets} (hbody : body = [] ∨ line.allowsBody = true) :
    ofStartLine line headers body trailers = .ok ⟨line, headers, body, trailers⟩ := by
  cases line with
  | request l =>
      show Except.map _ (RequestLine.make _ _ _ _) = _
      rw [RequestLine.make_of_sound h]
      rfl
  | response l =>
      show Except.map _ (StatusLine.make _ _ _ _) = _
      rw [StatusLine.make_of_sound h hbody]
      rfl

/-! ## Messages that are made and changed -/

/-- Tells that the fields that a message is made of are a list that was filled, if they are one. -/
def HeaderSource.Filled : HeaderSource → Prop
  | .ready fs => fs.Filled
  | .pairs _ => True

/-- Tells that the field lists that a message is made of were filled. -/
structure Parts.Filled (parts : Parts) : Prop where
  headers : parts.headers.Filled
  trailers : ∀ fs, parts.trailers = some fs → fs.Filled

/-- There is no list of fields among parts that come as pairs. -/
theorem Parts.filled_of_pairs (protocol : Text) (pairs : List (Scalar × FieldValue))
    (body : Content) : Filled { protocol, headers := .pairs pairs, body } :=
  ⟨trivial, fun _ hfs => nomatch hfs⟩

/-- The messages that are made by the constructors and changed in any way. The field lists of a
message may be changed on their own. -/
inductive Made : Message → Prop
  | request {method target : Text} {query : Option Text} {parts : Parts} {m : Message}
      (hparts : parts.Filled) (h : request method target query parts = .ok m) : Made m
  | response {status : Int} {reason : Option Text} {parts : Parts} {m : Message}
      (hparts : parts.Filled) (h : response status reason parts = .ok m) : Made m
  | respond {status : Int} {content : Option Content} {contentType : Option FieldValue}
      {keepAlive : Bool} {reason : Option Text} {protocol : Text} {m : Message}
      (h : respond status content contentType keepAlive reason protocol = .ok m) : Made m
  | apply {m : Message} (h : Made m) (e : Edit) : Made (m.apply e).1
  | headers {m : Message} {fs : Fields} (h : Made m) (hfs : fs.Filled) :
      Made { m with headers := fs }
  | trailers {m : Message} {fs : Fields} (h : Made m) (hfs : fs.Filled) :
      Made { m with trailers := fs }

/-- A message whose parts can be written. -/
structure Sound (m : Message) : Prop where
  line : m.line.Sound
  headers : m.headers.Sound
  trailers : m.trailers.Sound
  body : m.body = [] ∨ m.line.allowsBody = true

theorem HeaderSource.sound_of_read {source : HeaderSource} {fs : Fields} (hsource : source.Filled)
    (h : source.read = .ok fs) : fs.Sound := by
  cases source with
  | ready gs =>
      cases h
      exact Fields.Filled.sound hsource
  | pairs ps =>
      have hempty : Fields.Filled {} := .empty true 8192
      exact (hempty.addAll h).sound

theorem Parts.sound_of_read {parts : Parts} {version : Version} {headers trailers : Fields}
    {body : Octets} (hparts : parts.Filled)
    (h : parts.read = .ok (version, headers, body, trailers)) : headers.Sound ∧ trailers.Sound := by
  unfold Parts.read at h
  split at h
  · cases h
  next v hversion =>
    obtain ⟨hs, hheaders, hrest⟩ := bind_eq_ok_iff.mp h
    obtain ⟨octets, hbody, hlast⟩ := bind_eq_ok_iff.mp hrest
    cases hlast
    refine ⟨HeaderSource.sound_of_read hparts.headers (mapError_eq_ok_iff.mp hheaders), ?_⟩
    cases htrailers : parts.trailers with
    | none => exact Fields.sound_empty true 8192
    | some fs => exact (hparts.trailers fs htrailers).sound

theorem sound_of_request {method target : Text} {query : Option Text} {parts : Parts} {m : Message}
    (hparts : parts.Filled) (h : request method target query parts = .ok m) : m.Sound := by
  obtain ⟨⟨version, headers, body, trailers⟩, hread, hrest⟩ := bind_eq_ok_iff.mp h
  obtain ⟨line, hline, hlast⟩ := bind_eq_ok_iff.mp hrest
  obtain ⟨hheaders, htrailers⟩ := Parts.sound_of_read hparts hread
  cases hlast
  exact ⟨RequestLine.sound_of_make (mapError_eq_ok_iff.mp hline), hheaders, htrailers, Or.inr rfl⟩

theorem sound_of_response {status : Int} {reason : Option Text} {parts : Parts} {m : Message}
    (hparts : parts.Filled) (h : response status reason parts = .ok m) : m.Sound := by
  obtain ⟨⟨version, headers, body, trailers⟩, hread, hrest⟩ := bind_eq_ok_iff.mp h
  obtain ⟨line, hline, hlast⟩ := bind_eq_ok_iff.mp hrest
  obtain ⟨hheaders, htrailers⟩ := Parts.sound_of_read hparts hread
  obtain ⟨hsound, hbody⟩ := StatusLine.of_setStatus (mapError_eq_ok_iff.mp hline)
  cases hlast
  exact ⟨hsound, hheaders, htrailers, hbody⟩

variable {m changed : Message}

theorem Sound.changeRequest (hm : m.Sound) {change : RequestLine → Except MessageError RequestLine}
    (hchange : ∀ l l', l.Sound → change l = .ok l' → l'.Sound)
    (h : m.changeRequest change = .ok changed) : changed.Sound := by
  unfold Message.changeRequest at h
  split at h
  next l hline =>
    obtain ⟨l', hl', rfl⟩ := map_eq_ok_iff.mp (mapError_eq_ok_iff.mp h)
    have hl : (StartLine.request l).Sound := hline ▸ hm.line
    exact ⟨hchange l l' hl hl', hm.headers, hm.trailers, Or.inr rfl⟩
  · cases h

theorem Sound.setStatus (hm : m.Sound) {status : Int} {reason : Option Text}
    (h : m.setStatus status reason = .ok changed) : changed.Sound := by
  unfold Message.setStatus at h
  split at h
  next l hline =>
    obtain ⟨l', hl', rfl⟩ := map_eq_ok_iff.mp (mapError_eq_ok_iff.mp h)
    obtain ⟨hsound, hbody⟩ := StatusLine.of_setStatus hl'
    exact ⟨hsound, hm.headers, hm.trailers, hbody⟩
  · cases h

theorem Sound.setHeader (hm : m.Sound) {name : Scalar} {value : Option FieldValue}
    (h : m.setHeader name value = .ok changed) : changed.Sound := by
  obtain ⟨text, _, hrest⟩ := bind_eq_ok_iff.mp (mapError_eq_ok_iff.mp h)
  cases value with
  | none =>
      cases hrest
      exact ⟨hm.line, hm.headers.remove text, hm.trailers, hm.body⟩
  | some value =>
      obtain ⟨fs, hset, hlast⟩ := bind_eq_ok_iff.mp hrest
      cases hlast
      exact ⟨hm.line, hm.headers.set hset, hm.trailers, hm.body⟩

theorem Sound.addHeader (hm : m.Sound) {name : Scalar} {value : FieldValue}
    (h : m.addHeader name value = .ok changed) : changed.Sound := by
  obtain ⟨text, _, hrest⟩ := bind_eq_ok_iff.mp (mapError_eq_ok_iff.mp h)
  obtain ⟨fs, hadd, hlast⟩ := bind_eq_ok_iff.mp hrest
  cases hlast
  exact ⟨hm.line, hm.headers.add hadd, hm.trailers, hm.body⟩

theorem Sound.addTrailer (hm : m.Sound) {name : Scalar} {value : FieldValue}
    (h : m.addTrailer name value = .ok changed) : changed.Sound := by
  obtain ⟨text, _, hrest⟩ := bind_eq_ok_iff.mp (mapError_eq_ok_iff.mp h)
  obtain ⟨fs, hadd, hlast⟩ := bind_eq_ok_iff.mp hrest
  cases hlast
  exact ⟨hm.line, hm.headers, hm.trailers.add hadd, hm.body⟩

/-- Content that is not there, as far as that can be told, has no octets. -/
theorem eq_nil_of_not_isPresent {content : Content} {body : Octets}
    (h : content.isPresent = false) (hbody : content.toOctets = .ok body) : body = [] := by
  match content with
  | .octets data =>
      cases hbody
      simpa [Content.isPresent] using h
  | .scalar .null =>
      cases hbody
      rfl
  | .scalar (.text t) =>
      cases hbody
      have ht : t = [] := by simpa [Content.isPresent, Scalar.isTruthy] using h
      rw [ht]
      rfl
  | .scalar (.boolean _) => cases hbody
  | .scalar (.integer _) => cases hbody

/-- Whether or not the length of the body has room in the header fields, the body is one that the
start line allows. -/
theorem Sound.setBody (hm : m.Sound) (content : Content) : (m.setBody content).1.Sound := by
  -- the body is set before its length, which may be refused
  have hwrite (hallows : ∀ body, content.toOctets = .ok body → body = [] ∨ m.line.allowsBody = true) :
      (setBody.write m content).1.Sound := by
    unfold setBody.write
    cases hbody : content.toOctets with
    | error cause => exact hm
    | ok body =>
        dsimp only
        cases hset : m.headers.set FieldName.contentLength (.text (Decimal.ofNat body.length)) with
        | error cause => exact ⟨hm.line, hm.headers, hm.trailers, hallows body hbody⟩
        | ok fs => exact ⟨hm.line, hm.headers.set hset, hm.trailers, hallows body hbody⟩
  unfold Message.setBody
  split
  next l hline => exact hwrite fun _ _ => Or.inr (by rw [hline]; rfl)
  next l hline =>
    split_ifs with hrefused
    · exact hm
    -- only content that is there is refused, so what is not there must have no octets
    · refine hwrite fun body hbody => ?_
      by_cases hpresent : content.isPresent = true
      · right
        rw [hline]
        show Status.hasBody l.status = true
        simpa [hpresent] using hrefused
      · exact Or.inl (eq_nil_of_not_isPresent (by simpa using hpresent) hbody)

theorem Sound.settle (hm : m.Sound) {r : Except Fault Message}
    (h : ∀ changed, r = .ok changed → changed.Sound) : (m.settle r).1.Sound := by
  cases r with
  | error cause => exact hm
  | ok changed => exact h changed rfl

/-- **Every change keeps a message sound**, also one that fails. -/
theorem Sound.apply (hm : m.Sound) (e : Edit) : (m.apply e).1.Sound := by
  cases e with
  | setMethod method =>
      exact hm.settle fun _ h => hm.changeRequest (fun _ _ hl => hl.setMethod) h
  | setUrl target =>
      exact hm.settle fun _ h => hm.changeRequest (fun _ _ hl => RequestLine.sound_setUrl hl.method) h
  | setQuery query =>
      exact hm.settle fun _ h => hm.changeRequest (fun _ _ hl => hl.setQuery) h
  | setStatus status reason => exact hm.settle fun _ h => hm.setStatus h
  | setHost host => exact hm.settle fun _ h => hm.setHeader h
  | setCookie cookie => exact hm.settle fun _ h => hm.setHeader h
  | setContentType type => exact hm.settle fun _ h => hm.setHeader h
  | setHeader name value => exact hm.settle fun _ h => hm.setHeader h
  | addHeader name value => exact hm.settle fun _ h => hm.addHeader h
  | addTrailer name value => exact hm.settle fun _ h => hm.addTrailer h
  | setBody content => exact hm.setBody content

/-- The last step of `respond`. -/
theorem Sound.fill (hm : m.Sound) {content : Option Content}
    (h : (match content with
      | none => Except.ok m
      | some content => (m.setBody content).2.map fun () => (m.setBody content).1) = .ok changed) :
    changed.Sound := by
  cases content with
  | none =>
      cases h
      exact hm
  | some content =>
      obtain ⟨_, _, rfl⟩ := map_eq_ok_iff.mp h
      exact hm.setBody content

theorem sound_of_respond {status : Int} {content : Option Content} {contentType : Option FieldValue}
    {keepAlive : Bool} {reason : Option Text} {protocol : Text}
    (h : respond status content contentType keepAlive reason protocol = .ok m) : m.Sound := by
  obtain ⟨m₁, hresponse, hrest⟩ := bind_eq_ok_iff.mp h
  obtain ⟨m₂, hconnection, hlast⟩ := bind_eq_ok_iff.mp hrest
  have h₂ : m₂.Sound :=
    (sound_of_response (Parts.filled_of_pairs _ _ _) hresponse).setHeader hconnection
  cases contentType with
  | none => exact h₂.fill hlast
  | some type =>
      obtain ⟨m₃, htype, hfill⟩ := bind_eq_ok_iff.mp hlast
      exact (h₂.setHeader htype).fill hfill

/-- **Messages that are made can be written.** -/
theorem Made.sound (h : m.Made) : m.Sound := by
  induction h with
  | request hparts h => exact sound_of_request hparts h
  | response hparts h => exact sound_of_response hparts h
  | respond h => exact sound_of_respond h
  | apply _ e ih => exact ih.apply e
  | headers _ hfs ih => exact ⟨ih.line, hfs.sound, ih.trailers, ih.body⟩
  | trailers _ hfs ih => exact ⟨ih.line, ih.headers, hfs.sound, ih.body⟩

end Message

end HttpCodec
