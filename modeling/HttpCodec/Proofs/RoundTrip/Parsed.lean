import HttpCodec.Proofs.Parser.Complete
import HttpCodec.Proofs.RoundTrip.Framed

set_option autoImplicit false

/-! # Messages that were parsed are written and parsed again

`Message.Parsed` says what holds of every message that parsing gives, whatever the input was
(`parsed_of_parse`): its parts can be written, its body and its trailers go together with what its
head decides, and it is hardly longer than the input allowed. So it can be written, and what is
written of it is parsed as the same message, with a length added where the body went on until the
input ended (`parse_of_build_of_parse`).
-/

namespace HttpCodec

namespace Parser

variable {o : Options} {s : Segment}

/-! ## The messages that were reported -/

/-- Nothing is complete before the end of a message. -/
theorem Segment.messages_events (s : Segment) : Event.messages s.events = .ok [] := by
  have hsplit : s.events =
      .start s.line :: (s.headers.map (.field .header) ++ (s.payloads.map .body ++
        (s.trailers.map (.field .trailer) ++ []))) := by
    simp [events]
  rw [hsplit]
  show Event.messages (s.headers.map (.field .header) ++ _) = _
  rw [Event.messages_fields, Event.messages_bodies, Event.messages_fields]
  rfl

/-- **The events of an account complete the messages of its segments.** -/
theorem messages_reported (o : Options) (whole : List Segment) (part : Option Segment) :
    Event.messages (reported o whole part) = .ok (whole.map (Segment.message o)) := by
  unfold reported
  induction whole with
  | nil =>
      cases part with
      | none => rfl
      | some s => exact s.messages_events
  | cons s whole ih =>
      have hcomplete : Event.messages (s.completeEvents o) = .ok [s.message o] := by
        rw [Segment.completeEvents, Event.messages_append s.messages_events]
        rfl
      rw [List.map_cons, List.flatten_cons, List.append_assoc, Event.messages_append hcomplete, ih]
      rfl

/-- Events that complete messages without an error are those of whole messages. -/
theorem Account.segments {p : Parser} {es : List Event} {ms : List Message} (h : Account o p es)
    (hms : Event.messages es = .ok ms) :
    ∃ whole : List Segment, (∀ s ∈ whole, s.Whole o) ∧ ms = whole.map (Segment.message o) := by
  cases h with
  | resting hpast | within hpast =>
      rw [messages_reported] at hms
      cases hms
      exact ⟨_, hpast.whole, rfl⟩
  | failed hpast =>
      rw [Event.messages_append (messages_reported o _ _)] at hms
      cases hms

/-- **Parsing gives the messages of segments that were read as a whole.** -/
theorem segments_of_parse {data : Octets} {kind : Option Kind} {limits : Limits}
    {ms : List Message} (h : parse data kind limits = .ok ms) :
    ∃ whole : List Segment, (∀ s ∈ whole, s.Whole { kind, limits }) ∧
      ms = whole.map (Segment.message { kind, limits }) := by
  have hnone : ((new { kind, limits }).feed data).interruption = none := by
    cases hinterruption : ((new { kind, limits }).feed data).interruption with
    | none => rfl
    | some cause =>
        rw [parse_of_interrupted hinterruption] at h
        cases h
  have haccount : Account { kind, limits } ((new { kind, limits }).readAll [data]).parser
      ((new { kind, limits }).readAll [data]).events := by
    have hfed := (account_new { kind, limits }).feed hnone
    rw [readAll_singleton hnone]
    split_ifs with hfailed
    · exact hfed
    · exact hfed.close
  rw [parse_eq_messages hnone] at h
  exact haccount.segments (mapError_eq_ok_iff.mp h)

/-! ## What holds of them -/

/-- **Its body and its trailers go together with what its head decides**, if bodies are kept. -/
theorem Segment.Whole.framed_message (h : s.Whole o) (hs : o.streaming = false) :
    (s.message o).Framed := by
  have hbody : (s.message o).body = s.payloads.flatten := if_neg (by simp [hs])
  have htrailers : (s.message o).trailers.fields = s.trailers := Fields.fields_appendAll _ _
  cases h.framed with
  | bodiless hdecide hpayloads hnone =>
      exact .bodiless hdecide (by rw [hbody, hpayloads]; rfl) (htrailers.trans hnone)
  | counted hdecide _ hnone => exact .counted (by rw [hbody]; exact hdecide) (htrailers.trans hnone)
  | chunked hdecide => exact .chunked hdecide
  | untilClose hdecide hnone => exact .untilClose hdecide (htrailers.trans hnone)

end Parser

open HttpCodec.Parser

namespace Message

/-- A message that was read within the limits of certain options. -/
structure Parsed (o : Options) (m : Message) : Prop where
  sound : m.Sound
  framed : m.Framed
  /-- The space after a status code may have been missing. -/
  startLine : m.line.text.length ≤ o.limits.startLine + 1
  headerLine : 0 ≤ o.limits.headerLine
  headers : FieldsRead o m.headers.fields
  trailers : FieldsRead o m.trailers.fields

/-- **What holds of every message that parsing gives.** -/
theorem parsed_of_parse {data : Octets} {kind : Option Kind} {limits : Limits} {ms : List Message}
    (h : parse data kind limits = .ok ms) {m : Message} (hm : m ∈ ms) :
    m.Parsed { kind, limits } := by
  obtain ⟨whole, hwhole, rfl⟩ := segments_of_parse h
  obtain ⟨s, hs, rfl⟩ := List.mem_map.mp hm
  have hsegment := hwhole s hs
  have hcarries := carries_message { kind, limits } s
  exact
    { sound := hsegment.sound
      framed := hsegment.framed_message rfl
      startLine := hsegment.readable.length
      headerLine := hsegment.headerLine
      headers := by
        rw [hcarries.headers]
        exact hsegment.readable.headers
      trailers := by
        rw [hcarries.trailers]
        exact hsegment.readable.trailers }

/-- Limits that have room for what is written of a message that was read with other limits: one
more octet on each line, one more field, and the line of a length. -/
structure RoomAgain (m : Message) (limits limits' : Limits) : Prop where
  startLine : limits.startLine + 1 ≤ limits'.startLine
  headerLine : limits.headerLine + 1 ≤ limits'.headerLine
  headers : limits.headers + 1 ≤ limits'.headers
  chunkLine : 16 ≤ limits'.chunkLine
  lengthLine : m.needsLength = true → m.lengthField.size ≤ limits'.headerLine
  body : m.body.length < 16 ^ 16

variable {o o' : Options} {m : Message}

/-- The head of a message that was read fits again as it is written. -/
theorem Parsed.headFits (h : m.Parsed o) (hroom : m.RoomAgain o.limits o'.limits)
    (hkind : o'.kind = none ∨ o'.kind = some m.line.kind)
    (hcount : m.needsLength = true → 1 ≤ o'.limits.headers) :
    HeadFits o' m.asWritten.line m.asWritten.headers.fields := by
  have hstart := h.startLine
  have hline := h.headerLine
  have hfields := h.headers.count
  have hroomStart := hroom.startLine
  have hroomLine := hroom.headerLine
  have hroomFields := hroom.headers
  have hsizes : ∀ f ∈ m.headers.fields, (f.size : Int) ≤ o'.limits.headerLine := fun f hf =>
    le_trans (h.headers.sizes f hf) hroomLine
  rw [asWritten_line]
  cases hneeds : m.needsLength with
  | false =>
      rw [asWritten_of_not_needsLength hneeds]
      exact ⟨h.sound.line, h.headers.sound, hkind, by omega, by omega, hsizes, by omega⟩
  | true =>
      rw [asWritten_of_needsLength hneeds]
      have hsome := hcount hneeds
      refine ⟨h.sound.line, fun f hf => ?_, hkind, by omega, by omega, fun f hf => ?_, ?_⟩
      · rcases List.mem_append.mp hf with hf | hf
        · exact h.headers.sound f hf
        · rw [List.mem_singleton.mp hf]
          exact sound_lengthField m
      · rcases List.mem_append.mp hf with hf | hf
        · exact hsizes f hf
        · rw [List.mem_singleton.mp hf]
          exact hroom.lengthLine hneeds
      · show (m.headers.fields ++ [m.lengthField]).length ≤ o'.limits.headers.toNat
        rw [List.length_append, List.length_singleton]
        omega

theorem Parsed.chunksFit (h : m.Parsed o) (hroom : m.RoomAgain o.limits o'.limits) :
    ChunksFit o' [m.asWritten.body] m.asWritten.trailers.fields := by
  have hroomFields := hroom.headers
  have hfields := h.trailers.count
  rw [asWritten_body, asWritten_trailers]
  refine chunksFit_of_le hroom.chunkLine (by simpa using hroom.body) h.trailers.sound
    (fun f hf => ?_) (by omega)
  exact le_trans (h.trailers.sizes f hf) hroom.headerLine

end Message

open Message

/-- **A message that was parsed is written, and what is written of it is parsed as the same
message**, with limits that have room for it. A body that went on until the input ended, in a
response that declares no coding, is written with its length, which needs room for one field. What
is written of the message that was parsed again is the same again. -/
theorem parse_of_build_of_parse {data : Octets} {kind : Option Kind} {limits : Limits}
    {ms : List Message} (h : parse data kind limits = .ok ms) {m : Message} (hm : m ∈ ms) :
    ∃ w, m.build false = .ok w ∧
      ∀ (kind' : Option Kind) (limits' : Limits), kind' = none ∨ kind' = some m.line.kind →
        m.RoomAgain limits limits' → (m.needsLength = true → 1 ≤ limits'.headers) →
        ∃ n, parse w kind' limits' = .ok [n] ∧ n.build false = .ok w ∧
          (m.needsLength = false → m.same n = true) ∧
          (m.needsLength = true → m.measured.same n = true) := by
  have hparsed := parsed_of_parse h hm
  have hindexed := indexed_asWritten hparsed.sound.headers.indexed
  refine ⟨_, hparsed.framed.build_eq hparsed.sound, fun kind' limits' hkind hroom hcount => ?_⟩
  set o' : Options := { kind := kind', limits := limits' }
  have hframed := hparsed.framed.asWritten hparsed.sound hroom.body
  have hconveys : Conveys o' m.asWritten.wire [m.asWritten.reread o'] :=
    hframed.conveys hindexed (hparsed.headFits hroom hkind hcount) (hparsed.chunksFit hroom)
  have hparse := parse_of_conveys hconveys
  -- what was parsed again can be written again
  have hagain := parsed_of_parse hparse (List.mem_singleton_self _)
  have hneeds : (m.asWritten.reread o').needsLength = false := by
    rw [needsLength_reread hindexed, needsLength_asWritten hparsed.sound hroom.body]
  refine ⟨_, hparse, ?_, fun hno => ?_, fun hyes => ?_⟩
  · rw [hagain.framed.build_eq hagain.sound, asWritten_of_not_needsLength hneeds,
      wire_reread hindexed]
  · rw [asWritten_of_not_needsLength hno]
    exact same_reread m o'
  · rw [asWritten_of_needsLength hyes]
    exact same_reread m.measured o'

/-- A single message is there if something can be told of it. -/
theorem eq_singleton_of_view {ε α β : Type} {f : α → β} {b : β} {r : Except ε (List α)}
    (h : r.toOption.map (·.map f) = some [b]) : ∃ a, r = .ok [a] ∧ f a = b := by
  cases r with
  | error cause => cases h
  | ok as =>
      obtain ⟨a, rfl, ha⟩ := List.map_eq_singleton_iff.mp (Option.some.inj h)
      exact ⟨a, rfl, ha⟩

/-- A response that leaves out the reason phrase and the space before it and after a colon, and goes
on until the input ends. -/
theorem parse_of_build_of_parse_untilClose :
    let x := Chunk.ascii "HTTP/1.1 200\r\nA:1\r\n\r\nabc"
    let limits' : Limits := { startLine := 8193, headerLine := 8193, headers := 101 }
    ∃ m w n, parse x none {} = .ok [m] ∧ m.needsLength = true ∧ m.RoomAgain {} limits' ∧
      1 ≤ limits'.headers ∧ m.build false = .ok w ∧ parse w none limits' = .ok [n] ∧
      n.build false = .ok w ∧ m.measured.same n = true := by
  intro x limits'
  have hview : (parse x none {}).toOption.map (·.map fun m => (m.needsLength, m.body.length)) =
      some [(true, 3)] := by
    decide +kernel
  obtain ⟨m, hparse, hm⟩ := eq_singleton_of_view hview
  simp only [Prod.mk.injEq] at hm
  obtain ⟨hneeds, hlength⟩ := hm
  have hroom : m.RoomAgain {} limits' :=
    ⟨by decide, by decide, by decide, by decide,
      fun _ => by rw [size_lengthField, hlength]; decide, by rw [hlength]; decide⟩
  obtain ⟨w, hbuild, hagain⟩ := parse_of_build_of_parse hparse (List.mem_singleton_self m)
  obtain ⟨n, hparse', hbuild', -, hsame⟩ :=
    hagain none limits' (.inl rfl) hroom fun _ => by decide
  exact ⟨m, w, n, hparse, hneeds, hroom, by decide, hbuild, hparse', hbuild', hsame hneeds⟩

/-- Where the limit on fields was below zero, one more may still be none, and then there is no room
for the length. -/
theorem no_room_for_length :
    let x := Chunk.ascii "HTTP/1.1 200 OK\r\n\r\nabc"
    let limits : Limits := { headers := -1 }
    let limits' : Limits := { startLine := 8193, headerLine := 8193, headers := 0 }
    ∃ m w, parse x none limits = .ok [m] ∧ m.needsLength = true ∧ m.RoomAgain limits limits' ∧
      m.build false = .ok w ∧ parse w none limits' = .error (.invalid (.tooManyFields 0)) := by
  intro x limits limits'
  have hview : (parse x none limits).toOption.map (·.map fun m =>
      (m.needsLength, m.body.length, m.rereadFailure? limits')) =
        some [(true, 3, some (.invalid (.tooManyFields 0)))] := by
    decide +kernel
  obtain ⟨m, hparse, hm⟩ := eq_singleton_of_view hview
  simp only [Prod.mk.injEq] at hm
  obtain ⟨hneeds, hlength, hfailure⟩ := hm
  have hroom : m.RoomAgain limits limits' :=
    ⟨by decide, by decide, by decide, by decide,
      fun _ => by rw [size_lengthField, hlength]; decide, by rw [hlength]; decide⟩
  obtain ⟨w, hbuild, hagain⟩ := rereadFailure?_eq_some_iff.mp hfailure
  exact ⟨m, w, hparse, hneeds, hroom, hbuild, hagain⟩

end HttpCodec
