import HttpCodec.Proofs.Parser.Close
import HttpCodec.Proofs.Parser.Delimited
import HttpCodec.Proofs.Parser.Split

set_option autoImplicit false

/-! # Whole inputs

`Conveys o data ns` says that a parser which is between two messages reads `data`, up to the end of
the input, as the messages `ns`. Inputs are put together from the front: a delimited message goes
before whatever conveys the messages after it (`Delimited.conveys_append`), and only the last
message may be one that goes on until the input ends (`conveys_untilClose`). Parsing gives the
messages that the input conveys (`parse_of_conveys`).
-/

namespace HttpCodec

/-! ## The messages that events complete -/

namespace Event

theorem messages_fields (part : Part) (fields : List Field) (es : List Event) :
    messages (fields.map (.field part) ++ es) = messages es := by
  induction fields with
  | nil => rfl
  | cons f fields ih => exact ih

theorem messages_bodies (payloads : List Octets) (es : List Event) :
    messages (payloads.map .body ++ es) = messages es := by
  induction payloads with
  | nil => rfl
  | cons data payloads ih => exact ih

end Event

namespace Parser

/-- The events of a message complete that message. -/
theorem messages_eventsOf (n : Message) (payloads : List Octets) (es : List Event) :
    Event.messages (eventsOf n payloads ++ es) = (Event.messages es).map (n :: ·) := by
  have hsplit : eventsOf n payloads ++ es =
      .start n.line :: (n.headers.fields.map (.field .header) ++ (payloads.map .body ++
        (n.trailers.fields.map (.field .trailer) ++ (.complete n :: es)))) := by
    simp [eventsOf]
  rw [hsplit]
  show Event.messages (n.headers.fields.map (.field .header) ++ _) = _
  rw [Event.messages_fields, Event.messages_bodies, Event.messages_fields]
  rfl

/-! ## Between messages -/

/-- A parser that is between two messages. -/
structure Idle (p : Parser) : Prop where
  buffered : p.options.streaming = false
  phase : p.phase = .awaitStartLine ∨ p.phase = .done
  draft : p.phase = .awaitStartLine → p.draft = p.options.noDraft

variable {p : Parser} {o : Options} {line : StartLine} {fields : List Field} {ns : List Message}

theorem Fresh.idle (hp : p.Fresh) : p.Idle :=
  ⟨hp.buffered, Or.inl hp.phase, fun _ => hp.draft⟩

theorem idle_of_done (hs : p.options.streaming = false) (hphase : p.phase = .done) : p.Idle := by
  refine ⟨hs, Or.inr hphase, fun hstart => ?_⟩
  rw [hphase] at hstart
  cases hstart

theorem fresh_new (hs : o.streaming = false) (data : Octets) : ((new o).supply data).Fresh :=
  ⟨hs, rfl, rfl⟩

/-- A parser between two messages begins the next one if there is anything left to read. -/
theorem Idle.begins (hp : p.Idle) (hne : p.unread ≠ []) :
    ∃ q, Reads p [] q ∧ q.Fresh ∧ q.options = p.options ∧ q.unread = p.unread := by
  rcases hp.phase with hphase | hphase
  · exact ⟨p, .refl p, ⟨hp.buffered, hphase, hp.draft hphase⟩, rfl, rfl⟩
  · exact ⟨p.next, (Advance.next hphase hne).reads, ⟨hp.buffered, rfl, rfl⟩, rfl, rfl⟩

/-! ## Up to the end of the input -/

/-- The parser reads what has arrived and, at the end of the input, has reported certain
messages. -/
def Ends (p : Parser) (ns : List Message) : Prop :=
  ∃ es q, Reads p es q ∧ q.step = .wait ∧ q.hasFailed = false ∧
    Event.messages (es ++ q.close.events) = .ok ns

/-- Octets that are read as messages, at the end of the input. -/
def Conveys (o : Options) (data : Octets) (ns : List Message) : Prop :=
  ∀ p : Parser, p.Idle → p.options = o → p.unread = data → Ends p ns

/-- No octets convey no message. -/
theorem conveys_nil (h0 : 0 ≤ o.limits.startLine) : Conveys o [] [] := by
  rintro p hp rfl hunread
  have hfailed : p.hasFailed = false := by
    rcases hp.phase with h | h <;> simp [hasFailed, h]
  have hclose : p.close.events = [] := by
    rcases hp.phase with h | h
    · rw [close_of_start h hunread]
    · rw [close_of_done h]
  have hwait : p.step = .wait := by
    rcases hp.phase with h | h
    · simp only [step, h, readStartLine, withLine, hunread, Line.scan_nil h0]
    · rw [step_of_done h, hunread]
      rfl
  refine ⟨[], p, .refl p, hwait, hfailed, ?_⟩
  rw [hclose]
  rfl

/-- **A delimited message goes before what conveys the messages after it.** -/
theorem Delimited.conveys_append {w rest : Octets} {n : Message} {payloads : List Octets}
    (h : Delimited o w n payloads) (hne : w ≠ []) (hrest : Conveys o rest ns) :
    Conveys o (w ++ rest) (n :: ns) := by
  rintro p hp rfl hunread
  obtain ⟨q, hbegins, hfresh, hoptions, hq⟩ := hp.begins (by simp [hunread, hne])
  obtain ⟨r, hreads, hdone, hr, hleft⟩ := h q rest hfresh hoptions (hq.trans hunread)
  -- after the message the parser is between two messages again
  have hidle : r.Idle := idle_of_done (by rw [hr]; exact hp.buffered) hdone
  obtain ⟨es, last, hlater, hwait, hfailed, hmessages⟩ := hrest r hidle hr hleft
  refine ⟨_, last, hbegins.trans (hreads.trans hlater), hwait, hfailed, ?_⟩
  calc Event.messages ([] ++ (eventsOf n payloads ++ es) ++ last.close.events)
      = Event.messages (eventsOf n payloads ++ (es ++ last.close.events)) := by
        rw [List.nil_append, List.append_assoc]
    _ = (Event.messages (es ++ last.close.events)).map (n :: ·) := messages_eventsOf ..
    _ = .ok (n :: ns) := by
        rw [hmessages]
        rfl

/-- A delimited message may be all that there is. -/
theorem Delimited.conveys {w : Octets} {n : Message} {payloads : List Octets}
    (h : Delimited o w n payloads) (hne : w ≠ []) (h0 : 0 ≤ o.limits.startLine) :
    Conveys o w [n] := by
  have hconveys := h.conveys_append hne (conveys_nil h0)
  rwa [List.append_nil] at hconveys

/-- What has arrived of a body that goes on until the input ends is read, if it is anything. -/
theorem reads_rest (hs : p.options.streaming = false) (hphase : p.phase = .awaitBody)
    (hframing : p.draft.framing = some .untilClose) : Reads p [] p.afterRest := by
  by_cases hempty : p.unread = []
  · have hsame : p.afterRest = p := by
      have hkept : p.keptBody [] = p.draft.body := by
        unfold keptBody
        rw [hs, List.append_nil]
        rfl
      unfold afterRest
      rw [hempty, hkept, ← hempty]
    rw [hsame]
    exact .refl p
  · have hadvance := Advance.rest hphase (by simp [hframing]) (by simp [hframing]) hempty
    have hevents : p.restEvents = [] := if_neg (by simp [hs])
    rw [hevents] at hadvance
    exact hadvance.reads

/-- **A head that decides that the body goes on until the input ends, and a body**, convey one
message. -/
theorem conveys_untilClose (h : HeadFits o line fields) (body : Octets)
    (hdecide : Framing.decide line (o.noFields.appendAll fields) = .untilClose) :
    Conveys o (headOctets line fields ++ body) [o.read line fields body []] := by
  rintro p hp rfl hunread
  obtain ⟨p', hbegins, hfresh, hoptions, hp'⟩ := hp.begins (by
    simp [hunread, headOctets_ne_nil])
  rw [← hoptions] at h hdecide ⊢
  have hbody? := congrArg Framing.Decision.body? hdecide
  have hallows : line.allowsBody = true := Framing.allowsBody_of_body? hbody?
  have hhead := reads_headEnded hfresh h (hp'.trans hunread) hbody?
  set q := p'.headEnded line fields body .untilClose 0
  have hs : q.options.streaming = false := hfresh.buffered
  have hrest : Reads q [] q.afterRest := reads_rest hs rfl rfl
  have hbody : q.afterRest.draft.body = body := by
    show (if q.options.streaming then ([] : Octets) else [] ++ body) = body
    rw [hs]
    rfl
  have hmessage : q.afterRest.message = .ok (p'.options.read line fields body []) :=
    message_eq hs h.soundLine rfl hbody (Or.inr hallows)
  have hwait : q.afterRest.step = .wait := by
    rw [step_of_readRest rfl (by simp [q, afterRest, headEnded, awaitBody])
      (by simp [q, afterRest, headEnded, awaitBody])]
    rfl
  refine ⟨_, q.afterRest, hbegins.trans (hhead.trans hrest), hwait, rfl, ?_⟩
  rw [events_close_of_rest (p := q.afterRest) hs rfl rfl hmessage, hbody]
  -- the body is reported as one piece, if it is not empty
  have hevents : ([] ++ (.start line :: fields.map (.field .header) ++ [])) ++
      ((if body = [] then [] else [.body body]) ++
        [.complete (p'.options.read line fields body [])]) =
      eventsOf (p'.options.read line fields body []) (if body = [] then [] else [body]) ++ [] := by
    rw [eventsOf_read]
    split_ifs <;> simp
  rw [hevents, messages_eventsOf]
  rfl

/-! ## Parsing -/

/-- A parser that is new makes all the steps that the data allows. -/
theorem feed_of_reads {data : Octets} {q : Parser} {es : List Event}
    (h : Reads ((new o).supply data) es q) (hwait : q.step = .wait) :
    (new o).feed data = { parser := q, events := es } := by
  have hrun : run ((new o).supply data) = { parser := q, events := es } :=
    calc run ((new o).supply data)
        = (run q).after es := h.run_eq
      _ = Run.after { parser := q, events := [] } es := by rw [run_eq, hwait]
      _ = { parser := q, events := es } := by rw [Run.after, List.append_nil]
  rw [feed_eq (hasFailed_new o), hrun]
  rfl

/-- **A new parser reports a delimited message** as soon as it has arrived. -/
theorem Delimited.feed_eq {w : Octets} {n : Message} {payloads : List Octets}
    (h : Delimited o w n payloads) (hs : o.streaming = false) :
    ((new o).feed w).interruption = none ∧ ((new o).feed w).events = eventsOf n payloads := by
  obtain ⟨q, hreads, hdone, _, hleft⟩ := h ((new o).supply w) [] (fresh_new hs w) rfl (by simp [new])
  have hwait : q.step = .wait := by
    rw [step_of_done hdone, hleft]
    rfl
  rw [feed_of_reads hreads hwait]
  exact ⟨rfl, rfl⟩

/-- **Parsing gives the messages that the input conveys.** -/
theorem parse_of_conveys {data : Octets} {kind : Option Kind} {limits : Limits}
    (h : Conveys { kind, limits } data ns) : parse data kind limits = .ok ns := by
  obtain ⟨es, q, hreads, hwait, hfailed, hmessages⟩ :=
    h ((new { kind, limits }).supply data) (fresh_new rfl data).idle rfl rfl
  have hfeed := feed_of_reads hreads hwait
  have hall : (new { kind, limits }).feedAll [data] = { parser := q, events := es } := by
    rw [feedAll_singleton (hasFailed_new _) (by rw [hfeed]), hfeed]
  have hover : (Run.mk q es none []).isOver = false := by
    unfold Run.isOver
    rw [hfailed]
    rfl
  have hread : (new { kind, limits }).readAll [data] = q.close.after es := by
    unfold readAll
    rw [hall]
    simp only [hover, Bool.false_eq_true, if_false]
  unfold parse
  rw [hread]
  have hnone : (q.close.after es).interruption = none := interruption_close q
  simp only [hnone]
  show (Event.messages (es ++ q.close.events)).mapError _ = _
  rw [hmessages]
  rfl

end Parser

end HttpCodec
