import HttpCodec.Proofs.Parser.Boundary
import HttpCodec.Proofs.Parser.Segment

set_option autoImplicit false

/-! # All that a parser has reported

`Account o p es` says that the events `es`, reported by a parser with the options `o` up to the
state `p`, are those of whole messages, then perhaps those of a part of a message, and then perhaps
an error, and it keeps the count of the messages. A new parser has such an account of no events, and
feeding and closing carry it on (`Account.feed`, `Account.close`). So the events of any calls are
well formed (`well_formed_events`).
-/

namespace HttpCodec.Parser

/-- The events of whole messages and of a part of one. -/
def reported (o : Options) (whole : List Segment) (part : Option Segment) : List Event :=
  (whole.map (Segment.completeEvents o)).flatten ++ part.elim [] Segment.events

/-- What holds of every segment, be the message complete or not. -/
structure Segment.Formed (o : Options) (s : Segment) : Prop where
  payloads : ∀ data ∈ s.payloads, data ≠ []
  /-- Only a message that is framed as chunked has trailers. -/
  trailers : s.trailers ≠ [] → s.decision o = .chunked

theorem Segment.Whole.formed {o : Options} {s : Segment} (h : s.Whole o) : s.Formed o :=
  ⟨h.readable.payloads, h.framed.decision_of_trailers⟩

theorem Within.formed {p : Parser} {s : Segment} (h : Within p s) : s.Formed p.options :=
  ⟨h.shows.readable.payloads, h.decision_of_trailers⟩

/-- The messages that are complete. -/
structure Past (o : Options) (p : Parser) (whole : List Segment) : Prop where
  options : p.options = o
  completed : p.completed = whole.length
  whole : ∀ s ∈ whole, s.Whole o

/-- What has been reported up to a state. -/
inductive Account (o : Options) : Parser → List Event → Prop where
  | resting {p : Parser} {whole : List Segment} (hpast : Past o p whole) (hrest : Resting p) :
      Account o p (reported o whole none)
  | within {p : Parser} {whole : List Segment} {s : Segment} (hpast : Past o p whole)
      (hwithin : Within p s) : Account o p (reported o whole (some s))
  | failed {p : Parser} {whole : List Segment} {part : Option Segment} {cause : ParseError}
      (hpast : Past o p whole) (hpart : ∀ s, part = some s → s.Formed o)
      (hphase : p.phase = .failed) : Account o p (reported o whole part ++ [.error cause])

variable {o : Options} {p q : Parser} {es fs : List Event} {whole : List Segment}
  {part : Option Segment}

theorem account_new (o : Options) : Account o (new o) [] := by
  have hpast : Past o (new o) [] := ⟨rfl, rfl, nofun⟩
  exact .resting hpast (.inl ⟨rfl, rfl⟩)

theorem Past.snoc {s : Segment} (h : Past o p whole) (hq : q.options = p.options)
    (hcompleted : q.completed = p.completed + 1) (hs : s.Whole o) : Past o q (whole ++ [s]) := by
  refine ⟨hq.trans h.options, ?_, fun t ht => ?_⟩
  · rw [hcompleted, h.completed, List.length_append, List.length_singleton]
  · rcases List.mem_append.mp ht with ht | ht
    · exact h.whole t ht
    · rwa [List.mem_singleton.mp ht]

theorem Past.same (h : Past o p whole) (hq : q.options = p.options)
    (hcompleted : q.completed = p.completed) : Past o q whole :=
  ⟨hq.trans h.options, hcompleted.trans h.completed, h.whole⟩

theorem reported_snoc (whole : List Segment) (s : Segment) :
    reported o (whole ++ [s]) none = reported o whole none ++ s.completeEvents o := by
  simp [reported]

theorem reported_some (whole : List Segment) (s : Segment) :
    reported o whole (some s) = reported o whole none ++ s.events := by
  simp [reported]

theorem resting_of_done (h : p.phase = .done) : Resting p := .inr h

theorem Resting.phase_ne_failed (h : Resting p) : p.phase ≠ .failed := by
  rcases h with ⟨h, -⟩ | h <;> simp [h]

theorem Within.phase_ne_failed {s : Segment} (h : Within p s) : p.phase ≠ .failed := by
  cases h <;> simp_all

/-! ## Steps and runs -/

/-- A step that ends with the message complete extends what was reported by all of it. -/
theorem account_of_complete {s : Segment} (hpast : Past o p whole) (hq : q.options = p.options)
    (hcompleted : q.completed = p.completed + 1) (hphase : q.phase = .done) (hs : s.Whole o)
    (hes : reported o whole none ++ s.completeEvents o = es) : Account o q es := by
  rw [← hes, ← reported_snoc]
  exact .resting (hpast.snoc hq hcompleted hs) (resting_of_done hphase)

/-- **A step that goes on carries the account on.** -/
theorem Account.advance (h : Account o p es) (hadvance : Advance p fs q) :
    Account o q (es ++ fs) := by
  have hq := hadvance.options_eq
  cases h with
  | resting hpast hrest =>
      obtain ⟨hcompleted, ⟨hrest', rfl⟩ | ⟨s, hwithin, rfl⟩⟩ := hrest.advance hadvance
      · rw [List.append_nil]
        exact .resting (hpast.same hq hcompleted) hrest'
      · rw [← reported_some]
        exact .within (hpast.same hq hcompleted) hwithin
  | @within whole s hpast hwithin =>
      rw [reported_some, List.append_assoc]
      rcases hwithin.advance hadvance with ⟨t, hwithin', hevents, hcompleted⟩ |
        ⟨t, hwhole, hphase, hevents, hcompleted⟩
      · rw [← hevents, ← reported_some]
        exact .within (hpast.same hq hcompleted) hwithin'
      · rw [hpast.options] at hwhole hevents
        exact account_of_complete hpast hq hcompleted hphase hwhole (by rw [hevents])
  | failed _ _ hphase => exact absurd hphase hadvance.phase_ne_failed.1

/-- An error ends the account, after what was reported before it. -/
theorem Account.fail (h : Account o p es) (hp : p.phase ≠ .failed) (hq : q.options = p.options)
    (hcompleted : q.completed = p.completed) (cause : ParseError) :
    Account o (q.fail cause) (es ++ [.error cause]) := by
  cases h with
  | resting hpast => exact .failed (hpast.same hq hcompleted) nofun rfl
  | within hpast hwithin =>
      refine .failed (hpast.same hq hcompleted) (fun s hs => ?_) rfl
      cases hs
      rw [← hpast.options]
      exact hwithin.formed
  | failed _ _ hfailed => exact absurd hfailed hp

/-- A message that was read can be made, so an error is reported by itself. -/
theorem Account.events_of_refusal {cause : ParseError} (h : Account o p es)
    (hrefusal : Refusal p fs q cause) : fs = [] := by
  cases hrefusal with
  | countedUnwritable hphase hframing hlen hmessage =>
      cases h with
      | resting _ hrest =>
          rcases hrest with ⟨hstart, -⟩ | hdone
          · simp [hphase] at hstart
          · simp [hphase] at hdone
      | failed _ _ hfailed => simp [hphase] at hfailed
      | within _ hwithin =>
          cases hwithin with
          | counted _ hshows _ _ _ hheld hdecide hmissing =>
              have hallows := Framing.allowsBody_of_body? (congrArg Framing.Decision.body? hdecide)
              have hne : p.unread ≠ [] := by
                intro hnil
                rw [hnil, List.length_nil] at hlen
                omega
              obtain ⟨data, -, -, -, hm⟩ :=
                message_of_countedEnd hshows hheld hallows hmissing hne hlen
              rw [hm] at hmessage
              cases hmessage
          | chunked _ _ _ _ hother | rest _ _ _ _ hother => simp [hframing] at hother
          | head hother | trailers hother => simp [hphase] at hother
  | _ => rfl

/-- **A run carries the account on.** -/
theorem Account.run (h : Account o p es) (hp : p.phase ≠ .failed)
    (hr : (run p).interruption = none) : Account o (run p).parser (es ++ (run p).events) := by
  -- by induction on the run: each step carries the account on, and an error ends it
  induction p using run.induct generalizing es with
  | case1 p hwait =>
      rw [run_eq p, hwait, List.append_nil]
      exact h
  | case2 p fs q hnext ih =>
      have hadvance := advance_of_step hnext
      rw [run_eq p, hnext] at hr ⊢
      show Account o (Parser.run q).parser (es ++ (fs ++ (Parser.run q).events))
      rw [← List.append_assoc]
      exact ih (h.advance hadvance) hadvance.phase_ne_failed.2 hr
  | case3 p fs q cause hreject =>
      have hrefusal := refusal_of_step hreject
      obtain rfl := h.events_of_refusal hrefusal
      rw [run_eq p, hreject]
      exact h.fail hp hrefusal.options_eq hrefusal.completed_eq cause
  | case4 p q cause hinterrupt =>
      rw [run_eq p, hinterrupt] at hr
      cases hr

/-! ## Calls -/

theorem Account.supply (h : Account o p es) (more : Octets) : Account o (p.supply more) es := by
  cases h with
  | resting hpast hrest => exact .resting (hpast.same rfl rfl) hrest
  | failed hpast hpart hphase => exact .failed (hpast.same rfl rfl) hpart hphase
  | within hpast hwithin => exact .within (hpast.same rfl rfl) (hwithin.leave (p.unread ++ more))

/-- **Feeding carries the account on**, if it is not interrupted. -/
theorem Account.feed (h : Account o p es) {block : Octets}
    (hr : (p.feed block).interruption = none) :
    Account o (p.feed block).parser (es ++ (p.feed block).events) := by
  have hp := hasFailed_of_feed hr
  have hrun := feed_eq_run hp hr
  rw [hrun] at hr ⊢
  exact (h.supply block).run (of_decide_eq_false hp) hr

/-- The end of the input completes a body that goes on until then, after all that has been reported
of it. -/
theorem whole_of_close {s : Segment} (hphase : p.phase = .awaitBody) (hshows : p.Shows s)
    (hlimit : 0 ≤ p.options.limits.headerLine) (htrailers : s.trailers = [])
    (hframing : p.draft.framing = some .untilClose)
    (hheld : if p.options.streaming then p.draft.body = [] else s.payloads = [])
    (hdecide : s.decision p.options = .untilClose) :
    ∃ t : Segment, t.Whole p.options ∧ p.close.parser = p.rested ∧
      t.completeEvents p.options = s.events ++ p.close.events := by
  have hallows : s.line.allowsBody = true :=
    Framing.allowsBody_of_body? (congrArg Framing.Decision.body? hdecide)
  rw [close_of_rest hphase hframing]
  split_ifs with hnothing
  · -- all of the body has been reported
    have hmessage : p.message = .ok (s.message p.options) := by
      refine hshows.message_eq ?_ (.inr hallows)
      by_cases hs : p.options.streaming
      · rw [if_pos hs, if_pos hs]
      · rw [if_neg hs] at hheld
        rw [if_neg hs, if_neg hs, hheld, hnothing.resolve_right hs]
        rfl
    rw [conclude_of_message [] hmessage]
    exact ⟨s, ⟨hshows.readable, hlimit, .untilClose hdecide htrailers⟩, rfl, rfl⟩
  · -- none of it has
    obtain ⟨hne, hs⟩ := not_or.mp hnothing
    rw [if_neg hs] at hheld
    have hreadable := hshows.readable.withPayload hne
    have hshows' : p.Shows (s.withPayload p.draft.body) :=
      ⟨hreadable, hshows.line, hshows.headers, hshows.trailers⟩
    have hmessage : p.message = .ok ((s.withPayload p.draft.body).message p.options) := by
      refine hshows'.message_eq ?_ (.inr hallows)
      rw [if_neg hs, if_neg hs, Segment.withPayload, hheld]
      simp
    rw [conclude_of_message _ hmessage]
    refine ⟨s.withPayload p.draft.body, ⟨hreadable, hlimit, .untilClose hdecide htrailers⟩, rfl, ?_⟩
    rw [Segment.completeEvents, Segment.events_withPayload _ htrailers, List.append_assoc]

/-- **Closing carries the account on.** -/
theorem Account.close (h : Account o p es) : Account o p.close.parser (es ++ p.close.events) := by
  -- within a message the end of the input is an error, but for one body
  have herror : p.phase ≠ .failed → p.phase ≠ .done →
      (p.phase = .awaitStartLine → p.unread ≠ []) →
      (p.phase = .awaitBody → p.draft.framing ≠ some .untilClose) →
      Account o p.close.parser (es ++ p.close.events) := by
    intro hfailed hdone hstart hbody
    rw [close_of_within hdone hfailed hstart hbody]
    exact h.fail hfailed rfl rfl _
  cases h with
  | failed hpast hpart hphase =>
      rw [close_of_failed hphase, List.append_nil]
      exact .failed hpast hpart hphase
  | resting hpast hrest =>
      by_cases hidle : p.phase = .done ∨ p.phase = .awaitStartLine ∧ p.unread = []
      · have hclose : p.close = { parser := p, events := [] } := by
          rcases hidle with hdone | ⟨hstart, hempty⟩
          · exact close_of_done hdone
          · exact close_of_start hstart hempty
        rw [hclose, List.append_nil]
        exact .resting hpast hrest
      · obtain ⟨hdone, hunread⟩ := not_or.mp hidle
        have hstart := (hrest.resolve_right hdone).1
        exact herror hrest.phase_ne_failed hdone (fun _ hempty => hunread ⟨hstart, hempty⟩)
          (by simp [hstart])
  | within hpast hwithin =>
      have hfailed := hwithin.phase_ne_failed
      cases hwithin with
      | rest hphase hshows hlimit htrailers hframing hheld hdecide =>
          obtain ⟨t, hwhole, hparser, hevents⟩ :=
            whole_of_close hphase hshows hlimit htrailers hframing hheld hdecide
          rw [hparser, reported_some, List.append_assoc, ← hevents]
          rw [hpast.options] at hwhole ⊢
          exact account_of_complete hpast rfl rfl rfl hwhole rfl
      | head hphase | trailers hphase =>
          exact herror hfailed (by simp [hphase]) (by simp [hphase]) (by simp [hphase])
      | counted hphase _ _ _ hframing | chunked hphase _ _ _ hframing =>
          exact herror hfailed (by simp [hphase]) (by simp [hphase]) (by simp [hframing])

/-- Makes calls one after the other and puts their events together, up to a call that is
interrupted. -/
def serve (p : Parser) : List Call → Run
  | [] => { parser := p, events := [] }
  | c :: cs =>
      let r := p.call c
      if r.interruption.isSome then r else (r.parser.serve cs).after r.events

/-- **Calls carry the account on.** -/
theorem Account.serve (h : Account o p es) {cs : List Call}
    (hr : (p.serve cs).interruption = none) :
    Account o (p.serve cs).parser (es ++ (p.serve cs).events) := by
  induction cs generalizing p es with
  | nil =>
      show Account o p (es ++ [])
      rwa [List.append_nil]
  | cons c cs ih =>
      simp only [Parser.serve] at hr ⊢
      split_ifs at hr ⊢ with hinterrupted
      · rw [hr] at hinterrupted
        cases hinterrupted
      · have hnone : (p.call c).interruption = none := by simpa using hinterrupted
        have hnext : Account o (p.call c).parser (es ++ (p.call c).events) := by
          cases c with
          | feed block => exact h.feed hnone
          | close => exact h.close
        have hlater := ih hnext hr
        rwa [List.append_assoc] at hlater

/-! ## Well-formed events -/

/-- A message that is put together from what was reported of it, but for its body if bodies are
reported as they arrive. -/
structure Carries (o : Options) (s : Segment) (m : Message) : Prop where
  line : m.line = s.line
  headers : m.headers.fields = s.headers
  trailers : m.trailers.fields = s.trailers
  body : m.body = if o.streaming then [] else s.payloads.flatten

theorem carries_message (o : Options) (s : Segment) : Carries o s (s.message o) :=
  ⟨rfl, Fields.fields_appendAll _ _, Fields.fields_appendAll _ _, rfl⟩

/-- The events of whole messages, with the messages. -/
theorem reported_eq_messages (o : Options) (whole : List Segment) (part : Option Segment) :
    reported o whole part =
      ((whole.map fun s => (s, s.message o)).map fun sm =>
          sm.1.events ++ [.complete sm.2]).flatten ++
        part.elim [] Segment.events := by
  rw [List.map_map]
  rfl

theorem Past.carries (h : Past o p whole) :
    ∀ sm ∈ whole.map fun s => (s, s.message o), sm.1.Formed o ∧ Carries o sm.1 sm.2 := by
  rintro sm hsm
  obtain ⟨s, hs, rfl⟩ := List.mem_map.mp hsm
  exact ⟨(h.whole s hs).formed, carries_message o s⟩

/-- **The events of a parser are well formed**, whatever it is fed and wherever it is closed: those
of whole messages, then perhaps those of a part of a message, and then perhaps an error. Each
message carries what was reported of it, no data of a body is empty, and only a message that is
framed as chunked has trailers. There is an error exactly if the parser has failed, and the parser
counts the messages. -/
theorem well_formed_events (o : Options) (cs : List Call)
    (h : ((new o).serve cs).interruption = none) :
    ∃ (whole : List (Segment × Message)) (part : Option Segment) (error : Option ParseError),
      ((new o).serve cs).events =
        (whole.map fun sm => sm.1.events ++ [.complete sm.2]).flatten ++
          part.elim [] Segment.events ++ error.toList.map .error ∧
      (error.isSome ↔ ((new o).serve cs).parser.phase = .failed) ∧
      ((new o).serve cs).parser.completed = whole.length ∧
      (∀ sm ∈ whole, sm.1.Formed o ∧ Carries o sm.1 sm.2) ∧
      ∀ s, part = some s → s.Formed o := by
  have haccount := (account_new o).serve h
  rw [List.nil_append] at haccount
  generalize ((new o).serve cs).parser = p at haccount ⊢
  generalize ((new o).serve cs).events = es at haccount ⊢
  cases haccount with
  | @resting whole hpast hrest =>
      refine ⟨_, none, none, ?_, ?_, ?_, hpast.carries, nofun⟩
      · rw [reported_eq_messages]
        simp
      · simp [hrest.phase_ne_failed]
      · rw [hpast.completed, List.length_map]
  | @within whole s hpast hwithin =>
      refine ⟨_, some s, none, ?_, ?_, ?_, hpast.carries, ?_⟩
      · rw [reported_eq_messages]
        simp
      · simp [hwithin.phase_ne_failed]
      · rw [hpast.completed, List.length_map]
      · intro t ht
        cases ht
        rw [← hpast.options]
        exact hwithin.formed
  | @failed whole part cause hpast hpart hphase =>
      refine ⟨_, part, some cause, ?_, ?_, ?_, hpast.carries, hpart⟩
      · rw [reported_eq_messages]
        rfl
      · simp [hphase]
      · rw [hpast.completed, List.length_map]

/-- A whole request and a part of a response that is cut off, fed in two pieces to a parser that
reports bodies as they arrive. -/
theorem well_formed_events_cut :
    let o : Options := { streaming := true }
    let x := Chunk.ascii
      "PUT /a HTTP/1.1\r\nTransfer-Encoding: chunked\r\n\r\n3\r\nabc\r\n0\r\nT: 1\r\n\r\n"
    let y := Chunk.ascii "HTTP/1.1 200\r\nA: 1\r\n"
    let cs : List Call := [.feed (x.take 55), .feed (x.drop 55 ++ y), .close]
    ((new o).serve cs).interruption = none ∧ ((new o).serve cs).parser.phase = .failed ∧
      ∃ (whole : List (Segment × Message)) (part : Option Segment) (error : Option ParseError),
        ((new o).serve cs).events =
          (whole.map fun sm => sm.1.events ++ [.complete sm.2]).flatten ++
            part.elim [] Segment.events ++ error.toList.map .error ∧
        error.isSome ∧ whole.length = 1 := by
  intro o x y cs
  have hnone : ((new o).serve cs).interruption = none := by decide +kernel
  have hfailed : ((new o).serve cs).parser.phase = .failed := by decide +kernel
  have hcount : ((new o).serve cs).parser.completed = 1 := by decide +kernel
  obtain ⟨whole, part, error, hevents, herror, hcompleted, -, -⟩ := well_formed_events o cs hnone
  exact ⟨hnone, hfailed, whole, part, error, hevents, herror.mpr hfailed,
    by rw [← hcompleted, hcount]⟩

end HttpCodec.Parser
