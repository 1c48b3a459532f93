import HttpCodec.Proofs.Parser.Count
import HttpCodec.Proofs.Parser.Input
import HttpCodec.Proofs.Parser.Stop

set_option autoImplicit false

/-! # One message after the other

At the end of a message a parser keeps nothing of it but the count. The main statement is
`independent_messages`: what follows a complete message is read as a new parser reads it, and so is
what follows a reset. It holds for every way of reading, also where bodies are reported as they
arrive: a run that ends between two messages has read whole elements only, so it stays the same
when more data follows (`Reads.supply`).
-/

namespace HttpCodec

/-- What events complete is what the first and then the others complete. -/
theorem Event.messages_append {es : List Event} {ms : List Message}
    (h : Event.messages es = .ok ms) (fs : List Event) :
    Event.messages (es ++ fs) = (Event.messages fs).map (ms ++ ·) := by
  induction es generalizing ms with
  | nil =>
      cases h
      rw [List.nil_append]
      cases Event.messages fs <;> rfl
  | cons e es ih =>
      rw [List.cons_append]
      cases e with
      | complete m =>
          obtain ⟨later, hlater, rfl⟩ := map_eq_ok_iff.mp h
          show (Event.messages (es ++ fs)).map (m :: ·) = _
          rw [ih hlater]
          cases Event.messages fs <;> rfl
      | error cause => cases h
      | _ => exact ih h

namespace Parser

variable {p q : Parser} {es : List Event}

/-! ## Steps that more data does not change -/

theorem scan_more {data line rest : Octets} {limit : Int} (more : Octets)
    (h : Line.scan data limit = .ok (some (line, rest))) :
    Line.scan (data ++ more) limit = .ok (some (line, rest ++ more)) := by
  rw [Line.scan_append more (by simp [h]), h, appendRest_some]

theorem take_more {data payload rest : Octets} {limit : Int} (more : Octets)
    (h : Chunk.take data limit = .ok (some (payload, rest))) :
    Chunk.take (data ++ more) limit = .ok (some (payload, rest ++ more)) := by
  rw [Chunk.take_append more (by simp [h]), h, appendRest_some]

theorem takeSize_more {data rest : Octets} {limit : Int} {n : Nat} (more : Octets)
    (h : Chunk.takeSize data limit = .ok (some (n, rest))) :
    Chunk.takeSize (data ++ more) limit = .ok (some (n, rest ++ more)) := by
  rw [Chunk.takeSize_append more (by simp [h]), h, appendRest_some]

/-- A step that goes on has something to read. -/
theorem Advance.unread_ne_nil (h : Advance p es q) : p.unread ≠ [] := by
  have hscan : ∀ {limit line rest}, Line.scan p.unread limit = .ok (some (line, rest)) →
      p.unread ≠ [] := by
    intro limit line rest hscan hempty
    have := Line.length_lt_of_scan hscan
    simp [hempty] at this
  cases h with
  | skip _ h => exact hscan h
  | start _ h => exact hscan h
  | field _ h => exact hscan h
  | bodiless _ h => exact hscan h
  | framed _ h => exact hscan h
  | trailersEnd _ h => exact hscan h
  | counted _ _ hne => exact hne
  | countedEnd _ _ hne => exact hne
  | data _ _ _ _ hne => exact hne
  | rest _ _ _ hne => exact hne
  | next _ hne => exact hne
  | chunk _ _ _ htake | lastChunk _ _ _ htake =>
      intro hempty
      have := Chunk.length_lt_of_take htake
      simp [hempty] at this
  | size _ _ _ _ _ hsize | lastSize _ _ _ _ _ hsize =>
      intro hempty
      have := Chunk.length_lt_of_takeSize hsize
      simp [hempty] at this
  | chunkEnd _ _ _ _ _ hend =>
      intro hempty
      have := Chunk.two_le_length_of_hasEnd hend
      simp [hempty] at this

/-- A step that reads all that has arrived of a part of a body, of which more is missing. -/
inductive Partly (p : Parser) : List Event → Parser → Prop
  | counted (hphase : p.phase = .awaitBody) (hframing : p.draft.framing = some .lengthKnown)
      (hne : p.unread ≠ []) (hlen : p.unread.length < p.draft.remaining) :
      Partly p p.countedEvents p.afterCounted
  | data (hphase : p.phase = .awaitBody) (hframing : p.draft.framing = some .chunked)
      (hs : p.options.streaming = true) (hne : p.unread ≠ [])
      (hlen : p.unread.length < p.draft.remaining) :
      Partly p [.body (p.unread.take p.draft.remaining)] p.afterData
  | rest (hphase : p.phase = .awaitBody) (hcounted : p.draft.framing ≠ some .lengthKnown)
      (hchunked : p.draft.framing ≠ some .chunked) (hne : p.unread ≠ []) :
      Partly p p.restEvents p.afterRest

/-- Such a step leaves the parser within the body with nothing to read. -/
theorem Partly.left (h : Partly p es q) : q.unread = [] ∧ q.phase = .awaitBody := by
  cases h with
  | counted hphase _ _ hlen => exact ⟨List.drop_eq_nil_of_le (by omega), hphase⟩
  | data hphase _ _ _ hlen => exact ⟨List.drop_eq_nil_of_le (by omega), hphase⟩
  | rest hphase => exact ⟨rfl, hphase⟩

/-- **A step is the same when more data follows**, unless it reads a part of a body. -/
theorem Advance.supply_or_partly (h : Advance p es q) (more : Octets) :
    Advance (p.supply more) es (q.supply more) ∨ Partly p es q := by
  cases h with
  | skip hphase hscan => exact .inl (.skip (p := p.supply more) hphase (scan_more more hscan))
  | start hphase hscan hne hread =>
      exact .inl (.start (p := p.supply more) hphase (scan_more more hscan) hne hread)
  | field hphase hscan hne hfield =>
      exact .inl (.field (p := p.supply more) hphase (scan_more more hscan) hne hfield)
  | bodiless hphase hscan hline hdecide hmessage =>
      exact .inl
        (.bodiless (p := p.supply more) hphase (scan_more more hscan) hline hdecide hmessage)
  | framed hphase hscan hline hdecide =>
      exact .inl (.framed (p := p.supply more) hphase (scan_more more hscan) hline hdecide)
  | trailersEnd hphase hscan hmessage =>
      exact .inl (.trailersEnd (p := p.supply more) hphase (scan_more more hscan) hmessage)
  | next hphase hne => exact .inl (.next (p := p.supply more) hphase (by simp [hne]))
  | counted hphase hframing hne hlen => exact .inr (.counted hphase hframing hne hlen)
  | rest hphase hcounted hchunked hne => exact .inr (.rest hphase hcounted hchunked hne)
  | countedEnd hphase hframing hne hlen hmessage =>
      have hstep := step_of_advance (.countedEnd hphase hframing hne hlen hmessage)
      rw [step_of_readCounted hphase hframing] at hstep
      refine .inl (advance_of_step ?_)
      rw [step_of_readCounted (p := p.supply more) hphase hframing,
        readCounted_supply more hlen (by simp [hstep]), hstep]
      rfl
  | chunk hphase hframing hs htake hne =>
      exact .inl (.chunk (p := p.supply more) hphase hframing hs (take_more more htake) hne)
  | lastChunk hphase hframing hs htake =>
      exact .inl (.lastChunk (p := p.supply more) hphase hframing hs (take_more more htake))
  | size hphase hframing hs hremaining hin hsize hn =>
      exact .inl (.size (p := p.supply more) hphase hframing hs hremaining hin
        (takeSize_more more hsize) hn)
  | lastSize hphase hframing hs hremaining hin hsize =>
      exact .inl (.lastSize (p := p.supply more) hphase hframing hs hremaining hin
        (takeSize_more more hsize))
  | data hphase hframing hs hremaining hne =>
      by_cases hlen : p.unread.length < p.draft.remaining
      · exact .inr (.data hphase hframing hs hne hlen)
      · -- the data of the chunk has arrived as a whole
        have hall : p.draft.remaining ≤ p.unread.length := by omega
        have hdata := Advance.data (p := p.supply more) hphase hframing hs hremaining
          (by simp [hne])
        have hmissing : p.draft.remaining - (p.unread ++ more).length =
            p.draft.remaining - p.unread.length := by
          rw [List.length_append]
          omega
        simp only [unread_supply, draft_supply, List.take_append_of_le_length hall,
          List.drop_append_of_le_length hall, hmissing] at hdata
        exact .inl hdata
  | chunkEnd hphase hframing hs hremaining hin hend =>
      have hmore : Chunk.hasEnd (p.unread ++ more) = .ok true := by
        rw [Chunk.hasEnd_append more (by simp [hend]), hend]
      have hended := Advance.chunkEnd (p := p.supply more) hphase hframing hs hremaining hin hmore
      simp only [unread_supply, draft_supply,
        List.drop_append_of_le_length (Chunk.two_le_length_of_hasEnd hend)] at hended
      exact .inl hended

/-- **A step that does not stop within a body is the same when more data follows.** -/
theorem Advance.supply (h : Advance p es q) (more : Octets)
    (hq : q.unread ≠ [] ∨ q.phase ≠ .awaitBody) : Advance (p.supply more) es (q.supply more) := by
  refine (h.supply_or_partly more).resolve_right fun hpart => ?_
  obtain ⟨hempty, hphase⟩ := hpart.left
  exact hq.elim (absurd hempty) (absurd hphase)

/-- **Reading up to the end of a message is the same when more data follows.** -/
theorem Reads.supply (h : Reads p es q) (hq : q.phase ≠ .awaitBody) (more : Octets) :
    Reads (p.supply more) es (q.supply more) := by
  induction h with
  | refl p => exact .refl _
  | step hadvance hrest ih =>
      refine .step (hadvance.supply more ?_) (ih hq)
      -- unless it is the last, a step leaves something to read
      cases hrest with
      | refl => exact .inr hq
      | step hnext => exact .inl hnext.unread_ne_nil

/-! ## Runs -/

/-- A run that has not stopped short has made steps up to where it waits. -/
theorem reads_of_run (hr : (run p).isOver = false) (hp : p.hasFailed = false) :
    Reads p (run p).events (run p).parser ∧ (run p).parser.step = .wait := by
  induction p using run.induct with
  | case1 p hwait =>
      rw [run_eq p, hwait]
      exact ⟨.refl p, hwait⟩
  | case2 p events q hnext ih =>
      rw [run_eq p, hnext] at hr ⊢
      have hadvance := advance_of_step hnext
      obtain ⟨hreads, hwait⟩ := ih hr (decide_eq_false hadvance.phase_ne_failed.2)
      exact ⟨.step hadvance hreads, hwait⟩
  | case3 p events q cause hreject =>
      rw [run_eq p, hreject] at hr
      cases hr
  | case4 p q cause hinterrupt =>
      rw [run_eq p, hinterrupt] at hr
      cases hr

/-- Only at the end of a head is a run interrupted. -/
theorem phase_of_interrupted (h : (run p).interruption ≠ none) :
    (run p).parser.phase = .awaitHeaders := by
  induction p using run.induct with
  | case1 p hwait =>
      rw [run_eq p, hwait] at h
      exact absurd rfl h
  | case2 p events q hnext ih =>
      rw [run_eq p, hnext] at h ⊢
      exact ih h
  | case3 p events q cause hreject =>
      rw [run_eq p, hreject] at h
      exact absurd rfl h
  | case4 p q cause hinterrupt =>
      obtain ⟨hphase, rest, line, rfl, -⟩ := interrupt_of_step hinterrupt
      rw [run_eq p, hinterrupt]
      exact hphase

theorem Advance.error_eq (h : Advance p es q) : q.error = p.error := by
  cases h <;> rfl

theorem Reads.options_eq (h : Reads p es q) : q.options = p.options := by
  induction h with
  | refl p => rfl
  | step hadvance _ ih => rw [ih, hadvance.options_eq]

theorem Reads.error_eq (h : Reads p es q) : q.error = p.error := by
  induction h with
  | refl p => rfl
  | step hadvance _ ih => rw [ih, hadvance.error_eq]

/-! ## After a message -/

/-- The start of the next message is a new parser, but for the count. -/
theorem next_eq_ahead (hempty : p.unread = []) (herror : p.error = none) (more : Octets) :
    (p.supply more).next = ((new p.options).supply more).ahead p.completed := by
  unfold next supply
  rw [hempty, herror]
  rfl

/-- What a new parser reads up to the end of a message. -/
structure Completes (o : Options) (data : Octets) (es : List Event) (q : Parser) : Prop where
  reads : Reads ((new o).supply data) es q
  phase : q.phase = .done
  unread : q.unread = []

variable {o : Options} {data : Octets}

theorem Completes.step_eq (h : Completes o data es q) : q.step = .wait := by
  rw [step_of_done h.phase, if_pos h.unread]

theorem Completes.feed_eq (h : Completes o data es q) :
    (new o).feed data = { parser := q, events := es } :=
  feed_of_reads h.reads h.step_eq

/-- A new parser that ends at rest has completed its messages. -/
theorem completes_of_done (h : ((new o).feed data).parser.phase = .done) :
    Completes o data ((new o).feed data).events ((new o).feed data).parser := by
  have hrun : (new o).feed data = (run ((new o).supply data)).settle :=
    Parser.feed_eq (hasFailed_new o) data
  -- an interruption would have left the parser in the head of a message
  have hnone : (run ((new o).supply data)).interruption = none := by
    by_contra hsome
    have hparser : ((new o).feed data).parser = (run ((new o).supply data)).parser := by
      rw [hrun, Run.settle]
      split_ifs <;> rfl
    rw [hparser, phase_of_interrupted hsome] at h
    cases h
  rw [hrun, settle_of_none hnone] at h ⊢
  have hover : (run ((new o).supply data)).isOver = false := by
    unfold Run.isOver hasFailed
    rw [hnone, h]
    rfl
  obtain ⟨hreads, hwait⟩ := reads_of_run hover (hasFailed_new o)
  refine ⟨hreads, h, ?_⟩
  rw [step_of_done h] at hwait
  by_contra hne
  rw [if_neg hne] at hwait
  cases hwait

/-- A message can only have been completed if start lines can be read. -/
theorem Completes.startLine_nonneg (h : Completes o data es q) : 0 ≤ o.limits.startLine := by
  obtain ⟨hreads, hphase, -⟩ := h
  cases hreads with
  | refl => cases hphase
  | step hadvance =>
      have hscan : ∃ line rest, Line.scan data o.limits.startLine = .ok (some (line, rest)) := by
        cases hadvance with
        | skip _ hscan => exact ⟨_, _, hscan⟩
        | start _ hscan => exact ⟨_, _, hscan⟩
        | @field part _ _ _ hphase => cases part <;> cases hphase
        | _ hphase => cases hphase
      obtain ⟨line, rest, hscan⟩ := hscan
      have := (Line.data_eq_of_scan hscan).2.2.2
      omega

/-- **What follows a complete message is read by a new parser**, but for the count. -/
theorem Completes.run_eq (h : Completes o data es q) {more : Octets} (hne : more ≠ []) :
    run ((new o).supply (data ++ more)) =
      ((run ((new o).supply more)).ahead q.completed).after es := by
  have herror : q.error = none := h.reads.error_eq
  have hoptions : q.options = o := h.reads.options_eq
  have hreads : Reads ((new o).supply (data ++ more)) es (q.supply more) := by
    rw [← supply_supply]
    exact h.reads.supply (by simp [h.phase]) more
  have hnext : Reads (q.supply more) [] (q.supply more).next :=
    (Advance.next (p := q.supply more) h.phase (by simp [hne])).reads
  calc run ((new o).supply (data ++ more))
      = (run (q.supply more).next).after (es ++ []) := (hreads.trans hnext).run_eq
    _ = (run (((new o).supply more).ahead q.completed)).after es := by
        rw [next_eq_ahead h.unread herror, hoptions, List.append_nil]
    _ = ((run ((new o).supply more)).ahead q.completed).after es := by rw [run_ahead]

theorem Completes.interruption_feed (h : Completes o data es q) {more : Octets} (hne : more ≠ []) :
    ((new o).feed (data ++ more)).interruption = ((new o).feed more).interruption := by
  rw [Parser.feed_eq (hasFailed_new o), Parser.feed_eq (hasFailed_new o), interruption_settle,
    interruption_settle, h.run_eq hne]
  rfl

/-- **Feeding what follows a complete message is feeding it to a new parser.** -/
theorem Completes.feed_append (h : Completes o data es q) {more : Octets} (hne : more ≠ [])
    (hmore : ((new o).feed more).interruption = none) :
    (new o).feed (data ++ more) = (((new o).feed more).ahead q.completed).after es := by
  have hall : ((new o).feed (data ++ more)).interruption = none := by
    rw [h.interruption_feed hne, hmore]
  rw [feed_eq_run (hasFailed_new o) hall, feed_eq_run (hasFailed_new o) hmore, h.run_eq hne]

/-! ## Parsing -/

/-- A step that goes on reports no error. -/
theorem Advance.messages (h : Advance p es q) : ∃ ms, Event.messages es = .ok ms := by
  have hcounted : Event.messages p.countedEvents = .ok [] := by
    unfold countedEvents
    split_ifs <;> rfl
  cases h with
  | counted => exact ⟨_, hcounted⟩
  | @countedEnd m =>
      refine ⟨[m], ?_⟩
      rw [Event.messages_append hcounted]
      rfl
  | rest =>
      refine ⟨[], ?_⟩
      unfold restEvents
      split_ifs <;> rfl
  | _ => exact ⟨_, rfl⟩

theorem Reads.messages (h : Reads p es q) : ∃ ms, Event.messages es = .ok ms := by
  induction h with
  | refl p => exact ⟨[], rfl⟩
  | step hadvance _ ih =>
      obtain ⟨ms, hms⟩ := hadvance.messages
      obtain ⟨later, hlater⟩ := ih
      exact ⟨ms ++ later, by rw [Event.messages_append hms, hlater]; rfl⟩

/-- Reading all of an input is feeding it and, unless that ends it, closing. -/
theorem readAll_singleton (h : ((new o).feed data).interruption = none) :
    (new o).readAll [data] =
      if ((new o).feed data).parser.hasFailed then (new o).feed data
      else ((new o).feed data).parser.close.after ((new o).feed data).events := by
  unfold readAll
  rw [feedAll_singleton (hasFailed_new o) h]
  simp only [Run.isOver, h, Option.isSome_none, Bool.false_or]

/-- Closing leaves a parser that has failed as it is. -/
theorem feedAndClose_of_failed (hp : p.hasFailed = false)
    (hnone : (p.feed data).interruption = none) (hfailed : (p.feed data).parser.hasFailed = true) :
    p.feedAndClose data = p.feed data := by
  unfold feedAndClose
  rw [close_of_failed (of_decide_eq_true hfailed)]
  refine after_stay hnone ?_
  rw [feed_eq_run hp hnone]
  exact lost_run _

theorem readAll_eq_feedAndClose (h : ((new o).feed data).interruption = none) :
    (new o).readAll [data] = (new o).feedAndClose data := by
  rw [readAll_singleton h]
  split_ifs with hfailed
  · exact (feedAndClose_of_failed (hasFailed_new o) h hfailed).symm
  · rfl

theorem interruption_readAll (h : ((new o).feed data).interruption = none) :
    ((new o).readAll [data]).interruption = none := by
  rw [readAll_singleton h]
  split_ifs
  · exact h
  · exact interruption_close _

/-- **Reading what follows a complete message is reading it with a new parser.** -/
theorem Completes.readAll_append (h : Completes o data es q) {more : Octets} (hne : more ≠ [])
    (hmore : ((new o).feed more).interruption = none) :
    (new o).readAll [data ++ more] = (((new o).readAll [more]).ahead q.completed).after es := by
  have hall : ((new o).feed (data ++ more)).interruption = none := by
    rw [h.interruption_feed hne, hmore]
  rw [readAll_singleton hall, readAll_singleton hmore, h.feed_append hne hmore]
  have hfailed : ((((new o).feed more).ahead q.completed).after es).parser.hasFailed =
      ((new o).feed more).parser.hasFailed := rfl
  rw [hfailed]
  split_ifs
  · rfl
  · show (((new o).feed more).parser.ahead q.completed).close.after _ = _
    rw [close_ahead]
    exact (after_append _ es _).symm

theorem Completes.readAll_eq (h : Completes o data es q) :
    (new o).readAll [data] = { parser := q, events := es } := by
  have hfailed : q.hasFailed = false := by simp [hasFailed, h.phase]
  rw [readAll_singleton (by rw [h.feed_eq]), h.feed_eq]
  simp only [hfailed, Bool.false_eq_true, if_false, close_of_done h.phase]
  rw [Run.after, List.append_nil]

variable {kind : Option Kind} {limits : Limits}

theorem parse_of_interrupted {cause : Interruption}
    (h : ((new { kind, limits }).feed data).interruption = some cause) :
    parse data kind limits = .error (.interrupted cause) := by
  have hover : ((new { kind, limits }).feed data).isOver = true := by simp [Run.isOver, h]
  have hall : (new { kind, limits }).readAll [data] = (new { kind, limits }).feed data := by
    simp only [readAll, feedAll, hover, if_true]
  unfold parse
  simp only [hall, h]

theorem parse_eq_messages (h : ((new { kind, limits }).feed data).interruption = none) :
    parse data kind limits =
      (Event.messages ((new { kind, limits }).readAll [data]).events).mapError .invalid := by
  unfold parse
  simp only [interruption_readAll h]

/-- An error that is found is what parsing comes to. -/
theorem parse_of_reject {r : Parser} {cause : ParseError}
    (hreads : Reads ((new { kind, limits }).supply data) es q)
    (hreject : q.step = .reject [] r cause) :
    parse data kind limits = .error (.invalid cause) := by
  have hfeed : (new { kind, limits }).feed data =
      { parser := r.fail cause, events := es ++ [.error cause] } := by
    rw [feed_eq (hasFailed_new _), hreads.run_eq, run_eq q, hreject]
    rfl
  have hnone : ((new { kind, limits }).feed data).interruption = none := by rw [hfeed]
  have hall : (new { kind, limits }).readAll [data] =
      { parser := r.fail cause, events := es ++ [.error cause] } := by
    rw [readAll_singleton hnone, hfeed]
    rfl
  obtain ⟨ms, hms⟩ := hreads.messages
  rw [parse_eq_messages hnone, hall, Event.messages_append hms]
  rfl

/-- **Parsing goes on after a complete message as from the beginning.** -/
theorem Completes.parse_append (h : Completes { kind, limits } data es q) {ms : List Message}
    (hms : Event.messages es = .ok ms) {more : Octets} (hne : more ≠ []) :
    parse (data ++ more) kind limits = (parse more kind limits).map (ms ++ ·) := by
  cases hmore : ((new { kind, limits }).feed more).interruption with
  | some cause =>
      rw [parse_of_interrupted hmore, parse_of_interrupted (by rwa [h.interruption_feed hne])]
      rfl
  | none =>
      rw [parse_eq_messages hmore, parse_eq_messages (by rwa [h.interruption_feed hne]),
        h.readAll_append hne hmore]
      show (Event.messages (es ++ ((new { kind, limits }).readAll [more]).events)).mapError _ = _
      rw [Event.messages_append hms]
      cases Event.messages ((new { kind, limits }).readAll [more]).events <;> rfl

theorem Completes.parse_eq (h : Completes { kind, limits } data es q) {ms : List Message}
    (hms : Event.messages es = .ok ms) : parse data kind limits = .ok ms := by
  rw [parse_eq_messages (by rw [h.feed_eq]), h.readAll_eq, hms]
  rfl

theorem parse_nil (h0 : 0 ≤ limits.startLine) : parse [] kind limits = .ok [] :=
  parse_of_conveys (conveys_nil h0)

/-! ## Independence -/

/-- **Messages on one connection do not influence each other.** When a new parser that is fed `x`
ends at rest, feeding it `x` and `y` at once gives the events of `x` and then those that a new
parser gives for `y`, and leaves the state that `y` alone leaves, but for the count. Parsing both
gives the messages of `x` and then what parsing `y` gives, messages or failure. And whatever state a
parser is in when it is reset, it then answers all calls as a new one does, but for the count. -/
theorem independent_messages :
    (∀ (o : Options) (x y : Octets), ((new o).feed x).parser.phase = .done →
      ((new o).feed y).interruption = none →
      ((new o).feed (x ++ y)).interruption = none ∧
        ((new o).feed (x ++ y)).events = ((new o).feed x).events ++ ((new o).feed y).events ∧
        (y ≠ [] → ((new o).feed (x ++ y)).parser =
          ((new o).feed y).parser.ahead ((new o).feed x).parser.completed)) ∧
    (∀ (kind : Option Kind) (limits : Limits) (x y : Octets),
      ((new { kind, limits }).feed x).parser.phase = .done →
      ∃ ms, parse x kind limits = .ok ms ∧
        parse (x ++ y) kind limits = (parse y kind limits).map (ms ++ ·)) ∧
    ∀ (p : Parser) (cs : List Call),
      p.reset.calls cs = ((new p.options).calls cs).map (Run.ahead p.completed) := by
  refine ⟨fun o x y hdone hy => ?_, fun kind limits x y hdone => ?_, fun p cs => ?_⟩
  · have hx := completes_of_done hdone
    by_cases hne : y = []
    · subst hne
      rw [feed_nil_new hx.startLine_nonneg, List.append_nil, List.append_nil, hx.feed_eq]
      exact ⟨rfl, rfl, fun hnil => absurd rfl hnil⟩
    · have hall := hx.feed_append hne hy
      refine ⟨by rw [hx.interruption_feed hne, hy], by rw [hall]; rfl, fun _ => by rw [hall]; rfl⟩
  · have hx := completes_of_done hdone
    obtain ⟨ms, hms⟩ := hx.reads.messages
    refine ⟨ms, hx.parse_eq hms, ?_⟩
    by_cases hne : y = []
    · subst hne
      rw [List.append_nil, hx.parse_eq hms, parse_nil hx.startLine_nonneg]
      show _ = Except.ok (ms ++ [])
      rw [List.append_nil]
    · exact hx.parse_append hms hne
  · rw [reset_eq_ahead, calls_ahead]

/-- A request with a chunked body before one without a body, on a connection that reports bodies as
they arrive, and a parser that is reset within a chunk. -/
theorem independent_messages_chunked :
    let o : Options := { streaming := true }
    let x := Chunk.ascii
      "PUT /a HTTP/1.1\r\nTransfer-Encoding: chunked\r\n\r\n3\r\nabc\r\n0\r\nT: 1\r\n\r\n"
    let y := Chunk.ascii "GET /b HTTP/1.1\r\n\r\n"
    (((new o).feed x).parser.phase = .done ∧ ((new o).feed y).interruption = none ∧ y ≠ []) ∧
      ((new o).feed (x ++ y)).parser = ((new o).feed y).parser.ahead 1 ∧
      ((new {}).feed x).parser.phase = .done ∧
      (∃ ms, parse x none {} = .ok ms ∧ parse (x ++ y) none {} = (parse y none {}).map (ms ++ ·)) ∧
      ((new o).feed (x.take 53)).parser.reset.calls [.feed y, .close] =
        ((new ((new o).feed (x.take 53)).parser.options).calls [.feed y, .close]).map
          (Run.ahead ((new o).feed (x.take 53)).parser.completed) := by
  intro o x y
  have hx : ((new o).feed x).parser.phase = .done := by decide +kernel
  have hy : ((new o).feed y).interruption = none := by decide +kernel
  have hne : y ≠ [] := by decide +kernel
  have hcount : ((new o).feed x).parser.completed = 1 := by decide +kernel
  have hbuffered : ((new {}).feed x).parser.phase = .done := by decide +kernel
  obtain ⟨hconnection, hparse, hreset⟩ := independent_messages
  refine ⟨⟨hx, hy, hne⟩, ?_, hbuffered, hparse none {} x y hbuffered, hreset _ _⟩
  rw [(hconnection o x y hx hy).2.2 hne, hcount]

end Parser

end HttpCodec
