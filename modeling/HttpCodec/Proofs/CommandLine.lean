import HttpCodec.CommandLine
import HttpCodec.Proofs.Wording

set_option autoImplicit false

/-! # What is printed of an input is one line for each event

Everything that a parser reports of an input was checked or is quoted, so each event is described
without a line break, and an error is the last event (`Parser.Placed.oneLine_of_readAll`). So the
lines that are printed are the descriptions of the events, and the exit code tells whether the last
one is an error (`reporting_of_events`): no input can make the report look like that of another one.
-/

namespace HttpCodec

open CommandLine (describe printEvents reportEvents)

/-! ## Descriptions -/

namespace Parser

variable {o : Options} {p q : Parser} {es : List Event}

theorem oneLine_describe_start {l : StartLine} (h : l.Sound) : OneLine (describe (.start l)) := by
  have htext := oneLine_of_plain h.plain
  cases l with
  | request l => exact .append (by decide) htext
  | response l => exact .append (by decide) htext

theorem oneLine_describe_field (part : Part) {f : Field} (h : f.Sound) :
    OneLine (describe (.field part f)) := by
  have hname := oneLine_of_plain (Field.plain_of_token h.token)
  have hvalue := oneLine_of_plain h.plain
  cases part <;> exact .append (.append (.append (by decide) hname) (by decide)) hvalue

theorem oneLine_describe_body (data : Octets) : OneLine (describe (.body data)) :=
  .append (.append (by decide) (oneLine_ofNat _)) (by decide)

theorem oneLine_describe_complete (m : Message) : OneLine (describe (.complete m)) :=
  .append (.append (by decide) (oneLine_ofNat _)) (by decide)

theorem oneLine_describe_error {cause : ParseError} (h : OneLine cause.message) :
    OneLine (describe (.error cause)) := by
  have htype : OneLine cause.type.name := by
    cases cause.type <;> decide
  exact .append (by decide) (.append (.append htype (by decide)) h)

/-- **What a step reports is described on one line.** -/
theorem Advance.oneLine (h : Advance p es q) : ∀ e ∈ es, OneLine (describe e) := by
  intro e he
  cases h with
  | start _ _ _ hread =>
      rw [List.mem_singleton.mp he]
      exact oneLine_describe_start
        (StartLine.sound_of_read (fun _ => Latin.isLatin_of_mem_decode) hread).1
  | field _ _ _ hfield =>
      rw [List.mem_singleton.mp he]
      exact oneLine_describe_field _ (of_fieldOf hfield).2.1
  | counted =>
      obtain ⟨data, rfl⟩ := eq_body_of_mem_countedEvents he
      exact oneLine_describe_body data
  | countedEnd =>
      rcases List.mem_append.mp he with he | he
      · obtain ⟨data, rfl⟩ := eq_body_of_mem_countedEvents he
        exact oneLine_describe_body data
      · rw [List.mem_singleton.mp he]
        exact oneLine_describe_complete _
  | chunk | data =>
      rw [List.mem_singleton.mp he]
      exact oneLine_describe_body _
  | bodiless | trailersEnd =>
      rw [List.mem_singleton.mp he]
      exact oneLine_describe_complete _
  | rest =>
      obtain ⟨data, rfl⟩ := eq_body_of_mem_restEvents he
      exact oneLine_describe_body data
  | _ => exact absurd he List.not_mem_nil

theorem Reads.oneLine (h : Reads p es q) : ∀ e ∈ es, OneLine (describe e) := by
  induction h with
  | refl p => exact nofun
  | step hadvance _ ih => exact List.forall_mem_append.mpr ⟨hadvance.oneLine, ih⟩

theorem Refusal.oneLine {cause : ParseError} (h : Refusal p es q cause) :
    ∀ e ∈ es, OneLine (describe e) := by
  intro e he
  obtain ⟨data, rfl⟩ := h.eq_body_of_mem he
  exact oneLine_describe_body data

theorem Placed.oneLine_of_feed (h : Placed p) {block : Octets} {e : Event}
    (he : e ∈ (p.feed block).events) : OneLine (describe e) := by
  have hplaced : Placed (p.supply block) := h.leave (p.unread ++ block)
  obtain ⟨es, q, hreads, he | ⟨fs, r, cause, hrefusal, -, he | rfl⟩⟩ := exists_of_mem_feed he
  · exact hreads.oneLine e he
  · exact hrefusal.oneLine e he
  · exact oneLine_describe_error ((hplaced.reads hreads).oneLine_of_refusal hrefusal)

theorem Placed.oneLine_of_close (h : Placed p) {e : Event} (he : e ∈ p.close.events) :
    OneLine (describe e) := by
  by_cases hrest : p.phase = .awaitBody ∧ p.draft.framing = some .untilClose
  · obtain ⟨m, hmessage⟩ := h.exists_message hrest.1
    have hevents : p.close.events ⊆ [.body p.draft.body, .complete m] := by
      rw [close_of_rest hrest.1 hrest.2, conclude_of_message _ hmessage,
        conclude_of_message _ hmessage]
      split_ifs <;> simp
    rcases List.mem_pair.mp (hevents he) with rfl | rfl
    · exact oneLine_describe_body _
    · exact oneLine_describe_complete m
  · have hphase : OneLine p.phase.name := by
      cases p.phase <;> decide
    rcases events_close fun hbody hframing => hrest ⟨hbody, hframing⟩ with hevents | hevents
    · simp [hevents] at he
    · rw [hevents] at he
      rw [List.mem_singleton.mp he]
      exact oneLine_describe_error (.append (by decide) hphase)

/-! ## All of an input -/

theorem readAll_nil (hp : p.hasFailed = false) : p.readAll [] = p.close := by
  unfold readAll feedAll
  simp only [Run.isOver, hp, Option.isSome_none, Bool.or_false]
  exact after_nil _

/-- A whole input is its first block and the rest, unless the first block ends it. -/
theorem readAll_cons (p : Parser) (block : Octets) (blocks : List Octets) :
    p.readAll (block :: blocks) =
      if (p.feed block).isOver then p.feed block
      else ((p.feed block).parser.readAll blocks).after (p.feed block).events := by
  unfold readAll
  rw [feedAll]
  by_cases hover : (p.feed block).isOver = true
  · simp only [if_pos hover]
  · simp only [if_neg hover]
    show (if ((p.feed block).parser.feedAll blocks).isOver then _ else _) = _
    by_cases hover' : ((p.feed block).parser.feedAll blocks).isOver = true
    · simp only [if_pos hover']
    · simp only [if_neg hover']
      exact (after_append _ _ _).symm

/-- **What is reported of an input**: each event is described on one line, and an error is the last
one. -/
theorem Placed.oneLine_of_readAll (h : Placed p) (hp : p.phase ≠ .failed) (blocks : List Octets) :
    (∀ e ∈ (p.readAll blocks).events, OneLine (describe e)) ∧
      ((p.readAll blocks).interruption = none → Reports (p.readAll blocks)) := by
  -- by induction on the blocks: a block that does not end the input reports no error
  induction blocks generalizing p with
  | nil =>
      rw [readAll_nil (decide_eq_false hp)]
      exact ⟨fun e he => h.oneLine_of_close he, fun _ => (h.reports_close hp).1⟩
  | cons block blocks ih =>
      have hfeed : ∀ e ∈ (p.feed block).events, OneLine (describe e) :=
        fun e he => h.oneLine_of_feed he
      rw [readAll_cons]
      by_cases hover : (p.feed block).isOver = true
      · rw [if_pos hover]
        exact ⟨hfeed, reports_feed hp⟩
      · rw [if_neg hover]
        simp only [Run.isOver, hasFailed, Bool.or_eq_true, Option.isSome_iff_ne_none,
          decide_eq_true_eq, not_or, ne_eq, not_not] at hover
        obtain ⟨hnone, hphase⟩ := hover
        obtain ⟨hlines, hreports⟩ := ih (placed_invariant.feed h block) hphase
        have hquiet : ∀ cause, .error cause ∉ (p.feed block).events := by
          rcases (reports_feed hp hnone).error with ⟨-, hquiet⟩ | ⟨_, _, _, _, hfailed, _⟩
          · exact hquiet
          · exact absurd hfailed hphase
        exact ⟨List.forall_mem_append.mpr ⟨hfeed, hlines⟩,
          fun hreturns => (hreports hreturns).after hquiet⟩

end Parser

namespace CommandLine

variable {events es : List Event}

/-! ## What is printed -/

/-- Events that are no errors are all printed. -/
theorem printEvents_append (h : ∀ cause, .error cause ∉ es) (rest : List Event) :
    printEvents (es ++ rest) = (es.flatMap lineOf ++ (printEvents rest).1, (printEvents rest).2) := by
  induction es with
  | nil => rfl
  | cons e es ih =>
      have ih := ih fun cause hm => h cause (List.mem_cons_of_mem e hm)
      cases e with
      | error cause => exact absurd List.mem_cons_self (h cause)
      | _ => simp only [List.cons_append, printEvents, ih, List.flatMap_cons, List.append_assoc]

/-- **Every event is printed** if an error is the last one, and the code tells whether it is. -/
theorem printEvents_of_reports {r : Parser.Run} (h : Parser.Reports r) :
    (printEvents r.events).1 = r.events.flatMap lineOf ∧
      ((printEvents r.events).2 = 1 ∧ (∃ cause, r.events.getLast? = some (.error cause)) ∨
        (printEvents r.events).2 = 0 ∧ ∀ cause, r.events.getLast? ≠ some (.error cause)) := by
  rcases h.error with ⟨-, hquiet⟩ | ⟨es, cause, hevents, hquiet, -⟩
  · have hprint := printEvents_append hquiet []
    rw [List.append_nil] at hprint
    rw [hprint]
    exact ⟨List.append_nil _, .inr ⟨rfl, fun cause hlast =>
      hquiet cause (List.mem_of_getLast? hlast)⟩⟩
  · rw [hevents, printEvents_append hquiet, List.flatMap_append]
    refine ⟨?_, .inl ⟨rfl, cause, by simp⟩⟩
    rw [List.flatMap_singleton]
    rfl

/-- Without an interruption the code is that of what is printed. -/
theorem exit_reportEvents {p : Parser} {source : Source}
    (h : (p.read source).interruption = none) :
    (reportEvents p source).exit = .ok (printEvents (p.read source).events).2 := by
  simp only [reportEvents, h]

/-- Lines that are cut at their ends are the descriptions again. -/
theorem splitOn_lines (h : ∀ e ∈ events, OneLine (describe e)) :
    splitOn '\n' (events.flatMap lineOf) = events.map describe ++ [[]] := by
  induction events with
  | nil => rfl
  | cons e events ih =>
      have hLF : '\n' ∉ describe e := fun hm => (h e List.mem_cons_self '\n' hm).1 rfl
      have hlines : (e :: events).flatMap lineOf =
          describe e ++ '\n' :: events.flatMap lineOf := by
        rw [List.flatMap_cons, lineOf, List.append_assoc]
        rfl
      rw [hlines, splitOn_append hLF, ih fun e' he' => h e' (List.mem_cons_of_mem e he')]
      rfl

/-- **The report of an input cannot be forged.** Unless the parser is interrupted, the events that it
reads from a source are printed in order, each on one line: no description has a line break, so that
cutting the output at the line feeds gives one description for each event. The exit code is one if the
last event is an error, and zero otherwise. -/
theorem reporting_of_events (o : Parser.Options) (source : Source)
    (h : ((Parser.new o).read source).interruption = none) :
    let events := ((Parser.new o).read source).events
    let report := reportEvents (Parser.new o) source
    (∀ e ∈ events, '\n' ∉ describe e ∧ '\r' ∉ describe e) ∧
    report.output = events.flatMap lineOf ∧
    splitOn '\n' report.output = events.map describe ++ [[]] ∧
    (report.exit = .ok 1 ↔ ∃ cause, events.getLast? = some (.error cause)) ∧
    (report.exit = .ok 0 ↔ ∀ cause, events.getLast? ≠ some (.error cause)) := by
  intro events report
  have hnew : Parser.Placed (Parser.new o) := (Parser.Reached.new (o := o)).placed
  obtain ⟨hlines, hreports⟩ := hnew.oneLine_of_readAll (by simp [Parser.new]) source.blocks
  have hlines : ∀ e ∈ events, OneLine (describe e) := hlines
  obtain ⟨hprinted, hcode⟩ := printEvents_of_reports (hreports h)
  have houtput : report.output = events.flatMap lineOf := hprinted
  have hexit : report.exit = .ok (printEvents events).2 := exit_reportEvents h
  refine ⟨fun e he => ⟨fun hm => (hlines e he _ hm).1 rfl, fun hm => (hlines e he _ hm).2 rfl⟩,
    houtput, by rw [houtput, splitOn_lines hlines], ?_⟩
  have hcode : (printEvents events).2 = 1 ∧ (∃ cause, events.getLast? = some (.error cause)) ∨
      (printEvents events).2 = 0 ∧ ∀ cause, events.getLast? ≠ some (.error cause) := hcode
  rw [hexit]
  rcases hcode with ⟨hone, hlast⟩ | ⟨hzero, hnone⟩
  · rw [hone]
    obtain ⟨cause, hcause⟩ := hlast
    exact ⟨iff_of_true rfl ⟨cause, hcause⟩, iff_of_false (by simp) fun hnone => hnone cause hcause⟩
  · rw [hzero]
    exact ⟨iff_of_false (by simp) fun hlast => hlast.elim hnone, iff_of_true rfl hnone⟩

/-- After a whole request, a start line with a carriage return in it ends the report with the line of
an error. -/
theorem reporting_of_events_malformed :
    let source := Source.ofStream
      (Chunk.ascii "GET / HTTP/1.1\r\n\r\nGET /\rCOMPLETE HTTP/1.1\r\n") Source.defaultSize
    let report := reportEvents (Parser.new {}) source
    ((Parser.new {}).read source).interruption = none ∧
      splitOn '\n' report.output =
        ["REQUEST  GET / HTTP/1.1", "COMPLETE 0 bytes",
          "ERROR    BadStartLine: Line contains a bare CR", ""] ∧
      report.exit = .ok 1 ∧
      ∃ cause, ((Parser.new {}).read source).events.getLast? = some (.error cause) := by
  intro source report
  have hreturns : ((Parser.new {}).read source).interruption = none := by decide +kernel
  obtain ⟨-, -, hsplit, hexit, -⟩ := reporting_of_events {} source hreturns
  have hone : report.exit = .ok 1 := by decide +kernel
  exact ⟨hreturns, hsplit.trans (by decide +kernel), hone, hexit.mp hone⟩

end CommandLine

end HttpCodec
