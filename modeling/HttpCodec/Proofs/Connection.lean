import HttpCodec.Connection
import HttpCodec.Proofs.Inbound
import HttpCodec.Proofs.Parser.Report

set_option autoImplicit false

/-! # Nothing on a connection is lost or received twice

A stream hands out its data in blocks, and a reader takes them as its calls need them. What a reader
still owes its caller is an invariant of the calls (`Owes`): the events that it has not handed out,
and those that its parser will report of the data that is still to come and of its end. Each call
returns the first thing that is owed, or runs out of time and owes the same (`Owes.receive`). So the
calls return the messages of the stream one by one, then its error, and then nothing
(`receiving_of_feeding`).
-/

namespace HttpCodec

/-- The messages that events complete. -/
def Event.completed (es : List Event) : List Message :=
  es.filterMap fun
    | .complete m => some m
    | _ => none

/-- The error that events end with, if they do. -/
def Event.failure? (es : List Event) : Option ParseError :=
  match es.getLast? with
  | some (.error cause) => some cause
  | _ => none

namespace Connection

open HttpCodec.Parser (Options new)

/-- What a call returns. -/
abbrev Answer := Except Error (Option Message)

/-- Tells whether a call ran out of time. -/
def timedOut : Answer → Bool
  | .error .timeout => true
  | _ => false

/-- The answer to the call that hands out a message or an error. -/
def answerOf : Except ParseError Message → Answer
  | .ok m => .ok (some m)
  | .error cause => .error (.invalid cause)

/-- The answers that hand out events, of which only messages and errors are. -/
def answers (es : List Event) : List Answer :=
  es.filterMap fun
    | .complete m => some (answerOf (.ok m))
    | .error cause => some (answerOf (.error cause))
    | _ => none

theorem answers_append (es fs : List Event) : answers (es ++ fs) = answers es ++ answers fs :=
  List.filterMap_append

theorem answers_of_firstOutcome_none {es : List Event} (h : Reader.firstOutcome es = none) :
    answers es = [] := by
  induction es with
  | nil => rfl
  | cons e es ih =>
      cases e with
      | complete m => cases h
      | error cause => cases h
      | _ => exact ih h

theorem answers_of_firstOutcome {es rest : List Event} {outcome : Except ParseError Message}
    (h : Reader.firstOutcome es = some (outcome, rest)) :
    answers es = answerOf outcome :: answers rest := by
  induction es with
  | nil => cases h
  | cons e es ih =>
      cases e with
      | complete m =>
          cases h
          rfl
      | error cause =>
          cases h
          rfl
      | _ => exact ih h

theorem timedOut_answerOf (outcome : Except ParseError Message) :
    timedOut (answerOf outcome) = false := by
  cases outcome <;> rfl

/-- Without an error the answers hand out the messages. -/
theorem answers_of_quiet {es : List Event} (h : ∀ cause, .error cause ∉ es) :
    answers es = (Event.completed es).map fun m => .ok (some m) := by
  induction es with
  | nil => rfl
  | cons e es ih =>
      have hrest := ih fun cause hmem => h cause (List.mem_cons_of_mem _ hmem)
      cases e with
      | complete m => exact congrArg (.ok (some m) :: ·) hrest
      | error cause => exact absurd List.mem_cons_self (h cause)
      | _ => exact hrest

/-- **Of what is reported the answers hand out the messages and then the error.** -/
theorem answers_of_reports {r : Parser.Run} (h : Parser.Reports r) :
    answers r.events = (Event.completed r.events).map (fun m => .ok (some m)) ++
      (Event.failure? r.events).toList.map fun cause => .error (.invalid cause) := by
  rcases h.error with ⟨-, hquiet⟩ | ⟨es, cause, hevents, hquiet, -, -⟩
  · have hnone : Event.failure? r.events = none := by
      unfold Event.failure?
      split
      next cause hlast => exact absurd (List.mem_of_getLast? hlast) (hquiet cause)
      · rfl
    rw [answers_of_quiet hquiet, hnone]
    exact (List.append_nil _).symm
  · have hcompleted : Event.completed (es ++ [.error cause]) = Event.completed es := by
      simp [Event.completed]
    have hfailure : Event.failure? (es ++ [.error cause]) = some cause := by
      simp [Event.failure?]
    rw [hevents, answers_append, answers_of_quiet hquiet, hcompleted, hfailure]
    rfl

/-! ## Reading a block -/

section

variable {p : Parser} {s t : Inbound} {patience : Patience} {size : Int} {block : Octets}

/-- A parser that keeps bodies waits for what a stream hands out. -/
structure Ready (p : Parser) (s : Inbound) (patience : Patience) (size : Int) : Prop where
  delivers : s.Delivers patience size
  keeps : p.options.streaming = false
  goes : p.hasFailed = false
  waits : p.step = .wait
  /-- Feeding all that is still to come is not interrupted. -/
  returns : (p.feed s.data).interruption = none

/-- At the end of the stream the parser is closed. -/
theorem Ready.feedAndClose_of_end (h : Ready p s patience size)
    (hread : s.read patience size = (some [], t)) : p.feedAndClose s.data = p.close := by
  unfold Parser.feedAndClose
  rw [h.delivers.data_eq_nil hread, Parser.feed_nil_of_wait h.goes h.waits]
  exact Parser.after_nil _

/-- **A block that is read is fed**, and what is reported of it comes before what is reported of the
rest of the stream. -/
theorem Ready.feed (h : Ready p s patience size) (hread : s.read patience size = (some block, t)) :
    (p.feed block).interruption = none ∧
      if (p.feed block).parser.hasFailed then p.feedAndClose s.data = p.feed block
      else Ready (p.feed block).parser t patience size ∧
        p.feedAndClose s.data =
          ((p.feed block).parser.feedAndClose t.data).after (p.feed block).events := by
  have hdata := Inbound.data_eq_of_read hread
  have hreturns := h.returns
  rw [hdata] at hreturns
  obtain ⟨hfirst, hsplit⟩ := Parser.feed_append h.keeps h.goes hreturns
  have hover : (p.feed block).isOver = (p.feed block).parser.hasFailed := by
    simp [Parser.Run.isOver, hfirst]
  rw [hover] at hsplit
  refine ⟨hfirst, ?_⟩
  rw [hdata]
  split_ifs with hfailed
  · -- the rest is not read any more
    rw [if_pos hfailed] at hsplit
    rw [← hsplit] at hfailed
    rw [Parser.feedAndClose_of_failed h.goes hreturns hfailed, hsplit]
  · rw [if_neg hfailed] at hsplit
    have hrun := Parser.feed_eq_run h.goes hfirst
    have hgoes : (p.feed block).parser.hasFailed = false := by simpa using hfailed
    have hpiece : (Parser.run (p.supply block)).isOver = false := by
      rw [← hrun, hover, hgoes]
    obtain ⟨hreads, hwait⟩ := Parser.reads_of_run hpiece (by simpa using h.goes)
    rw [← hrun] at hreads hwait
    refine ⟨⟨h.delivers.read hread, ?_, hgoes, hwait, ?_⟩, ?_⟩
    · rw [hreads.options_eq]
      exact h.keeps
    · rw [hsplit] at hreturns
      exact hreturns
    · unfold Parser.feedAndClose
      rw [hsplit]
      exact (Parser.after_append _ _ _).symm

/-- What is done with a block that is read from a stream. -/
theorem readAll_of_read (hread : s.read patience size = (some block, t)) :
    readAll p s patience size =
      if block.isEmpty then ⟨p.close.parser, p.close.events, none⟩
      else
        match (p.feed block).interruption with
        | some cause =>
            ⟨(p.feed block).parser, (p.feed block).events, some (.interrupted cause)⟩
        | none =>
            if (p.feed block).parser.hasFailed then
              ⟨(p.feed block).parser, (p.feed block).events, none⟩
            else
              { readAll (p.feed block).parser t patience size with
                events := (p.feed block).events ++
                  (readAll (p.feed block).parser t patience size).events } := by
  rw [readAll]
  split
  next hnone =>
    rw [hread] at hnone
    cases hnone
  next hread' =>
    rw [hread] at hread'
    cases hread'
    rfl

/-- **The events of a stream are those of feeding its data and closing**, if no read runs out of
time. -/
theorem Ready.readAll_eq (h : Ready p s patience size) (hprompt : s.Prompt patience) :
    readAll p s patience size =
      ⟨(p.feedAndClose s.data).parser, (p.feedAndClose s.data).events, none⟩ := by
  -- by induction on the blocks that are read, each of which leaves the parser ready for the next
  induction p, s using readAll.induct patience size with
  | case1 p s t hread => exact absurd hread (h.delivers.read_ne_none hprompt)
  | case2 p s block t hread hempty =>
      obtain rfl := List.isEmpty_iff.mp hempty
      rw [readAll_of_read hread, if_pos hempty, h.feedAndClose_of_end hread]
  | case3 p s block t hread hne r cause hcause =>
      rw [(h.feed hread).1] at hcause
      cases hcause
  | case4 p s block t hread hne r hnone hfailed =>
      obtain ⟨hreturns, hfed⟩ := h.feed hread
      rw [if_pos hfailed] at hfed
      rw [readAll_of_read hread, if_neg hne, hreturns]
      simp only
      rw [if_pos hfailed, hfed]
  | case5 p s block t hread hne r hnone hgoes ih =>
      obtain ⟨hreturns, hfed⟩ := h.feed hread
      rw [if_neg hgoes] at hfed
      rw [readAll_of_read hread, if_neg hne, hreturns]
      simp only
      rw [if_neg hgoes, ih hfed.1 (h.delivers.prompt hread hprompt), hfed.2]
      rfl

end

/-! ## Calls -/

namespace Reader

/-- What a reader will still hand out: the events that are pending, and those that its parser will
report of the rest of the stream, unless it reads no more. -/
inductive Owes : Reader → List Event → Prop
  | finished {r : Reader} (hover : (r.isEnded || r.parser.hasFailed) = true) : Owes r r.pending
  | ready {r : Reader} (hgoes : ¬ (r.isEnded || r.parser.hasFailed) = true)
      (hready : Ready r.parser r.inbound r.patience r.size) :
      Owes r (r.pending ++ (r.parser.feedAndClose r.inbound.data).events)

variable {r : Reader} {es : List Event}

theorem receive_of_outcome {outcome : Except ParseError Message} {rest : List Event}
    (h : firstOutcome r.pending = some (outcome, rest)) :
    r.receive = (answerOf outcome, { r with pending := rest }) := by
  rw [receive]
  cases outcome <;> simp only [h] <;> rfl

theorem receive_of_over (h : firstOutcome r.pending = none)
    (hover : (r.isEnded || r.parser.hasFailed) = true) :
    r.receive = (.ok none, { r with pending := [] }) := by
  rw [receive]
  simp only [h, hover, dite_true]

/-- A read that runs out of time changes nothing but that the stream has come further. -/
theorem receive_of_timeout (h : firstOutcome r.pending = none)
    (hgoes : ¬ (r.isEnded || r.parser.hasFailed) = true) {t : Inbound}
    (hread : r.inbound.read r.patience r.size = (none, t)) :
    r.receive = (.error .timeout, { r with inbound := t, pending := [] }) := by
  rw [receive]
  simp only [h, dif_neg hgoes]
  split
  next hread' =>
    rw [hread] at hread'
    cases hread'
    rfl
  next hread' =>
    rw [hread] at hread'
    cases hread'

theorem receive_of_read (h : firstOutcome r.pending = none)
    (hgoes : ¬ (r.isEnded || r.parser.hasFailed) = true) {block : Octets} {t : Inbound}
    (hread : r.inbound.read r.patience r.size = (some block, t)) :
    r.receive =
      if block.isEmpty then
        receive { r with
          inbound := t, isEnded := true, parser := r.parser.close.parser
          pending := r.parser.close.events }
      else
        match (r.parser.feed block).interruption with
        | some cause =>
            (.error (.interrupted cause),
              { r with inbound := t, parser := (r.parser.feed block).parser, pending := [] })
        | none =>
            receive { r with
              inbound := t, parser := (r.parser.feed block).parser
              pending := (r.parser.feed block).events } := by
  rw [receive]
  simp only [h, dif_neg hgoes]
  split
  next hread' =>
    rw [hread] at hread'
    cases hread'
  next hread' =>
    rw [hread] at hread'
    cases hread'
    rfl

/-- What a call does to what is owed: it returns the first answer, or nothing if nothing is owed, or
it runs out of time. -/
inductive Pays (r : Reader) : List Answer → List Answer → Prop
  | answer {as : List Answer} (hanswer : timedOut r.receive.1 = false) :
      Pays r (r.receive.1 :: as) as
  | nothing (hnothing : r.receive.1 = .ok none) : Pays r [] []
  | timeout {as : List Answer} (htimeout : timedOut r.receive.1 = true)
      (hslow : ¬ r.inbound.Prompt r.patience) : Pays r as as

/-- What a call returns, and what the reader still owes then. -/
structure Settles (r : Reader) (es fs : List Event) : Prop where
  owes : Owes r.receive.2 fs
  pays : Pays r (answers es) (answers fs)
  prompt : r.inbound.Prompt r.patience → r.receive.2.inbound.Prompt r.receive.2.patience

/-- A call that goes on as another one does settles what the other does. -/
theorem Settles.of_receive_eq {q : Reader} {es' fs : List Event} (h : q.Settles es' fs)
    (hreceive : r.receive = q.receive) (hanswers : answers es = answers es')
    (hprompt : r.inbound.Prompt r.patience → q.inbound.Prompt q.patience) :
    r.Settles es fs := by
  obtain ⟨howes, hpays, hstays⟩ := h
  refine ⟨hreceive ▸ howes, ?_, fun hr => hreceive ▸ hstays (hprompt hr)⟩
  rw [hanswers]
  generalize answers es' = as at hpays ⊢
  generalize answers fs = bs at hpays ⊢
  rw [← hreceive] at hstays
  cases hpays with
  | answer hanswer => exact hreceive ▸ .answer (hreceive ▸ hanswer)
  | nothing hnothing => exact .nothing (hreceive ▸ hnothing)
  | timeout htimeout hslow => exact .timeout (hreceive ▸ htimeout) fun hr => hslow (hprompt hr)

/-- A message or an error that is pending is handed out. -/
theorem Owes.settles_of_outcome (h : Owes r es) {outcome : Except ParseError Message}
    {rest : List Event} (hfirst : firstOutcome r.pending = some (outcome, rest)) :
    ∃ fs, r.Settles es fs := by
  have hreceive := receive_of_outcome hfirst
  have hanswer : timedOut r.receive.1 = false := by
    rw [hreceive]
    exact timedOut_answerOf outcome
  have hpending : answers r.pending = r.receive.1 :: answers rest := by
    rw [hreceive]
    exact answers_of_firstOutcome hfirst
  have hprompt : r.inbound.Prompt r.patience →
      r.receive.2.inbound.Prompt r.receive.2.patience := by
    rw [hreceive]
    exact id
  cases h with
  | finished hover =>
      refine ⟨rest, ?_, ?_, hprompt⟩
      · rw [hreceive]
        exact .finished (r := { r with pending := rest }) hover
      · rw [hpending]
        exact .answer hanswer
  | ready hgoes hready =>
      refine ⟨rest ++ (r.parser.feedAndClose r.inbound.data).events, ?_, ?_, hprompt⟩
      · rw [hreceive]
        exact .ready (r := { r with pending := rest }) hgoes hready
      · rw [answers_append, answers_append, hpending]
        exact .answer hanswer

/-- A reader that reads no more has nothing to hand out. -/
theorem Owes.settles_of_over (h : Owes r es) (hfirst : firstOutcome r.pending = none)
    (hover : (r.isEnded || r.parser.hasFailed) = true) : ∃ fs, r.Settles es fs := by
  have hreceive := receive_of_over hfirst hover
  cases h with
  | ready hgoes => exact absurd hover hgoes
  | finished =>
      refine ⟨[], ?_, ?_, ?_⟩
      · rw [hreceive]
        exact .finished (r := { r with pending := [] }) hover
      · rw [answers_of_firstOutcome_none hfirst]
        exact .nothing (by rw [hreceive])
      · rw [hreceive]
        exact id

/-- A reader whose read runs out of time owes what it did. -/
theorem Owes.settles_of_timeout (h : Owes r es) (hfirst : firstOutcome r.pending = none)
    (hgoes : ¬ (r.isEnded || r.parser.hasFailed) = true) {t : Inbound}
    (hread : r.inbound.read r.patience r.size = (none, t)) : ∃ fs, r.Settles es fs := by
  have hreceive := receive_of_timeout hfirst hgoes hread
  cases h with
  | finished hover => exact absurd hover hgoes
  | ready _ hready =>
      have hdelivers := hready.delivers
      have hdata := hdelivers.data_eq_of_timeout hread
      have hready' : Ready r.parser t r.patience r.size :=
        ⟨hdelivers.read hread, hready.keeps, hready.goes, hready.waits, hdata ▸ hready.returns⟩
      refine ⟨[] ++ (r.parser.feedAndClose t.data).events, ?_, ?_, ?_⟩
      · rw [hreceive]
        exact .ready (r := { r with inbound := t, pending := [] }) hgoes hready'
      · rw [answers_append, answers_of_firstOutcome_none hfirst, hdata]
        refine .timeout (by rw [hreceive]; rfl) fun hprompt => ?_
        exact hdelivers.read_ne_none hprompt hread
      · exact fun hprompt => absurd hread (hdelivers.read_ne_none hprompt)

/-- **A call returns the first of what is owed, and the reader then owes the others.** -/
theorem Owes.receive (h : Owes r es) : ∃ fs, r.Settles es fs := by
  -- by induction on the reads that the call makes, each of which makes more events pending
  induction r using receive.induct generalizing es with
  | case1 r m rest hfirst => exact h.settles_of_outcome hfirst
  | case2 r cause rest hfirst => exact h.settles_of_outcome hfirst
  | case3 r hfirst hover => exact h.settles_of_over hfirst hover
  | case4 r hfirst hgoes t hread => exact h.settles_of_timeout hfirst hgoes hread
  | case5 r hfirst hgoes block t hread hempty closed =>
      rename_i ih
      obtain rfl := List.isEmpty_iff.mp hempty
      cases h with
      | finished hover => exact absurd hover hgoes
      | ready _ hready =>
          obtain ⟨fs, hsettles⟩ := ih (.finished rfl)
          refine ⟨fs, hsettles.of_receive_eq ?_ ?_ fun hprompt =>
            hready.delivers.prompt hread hprompt⟩
          · rw [receive_of_read hfirst hgoes hread, if_pos hempty]
          · rw [answers_append, answers_of_firstOutcome_none hfirst,
              hready.feedAndClose_of_end hread]
            rfl
  | case6 r hfirst hgoes block t hread hne fed =>
      rename_i cause hcause
      cases h with
      | finished hover => exact absurd hover hgoes
      | ready _ hready =>
          rw [(hready.feed hread).1] at hcause
          cases hcause
  | case7 r hfirst hgoes block t hread hne fed =>
      rename_i hnone ih
      cases h with
      | finished hover => exact absurd hover hgoes
      | ready _ hready =>
          have hreceive := receive_of_read hfirst hgoes hread
          obtain ⟨hreturns, hfed⟩ := hready.feed hread
          rw [if_neg hne, hreturns] at hreceive
          have hprompt := fun hprompt => hready.delivers.prompt hread hprompt
          have hnothing := answers_of_firstOutcome_none hfirst
          split_ifs at hfed with hfailed
          · obtain ⟨fs, hsettles⟩ := ih (.finished (by simp [fed, hfailed]))
            refine ⟨fs, hsettles.of_receive_eq hreceive ?_ hprompt⟩
            rw [answers_append, hnothing, hfed]
            rfl
          · have hgoes' : ¬ (r.isEnded || fed.parser.hasFailed) = true := by
              simp only [Bool.or_eq_true, not_or] at hgoes ⊢
              exact ⟨hgoes.1, hfailed⟩
            obtain ⟨fs, hsettles⟩ := ih (.ready hgoes' hfed.1)
            refine ⟨fs, hsettles.of_receive_eq hreceive ?_ hprompt⟩
            rw [answers_append, hnothing, hfed.2]
            rfl

/-- The answers of several calls. -/
def results (r : Reader) (n : Nat) : List Answer := (r.receiveAll n).map Prod.fst

theorem results_succ (r : Reader) (n : Nat) :
    r.results (n + 1) = r.receive.1 :: r.receive.2.results n := rfl

/-- **Calls return what is owed, in order and each answer once**, and then nothing. Some may run out
of time in between. -/
theorem Owes.results_prefix (h : Owes r es) (n : Nat) :
    (r.results n).filter (fun a => !timedOut a) <+: answers es ++ List.replicate n (.ok none) := by
  induction n generalizing r es with
  | zero => exact List.nil_prefix
  | succ n ih =>
      obtain ⟨fs, howes, hpays, -⟩ := h.receive
      have hrest := ih howes
      -- there is room for one answer more
      have hmore : ∀ as : List Answer, as ++ List.replicate n (.ok none) <+:
          as ++ List.replicate (n + 1) (.ok none) := by
        intro as
        rw [List.replicate_succ', ← List.append_assoc]
        exact List.prefix_append _ _
      rw [results_succ]
      generalize answers es = as at hpays ⊢
      generalize answers fs = bs at hpays hrest
      cases hpays with
      | answer hanswer =>
          rw [List.filter_cons_of_pos (by simp [hanswer]), List.cons_append, List.cons_prefix_cons]
          exact ⟨rfl, hrest.trans (hmore bs)⟩
      | nothing hnothing =>
          rw [hnothing, List.filter_cons_of_pos rfl, List.replicate_succ, List.nil_append,
            List.cons_prefix_cons]
          exact ⟨rfl, hrest⟩
      | timeout htimeout =>
          rw [List.filter_cons_of_neg (by simp [htimeout])]
          exact hrest.trans (hmore as)

/-- No call on a prompt stream runs out of time. -/
theorem Owes.results_prompt (h : Owes r es) (hprompt : r.inbound.Prompt r.patience) (n : Nat) :
    ∀ a ∈ r.results n, timedOut a = false := by
  induction n generalizing r es with
  | zero => exact nofun
  | succ n ih =>
      obtain ⟨fs, howes, hpays, hstays⟩ := h.receive
      have hfirst : timedOut r.receive.1 = false := by
        generalize answers es = as at hpays
        generalize answers fs = bs at hpays
        cases hpays with
        | answer hanswer => exact hanswer
        | nothing hnothing =>
            rw [hnothing]
            rfl
        | timeout _ hslow => exact absurd hprompt hslow
      intro a ha
      rw [results_succ] at ha
      rcases List.mem_cons.mp ha with rfl | hmem
      · exact hfirst
      · exact ih howes (hstays hprompt) a hmem

theorem length_results (r : Reader) (n : Nat) : (r.results n).length = n := by
  induction n generalizing r with
  | zero => rfl
  | succ n ih => rw [results_succ, List.length_cons, ih]

/-- **On a prompt stream each call returns the next answer.** -/
theorem Owes.results_eq (h : Owes r es) (hprompt : r.inbound.Prompt r.patience) (n : Nat) :
    r.results n = (answers es ++ List.replicate n (.ok none : Answer)).take n := by
  have hprefix := h.results_prefix n
  have hall : (r.results n).filter (fun a => !timedOut a) = r.results n :=
    List.filter_eq_self.mpr fun a ha => by simp [h.results_prompt hprompt n a ha]
  rw [hall, List.prefix_iff_eq_take, length_results] at hprefix
  exact hprefix

end Reader

/-! ## A stream from its beginning -/

variable {o : Options} {s : Inbound} {patience : Patience} {size : Int}

/-- A new parser is ready for any stream that hands out all of its data. -/
theorem ready_new (hs : o.streaming = false) (h0 : 0 ≤ o.limits.startLine)
    (hdelivers : s.Delivers patience size) (hnone : ((new o).feed s.data).interruption = none) :
    Ready (new o) s patience size := by
  refine ⟨hdelivers, hs, rfl, ?_, hnone⟩
  simp only [Parser.step, new, Parser.readStartLine, Parser.withLine, Line.scan_nil h0]

/-- Data and its end are reported with an error at the end only. -/
theorem reports_of_feedAndClose {data : Octets} (hnone : ((new o).feed data).interruption = none) :
    Parser.Reports ((new o).feedAndClose data) := by
  have hgoes := Parser.hasFailed_new o
  have hreports : Parser.Reports ((new o).feed data) := Parser.reports_feed (by simp [new]) hnone
  rcases hreports.error with ⟨hphase, hquiet⟩ | ⟨es, cause, -, -, hfailed, -⟩
  · have hplaced : Parser.Placed ((new o).feed data).parser :=
      (Parser.Reached.feed (o := o) .new data).placed
    exact (hplaced.reports_close hphase).1.after hquiet
  · rw [Parser.feedAndClose_of_failed hgoes hnone (decide_eq_true hfailed)]
    exact hreports

/-- **Nothing on a connection is lost or received twice.** A stream hands out its data in any blocks
before its end, and feeding the data to a new parser that keeps bodies is not interrupted. If no
read runs out of time, then calls return the messages that feeding the data and closing completes,
in order and each once, then the error that the events end with, if they do, and from then on
nothing; and reading all events gives the events of feeding and closing, and leaves the same parser.
If reads run out of time, then the answers to the other calls are the same in the same order; such
a read leaves the reader as it was, without the pending events that the call has passed over, of
which none is a message or an error. -/
theorem receiving_of_feeding (hs : o.streaming = false) (h0 : 0 ≤ o.limits.startLine)
    (hdelivers : s.Delivers patience size) (hnone : ((new o).feed s.data).interruption = none) :
    let whole := (new o).feedAndClose s.data
    let reader : Reader := { inbound := s, parser := new o, size, patience }
    let owed : List Answer := (Event.completed whole.events).map (fun m => .ok (some m)) ++
      (Event.failure? whole.events).toList.map fun cause => .error (.invalid cause)
    (s.Prompt patience →
      (∀ n, reader.results n = (owed ++ List.replicate n (.ok none : Answer)).take n) ∧
        readAll (new o) s patience size = ⟨whole.parser, whole.events, none⟩) ∧
    (∀ n, (reader.results n).filter (fun a => !timedOut a) <+:
      owed ++ List.replicate n (.ok none : Answer)) ∧
    ∀ (r : Reader) (t : Inbound), Reader.firstOutcome r.pending = none →
      (r.isEnded || r.parser.hasFailed) = false →
      r.inbound.read r.patience r.size = (none, t) →
      r.receive = (.error .timeout, { r with inbound := t, pending := [] }) := by
  intro whole reader owed
  have hready := ready_new hs h0 hdelivers hnone
  have howes : reader.Owes ([] ++ whole.events) :=
    .ready (r := reader) (by simp [reader]; rfl) hready
  have howed : answers ([] ++ whole.events) = owed :=
    answers_of_reports (reports_of_feedAndClose hnone)
  refine ⟨fun hprompt => ⟨fun n => ?_, hready.readAll_eq hprompt⟩, fun n => ?_,
    fun r t hfirst hgoes hread => ?_⟩
  · rw [← howed]
    exact howes.results_eq hprompt n
  · rw [← howed]
    exact howes.results_prefix n
  · exact Reader.receive_of_timeout hfirst (by simp [hgoes]) hread

/-- Two requests and the start of a third arrive over a silence, in blocks that no request ends
with. A reader that waits gets both, then the error and then nothing; to one that does not, no more
than this is handed out by the calls that find data in time. -/
theorem receiving_of_feeding_pipelined :
    let stream : Inbound :=
      { arrivals := [.data (Chunk.ascii "GET /a HTTP/1.1\r\n\r\nGET "), .silence,
          .data (Chunk.ascii "/b HTTP/1.1\r\n\r\nGE")]
        ends := true }
    let reader (patience : Patience) : Reader :=
      { inbound := stream, parser := new {}, size := 8, patience }
    ∃ a b : Message, ∃ cause : ParseError,
      ((reader .unlimited).results 5 =
        [.ok (some a), .ok (some b), .error (.invalid cause), .ok none, .ok none]) ∧
      ∀ n, ((reader .limited).results n).filter (fun answer => !timedOut answer) <+:
        [.ok (some a), .ok (some b), .error (.invalid cause)] ++ List.replicate n (.ok none) := by
  intro stream reader
  have hnone : ((new {}).feed stream.data).interruption = none := by decide +kernel
  have hdelivers : ∀ patience, stream.Delivers patience 8 := fun patience =>
    ⟨rfl, by decide, fun hneg => absurd hneg (by decide)⟩
  obtain ⟨hpatient, -, -⟩ := receiving_of_feeding rfl (by decide) (hdelivers .unlimited) hnone
  obtain ⟨-, hhasty, -⟩ := receiving_of_feeding rfl (by decide) (hdelivers .limited) hnone
  have hcompleted : (Event.completed ((new {}).feedAndClose stream.data).events).length = 2 := by
    decide +kernel
  have hfailure : (Event.failure? ((new {}).feedAndClose stream.data).events).isSome := by
    decide +kernel
  obtain ⟨a, b, hab⟩ := List.length_eq_two.mp hcompleted
  obtain ⟨cause, hcause⟩ := Option.isSome_iff_exists.mp hfailure
  rw [hab, hcause] at hpatient hhasty
  exact ⟨a, b, cause, (hpatient trivial).1 5, hhasty⟩

end Connection
end HttpCodec
