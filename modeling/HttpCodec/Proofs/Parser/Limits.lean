import HttpCodec.Proofs.Field.Grammar
import HttpCodec.Proofs.Parser.Buffer
import HttpCodec.Proofs.Parser.Head

set_option autoImplicit false

/-! # Limits only reject

Two parsers that differ in their limits only make the same steps until the one with the lower limits
finds that one of them is exceeded (`step_loosened`). Field lists keep the limit on their lines, so
what the two hold and report differs in it (`relimit`), and in nothing else: a line that the parser
takes is short enough for the field list as well (`fieldOf_relimit`). The main statement is
`rejecting_of_limits`, for all that is reported of an input and for parsing it.
-/

namespace HttpCodec

/-- Limits that are each at most the other. -/
structure Limits.AtMost (l l' : Limits) : Prop where
  startLine : l.startLine ≤ l'.startLine
  headerLine : l.headerLine ≤ l'.headerLine
  headers : l.headers ≤ l'.headers
  chunkLine : l.chunkLine ≤ l'.chunkLine

/-- The errors which say that a limit is exceeded. -/
inductive Limits.Exceeded (l : Limits) : ParseError → Prop
  | startLine : l.Exceeded (.startLineTooLong l.startLine)
  | headerLine : l.Exceeded (.fieldTooLong l.headerLine)
  | headers : l.Exceeded (.tooManyFields l.headers)
  | chunkLine : l.Exceeded (.chunk (.sizeLineTooLong l.chunkLine))

/-- The fields as a parser with the limits keeps them. -/
def Fields.relimit (l : Limits) (fs : Fields) : Fields := { fs with limit := l.headerLine + 1 }

/-- The message as a parser with the limits makes it. -/
def Message.relimit (l : Limits) (m : Message) : Message :=
  { m with headers := m.headers.relimit l, trailers := m.trailers.relimit l }

/-- The event as a parser with the limits reports it. -/
def Event.relimit (l : Limits) : Event → Event
  | .complete m => .complete (m.relimit l)
  | e => e

/-- A message is the same under other limits. -/
theorem Message.same_relimit (l : Limits) (m : Message) : m.same (m.relimit l) = true := by
  simp [same, relimit, Fields.relimit]

theorem Message.ofStartLine_relimit (l : Limits) (line : StartLine) (headers : Fields)
    (body : Octets) (trailers : Fields) :
    ofStartLine line (headers.relimit l) body (trailers.relimit l) =
      (ofStartLine line headers body trailers).map (relimit l) := by
  unfold ofStartLine
  cases line with
  | request r =>
      simp only
      generalize RequestLine.make _ _ _ _ = made
      cases made <;> rfl
  | response r =>
      simp only
      generalize StatusLine.make _ _ _ _ = made
      cases made <;> rfl

theorem Event.messages_relimit (l : Limits) (es : List Event) :
    messages (es.map (relimit l)) = (messages es).map (List.map (Message.relimit l)) := by
  induction es with
  | nil => rfl
  | cons e es ih =>
      cases e with
      | complete m =>
          show (messages (es.map (relimit l))).map (m.relimit l :: ·) = _
          rw [ih]
          show _ = ((messages es).map (m :: ·)).map _
          cases messages es <;> rfl
      | error cause => rfl
      | _ => exact ih

namespace Parser

/-- The draft of a parser with the limits. -/
def Draft.relimit (l : Limits) (d : Draft) : Draft :=
  { d with headers := d.headers.relimit l, trailers := d.trailers.relimit l }

/-- The parser with other limits. -/
def relimit (l : Limits) (p : Parser) : Parser :=
  { p with options := { p.options with limits := l }, draft := p.draft.relimit l }

/-- The step with other limits. -/
def Step.relimit (l : Limits) : Step → Step
  | .wait => .wait
  | .next events p => .next (events.map (.relimit l)) (p.relimit l)
  | .reject events p cause => .reject (events.map (.relimit l)) (p.relimit l) cause
  | .interrupt p cause => .interrupt (p.relimit l) cause

/-- The run with other limits. -/
def Run.relimit (l : Limits) (r : Run) : Run :=
  { r with
    parser := r.parser.relimit l
    events := r.events.map (.relimit l)
    lost := r.lost.map (.relimit l) }

/-- A step and the one under higher limits: they are the same, unless the first finds that a limit
is exceeded. -/
inductive Step.Loosened (l l' : Limits) : Step → Step → Prop
  | same (s : Step) : Loosened l l' s (s.relimit l')
  | exceeded {q : Parser} {cause : ParseError} {s' : Step} (hcause : l.Exceeded cause) :
      Loosened l l' (.reject [] q cause) s'

theorem new_relimit (o : Options) (l' : Limits) :
    new { o with limits := l' } = (new o).relimit l' := rfl

/-! ## Steps without limits -/

section

variable (p : Parser) (l' : Limits)

theorem fields_relimit (part : Part) :
    (p.relimit l').draft.fields part = (p.draft.fields part).relimit l' := by
  cases part <;> rfl

theorem message_relimit : (p.relimit l').message = p.message.map (Message.relimit l') := by
  have hline : (p.relimit l').draft.line = p.draft.line := rfl
  unfold message
  rw [hline]
  cases p.draft.line with
  | none => rfl
  | some line =>
      show (Message.ofStartLine line (p.draft.headers.relimit l')
          (if p.options.streaming then [] else p.draft.body)
          (p.draft.trailers.relimit l')).mapError ParseError.unwritable = _
      rw [Message.ofStartLine_relimit]
      simp only
      generalize Message.ofStartLine line p.draft.headers _ p.draft.trailers = made
      cases made <;> rfl

theorem finish_relimit (es : List Event) :
    (p.relimit l').finish (es.map (.relimit l')) = (p.finish es).relimit l' := by
  unfold finish
  rw [message_relimit]
  cases p.message with
  | error cause => rfl
  | ok m =>
      simp only [Except.map, Step.relimit, List.map_append]
      rfl

theorem endHeaders_relimit : (p.relimit l').endHeaders = p.endHeaders.relimit l' := by
  have hline : (p.relimit l').draft.line = p.draft.line := rfl
  have hdecide : ∀ line, Framing.decide line (p.relimit l').draft.headers =
      Framing.decide line p.draft.headers := fun _ => rfl
  unfold endHeaders
  rw [hline]
  cases p.draft.line with
  | none => rfl
  | some line =>
      simp only [hdecide]
      cases Framing.decide line p.draft.headers with
      | empty => exact finish_relimit p l' []
      | _ => rfl

theorem readCounted_relimit : (p.relimit l').readCounted = p.readCounted.relimit l' := by
  have hevents : p.countedEvents.map (.relimit l') = p.countedEvents := by
    unfold countedEvents
    split_ifs <;> rfl
  have hfinish := finish_relimit p.afterCounted l' p.countedEvents
  have hafter : (p.relimit l').afterCounted = p.afterCounted.relimit l' := rfl
  have hsame : (p.relimit l').countedEvents = p.countedEvents := rfl
  have hunread : (p.relimit l').unread = p.unread := rfl
  have hremaining : (p.relimit l').draft.remaining = p.draft.remaining := rfl
  rw [hevents] at hfinish
  rw [readCounted_eq, readCounted_eq, hafter, hsame, hunread, hremaining, hfinish]
  split_ifs
  · rfl
  · rfl
  · rw [Step.relimit, hevents]

theorem readRest_relimit : (p.relimit l').readRest = p.readRest.relimit l' := by
  have hevents : p.restEvents.map (.relimit l') = p.restEvents := by
    unfold restEvents
    split_ifs <;> rfl
  have hafter : (p.relimit l').afterRest = p.afterRest.relimit l' := rfl
  have hsame : (p.relimit l').restEvents = p.restEvents := rfl
  have hunread : (p.relimit l').unread = p.unread := rfl
  rw [readRest_eq, readRest_eq, hafter, hsame, hunread]
  split_ifs
  · rfl
  · rw [Step.relimit, hevents]

end

/-! ## Steps with limits -/

section

variable {p : Parser} {l' : Limits}

theorem withLine_loosened {l : Limits} {limit limit' : Int} {tooLong : Int → ParseError}
    {unended : Line.Error → ParseError} {go : Octets → Parser → Step} (hle : limit ≤ limit')
    (hlong : l.Exceeded (tooLong limit))
    (hgo : ∀ line rest, Line.scan p.unread limit = .ok (some (line, rest)) →
      Step.Loosened l l' (go line (p.leave rest)) (go line ((p.leave rest).relimit l'))) :
    Step.Loosened l l' (p.withLine limit tooLong unended go)
      ((p.relimit l').withLine limit' tooLong unended go) := by
  have hunread : (p.relimit l').unread = p.unread := rfl
  unfold withLine
  rw [hunread]
  rcases Line.scan_of_le hle p.unread with hsame | hscan
  · rw [hsame]
    rcases hscan : Line.scan p.unread limit with (_ | _ | _) | _ | ⟨line, rest⟩
    · exact .same (.reject [] p _)
    · exact .same (.reject [] p _)
    · exact .same (.reject [] p _)
    · exact .same .wait
    · exact hgo line rest hscan
  · rw [hscan]
    exact .exceeded hlong

theorem readStartLine_loosened (hle : p.options.limits.AtMost l') :
    Step.Loosened p.options.limits l' p.readStartLine (p.relimit l').readStartLine := by
  refine withLine_loosened hle.startLine .startLine fun line rest _ => ?_
  by_cases hempty : line.isEmpty
  · simp only [if_pos hempty]
    exact .same (.next [] (p.leave rest))
  · simp only [if_neg hempty]
    have hkind : (relimit l' (p.leave rest)).options.kind = (p.leave rest).options.kind := rfl
    rw [hkind]
    cases StartLine.read (p.leave rest).options.kind (Latin.decode line) with
    | error cause => exact .same (.reject [] (p.leave rest) _)
    | ok start => exact .same (.next [.start start] _)

/-- **A line that the parser takes is short enough for the field list**: only the number of fields
decides. -/
theorem fieldOf_relimit {l : Limits} {fs : Fields} {line : Octets} (hle : l.AtMost l')
    (hlimit : fs.limit = l.headerLine + 1) (hlen : line.length ≤ l.headerLine) :
    fieldOf l' (fs.relimit l') line = fieldOf l fs line ∨
      fieldOf l fs line = .error (.tooManyFields l.headers) := by
  by_cases hroom : (fs.fields.length : Int) ≥ l.headers
  · exact .inr (by simp only [fieldOf, if_pos hroom])
  · have hmore : ¬ (fs.fields.length : Int) ≥ l'.headers := by
      have := hle.headers
      omega
    have hfields : (fs.relimit l').fields = fs.fields := rfl
    left
    unfold fieldOf
    rw [hfields, if_neg hroom, if_neg hmore]
    cases hread : FieldLine.read line with
    | error cause => rfl
    | ok found =>
        obtain ⟨name, value⟩ := found
        have hlength := FieldLine.length_of_read hread
        have hfits :
            (name.length : Int) + 2 + (trim CharClass.isSpaceOrTab value).length ≤ fs.limit := by
          omega
        have hlimits : fs.limit ≤ (fs.relimit l').limit := by
          show fs.limit ≤ l'.headerLine + 1
          have := hle.headerLine
          omega
        simp only
        rw [Field.check_of_le (.text value) hfits hlimits]

theorem readField_loosened {part : Part} (hle : p.options.limits.AtMost l')
    (hlimit : (p.draft.fields part).limit = p.options.limits.headerLine + 1) :
    Step.Loosened p.options.limits l' (p.readField part) ((p.relimit l').readField part) := by
  refine withLine_loosened hle.headerLine .headerLine fun line rest hscan => ?_
  by_cases hempty : line.isEmpty
  · simp only [if_pos hempty]
    cases part with
    | header =>
        simp only [endHeaders_relimit]
        exact .same _
    | trailer =>
        have hfinish := finish_relimit (p.leave rest) l' []
        simp only [List.map_nil] at hfinish
        simp only [hfinish]
        exact .same _
  · simp only [if_neg hempty]
    have hfields := fields_relimit (p.leave rest) l' part
    have hdraft : (p.leave rest).draft = p.draft := rfl
    have hoptions : (p.leave rest).options = p.options := rfl
    have hlimits : ((p.leave rest).relimit l').options.limits = l' := rfl
    rw [hfields, hlimits, hdraft, hoptions]
    have hlen := (Line.data_eq_of_scan hscan).2.2.2
    rcases fieldOf_relimit hle hlimit hlen with hsame | hmany
    · rw [hsame]
      cases fieldOf p.options.limits (p.draft.fields part) line with
      | error cause => exact .same (.reject [] (p.leave rest) cause)
      | ok f => cases part <;> exact .same (.next [.field _ f] _)
    · rw [hmany]
      exact .exceeded .headers

theorem readChunk_loosened (hle : p.options.limits.AtMost l') :
    Step.Loosened p.options.limits l' p.readChunk (p.relimit l').readChunk := by
  have hunread : (p.relimit l').unread = p.unread := rfl
  have hlimits : (p.relimit l').options.limits = l' := rfl
  unfold readChunk
  rw [hunread, hlimits]
  rcases Chunk.take_of_le hle.chunkLine p.unread with hsame | hlong
  · rw [hsame]
    rcases Chunk.take p.unread p.options.limits.chunkLine with cause | _ | ⟨payload, rest⟩
    · exact .same (.reject [] p _)
    · exact .same .wait
    · simp only
      split_ifs
      · exact .same (.next [] _)
      · exact .same (.next [.body payload] _)
  · rw [hlong]
    exact .exceeded .chunkLine

theorem readChunkPiece_loosened (hle : p.options.limits.AtMost l') :
    Step.Loosened p.options.limits l' p.readChunkPiece (p.relimit l').readChunkPiece := by
  have hunread : (p.relimit l').unread = p.unread := rfl
  have hlimits : (p.relimit l').options.limits = l' := rfl
  have hremaining : (p.relimit l').draft.remaining = p.draft.remaining := rfl
  have hin : (p.relimit l').draft.inChunk = p.draft.inChunk := rfl
  unfold readChunkPiece
  rw [hunread, hlimits, hremaining, hin]
  split_ifs
  · exact .same .wait
  · exact .same (.next [.body _] _)
  · rcases Chunk.hasEnd p.unread with cause | _ | _
    · exact .same (.reject [] p _)
    · exact .same .wait
    · exact .same (.next [] _)
  · rcases Chunk.takeSize_of_le hle.chunkLine p.unread with hsame | hlong
    · rw [hsame]
      rcases Chunk.takeSize p.unread p.options.limits.chunkLine with cause | _ | ⟨n, rest⟩
      · exact .same (.reject [] p _)
      · exact .same .wait
      · simp only
        split_ifs
        · exact .same (.next [] _)
        · exact .same (.next [] _)
    · rw [hlong]
      exact .exceeded .chunkLine

/-- **With higher limits a step is the same**, unless it finds that a limit is exceeded. -/
theorem step_loosened {o : Options} (hkept : Kept o p) (hle : o.limits.AtMost l') :
    Step.Loosened o.limits l' p.step (p.relimit l').step := by
  obtain ⟨rfl, hfields⟩ := hkept
  have hphase : (p.relimit l').phase = p.phase := rfl
  have hframing : (p.relimit l').draft.framing = p.draft.framing := rfl
  have hstreaming : (p.relimit l').options.streaming = p.options.streaming := rfl
  have hunread : (p.relimit l').unread = p.unread := rfl
  unfold step
  rw [hphase, hframing, hstreaming, hunread]
  cases p.phase with
  | awaitStartLine => exact readStartLine_loosened hle
  | awaitHeaders => exact readField_loosened hle (hfields .header).limit
  | awaitBody =>
      simp only
      split
      · rw [readCounted_relimit]
        exact .same _
      · split_ifs
        · exact readChunkPiece_loosened hle
        · exact readChunk_loosened hle
      · rw [readRest_relimit]
        exact .same _
  | awaitTrailers => exact readField_loosened hle (hfields .trailer).limit
  | done =>
      simp only
      split_ifs
      · exact .same .wait
      · exact .same (.next [] p.next)
  | failed => exact .same .wait

end

/-! ## Runs -/

/-- A run and the one under higher limits: they are the same, unless the first finds that a limit is
exceeded. It has reported the same up to there. -/
inductive Run.Loosened (l l' : Limits) : Run → Run → Prop
  | same (r : Run) : Loosened l l' r (r.relimit l')
  | exceeded {es : List Event} {q : Parser} {cause : ParseError} {r' : Run}
      (hcause : l.Exceeded cause) (hquiet : ∀ other, .error other ∉ es)
      (hfront : es.map (.relimit l') <+: r'.events) :
      Loosened l l' { parser := q.fail cause, events := es ++ [.error cause] } r'

variable {o : Options} {p : Parser} {l l' : Limits} {data : Octets}

theorem Run.Loosened.after {r r' : Run} {es : List Event} (h : Run.Loosened l l' r r')
    (hes : ∀ other, .error other ∉ es) :
    Run.Loosened l l' (r.after es) (r'.after (es.map (.relimit l'))) := by
  cases h with
  | same =>
      have hsame : (r.relimit l').after (es.map (.relimit l')) = (r.after es).relimit l' := by
        simp [Run.relimit, Run.after]
      rw [hsame]
      exact .same _
  | @exceeded fs q cause _ hcause hquiet hfront =>
      have hwhole : es ++ (fs ++ [.error cause]) = (es ++ fs) ++ [.error cause] :=
        (List.append_assoc _ _ _).symm
      unfold Run.after
      simp only [hwhole]
      refine .exceeded hcause (fun other hmem => ?_) ?_
      · exact (List.mem_append.mp hmem).elim (hes other) (hquiet other)
      · rw [List.map_append]
        exact (List.prefix_append_right_inj _).mpr hfront

/-- **With higher limits a run is the same**, or goes further. -/
theorem run_loosened (hkept : Kept o p) (hle : o.limits.AtMost l') :
    Run.Loosened o.limits l' (run p) (run (p.relimit l')) := by
  -- by induction on the run with the lower limits, which may end earlier
  induction p using run.induct with
  | case1 p hwait =>
      have hstep := step_loosened hkept hle
      rw [run_eq p, run_eq (p.relimit l')]
      generalize (p.relimit l').step = later at hstep ⊢
      rw [hwait] at hstep ⊢
      cases hstep
      exact .same { parser := p, events := [] }
  | case2 p es q hnext ih =>
      have hstep := step_loosened hkept hle
      have hadvance := advance_of_step hnext
      rw [run_eq p, run_eq (p.relimit l')]
      generalize (p.relimit l').step = later at hstep ⊢
      rw [hnext] at hstep ⊢
      cases hstep
      exact (ih (hkept.advance hadvance)).after hadvance.reads.not_mem_error
  | case3 p es q cause hreject =>
      have hstep := step_loosened hkept hle
      rw [run_eq p, run_eq (p.relimit l')]
      generalize (p.relimit l').step = later at hstep ⊢
      rw [hreject] at hstep ⊢
      cases hstep with
      | same =>
          have hsame :
              ({ parser := q.fail cause, events := es ++ [.error cause] } : Run).relimit l' =
              { parser := (q.relimit l').fail cause
                events := es.map (.relimit l') ++ [.error cause] } := by
            simp only [Run.relimit, List.map_append]
            rfl
          simp only [Step.relimit]
          rw [← hsame]
          exact .same _
      | exceeded hcause =>
          show Run.Loosened _ _ { parser := q.fail cause, events := [] ++ [.error cause] } _
          exact .exceeded hcause (fun _ => List.not_mem_nil) List.nil_prefix
  | case4 p q cause hinterrupt =>
      have hstep := step_loosened hkept hle
      rw [run_eq p, run_eq (p.relimit l')]
      generalize (p.relimit l').step = later at hstep ⊢
      rw [hinterrupt] at hstep ⊢
      cases hstep
      exact .same { parser := q, events := [], interruption := some (.unreadable cause) }

/-! ## Calls -/

theorem conclude_relimit (p : Parser) (l' : Limits) (es : List Event) :
    (p.relimit l').conclude (es.map (.relimit l')) = (p.conclude es).relimit l' := by
  unfold conclude
  rw [finish_relimit]
  cases p.finish es with
  | wait | next | interrupt => rfl
  | reject fs q cause =>
      simp only [Step.relimit, Run.relimit, List.map_append]
      rfl

/-- The end of the input knows no limits. -/
theorem close_relimit (p : Parser) (l' : Limits) : (p.relimit l').close = p.close.relimit l' := by
  have hphase : (p.relimit l').phase = p.phase := rfl
  have hunread : (p.relimit l').unread = p.unread := rfl
  have hframing : (p.relimit l').draft.framing = p.draft.framing := rfl
  have hbody : (p.relimit l').draft.body = p.draft.body := rfl
  have hstreaming : (p.relimit l').options.streaming = p.options.streaming := rfl
  have hnothing := conclude_relimit p l' []
  have hrest := conclude_relimit p l' [.body p.draft.body]
  simp only [List.map_nil, List.map_cons, Event.relimit] at hnothing hrest
  unfold close
  rw [hphase, hunread, hframing, hbody, hstreaming, hnothing, hrest]
  cases p.phase
  case done | failed => rfl
  all_goals
    simp only
    split_ifs <;> rfl

theorem Run.Loosened.close {r r' : Run} (h : Run.Loosened l l' r r') :
    Run.Loosened l l' (r.parser.close.after r.events) (r'.parser.close.after r'.events) := by
  cases h with
  | same =>
      have hsame : (r.relimit l').parser.close.after (r.relimit l').events =
          (r.parser.close.after r.events).relimit l' := by
        show (r.parser.relimit l').close.after _ = _
        rw [close_relimit]
        simp [Run.relimit, Run.after]
      rw [hsame]
      exact .same _
  | @exceeded es q cause _ hcause hquiet hfront =>
      rw [close_of_failed rfl]
      simp only [Run.after, List.append_nil]
      exact .exceeded hcause hquiet (hfront.trans (List.prefix_append _ _))

theorem run_new_loosened (o : Options) (hle : o.limits.AtMost l') (data : Octets) :
    Run.Loosened o.limits l' (run ((new o).supply data))
      (run ((new { o with limits := l' }).supply data)) := by
  rw [new_relimit]
  exact run_loosened ((kept_new o).same (q := (new o).supply data) rfl fun _ => rfl) hle

/-- **With higher limits what is reported of an input is the same**, or more. -/
theorem feedAndClose_loosened (hle : o.limits.AtMost l')
    (hnone : ((new { o with limits := l' }).feed data).interruption = none) :
    Run.Loosened o.limits l' ((new o).feedAndClose data)
      ((new { o with limits := l' }).feedAndClose data) := by
  have hrun := run_new_loosened o hle data
  have hfeed' := feed_eq_run (hasFailed_new _) hnone
  -- the run with the lower limits is not interrupted either
  have hfeed : (new o).feed data = run ((new o).supply data) := by
    rw [feed_eq (hasFailed_new o), settle_of_none]
    rw [hfeed'] at hnone
    generalize run ((new o).supply data) = r at hrun ⊢
    generalize run ((new { o with limits := l' }).supply data) = r' at hrun hnone
    cases hrun with
    | same => exact hnone
    | exceeded => rfl
  unfold feedAndClose
  rw [hfeed, hfeed']
  exact hrun.close

/-- What is parsed is parsed with higher limits. -/
theorem parse_relimit {kind : Option Kind} {ms : List Message} (hle : l.AtMost l')
    (h : parse data kind l = .ok ms) :
    parse data kind l' = .ok (ms.map (Message.relimit l')) := by
  let o : Options := { kind, limits := l }
  have hnone : ((new o).feed data).interruption = none := by
    by_contra hsome
    obtain ⟨cause, hcause⟩ := Option.ne_none_iff_exists'.mp hsome
    rw [parse_of_interrupted hcause] at h
    cases h
  have hmessages : Event.messages ((new o).feedAndClose data).events = .ok ms := by
    rw [parse_eq_messages hnone, readAll_eq_feedAndClose hnone] at h
    exact mapError_eq_ok_iff.mp h
  have hquiet := Event.not_mem_error_of_messages hmessages
  have hnone' : ((new { o with limits := l' }).feed data).interruption = none := by
    have hrun := run_new_loosened o hle data
    have hfeed := feed_eq_run (hasFailed_new o) hnone
    rw [feed_eq (hasFailed_new _), interruption_settle]
    unfold feedAndClose at hquiet
    rw [hfeed] at hnone hquiet
    generalize run ((new o).supply data) = r at hrun hnone hquiet
    generalize run ((new { o with limits := l' }).supply data) = r' at hrun ⊢
    cases hrun with
    | same => exact hnone
    | @exceeded _ _ cause => exact absurd (by simp [Run.after]) (hquiet cause)
  have hloosened := feedAndClose_loosened hle hnone'
  rw [parse_eq_messages hnone', readAll_eq_feedAndClose hnone', mapError_eq_ok_iff]
  generalize (new o).feedAndClose data = r at hloosened hmessages hquiet
  generalize (new { o with limits := l' }).feedAndClose data = r' at hloosened ⊢
  cases hloosened with
  | same =>
      show Event.messages (r.events.map (.relimit l')) = _
      rw [Event.messages_relimit, hmessages]
      rfl
  | @exceeded _ _ cause => exact absurd (by simp) (hquiet cause)

/-- An error that says that a limit is exceeded is of one of three types. -/
theorem type_of_exceeded {cause : ParseError} (h : l.Exceeded cause) :
    cause.type = .oversizedStartLine ∨ cause.type = .oversizedHeader ∨ cause.type = .badChunk := by
  cases h with
  | startLine => exact .inl rfl
  | headerLine | headers => exact .inr (.inl rfl)
  | chunkLine => exact .inr (.inr rfl)

/-- **Limits only reject.** With higher limits the same is reported of an input, or the lower limits
end it earlier, with an error that says which of them is exceeded. In particular what is parsed with
the lower limits is parsed with the higher ones, and gives the same messages. Only what field lists
keep of the limits differs. -/
theorem rejecting_of_limits (hle : l.AtMost l') (data : Octets) :
    (∀ o : Options, o.limits = l →
      ((new { o with limits := l' }).feed data).interruption = none →
      let strict := ((new o).feedAndClose data).events
      let loose := ((new { o with limits := l' }).feedAndClose data).events
      loose = strict.map (.relimit l') ∨
        ∃ es cause, strict = es ++ [.error cause] ∧ (∀ other, .error other ∉ es) ∧
          es.map (.relimit l') <+: loose ∧ l.Exceeded cause ∧
          (cause.type = .oversizedStartLine ∨ cause.type = .oversizedHeader ∨
            cause.type = .badChunk)) ∧
      ∀ kind ms, parse data kind l = .ok ms →
        ∃ ms', parse data kind l' = .ok ms' ∧ List.Forall₂ (fun m n => m.same n = true) ms ms' := by
  refine ⟨fun o ho hnone => ?_, fun kind ms h => ⟨_, parse_relimit hle h, ?_⟩⟩
  · intro strict loose
    subst ho
    have hloosened := feedAndClose_loosened hle hnone
    simp only [strict, loose]
    generalize (new o).feedAndClose data = r at hloosened
    generalize (new { o with limits := l' }).feedAndClose data = r' at hloosened
    cases hloosened with
    | same => exact .inl rfl
    | exceeded hcause hquiet hfront =>
        exact .inr ⟨_, _, rfl, hquiet, hfront, hcause, type_of_exceeded hcause⟩
  · rw [List.forall₂_map_right_iff]
    exact List.forall₂_same.mpr fun m _ => m.same_relimit l'

/-- Two requests, of which the second has a field line of 17 octets: with a limit of 16 it ends the
input after the events of the first and its own start line. -/
theorem rejecting_of_limits_longField :
    let low : Limits := { headerLine := 16 }
    let data := Chunk.ascii
      "GET /a HTTP/1.1\r\nHost: a\r\n\r\nGET /b HTTP/1.1\r\nHost: example.com\r\n\r\n"
    low.AtMost {} ∧
      ∃ es cause, ((new { limits := low }).feedAndClose data).events = es ++ [.error cause] ∧
        es.map (.relimit {}) <+: ((new {}).feedAndClose data).events ∧ es.length = 4 ∧
        low.Exceeded cause := by
  intro low data
  have hle : low.AtMost {} := by constructor <;> decide
  have hnone : ((new {}).feed data).interruption = none := by decide +kernel
  have hstrict : ((new { limits := low }).feedAndClose data).events.length = 5 := by decide +kernel
  have hloose : ((new {}).feedAndClose data).events.length = 6 := by decide +kernel
  rcases (rejecting_of_limits hle data).1 { limits := low } rfl hnone with
    hsame | ⟨es, cause, hevents, -, hfront, hexceeded, -⟩
  · have hlength := congrArg List.length hsame
    rw [List.length_map, hstrict, hloose] at hlength
    cases hlength
  · rw [hevents, List.length_append] at hstrict
    exact ⟨hle, es, cause, hevents, hfront, by simpa using hstrict, hexceeded⟩

end Parser
end HttpCodec
