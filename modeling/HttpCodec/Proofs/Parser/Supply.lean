import HttpCodec.Parser
import HttpCodec.Proofs.Chunk
import HttpCodec.Proofs.Parser.Advance

set_option autoImplicit false

/-! # A parser that is given more data

What a parser does with the data it holds when more data is put behind it (`supply`). All steps but
two read an element whose end they have seen, so they are the same steps with more left to read. The
two exceptions read whatever has arrived of a body: a body of declared length of which more is
missing, and a body that goes on until the input ends. With more data such a step reads more of it,
and leads where the short step and one more step would have led. So every step resumes
(`step_resumes`), and this gives `run_supply`: a run over the whole data is the run over its first
part, resumed.

All of this is about parsers that keep bodies; those that report bodies as they arrive cut them
where the blocks end.
-/

namespace HttpCodec.Parser

/-- The parser with more data to read. -/
def supply (p : Parser) (more : Octets) : Parser := { p with unread := p.unread ++ more }

@[simp] theorem supply_nil (p : Parser) : p.supply [] = p := by
  simp [supply]

theorem supply_supply (p : Parser) (a b : Octets) : (p.supply a).supply b = p.supply (a ++ b) := by
  simp [supply]

@[simp] theorem options_supply (p : Parser) (more : Octets) :
    (p.supply more).options = p.options := rfl

@[simp] theorem phase_supply (p : Parser) (more : Octets) : (p.supply more).phase = p.phase := rfl

@[simp] theorem draft_supply (p : Parser) (more : Octets) : (p.supply more).draft = p.draft := rfl

@[simp] theorem unread_supply (p : Parser) (more : Octets) :
    (p.supply more).unread = p.unread ++ more := rfl

@[simp] theorem hasFailed_supply (p : Parser) (more : Octets) :
    (p.supply more).hasFailed = p.hasFailed := rfl

/-- The step with more data left to read. -/
def Step.supply (more : Octets) : Step → Step
  | .wait => .wait
  | .next events p => .next events (p.supply more)
  | .reject events p cause => .reject events (p.supply more) cause
  | .interrupt p cause => .interrupt (p.supply more) cause

/-! ## Steps over whole elements -/

theorem finish_supply (p : Parser) (events : List Event) (more : Octets) :
    (p.supply more).finish events = (p.finish events).supply more := by
  have hmessage : (p.supply more).message = p.message := rfl
  unfold finish
  rw [hmessage]
  cases p.message <;> rfl

theorem endHeaders_supply (p : Parser) (more : Octets) :
    (p.supply more).endHeaders = p.endHeaders.supply more := by
  unfold endHeaders
  rw [draft_supply]
  cases p.draft.line with
  | none => rfl
  | some line =>
      cases hdecide : Framing.decide line p.draft.headers with
      | empty => simp only [hdecide, finish_supply]
      | length n => simp only [hdecide]; rfl
      | chunked => simp only [hdecide]; rfl
      | untilClose => simp only [hdecide]; rfl
      | refused cause => simp only [hdecide]; rfl
      | unreadable cause => simp only [hdecide]; rfl

/-- A step with a line is the same when more data follows, if going on with the line is. -/
theorem withLine_supply {p : Parser} {limit : Int} {tooLong : Int → ParseError}
    {unended : Line.Error → ParseError} {go : Octets → Parser → Step} (more : Octets)
    (hgo : ∀ line q, go line (q.supply more) = (go line q).supply more)
    (hw : p.withLine limit tooLong unended go ≠ .wait) :
    (p.supply more).withLine limit tooLong unended go =
      (p.withLine limit tooLong unended go).supply more := by
  -- the line was found, so it is found again in front of what follows
  have hscan : Line.scan p.unread limit ≠ .ok none := by
    intro hnone
    exact hw (by simp only [withLine, hnone])
  have hmore := Line.scan_append more hscan
  unfold withLine
  rw [unread_supply, hmore]
  rcases hfound : Line.scan p.unread limit with cause | _ | ⟨line, rest⟩
  · cases cause <;> rfl
  · exact absurd hfound hscan
  · exact hgo line { p with unread := rest }

theorem readStartLine_supply {p : Parser} (more : Octets) (hw : p.readStartLine ≠ .wait) :
    (p.supply more).readStartLine = p.readStartLine.supply more := by
  refine withLine_supply more (fun line q => ?_) hw
  by_cases hempty : line.isEmpty
  · simp only [if_pos hempty]
    rfl
  · simp only [if_neg hempty, options_supply]
    cases StartLine.read q.options.kind (Latin.decode line) <;> rfl

theorem readField_supply {p : Parser} {part : Part} (more : Octets)
    (hw : p.readField part ≠ .wait) :
    (p.supply more).readField part = (p.readField part).supply more := by
  refine withLine_supply more (fun line q => ?_) hw
  by_cases hempty : line.isEmpty
  · simp only [if_pos hempty]
    cases part with
    | header => exact endHeaders_supply q more
    | trailer => exact finish_supply q [] more
  · simp only [if_neg hempty, options_supply, draft_supply]
    cases fieldOf q.options.limits (q.draft.fields part) line <;> rfl

theorem readChunk_supply {p : Parser} (more : Octets) (hw : p.readChunk ≠ .wait) :
    (p.supply more).readChunk = p.readChunk.supply more := by
  have htake : Chunk.take p.unread p.options.limits.chunkLine ≠ .ok none := by
    intro hnone
    exact hw (by simp only [readChunk, hnone])
  have hmore := Chunk.take_append more htake
  unfold readChunk
  rw [unread_supply, options_supply, hmore]
  rcases hfound : Chunk.take p.unread p.options.limits.chunkLine with cause | _ | ⟨payload, rest⟩
  · rfl
  · exact absurd hfound htake
  · simp only [appendRest_some]
    split_ifs <;> rfl

/-! ## Steps over parts of a body -/

/-- A body of declared length that is there as a whole is read the same when more follows. -/
theorem readCounted_supply {p : Parser} (more : Octets)
    (hlen : p.draft.remaining ≤ p.unread.length) (hw : p.readCounted ≠ .wait) :
    (p.supply more).readCounted = p.readCounted.supply more := by
  have hne : p.unread ≠ [] := by
    intro hempty
    exact hw (by rw [readCounted_eq, if_pos hempty])
  have hneMore : p.unread ++ more ≠ [] := by
    simp [hne]
  -- what follows lies behind the end of the body
  have hlenMore : p.draft.remaining ≤ (p.unread ++ more).length := by
    rw [List.length_append]
    omega
  have htake : (p.unread ++ more).take p.draft.remaining = p.unread.take p.draft.remaining :=
    List.take_append_of_le_length hlen
  have hevents : (p.supply more).countedEvents = p.countedEvents := by
    simp only [countedEvents, options_supply, draft_supply, unread_supply, htake, if_pos hlen,
      if_pos hlenMore]
  have hafter : (p.supply more).afterCounted = p.afterCounted.supply more := by
    have hremaining : p.draft.remaining - (p.unread ++ more).length =
        p.draft.remaining - p.unread.length := by
      omega
    have hdrop :
        (p.unread ++ more).drop p.draft.remaining = p.unread.drop p.draft.remaining ++ more :=
      List.drop_append_of_le_length hlen
    unfold afterCounted keptBody
    simp only [unread_supply, draft_supply, options_supply, hremaining, hdrop, htake]
    rfl
  rw [readCounted_eq, readCounted_eq, hevents, hafter, unread_supply, draft_supply,
    if_neg hne, if_neg hneMore, if_pos hlen, if_pos hlenMore, finish_supply]

/-- Within a body of declared length two parts leave behind what both at once do. -/
theorem afterCounted_supply {p : Parser} (more : Octets)
    (hlen : p.unread.length < p.draft.remaining) :
    (p.supply more).afterCounted = (p.afterCounted.supply more).afterCounted := by
  -- all that has arrived belongs to the body, and the rest of it is looked for in what follows
  have hdrop : p.unread.drop p.draft.remaining = [] := List.drop_eq_nil_of_le (by omega)
  have htake : p.unread.take p.draft.remaining = p.unread := List.take_of_length_le (by omega)
  have hdropMore : (p.unread ++ more).drop p.draft.remaining =
      more.drop (p.draft.remaining - p.unread.length) := by
    rw [List.drop_append, hdrop, List.nil_append]
  have htakeMore : (p.unread ++ more).take p.draft.remaining =
      p.unread ++ more.take (p.draft.remaining - p.unread.length) := by
    rw [List.take_append, htake]
  by_cases hs : p.options.streaming <;>
    simp [afterCounted, supply, keptBody, hs, hdrop, htake, htakeMore, hdropMore, Nat.sub_sub]

/-- Within a body of declared length a part is read the same way at once and in two parts. -/
theorem readCounted_supply_of_lt {p : Parser} {more : Octets} (hs : p.options.streaming = false)
    (hlen : p.unread.length < p.draft.remaining) (hmore : more ≠ []) :
    (p.supply more).readCounted = (p.afterCounted.supply more).readCounted := by
  have hneMore : p.unread ++ more ≠ [] := by
    simp [hmore]
  have hdrop : p.unread.drop p.draft.remaining = [] := List.drop_eq_nil_of_le (by omega)
  have htake : p.unread.take p.draft.remaining = p.unread := List.take_of_length_le (by omega)
  have htakeMore : (p.unread ++ more).take p.draft.remaining =
      p.unread ++ more.take (p.draft.remaining - p.unread.length) := by
    rw [List.take_append, htake]
  have hbody : (p.afterCounted.supply more).draft.body = p.draft.body ++ p.unread := by
    simp [afterCounted, keptBody, hs, htake]
  have hunread : (p.afterCounted.supply more).unread = more := by
    simp [afterCounted, hdrop]
  have hremaining : (p.afterCounted.supply more).draft.remaining =
      p.draft.remaining - p.unread.length := rfl
  -- both ways the body ends at the same octet
  have hall : p.draft.remaining ≤ (p.unread ++ more).length ↔
      p.draft.remaining - p.unread.length ≤ more.length := by
    rw [List.length_append]
    omega
  have hevents : (p.supply more).countedEvents = (p.afterCounted.supply more).countedEvents := by
    unfold countedEvents
    rw [hbody, hunread, hremaining]
    simp only [options_supply, draft_supply, unread_supply, htakeMore, hall, List.append_assoc]
    simp [afterCounted, hs]
  rw [readCounted_eq, readCounted_eq, hevents, afterCounted_supply more hlen, hunread, hremaining,
    unread_supply, draft_supply, if_neg hmore, if_neg hneMore]
  simp only [hall]

/-- Within a body that goes on until the input ends a part is read the same way at once and in two
parts. -/
theorem readRest_supply {p : Parser} {more : Octets} (hs : p.options.streaming = false)
    (hmore : more ≠ []) :
    (p.supply more).readRest = (p.afterRest.supply more).readRest := by
  have hneMore : p.unread ++ more ≠ [] := by
    simp [hmore]
  rw [readRest_eq, readRest_eq, unread_supply, if_neg hneMore, if_neg (by simp [afterRest, hmore])]
  simp [restEvents, afterRest, supply, keptBody, hs]

/-! ## Any step -/

/-- What a step becomes when more data follows: the same step with more left to read or, where it
has read a part of a body, a step that leads where its next step then leads. -/
def Resumes (p : Parser) (more : Octets) : Prop :=
  (p.supply more).step = p.step.supply more ∨
    ∃ q, p.step = .next [] q ∧
      (more ≠ [] → (p.supply more).step = (q.supply more).step ∧ (p.supply more).step ≠ .wait)

theorem resumes_of_counted {p : Parser} (more : Octets) (hs : p.options.streaming = false)
    (hphase : p.phase = .awaitBody) (hframing : p.draft.framing = some .lengthKnown)
    (hw : p.step ≠ .wait) : p.Resumes more := by
  rw [step_of_readCounted hphase hframing] at hw
  unfold Resumes
  rw [step_of_readCounted hphase hframing,
    step_of_readCounted (p := p.supply more) hphase hframing]
  -- either all of the body is there, or what follows begins with the rest of it
  by_cases hlen : p.draft.remaining ≤ p.unread.length
  · exact Or.inl (readCounted_supply more hlen hw)
  · have hne : p.unread ≠ [] := by
      intro hempty
      exact hw (by rw [readCounted_eq, if_pos hempty])
    refine Or.inr ⟨p.afterCounted, ?_, fun hmore => ⟨?_, ?_⟩⟩
    · rw [readCounted_eq, if_neg hne, if_neg hlen]
      simp [countedEvents, hs, hlen]
    · rw [step_of_readCounted (p := p.afterCounted.supply more) hphase hframing]
      exact readCounted_supply_of_lt hs (by omega) hmore
    · rw [readCounted_eq, unread_supply, if_neg (by simp [hmore])]
      split_ifs
      · exact finish_ne_wait _ _
      · simp

theorem resumes_of_rest {p : Parser} (more : Octets) (hs : p.options.streaming = false)
    (hphase : p.phase = .awaitBody) (hcounted : p.draft.framing ≠ some .lengthKnown)
    (hchunked : p.draft.framing ≠ some .chunked) (hw : p.step ≠ .wait) : p.Resumes more := by
  rw [step_of_readRest hphase hcounted hchunked] at hw
  unfold Resumes
  rw [step_of_readRest hphase hcounted hchunked,
    step_of_readRest (p := p.supply more) hphase hcounted hchunked]
  have hne : p.unread ≠ [] := by
    intro hempty
    exact hw (by rw [readRest_eq, if_pos hempty])
  refine Or.inr ⟨p.afterRest, ?_, fun hmore => ⟨?_, ?_⟩⟩
  · rw [readRest_eq, if_neg hne]
    simp [restEvents, hs]
  · rw [step_of_readRest (p := p.afterRest.supply more) hphase hcounted hchunked]
    exact readRest_supply hs hmore
  · rw [readRest_eq, unread_supply, if_neg (by simp [hmore])]
    simp

/-- Once a message is complete, the next one begins as soon as there is data. -/
theorem step_of_done {p : Parser} (hphase : p.phase = .done) :
    p.step = if p.unread = [] then .wait else .next [] p.next := by
  simp only [step, hphase, List.isEmpty_iff]

/-- **Every step resumes when more data follows.** -/
theorem step_resumes {p : Parser} (more : Octets) (hs : p.options.streaming = false)
    (hw : p.step ≠ .wait) : p.Resumes more := by
  cases hphase : p.phase with
  | awaitStartLine =>
      left
      simp only [step, phase_supply, hphase] at hw ⊢
      exact readStartLine_supply more hw
  | awaitHeaders =>
      left
      simp only [step, phase_supply, hphase] at hw ⊢
      exact readField_supply more hw
  | awaitBody =>
      rcases hframing : p.draft.framing with _ | _ | _ | _
      · exact resumes_of_rest more hs hphase (by simp [hframing]) (by simp [hframing]) hw
      · exact resumes_of_counted more hs hphase hframing hw
      · left
        simp only [step, phase_supply, draft_supply, options_supply, hphase, hframing, hs,
          Bool.false_eq_true, if_false] at hw ⊢
        exact readChunk_supply more hw
      · exact resumes_of_rest more hs hphase (by simp [hframing]) (by simp [hframing]) hw
  | awaitTrailers =>
      left
      simp only [step, phase_supply, hphase] at hw ⊢
      exact readField_supply more hw
  | done =>
      left
      have hne : p.unread ≠ [] := by
        intro hempty
        exact hw (by rw [step_of_done hphase, if_pos hempty])
      have hneMore : p.unread ++ more ≠ [] := by
        simp [hne]
      rw [step_of_done hphase, step_of_done (p := p.supply more) hphase, unread_supply,
        if_neg hne, if_neg hneMore]
      rfl
  | failed => exact absurd (by simp only [step, hphase]) hw

/-- A piece of a chunk that stops the parser does so when more data follows. -/
theorem readChunkPiece_supply {p : Parser} (more : Octets) (hw : p.readChunkPiece ≠ .wait)
    (hnext : ∀ events q, p.readChunkPiece ≠ .next events q) :
    (p.supply more).readChunkPiece = p.readChunkPiece.supply more := by
  unfold readChunkPiece at hw hnext ⊢
  rw [draft_supply, unread_supply, options_supply]
  by_cases hremaining : 0 < p.draft.remaining
  · rw [if_pos hremaining] at hw hnext
    split_ifs at hw hnext
    · exact absurd rfl hw
    · exact absurd rfl (hnext _ _)
  · rw [if_neg hremaining] at hw hnext
    rw [if_neg hremaining, if_neg hremaining]
    split_ifs at hw hnext ⊢
    · rcases hend : Chunk.hasEnd p.unread with cause | _ | _
      · rw [Chunk.hasEnd_append more (by simp [hend]), hend]
        rfl
      · simp [hend] at hw
      · simp [hend] at hnext
    · rcases hsize : Chunk.takeSize p.unread p.options.limits.chunkLine with cause | _ | ⟨n, rest⟩
      · rw [Chunk.takeSize_append more (by simp [hsize]), hsize]
        rfl
      · simp [hsize] at hw
      · simp only [hsize] at hnext
        split_ifs at hnext
        · exact absurd rfl (hnext _ _)
        · exact absurd rfl (hnext _ _)

/-- **A step that stops the parser is the same when more data follows**, also if bodies are reported
as they arrive. -/
theorem step_supply_of_stop {p : Parser} (more : Octets) (hw : p.step ≠ .wait)
    (hnext : ∀ events q, p.step ≠ .next events q) :
    (p.supply more).step = p.step.supply more := by
  cases hphase : p.phase with
  | awaitStartLine =>
      simp only [step, phase_supply, hphase] at hw ⊢
      exact readStartLine_supply more hw
  | awaitHeaders =>
      simp only [step, phase_supply, hphase] at hw ⊢
      exact readField_supply more hw
  | awaitBody =>
      rcases hframing : p.draft.framing with _ | _ | _ | _
      case some.lengthKnown =>
        simp only [step, phase_supply, draft_supply, hphase, hframing] at hw hnext ⊢
        refine readCounted_supply more ?_ hw
        -- within the body the parser would have gone on
        by_contra hlen
        rw [readCounted_eq] at hw hnext
        split_ifs at hw hnext
        · exact absurd rfl hw
        · exact absurd rfl (hnext _ _)
      case some.chunked =>
        by_cases hs : p.options.streaming
        · rw [step_of_readChunkPiece hphase hframing hs] at hw hnext ⊢
          rw [step_of_readChunkPiece (p := p.supply more) hphase hframing hs]
          exact readChunkPiece_supply more hw hnext
        · rw [step_of_readChunk hphase hframing (by simpa using hs)] at hw ⊢
          rw [step_of_readChunk (p := p.supply more) hphase hframing (by simpa using hs)]
          exact readChunk_supply more hw
      all_goals
        simp only [step, hphase, hframing, readRest_eq] at hw hnext
        split_ifs at hw hnext
        · exact absurd rfl hw
        · exact absurd rfl (hnext _ _)
  | awaitTrailers =>
      simp only [step, phase_supply, hphase] at hw ⊢
      exact readField_supply more hw
  | done =>
      rw [step_of_done hphase] at hw hnext
      split_ifs at hw hnext
      · exact absurd rfl hw
      · exact absurd rfl (hnext _ _)
  | failed => exact absurd (by simp only [step, hphase]) hw

/-! ## Runs -/

/-- A run makes the first step and goes on from there. -/
theorem run_eq (p : Parser) :
    run p = match p.step with
      | .wait => { parser := p, events := [] }
      | .next events q => (run q).after events
      | .reject events q cause => { parser := q.fail cause, events := events ++ [.error cause] }
      | .interrupt q cause =>
          { parser := q, events := [], interruption := some (.unreadable cause) } := by
  rw [run]
  split <;> rename_i h <;> rw [h]

/-- The run of the parser after `r` when more data arrives, with the events of `r` in front. A
parser that has failed takes no more data. -/
def Run.resume (r : Run) (more : Octets) : Run :=
  if r.interruption.isSome then { r with parser := r.parser.supply more }
  else if r.parser.hasFailed then r
  else (run (r.parser.supply more)).after r.events

theorem after_nil (r : Run) : r.after [] = r := rfl

theorem run_supply_of_next {p q : Parser} {events : List Event} (more : Octets)
    (hs : p.options.streaming = false) (h : p.step = .next events q) :
    run (p.supply more) = (run (q.supply more)).after events := by
  rcases step_resumes more hs (by simp [h]) with hsame | ⟨q', hq', hmerge⟩
  · rw [run_eq, hsame, h]
    rfl
  · rw [h] at hq'
    cases hq'
    by_cases hmore : more = []
    · rw [hmore, supply_nil, supply_nil, run_eq p, h]
    · -- both parsers make the same step, which is not to wait
      obtain ⟨hstep, hw⟩ := hmerge hmore
      rw [after_nil, run_eq (p.supply more), run_eq (q.supply more), ← hstep]
      cases hfirst : (p.supply more).step with
      | wait => exact absurd hfirst hw
      | next events r => rfl
      | reject events r cause => rfl
      | interrupt r cause => rfl

theorem resume_after (r : Run) (events : List Event) (more : Octets) :
    (r.after events).resume more = (r.resume more).after events := by
  unfold Run.resume Run.after
  split_ifs <;> simp

/-- **A run over the whole of the data is the run over its first part, resumed.** -/
theorem run_supply {p : Parser} (more : Octets) (hs : p.options.streaming = false)
    (hp : p.hasFailed = false) : run (p.supply more) = (run p).resume more := by
  -- by induction on the run over the first part, each step of which resumes
  induction p using run.induct with
  | case1 p hwait =>
      rw [run_eq p, hwait]
      simp [Run.resume, hp, Run.after]
  | case2 p events q hnext ih =>
      have hadvance := advance_of_step hnext
      have hq : q.hasFailed = false := decide_eq_false hadvance.phase_ne_failed.2
      calc run (p.supply more)
          = (run (q.supply more)).after events := run_supply_of_next more hs hnext
        _ = ((run q).resume more).after events := by
            rw [ih (by rw [hadvance.options_eq, hs]) hq]
        _ = ((run q).after events).resume more := (resume_after _ _ _).symm
        _ = (run p).resume more := by rw [run_eq p, hnext]
  | case3 p events q cause hreject =>
      -- a parser that fails drops the data that follows
      have hsame := step_supply_of_stop (p := p) more (by simp [hreject]) (by simp [hreject])
      rw [run_eq p, run_eq (p.supply more), hsame, hreject]
      rfl
  | case4 p q cause hinterrupt =>
      have hsame := step_supply_of_stop (p := p) more (by simp [hinterrupt]) (by simp [hinterrupt])
      rw [run_eq p, run_eq (p.supply more), hsame, hinterrupt]
      rfl

/-- **What every step keeps, a run keeps** up to where it waits for more data. -/
theorem run_induction {P : Parser → Prop}
    (hstep : ∀ {p q : Parser} {events : List Event}, Advance p events q → P p → P q)
    {p : Parser} (hp : P p) (hr : (run p).isOver = false) : P (run p).parser := by
  -- the property is carried from step to step; a run that stops has not ended in waiting
  induction p using run.induct with
  | case1 p hwait =>
      rw [run_eq p, hwait]
      exact hp
  | case2 p events q hnext ih =>
      rw [run_eq p, hnext] at hr ⊢
      exact ih (hstep (advance_of_step hnext) hp) hr
  | case3 p events q cause hreject =>
      rw [run_eq p, hreject] at hr
      cases hr
  | case4 p q cause hinterrupt =>
      rw [run_eq p, hinterrupt] at hr
      cases hr

/-- Only an interruption keeps events back. -/
theorem lost_run (p : Parser) : (run p).lost = [] := by
  induction p using run.induct with
  | case1 p hwait => rw [run_eq p, hwait]
  | case2 p events q hnext ih =>
      rw [run_eq p, hnext]
      exact ih
  | case3 p events q cause hreject => rw [run_eq p, hreject]
  | case4 p q cause hinterrupt => rw [run_eq p, hinterrupt]

end HttpCodec.Parser
