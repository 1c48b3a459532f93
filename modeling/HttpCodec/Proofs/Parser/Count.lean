import HttpCodec.Proofs.Parser.Supply

set_option autoImplicit false

/-! # The count of messages decides nothing

A parser counts the messages that it has completed, and nothing that it does depends on the count
(`calls_ahead`). So two parsers that differ only in the count report the same events for the same
calls, and a parser that was reset is a new one but for the count (`reset_eq_ahead`).
-/

namespace HttpCodec.Parser

/-- The parser with more messages counted. -/
def ahead (p : Parser) (n : Nat) : Parser := { p with completed := n + p.completed }

/-- The step with more messages counted. -/
def Step.ahead (n : Nat) : Step → Step
  | .wait => .wait
  | .next events p => .next events (p.ahead n)
  | .reject events p cause => .reject events (p.ahead n) cause
  | .interrupt p cause => .interrupt (p.ahead n) cause

/-- The run with more messages counted. -/
def Run.ahead (n : Nat) (r : Run) : Run := { r with parser := r.parser.ahead n }

/-- After a reset a parser is new, but for the count. -/
theorem reset_eq_ahead (p : Parser) : p.reset = (new p.options).ahead p.completed := rfl

/-! ## Steps -/

variable (p : Parser) (n : Nat)

theorem finish_ahead (events : List Event) :
    (p.ahead n).finish events = (p.finish events).ahead n := by
  have hmessage : (p.ahead n).message = p.message := rfl
  unfold finish
  rw [hmessage]
  cases p.message <;> rfl

theorem endHeaders_ahead : (p.ahead n).endHeaders = p.endHeaders.ahead n := by
  have hdraft : (p.ahead n).draft = p.draft := rfl
  unfold endHeaders
  rw [hdraft]
  cases p.draft.line with
  | none => rfl
  | some line =>
      simp only [finish_ahead]
      cases Framing.decide line p.draft.headers <;> rfl

/-- A step with a line does not depend on the count, if going on with the line does not. -/
theorem withLine_ahead {limit : Int} {tooLong : Int → ParseError}
    {unended : Line.Error → ParseError} {go : Octets → Parser → Step}
    (hgo : ∀ line q, go line (q.ahead n) = (go line q).ahead n) :
    (p.ahead n).withLine limit tooLong unended go =
      (p.withLine limit tooLong unended go).ahead n := by
  have hunread : (p.ahead n).unread = p.unread := rfl
  unfold withLine
  rw [hunread]
  rcases Line.scan p.unread limit with cause | _ | ⟨line, rest⟩
  · cases cause <;> rfl
  · rfl
  · exact hgo line { p with unread := rest }

theorem readStartLine_ahead : (p.ahead n).readStartLine = p.readStartLine.ahead n := by
  refine withLine_ahead p n fun line q => ?_
  have hoptions : (q.ahead n).options = q.options := rfl
  by_cases hempty : line.isEmpty
  · simp only [if_pos hempty]
    rfl
  · simp only [if_neg hempty, hoptions]
    cases StartLine.read q.options.kind (Latin.decode line) <;> rfl

theorem readField_ahead (part : Part) :
    (p.ahead n).readField part = (p.readField part).ahead n := by
  refine withLine_ahead p n fun line q => ?_
  have hoptions : (q.ahead n).options = q.options := rfl
  have hdraft : (q.ahead n).draft = q.draft := rfl
  by_cases hempty : line.isEmpty
  · simp only [if_pos hempty]
    cases part with
    | header => exact endHeaders_ahead q n
    | trailer => exact finish_ahead q n []
  · simp only [if_neg hempty, hoptions, hdraft]
    cases fieldOf q.options.limits (q.draft.fields part) line <;> rfl

theorem readCounted_ahead : (p.ahead n).readCounted = p.readCounted.ahead n := by
  have hafter : (p.ahead n).afterCounted = p.afterCounted.ahead n := rfl
  have hunread : (p.ahead n).unread = p.unread := rfl
  have hdraft : (p.ahead n).draft = p.draft := rfl
  have hevents : (p.ahead n).countedEvents = p.countedEvents := rfl
  rw [readCounted_eq, readCounted_eq, hafter, hunread, hdraft, hevents, finish_ahead]
  split_ifs <;> rfl

theorem readChunk_ahead : (p.ahead n).readChunk = p.readChunk.ahead n := by
  have hunread : (p.ahead n).unread = p.unread := rfl
  have hoptions : (p.ahead n).options = p.options := rfl
  unfold readChunk
  rw [hunread, hoptions]
  rcases Chunk.take p.unread p.options.limits.chunkLine with cause | _ | ⟨payload, rest⟩
  · rfl
  · rfl
  · simp only
    split_ifs <;> rfl

theorem readChunkPiece_ahead : (p.ahead n).readChunkPiece = p.readChunkPiece.ahead n := by
  have hunread : (p.ahead n).unread = p.unread := rfl
  have hoptions : (p.ahead n).options = p.options := rfl
  have hdraft : (p.ahead n).draft = p.draft := rfl
  unfold readChunkPiece
  rw [hunread, hoptions, hdraft]
  split_ifs
  · rfl
  · rfl
  · rcases Chunk.hasEnd p.unread with cause | _ | _ <;> rfl
  · rcases Chunk.takeSize p.unread p.options.limits.chunkLine with cause | _ | ⟨size, rest⟩
    · rfl
    · rfl
    · simp only
      split_ifs <;> rfl

theorem readRest_ahead : (p.ahead n).readRest = p.readRest.ahead n := by
  have hafter : (p.ahead n).afterRest = p.afterRest.ahead n := rfl
  have hunread : (p.ahead n).unread = p.unread := rfl
  have hevents : (p.ahead n).restEvents = p.restEvents := rfl
  rw [readRest_eq, readRest_eq, hafter, hunread, hevents]
  split_ifs <;> rfl

/-- **A step does not depend on the count.** -/
theorem step_ahead : (p.ahead n).step = p.step.ahead n := by
  have hphase : (p.ahead n).phase = p.phase := rfl
  have hdraft : (p.ahead n).draft = p.draft := rfl
  have hoptions : (p.ahead n).options = p.options := rfl
  have hunread : (p.ahead n).unread = p.unread := rfl
  unfold step
  rw [hphase, hdraft, hoptions, hunread]
  cases p.phase with
  | awaitStartLine => exact readStartLine_ahead p n
  | awaitHeaders => exact readField_ahead p n .header
  | awaitBody =>
      simp only
      split
      · exact readCounted_ahead p n
      · split_ifs
        · exact readChunkPiece_ahead p n
        · exact readChunk_ahead p n
      · exact readRest_ahead p n
  | awaitTrailers => exact readField_ahead p n .trailer
  | done =>
      simp only
      split_ifs <;> rfl
  | failed => rfl

/-! ## Runs and calls -/

/-- **A run does not depend on the count.** -/
theorem run_ahead : run (p.ahead n) = (run p).ahead n := by
  -- by induction on the run, each step of which is the same
  induction p using run.induct with
  | case1 p hwait =>
      rw [run_eq p, run_eq (p.ahead n), step_ahead, hwait]
      rfl
  | case2 p events q hnext ih =>
      rw [run_eq p, run_eq (p.ahead n), step_ahead, hnext]
      exact congrArg (Run.after · events) ih
  | case3 p events q cause hreject =>
      rw [run_eq p, run_eq (p.ahead n), step_ahead, hreject]
      rfl
  | case4 p q cause hinterrupt =>
      rw [run_eq p, run_eq (p.ahead n), step_ahead, hinterrupt]
      rfl

theorem settle_ahead (r : Run) : (r.ahead n).settle = r.settle.ahead n := by
  unfold Run.settle Run.ahead
  split_ifs <;> rfl

theorem feed_ahead (block : Octets) : (p.ahead n).feed block = (p.feed block).ahead n := by
  have hfailed : (p.ahead n).hasFailed = p.hasFailed := rfl
  unfold feed
  rw [hfailed]
  split_ifs
  · rfl
  · rw [← settle_ahead, ← run_ahead]
    rfl

theorem conclude_ahead (events : List Event) :
    (p.ahead n).conclude events = (p.conclude events).ahead n := by
  unfold conclude
  rw [finish_ahead]
  cases p.finish events <;> rfl

theorem close_ahead : (p.ahead n).close = p.close.ahead n := by
  have hphase : (p.ahead n).phase = p.phase := rfl
  have hdraft : (p.ahead n).draft = p.draft := rfl
  have hoptions : (p.ahead n).options = p.options := rfl
  have hunread : (p.ahead n).unread = p.unread := rfl
  unfold close
  rw [hphase, hdraft, hoptions, hunread, conclude_ahead, conclude_ahead]
  cases p.phase
  case done | failed => rfl
  all_goals
    simp only
    split_ifs <;> rfl

/-- What a parser is asked to do. -/
inductive Call where
  | feed (block : Octets)
  | close

/-- Answers a call. -/
def call (p : Parser) : Call → Run
  | .feed block => p.feed block
  | .close => p.close

/-- Answers calls one after the other, whatever becomes of each. -/
def calls (p : Parser) : List Call → List Run
  | [] => []
  | c :: cs => p.call c :: (p.call c).parser.calls cs

theorem call_ahead (c : Call) : (p.ahead n).call c = (p.call c).ahead n := by
  cases c with
  | feed block => exact feed_ahead p n block
  | close => exact close_ahead p n

/-- **The answers to calls do not depend on the count.** -/
theorem calls_ahead (cs : List Call) :
    (p.ahead n).calls cs = (p.calls cs).map (Run.ahead n) := by
  induction cs generalizing p with
  | nil => rfl
  | cons c cs ih =>
      simp only [calls, List.map_cons, call_ahead]
      exact congrArg _ (ih (p.call c).parser)

end HttpCodec.Parser
