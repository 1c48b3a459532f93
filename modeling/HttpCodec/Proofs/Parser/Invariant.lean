import HttpCodec.Proofs.Parser.Stop
import HttpCodec.Proofs.Parser.Supply

set_option autoImplicit false

/-! # What calls keep

An `Invariant` is a property of parsers that is kept by every step that goes on and by every step that
stops at an error. A run keeps it, whatever it comes to (`Invariant.run`), and so do the calls that
give a parser data or the end of the input.
-/

namespace HttpCodec.Parser

theorem parser_settle (r : Run) : r.settle.parser = r.parser := by
  unfold Run.settle
  split_ifs <;> rfl

/-- A property that steps and errors keep, and that does not depend on what is left to read. -/
structure Invariant (P : Parser → Prop) : Prop where
  leave : ∀ {p : Parser} (rest : Octets), P p → P (p.leave rest)
  advance : ∀ {p q : Parser} {es : List Event}, P p → Advance p es q → P q
  refusal : ∀ {p q : Parser} {es : List Event} {cause : ParseError},
    P p → Refusal p es q cause → P (q.fail cause)
  /-- The end of the input may complete a body, or come too early. -/
  rested : ∀ {p : Parser}, P p → p.phase = .awaitBody → P p.rested
  fail : ∀ {p : Parser} (cause : ParseError), P p → P (p.fail cause)

namespace Invariant

variable {P : Parser → Prop} {p : Parser}

/-- **What every step keeps, a run keeps**, also one that stops short. -/
theorem run (hP : Invariant P) (h : P p) : P p.run.parser := by
  -- the property is carried from step to step
  induction p using Parser.run.induct with
  | case1 p hwait =>
      rw [run_eq p, hwait]
      exact h
  | case2 p es q hnext ih =>
      rw [run_eq p, hnext]
      exact ih (hP.advance h (advance_of_step hnext))
  | case3 p es q cause hreject =>
      rw [run_eq p, hreject]
      exact hP.refusal h (refusal_of_step hreject)
  | case4 p q cause hinterrupt =>
      -- an interruption leaves the parser as it is, but for what it has read
      obtain ⟨-, rest, line, rfl, -⟩ := interrupt_of_step hinterrupt
      rw [run_eq p, hinterrupt]
      exact hP.leave rest h

theorem feed (hP : Invariant P) (h : P p) (block : Octets) : P (p.feed block).parser := by
  unfold Parser.feed
  split_ifs
  · exact h
  · rw [parser_settle]
    exact hP.run (hP.leave (p.unread ++ block) h)

theorem conclude (hP : Invariant P) (h : P p) (hphase : p.phase = .awaitBody) (es : List Event) :
    P (p.conclude es).parser := by
  unfold Parser.conclude finish
  cases p.message with
  | error cause => exact hP.fail cause h
  | ok m => exact hP.rested h hphase

theorem close (hP : Invariant P) (h : P p) : P p.close.parser := by
  unfold Parser.close
  split
  · exact h
  · exact h
  · split_ifs with hidle hrest
    · exact h
    · exact hP.conclude h hrest.1 _
    · exact hP.conclude h hrest.1 _
    · exact hP.fail _ h

end Invariant

end HttpCodec.Parser
