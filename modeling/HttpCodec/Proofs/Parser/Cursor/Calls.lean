import HttpCodec.Proofs.Parser.Buffer
import HttpCodec.Proofs.Parser.Cursor

set_option autoImplicit false

/-! # The calls of a cursor

The steps of a cursor are those of its parser (`Cursor.step_matches`), so a run of it ends where that
of the parser does (`matches_of_run`), and a call leads both to the same events and the same state. At
the end of a call that is not interrupted nothing is left before the offset. More steps than suffice
change nothing (`feed_of_le`).

`Reached` are the states that a cursor comes to by any calls, `Called` those that it comes to by calls
that return.
-/

namespace HttpCodec.Parser.Cursor

variable {o : Options} {c d : Cursor}

/-! ## Runs -/

/-- How a cursor goes on by one step. -/
def GoesOn (c d : Cursor) : Prop := ∃ events, c.step = .next events d

/-- A cursor goes on as its parser does. -/
theorem GoesOn.next (h : c.offset ≤ c.buffer.length) (hgoes : c.GoesOn d) :
    ∃ es, c.parser.step = .next es d.parser ∧ Stays c d := by
  obtain ⟨es, hstep⟩ := hgoes
  have hmatches := step_matches h
  rw [hstep] at hmatches
  generalize c.parser.step = step at hmatches
  cases hmatches with
  | next hstays => exact ⟨es, rfl, hstays⟩

/-- A run of a cursor and one of a parser: the same events and the same state. -/
structure Run.Matches (r : Run) (r' : Parser.Run) : Prop where
  parser : r.cursor.parser = r'.parser
  events : r.events = r'.events
  interruption : r.interruption = r'.interruption
  offset_le : r.cursor.offset ≤ r.cursor.buffer.length

/-- **A run of a cursor** ends where that of its parser does. -/
theorem matches_of_run {n : Nat} {r : Run} (h : c.offset ≤ c.buffer.length)
    (hrun : c.run n = some r) : r.Matches (Parser.run c.parser) := by
  -- by induction on the steps: the parser makes the same ones
  induction n generalizing c r with
  | zero => cases hrun
  | succ n ih =>
      have hmatches := step_matches h
      generalize hmove : c.step = move at hmatches
      generalize hstep : c.parser.step = step at hmatches
      rw [run, hmove] at hrun
      rw [run_eq, hstep]
      cases hmatches with
      | wait =>
          cases hrun
          exact ⟨rfl, rfl, rfl, h⟩
      | next hstays =>
          obtain ⟨s, hs, hr⟩ := Option.bind_eq_some_iff.mp hrun
          have hrest := ih hstays.offset_le hs
          cases hr
          exact ⟨hrest.parser, congrArg (_ ++ ·) hrest.events, hrest.interruption, hrest.offset_le⟩
      | reject =>
          cases hrun
          exact ⟨rfl, rfl, rfl, Nat.zero_le _⟩
      | interrupt hstays =>
          cases hrun
          exact ⟨rfl, rfl, rfl, hstays.offset_le⟩

/-- More steps than suffice do not change a run. -/
theorem run_of_le {n m : Nat} {r : Run} (hrun : c.run n = some r) (hle : n ≤ m) :
    c.run m = some r := by
  induction n generalizing c r m with
  | zero => cases hrun
  | succ n ih =>
      obtain ⟨m, rfl⟩ := Nat.exists_eq_succ_of_ne_zero (Nat.ne_zero_of_lt hle)
      rw [run] at hrun ⊢
      cases hstep : c.step with
      | next es d =>
          rw [hstep] at hrun
          obtain ⟨s, hs, hr⟩ := Option.bind_eq_some_iff.mp hrun
          exact Option.bind_eq_some_iff.mpr ⟨s, ih hs (Nat.le_of_succ_le_succ hle), hr⟩
      | wait | reject | interrupt => rwa [hstep] at hrun

/-! ## Calls -/

theorem parser_supply (h : c.offset ≤ c.buffer.length) (block : Octets) :
    (c.supply block).parser = c.parser.supply block := by
  show c.parser.leave ((c.buffer ++ block).drop c.offset) = _
  rw [List.drop_append_of_le_length h]
  rfl

theorem offset_le_supply (h : c.offset ≤ c.buffer.length) (block : Octets) :
    (c.supply block).offset ≤ (c.supply block).buffer.length := by
  simp only [supply, List.length_append]
  omega

/-- **A block does the same to a cursor as to its parser**, and is followed by nothing that has been
read unless the call is interrupted. -/
theorem matches_of_feed (h : c.offset ≤ c.buffer.length) {block : Octets} {n : Nat} {r : Run}
    (hfeed : c.feed block n = some r) :
    r.Matches (c.parser.feed block) ∧ (r.interruption = none → r.cursor.offset = 0) := by
  have hfailed : c.parser.hasFailed = decide (c.phase = .failed) := rfl
  unfold feed at hfeed
  unfold Parser.feed
  rw [hfailed]
  by_cases hphase : c.phase = .failed
  · rw [if_pos hphase] at hfeed
    cases hfeed
    simp only [decide_eq_true hphase]
    exact ⟨⟨rfl, rfl, rfl, h⟩, nofun⟩
  · rw [if_neg hphase] at hfeed
    obtain ⟨s, hs, hr⟩ := Option.bind_eq_some_iff.mp hfeed
    have hmatches := matches_of_run (offset_le_supply h block) hs
    rw [parser_supply h] at hmatches
    cases hr
    simp only [decide_eq_false hphase]
    unfold Parser.Run.settle
    rw [show ({ c.parser with unread := c.parser.unread ++ block } : Parser) =
      c.parser.supply block from rfl, ← hmatches.interruption]
    by_cases hinterrupted : s.interruption.isSome = true
    · simp only [if_pos hinterrupted]
      refine ⟨⟨hmatches.parser, rfl, rfl, hmatches.offset_le⟩, fun hnone => ?_⟩
      rw [hnone] at hinterrupted
      cases hinterrupted
    · simp only [if_neg hinterrupted]
      exact ⟨⟨hmatches.parser, hmatches.events, hmatches.interruption, Nat.zero_le _⟩, fun _ => rfl⟩

/-- More steps than suffice do not change what comes of a block. -/
theorem feed_of_le {block : Octets} {n m : Nat} {r : Run} (hfeed : c.feed block n = some r)
    (hle : n ≤ m) : c.feed block m = some r := by
  unfold feed at hfeed ⊢
  by_cases hphase : c.phase = .failed
  · rwa [if_pos hphase] at hfeed ⊢
  · rw [if_neg hphase] at hfeed ⊢
    obtain ⟨s, hs, hr⟩ := Option.bind_eq_some_iff.mp hfeed
    exact Option.bind_eq_some_iff.mpr ⟨s, run_of_le hs hle, hr⟩

theorem conclude_matches (h : c.offset ≤ c.buffer.length) (es : List Event) :
    (c.conclude es).Matches (c.parser.conclude es) := by
  unfold conclude Parser.conclude finish
  cases c.parser.message with
  | error cause => exact ⟨rfl, rfl, rfl, Nat.zero_le _⟩
  | ok m => exact ⟨rfl, rfl, rfl, h⟩

/-- **The end of the input does the same to a cursor as to its parser.** -/
theorem close_matches (h : c.offset ≤ c.buffer.length) : c.close.Matches c.parser.close := by
  have hphase : c.parser.phase = c.phase := rfl
  have hdraft : c.parser.draft = c.draft := rfl
  have hoptions : c.parser.options = c.options := rfl
  unfold close Parser.close
  simp only [hphase, hdraft, hoptions, isEmpty_unread, decide_eq_true_eq]
  cases hc : c.phase with
  | done | failed => exact ⟨rfl, rfl, rfl, h⟩
  | _ =>
      simp only
      split_ifs
      all_goals first
        | exact ⟨rfl, rfl, rfl, h⟩
        | exact conclude_matches h _
        | exact ⟨rfl, rfl, rfl, Nat.zero_le _⟩

theorem offset_conclude (h : c.offset = 0) (es : List Event) :
    (c.conclude es).cursor.offset = 0 := by
  unfold conclude finish
  cases c.parser.message with
  | error cause => rfl
  | ok m => exact h

theorem offset_close (h : c.offset = 0) : c.close.cursor.offset = 0 := by
  unfold close
  cases c.phase with
  | done | failed => exact h
  | _ =>
      simp only
      split_ifs
      all_goals first
        | exact h
        | exact offset_conclude h _
        | rfl

/-! ## States -/

/-- The states that a cursor comes to by any calls. A call may be interrupted. -/
inductive Reached (o : Options) : Cursor → Prop
  | new : Reached o (new o)
  | feed {c : Cursor} (h : Reached o c) {block : Octets} {n : Nat} {r : Run}
      (hfeed : c.feed block n = some r) : Reached o r.cursor
  | close {c : Cursor} (h : Reached o c) : Reached o c.close.cursor
  | next {c : Cursor} (h : Reached o c) : Reached o c.next
  | reset {c : Cursor} (h : Reached o c) : Reached o c.reset

/-- The states that a cursor comes to by calls that return. -/
inductive Called (o : Options) : Cursor → Prop
  | new : Called o (new o)
  | feed {c : Cursor} (h : Called o c) {block : Octets} {n : Nat} {r : Run}
      (hfeed : c.feed block n = some r) (hreturns : r.interruption = none) : Called o r.cursor
  | close {c : Cursor} (h : Called o c) : Called o c.close.cursor
  | next {c : Cursor} (h : Called o c) : Called o c.next
  | reset {c : Cursor} (h : Called o c) : Called o c.reset

theorem Called.reached (h : Called o c) : Reached o c := by
  induction h with
  | new => exact .new
  | feed _ hfeed _ ih => exact ih.feed hfeed
  | close _ ih => exact ih.close
  | next _ ih => exact ih.next
  | reset _ ih => exact ih.reset

/-- **The offset keeps within the buffer.** -/
theorem Reached.offset_le (h : Reached o c) : c.offset ≤ c.buffer.length := by
  induction h with
  | new | reset => exact Nat.zero_le _
  | feed _ hfeed ih => exact (matches_of_feed ih hfeed).1.offset_le
  | close _ ih => exact (close_matches ih).offset_le
  | next _ ih => exact ih

/-- The parser of a state that a cursor comes to is one that a parser comes to. -/
theorem Reached.parser (h : Reached o c) : Parser.Reached o c.parser := by
  induction h with
  | new => exact .new
  | feed h hfeed ih =>
      rw [(matches_of_feed h.offset_le hfeed).1.parser]
      exact ih.feed _
  | close h ih =>
      rw [(close_matches h.offset_le).parser]
      exact ih.close
  | next _ ih => exact ih.next
  | reset _ ih => exact ih.reset

/-- **Between calls the offset is zero.** -/
theorem Called.offset_eq (h : Called o c) : c.offset = 0 := by
  induction h with
  | new | reset => rfl
  | feed h hfeed hreturns => exact (matches_of_feed h.reached.offset_le hfeed).2 hreturns
  | close _ ih => exact offset_close ih
  | next _ ih => exact ih

end HttpCodec.Parser.Cursor
