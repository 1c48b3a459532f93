import HttpCodec.Proofs.Framing.Rule
import HttpCodec.Proofs.Parser.Invariant
import HttpCodec.Proofs.Parser.Transcript

set_option autoImplicit false

/-! # How errors are reported

A parser reports an error as the last event of the call that finds it, and stops there
(`Reports`). The one call that reports nothing is interrupted at the end of a head that declares a
length of too many digits (`MeetsOverlong`). The main statement is `errors_reported`, for feeding
and closing a parser in any state that it can come to and for parsing.
-/

namespace HttpCodec

/-- Events that complete messages hold no error. -/
theorem Event.not_mem_error_of_messages {es : List Event} {ms : List Message}
    (h : messages es = .ok ms) (cause : ParseError) : .error cause ∉ es := by
  induction es generalizing ms with
  | nil => exact List.not_mem_nil
  | cons e es ih =>
      have hrest : e ≠ .error cause ∧ ∃ ms, messages es = .ok ms := by
        cases e with
        | error other => cases h
        | complete m =>
            obtain ⟨later, hlater, -⟩ := map_eq_ok_iff.mp h
            exact ⟨nofun, later, hlater⟩
        | _ => exact ⟨nofun, ms, h⟩
      obtain ⟨hne, later, hlater⟩ := hrest
      exact List.not_mem_cons_of_ne_of_not_mem hne.symm (ih hlater)

namespace Parser

variable {o : Options} {p q r : Parser} {es fs : List Event}

/-! ## The states of a parser -/

/-- The states that a parser can come to, whatever is called and however the calls end. -/
inductive Reached (o : Options) : Parser → Prop where
  | new : Reached o (new o)
  | feed {p : Parser} (h : Reached o p) (block : Octets) : Reached o (p.feed block).parser
  | close {p : Parser} (h : Reached o p) : Reached o p.close.parser
  | next {p : Parser} (h : Reached o p) : Reached o p.next
  | reset {p : Parser} (h : Reached o p) : Reached o p.reset
  | amend {p : Parser} (h : Reached o p) (m : Message) : Reached o (p.amend m)

/-- A parser is between messages or within one, unless it has failed. -/
def Placed (p : Parser) : Prop := p.phase = .failed ∨ Resting p ∨ ∃ s, Within p s

theorem Resting.leave (h : Resting p) (rest : Octets) : Resting (p.leave rest) := h

theorem Placed.leave (h : Placed p) (rest : Octets) : Placed (p.leave rest) :=
  h.imp id (Or.imp (·.leave rest) fun ⟨s, hs⟩ => ⟨s, hs.leave rest⟩)

/-- A step that goes on leads from place to place. -/
theorem Placed.advance (h : Placed p) (hadvance : Advance p es q) : Placed q := by
  rcases h with hfailed | hrest | ⟨s, hwithin⟩
  · exact absurd hfailed hadvance.phase_ne_failed.1
  · rcases (hrest.advance hadvance).2 with ⟨hrest', -⟩ | ⟨s, hwithin, -⟩
    · exact .inr (.inl hrest')
    · exact .inr (.inr ⟨s, hwithin⟩)
  · rcases hwithin.advance hadvance with ⟨t, hwithin', -⟩ | ⟨t, -, hdone, -⟩
    · exact .inr (.inr ⟨t, hwithin'⟩)
    · exact .inr (.inl (resting_of_done hdone))

/-- A parser that is neither at rest nor between messages is within one. -/
theorem Placed.exists_within (h : Placed p) (hfailed : p.phase ≠ .failed)
    (hstart : p.phase ≠ .awaitStartLine) (hdone : p.phase ≠ .done) : ∃ s, Within p s := by
  rcases h with hother | (⟨hother, -⟩ | hother) | hwithin
  · exact absurd hother hfailed
  · exact absurd hother hstart
  · exact absurd hother hdone
  · exact hwithin

theorem Placed.exists_within_of_part (h : Placed p) {part : Part}
    (hphase : p.phase = phaseOf part) : ∃ s, Within p s := by
  cases part <;> exact h.exists_within (by simp [hphase, phaseOf]) (by simp [hphase, phaseOf])
    (by simp [hphase, phaseOf])

/-- **Every call leads from place to place.** -/
theorem placed_invariant : Invariant Placed where
  leave rest h := h.leave rest
  advance h hadvance := h.advance hadvance
  refusal _ _ := .inl rfl
  rested _ _ := .inr (.inl (resting_of_done rfl))
  fail _ _ := .inl rfl

/-- **Every state that a parser can come to has its place.** -/
theorem Reached.placed (h : Reached o p) : Placed p := by
  induction h with
  | new => exact .inr (.inl (.inl ⟨rfl, rfl⟩))
  | feed _ block ih => exact placed_invariant.feed ih block
  | close _ ih => exact placed_invariant.close ih
  | next => exact .inr (.inl (.inl ⟨rfl, rfl⟩))
  | reset => exact .inr (.inl (.inl ⟨rfl, rfl⟩))
  | @amend p _ m ih =>
      unfold Parser.amend
      split_ifs with hdone
      · exact .inr (.inl (.inr hdone))
      · exact ih

theorem Reached.exists_within (h : Reached o p) (hfailed : p.phase ≠ .failed)
    (hstart : p.phase ≠ .awaitStartLine) (hdone : p.phase ≠ .done) : ∃ s, Within p s :=
  h.placed.exists_within hfailed hstart hdone

/-! ## What a run comes to -/

/-- A run makes steps up to one that waits, or finds an error, or is interrupted. -/
inductive Comes (p : Parser) : Run → Prop where
  | waits {es : List Event} {q : Parser} (hreads : Reads p es q) (hwait : q.step = .wait) :
      Comes p { parser := q, events := es }
  | rejects {es fs : List Event} {q r : Parser} {cause : ParseError} (hreads : Reads p es q)
      (hreject : q.step = .reject fs r cause) :
      Comes p { parser := r.fail cause, events := es ++ (fs ++ [.error cause]) }
  | interrupted {es : List Event} {q r : Parser} {cause : Decimal.Error} (hreads : Reads p es q)
      (hinterrupt : q.step = .interrupt r cause) :
      Comes p { parser := r, events := es, interruption := some (.unreadable cause) }

theorem comes_run (p : Parser) : Comes p (run p) := by
  induction p using run.induct with
  | case1 p hwait =>
      rw [run_eq p, hwait]
      exact .waits (.refl p) hwait
  | case2 p es q hnext ih =>
      rw [run_eq p, hnext]
      have hadvance := advance_of_step hnext
      show Comes p ((run q).after es)
      generalize run q = later at ih ⊢
      cases ih with
      | waits hreads hwait => exact .waits (.step hadvance hreads) hwait
      | @rejects fs gs q' r cause hreads hreject =>
          have := Comes.rejects (.step hadvance hreads) hreject
          rwa [List.append_assoc] at this
      | interrupted hreads hinterrupt => exact .interrupted (.step hadvance hreads) hinterrupt
  | case3 p es q cause hreject =>
      rw [run_eq p, hreject]
      exact .rejects (.refl p) hreject
  | case4 p q cause hinterrupt =>
      rw [run_eq p, hinterrupt]
      exact .interrupted (.refl p) hinterrupt

/-! ## Reports -/

/-- A call returns. It reports an error as its last event and only there, with which the parser
fails, or it reports none. -/
structure Reports (r : Run) : Prop where
  returns : r.interruption = none
  error : (r.parser.phase ≠ .failed ∧ ∀ cause, .error cause ∉ r.events) ∨
    ∃ es cause, r.events = es ++ [.error cause] ∧ (∀ other, .error other ∉ es) ∧
      r.parser.phase = .failed ∧ r.parser.error = some cause

/-- What is reported before a report that is no error is reported with it. -/
theorem Reports.after {r : Run} (h : Reports r) (hes : ∀ cause, .error cause ∉ es) :
    Reports (r.after es) := by
  refine ⟨h.returns, ?_⟩
  rcases h.error with ⟨hphase, hquiet⟩ | ⟨fs, cause, hevents, hquiet, hfailed, herror⟩
  · refine .inl ⟨hphase, fun cause hmem => ?_⟩
    exact (List.mem_append.mp hmem).elim (hes cause) (hquiet cause)
  · refine .inr ⟨es ++ fs, cause, ?_, fun other hmem => ?_, hfailed, herror⟩
    · show es ++ r.events = es ++ fs ++ [.error cause]
      rw [hevents, List.append_assoc]
    · exact (List.mem_append.mp hmem).elim (hes other) (hquiet other)

/-- With a block the parser comes to where the input is not a message. -/
def Rejects (p : Parser) (block : Octets) : Prop :=
  ∃ es q fs r cause, Reads (p.supply block) es q ∧ q.step = .reject fs r cause

theorem Reads.phase_ne_failed (h : Reads p es q) (hp : p.phase ≠ .failed) : q.phase ≠ .failed := by
  induction h with
  | refl p => exact hp
  | step hadvance _ ih => exact ih hadvance.phase_ne_failed.2

/-- The steps before an error report none. -/
theorem Reads.not_mem_error (h : Reads p es q) (cause : ParseError) : .error cause ∉ es := by
  obtain ⟨ms, hms⟩ := h.messages
  exact Event.not_mem_error_of_messages hms cause

theorem Refusal.not_mem_error {cause : ParseError} (h : Refusal p es q cause) (other : ParseError) :
    .error other ∉ es := by
  intro hmem
  obtain ⟨data, hbody⟩ := h.eq_body_of_mem hmem
  cases hbody

/-- **A run that is not interrupted reports its error.** -/
theorem reports_of_run (hp : p.phase ≠ .failed) (h : (run p).interruption = none) :
    Reports (run p) ∧
      ((run p).parser.phase = .failed ↔
        ∃ es q fs r cause, Reads p es q ∧ q.step = .reject fs r cause) := by
  have hcomes := comes_run p
  have hrun : ∀ {es q}, Reads p es q → run p = (run q).after es := fun hreads => hreads.run_eq
  generalize run p = whole at hcomes h hrun ⊢
  cases hcomes with
  | @waits es q hreads hwait =>
      have hphase := hreads.phase_ne_failed hp
      refine ⟨⟨rfl, .inl ⟨hphase, hreads.not_mem_error⟩⟩, fun hfailed => absurd hfailed hphase, ?_⟩
      rintro ⟨fs, q', gs, r, cause, hreads', hreject⟩
      -- the run that is rejected would have failed
      have hother := hrun hreads'
      rw [run_eq q', hreject] at hother
      exact congrArg (fun r : Run => r.parser.phase) hother
  | @rejects es fs q r cause hreads hreject =>
      refine ⟨⟨rfl, .inr ⟨es ++ fs, cause, ?_, ?_, rfl, rfl⟩⟩, fun _ => ?_, fun _ => rfl⟩
      · simp
      · intro other hmem
        rcases List.mem_append.mp hmem with hmem | hmem
        · exact hreads.not_mem_error other hmem
        · exact (refusal_of_step hreject).not_mem_error other hmem
      · exact ⟨es, q, fs, r, cause, hreads, hreject⟩
  | interrupted => cases h

/-- Feeding reports what its run does, unless it is interrupted. -/
theorem reports_feed (hp : p.phase ≠ .failed) {block : Octets}
    (hnone : (p.feed block).interruption = none) : Reports (p.feed block) := by
  have hrun := feed_eq_run (decide_eq_false hp) hnone
  rw [hrun] at hnone ⊢
  exact (reports_of_run (p := p.supply block) hp hnone).1

/-- A message whose start line allows a body can be made. -/
theorem exists_message_of_line {line : StartLine} (hline : p.draft.line = some line)
    (hsound : line.Sound) (hallows : line.allowsBody = true) : ∃ m, p.message = .ok m := by
  unfold message
  simp only [hline]
  rw [Message.ofStartLine_of_sound hsound _ _ (.inr hallows)]
  exact ⟨_, rfl⟩

theorem Shows.exists_message {s : Segment} (h : p.Shows s) (hallows : s.line.allowsBody = true) :
    ∃ m, p.message = .ok m :=
  exists_message_of_line h.line h.readable.line hallows

/-- What reports no error and leaves a parser that has not failed. -/
theorem reports_of_quiet (hphase : q.phase ≠ .failed) (h : ∀ cause, .error cause ∉ es) :
    Reports { parser := q, events := es } := ⟨rfl, .inl ⟨hphase, h⟩⟩

/-- Within a body the start line allows one. -/
theorem Within.allowsBody {s : Segment} (h : Within p s)
    (hphase : p.phase = .awaitBody ∨ p.phase = .awaitTrailers) : s.line.allowsBody = true := by
  have hallows : ∀ {d body}, s.decision p.options = d → d.body? = some body →
      s.line.allowsBody = true := by
    rintro d body rfl hbody
    exact Framing.allowsBody_of_body? hbody
  cases h with
  | head hother => simp [hother] at hphase
  | counted _ _ _ _ _ _ hdecide | chunked _ _ _ _ _ _ hdecide | rest _ _ _ _ _ _ hdecide
  | trailers _ _ _ _ hdecide => exact hallows hdecide rfl

/-- **The message that a parser is within can be made**, should its body be complete. -/
theorem Within.exists_message {s : Segment} (h : Within p s) : ∃ m, p.message = .ok m := by
  have hbody := h.allowsBody
  cases h with
  | head _ hshows hpayloads _ hempty =>
      exact ⟨_, hshows.message_eq (by simp [hempty, hpayloads]) (.inl (by simp [hempty]))⟩
  | counted hphase hshows | chunked hphase hshows | rest hphase hshows =>
      exact hshows.exists_message (hbody (.inl hphase))
  | trailers hphase hshows => exact hshows.exists_message (hbody (.inr hphase))

/-- The message whose body ends with the input can be made. -/
theorem Placed.exists_message (h : Placed p) (hphase : p.phase = .awaitBody) :
    ∃ m, p.message = .ok m := by
  obtain ⟨s, hwithin⟩ := h.exists_within (by simp [hphase]) (by simp [hphase]) (by simp [hphase])
  exact hwithin.exists_message

/-- Completing a message that can be made reports no error. -/
theorem conclude_quiet {m : Message} (hmessage : p.message = .ok m)
    (hes : ∀ cause, .error cause ∉ es) :
    Reports (p.conclude es) ∧ ∀ cause, .error cause ∉ (p.conclude es).events := by
  have hnone : ∀ cause, .error cause ∉ es ++ [.complete m] := by
    intro cause hmem
    rcases List.mem_append.mp hmem with hmem | hmem
    · exact hes cause hmem
    · simp at hmem
  rw [conclude_of_message es hmessage]
  exact ⟨reports_of_quiet (by simp [rested]) hnone, hnone⟩

/-- **Closing reports no error but that the input ends within a message.** -/
theorem Placed.reports_close (h : Placed p) (hp : p.phase ≠ .failed) :
    Reports p.close ∧ ∀ cause, .error cause ∈ p.close.events → cause = .endOfStream p.phase := by
  by_cases hrest : p.phase = .awaitBody ∧ p.draft.framing = some .untilClose
  · obtain ⟨m, hmessage⟩ := h.exists_message hrest.1
    have hquiet : Reports p.close ∧ ∀ cause, .error cause ∉ p.close.events := by
      rw [close_of_rest hrest.1 hrest.2]
      split_ifs
      · exact conclude_quiet hmessage (by simp)
      · exact conclude_quiet hmessage (by simp)
    exact ⟨hquiet.1, fun cause hmem => absurd hmem (hquiet.2 cause)⟩
  · by_cases hidle : p.phase = .done ∨ p.phase = .awaitStartLine ∧ p.unread = []
    · have hclose : p.close = { parser := p, events := [] } := by
        rcases hidle with hdone | ⟨hstart, hempty⟩
        · exact close_of_done hdone
        · exact close_of_start hstart hempty
      rw [hclose]
      exact ⟨reports_of_quiet hp (by simp), by simp⟩
    · obtain ⟨hdone, hunread⟩ := not_or.mp hidle
      rw [close_of_within hdone hp (fun hstart hempty => hunread ⟨hstart, hempty⟩)
        fun hbody hframing => hrest ⟨hbody, hframing⟩]
      refine ⟨⟨rfl, .inr ⟨[], _, rfl, by simp, rfl, rfl⟩⟩, ?_⟩
      simp

/-! ## A length of too many digits -/

end Parser

end HttpCodec
