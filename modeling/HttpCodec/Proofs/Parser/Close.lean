import HttpCodec.Parser
import HttpCodec.Proofs.Parser.Advance

set_option autoImplicit false

/-! # The end of the input

What `Parser.close` does in each phase: it leaves a parser between two messages as it is, completes
a body that goes on until the input ends, and is an error anywhere else. `feedAndClose` is what
comes of data that is followed by the end.
-/

namespace HttpCodec.Parser

/-- A message that can be written is completed. -/
theorem conclude_of_message {p : Parser} {m : Message} (es : List Event)
    (h : p.message = .ok m) :
    p.conclude es = { parser := p.rested, events := es ++ [.complete m] } := by
  unfold conclude
  rw [finish_eq_next_iff.mpr ⟨m, h, rfl, rfl⟩]

theorem close_of_rest {p : Parser} (hphase : p.phase = .awaitBody)
    (hframing : p.draft.framing = some .untilClose) :
    p.close = if p.draft.body = [] ∨ p.options.streaming = true then p.conclude []
      else p.conclude [.body p.draft.body] := by
  unfold close
  simp [hphase, hframing]

/-- The end of the input reports a body that goes on until then, if it is kept and not empty, and
completes the message. -/
theorem events_close_of_rest {p : Parser} {m : Message} (hs : p.options.streaming = false)
    (hphase : p.phase = .awaitBody) (hframing : p.draft.framing = some .untilClose)
    (hmessage : p.message = .ok m) :
    p.close.events =
      (if p.draft.body = [] then [] else [.body p.draft.body]) ++ [.complete m] := by
  rw [close_of_rest hphase hframing, conclude_of_message _ hmessage, conclude_of_message _ hmessage]
  by_cases hempty : p.draft.body = [] <;> simp [hempty, hs]

/-- Within a message the end of the input is an error, unless it ends the body. -/
theorem close_of_within {p : Parser} (hdone : p.phase ≠ .done) (hfailed : p.phase ≠ .failed)
    (hstart : p.phase = .awaitStartLine → p.unread ≠ [])
    (hbody : p.phase = .awaitBody → p.draft.framing ≠ some .untilClose) :
    p.close =
      { parser := p.fail (.endOfStream p.phase), events := [.error (.endOfStream p.phase)] } := by
  unfold close
  cases hphase : p.phase <;> simp_all

theorem close_of_start {p : Parser} (hphase : p.phase = .awaitStartLine) (hempty : p.unread = []) :
    p.close = { parser := p, events := [] } := by
  unfold close
  simp [hphase, hempty]

/-- The end of the input interrupts nothing. -/
theorem interruption_close (p : Parser) : p.close.interruption = none := by
  have hconclude : ∀ es, (p.conclude es).interruption = none := by
    intro es
    unfold conclude
    cases p.finish es <;> rfl
  unfold close
  cases p.phase <;> simp only <;> split_ifs <;> first | rfl | exact hconclude _

theorem close_of_done {p : Parser} (hphase : p.phase = .done) :
    p.close = { parser := p, events := [] } := by
  unfold close
  simp [hphase]

theorem close_of_failed {p : Parser} (hphase : p.phase = .failed) :
    p.close = { parser := p, events := [] } := by
  unfold close
  simp [hphase]

/-- Where no body goes on until then, the end of the input is not reported unless it is an error. -/
theorem events_close {p : Parser}
    (hbody : p.phase = .awaitBody → p.draft.framing ≠ some .untilClose) :
    p.close.events = [] ∨ p.close.events = [.error (.endOfStream p.phase)] := by
  by_cases hdone : p.phase = .done
  · rw [close_of_done hdone]
    exact .inl rfl
  by_cases hfailed : p.phase = .failed
  · rw [close_of_failed hfailed]
    exact .inl rfl
  by_cases hstart : p.phase = .awaitStartLine ∧ p.unread = []
  · rw [close_of_start hstart.1 hstart.2]
    exact .inl rfl
  · rw [close_of_within hdone hfailed (fun hphase hempty => hstart ⟨hphase, hempty⟩) hbody]
    exact .inr rfl

/-- Feeds data and then closes. -/
def feedAndClose (p : Parser) (data : Octets) : Run :=
  (p.feed data).parser.close.after (p.feed data).events

end HttpCodec.Parser
