import HttpCodec.Proofs.Field.Grammar
import HttpCodec.Proofs.Parser.Report

set_option autoImplicit false

/-! # Messages that a parser completes

Every message that a parser reports complete was read as a whole, whatever has been called before,
and whether or not bodies are kept (`Reached.whole_of_complete`). So it can be written
(`Reached.sound_of_complete`): its start line was read, its fields were checked, and it has no body
where the status allows none. For the same reason no message is refused when it is complete
(`Reached.writable`).
-/

namespace HttpCodec

namespace Parser

variable {o : Options} {p q : Parser} {s : Segment} {es : List Event} {m : Message}

/-- Fields that were read make a list that can be written. -/
theorem FieldsRead.sound_appendAll {fields : List Field} (h : FieldsRead o fields) :
    (o.noFields.appendAll fields).Sound := by
  have hfields : (o.noFields.appendAll fields).fields = fields := Fields.fields_appendAll _ _
  refine ⟨fun f hf => ?_, fun f hf => ?_, (indexed_noFields o).appendAll fields⟩
  · rw [hfields] at hf
    exact h.sound f hf
  · rw [hfields] at hf
    rw [limit_appendAll]
    exact h.sizes f hf

/-- **The message of a segment that was read as a whole can be written.** -/
theorem Segment.Whole.sound (h : s.Whole o) : (s.message o).Sound := by
  refine ⟨h.readable.line, h.readable.headers.sound_appendAll,
    h.readable.trailers.sound_appendAll, ?_⟩
  show (if o.streaming then [] else s.payloads.flatten) = [] ∨ s.line.allowsBody = true
  have hallows : ∀ {d body}, s.decision o = d → d.body? = some body → s.line.allowsBody = true := by
    rintro d body rfl hbody
    exact Framing.allowsBody_of_body? hbody
  cases h.framed with
  | bodiless _ hpayloads => simp [hpayloads]
  | counted hdecide | chunked hdecide | untilClose hdecide => exact .inr (hallows hdecide rfl)

/-! ## Calls -/

/-- Nothing is complete before the end of a message. -/
theorem Segment.not_mem_events (s : Segment) (m : Message) : .complete m ∉ s.events := by
  simp [Segment.events]

/-- A message is among the events of a whole segment only as the one that the segment makes. -/
theorem Segment.eq_of_mem_completeEvents {s : Segment} (h : .complete m ∈ s.completeEvents o) :
    m = s.message o := by
  rcases List.mem_append.mp h with h | h
  · exact absurd h (s.not_mem_events m)
  · exact Event.complete.inj (List.mem_singleton.mp h)

/-- **A step completes only messages that were read as a whole.** -/
theorem Placed.whole_of_advance (h : Placed p) (hadvance : Advance p es q)
    (hm : .complete m ∈ es) : ∃ s : Segment, s.Whole p.options ∧ m = s.message p.options := by
  rcases h with hfailed | hrest | ⟨s, hwithin⟩
  · exact absurd hfailed hadvance.phase_ne_failed.1
  · rcases (hrest.advance hadvance).2 with ⟨-, rfl⟩ | ⟨t, -, rfl⟩
    · exact absurd hm List.not_mem_nil
    · exact absurd hm (t.not_mem_events m)
  · rcases hwithin.advance hadvance with ⟨t, -, hevents, -⟩ | ⟨t, hwhole, -, hevents, -⟩
    · have hmem : .complete m ∈ t.events := by
        rw [hevents]
        exact List.mem_append_right _ hm
      exact absurd hmem (t.not_mem_events m)
    · have hmem : .complete m ∈ t.completeEvents p.options := by
        rw [hevents]
        exact List.mem_append_right _ hm
      exact ⟨t, hwhole, Segment.eq_of_mem_completeEvents hmem⟩

/-- A run of steps completes only messages that were read as a whole. -/
theorem Placed.whole_of_reads (h : Placed p) (hreads : Reads p es q) (hm : .complete m ∈ es) :
    ∃ s : Segment, s.Whole p.options ∧ m = s.message p.options := by
  induction hreads with
  | refl p => exact absurd hm List.not_mem_nil
  | step hadvance _ ih =>
      rcases List.mem_append.mp hm with hm | hm
      · exact h.whole_of_advance hadvance hm
      · rw [← hadvance.options_eq]
        exact ih (h.advance hadvance) hm

/-- No message is complete where there is an error. -/
theorem Refusal.not_mem_complete {cause : ParseError} (h : Refusal p es q cause) (m : Message) :
    .complete m ∉ es := by
  intro hmem
  obtain ⟨data, hbody⟩ := h.eq_body_of_mem hmem
  cases hbody

/-- What a parser reports of a block comes from the steps that it takes, or from the one that stops
it, with which it fails: what goes before the error, and the error. -/
theorem exists_of_mem_feed {block : Octets} {e : Event} (he : e ∈ (p.feed block).events) :
    ∃ es q, Reads (p.supply block) es q ∧
      (e ∈ es ∨ ∃ fs r cause, Refusal q fs r cause ∧ (p.feed block).parser = r.fail cause ∧
        (e ∈ fs ∨ e = .error cause)) := by
  cases hfailed : p.hasFailed with
  | true =>
      unfold Parser.feed at he
      rw [if_pos hfailed] at he
      exact absurd he List.not_mem_nil
  | false =>
      have hcomes := comes_run (p.supply block)
      rw [feed_eq hfailed] at he ⊢
      generalize Parser.run (p.supply block) = r at hcomes he ⊢
      cases hcomes with
      | waits hreads => exact ⟨_, _, hreads, .inl he⟩
      | rejects hreads hreject =>
          refine ⟨_, _, hreads, ?_⟩
          rcases List.mem_append.mp he with he | he
          · exact .inl he
          · exact .inr ⟨_, _, _, refusal_of_step hreject, rfl,
              (List.mem_append.mp he).imp_right List.mem_singleton.mp⟩
      -- an interruption keeps all events back
      | interrupted => exact absurd he List.not_mem_nil

theorem Placed.whole_of_feed (h : Placed p) {block : Octets}
    (hm : .complete m ∈ (p.feed block).events) :
    ∃ s : Segment, s.Whole p.options ∧ m = s.message p.options := by
  have hplaced : Placed (p.supply block) := h.leave (p.unread ++ block)
  obtain ⟨es, q, hreads, hm | ⟨fs, r, cause, hrefusal, -, hm | hm⟩⟩ := exists_of_mem_feed hm
  · exact hplaced.whole_of_reads hreads hm
  · exact absurd hm (hrefusal.not_mem_complete m)
  · cases hm

/-- The end of the input completes nothing but a body that goes on until then. -/
theorem not_mem_complete_close (m : Message)
    (hbody : p.phase = .awaitBody → p.draft.framing ≠ some .untilClose) :
    .complete m ∉ p.close.events := by
  rcases events_close hbody with hevents | hevents <;> rw [hevents] <;> simp

theorem Placed.whole_of_close (h : Placed p) (hm : .complete m ∈ p.close.events) :
    ∃ s : Segment, s.Whole p.options ∧ m = s.message p.options := by
  by_cases hrest : p.phase = .awaitBody ∧ p.draft.framing = some .untilClose
  · obtain ⟨hphase, hframing⟩ := hrest
    obtain ⟨s, hwithin⟩ :=
      h.exists_within (by simp [hphase]) (by simp [hphase]) (by simp [hphase])
    cases hwithin with
    | head hother | trailers hother => simp [hphase] at hother
    | counted _ _ _ _ hother | chunked _ _ _ _ hother => simp [hframing] at hother
    | rest _ hshows hlimit htrailers _ hheld hdecide =>
        obtain ⟨t, hwhole, -, hevents⟩ :=
          Parser.whole_of_close hphase hshows hlimit htrailers hframing hheld hdecide
        refine ⟨t, hwhole, Segment.eq_of_mem_completeEvents ?_⟩
        rw [hevents]
        exact List.mem_append_right _ hm
  · exact absurd hm (not_mem_complete_close m fun hphase hframing => hrest ⟨hphase, hframing⟩)

/-! ## States that a parser can come to -/

theorem options_invariant (o : Options) : Invariant fun p => p.options = o where
  leave _ h := h
  advance h hadvance := hadvance.options_eq.trans h
  refusal h hrefusal := hrefusal.options_eq.trans h
  rested h _ := h
  fail _ h := h

/-- **No call changes how a parser reads.** -/
theorem Reached.options_eq (h : Reached o p) : p.options = o := by
  induction h with
  | new => rfl
  | feed _ block ih => exact (options_invariant o).feed ih block
  | close _ ih => exact (options_invariant o).close ih
  | next _ ih | reset _ ih => exact ih
  | @amend p _ m ih =>
      unfold Parser.amend
      split_ifs <;> exact ih

/-! ## No message is refused when it is complete -/

theorem Placed.writable_of_refusal {cause : ParseError} (h : Placed p)
    (hrefusal : Refusal p es q cause) (e : MessageError) : cause ≠ .unwritable e := by
  rintro rfl
  cases hrefusal with
  | field _ _ _ hfield =>
      have htype := type_of_fieldOf hfield
      split_ifs at htype <;> cases htype
  | unwritable hphase _ hmessage =>
      obtain ⟨s, hwithin⟩ := h.exists_within_of_part hphase
      obtain ⟨m, hmade⟩ := hwithin.exists_message
      simp [hmessage] at hmade
  | countedUnwritable hphase _ _ hmessage =>
      obtain ⟨s, hwithin⟩ :=
        h.exists_within (by simp [hphase]) (by simp [hphase]) (by simp [hphase])
      -- the data that has arrived does not change the start line
      obtain ⟨m, hmade⟩ := exists_message_of_line (p := p.afterCounted) hwithin.shows.line
        hwithin.shows.readable.line (hwithin.allowsBody (.inl hphase))
      simp [hmessage] at hmade

theorem Placed.reads (h : Placed p) (hreads : Reads p es q) : Placed q := by
  induction hreads with
  | refl p => exact h
  | step hadvance _ ih => exact ih (h.advance hadvance)

theorem Placed.writable_of_feed (h : Placed p) (block : Octets) (e : MessageError) :
    .error (.unwritable e) ∉ (p.feed block).events := by
  intro hm
  have hplaced : Placed (p.supply block) := h.leave (p.unread ++ block)
  obtain ⟨es, q, hreads, hm | ⟨fs, r, cause, hrefusal, -, hm | hm⟩⟩ := exists_of_mem_feed hm
  · exact hreads.not_mem_error _ hm
  · exact hrefusal.not_mem_error _ hm
  · exact (hplaced.reads hreads).writable_of_refusal hrefusal e (Event.error.inj hm).symm

theorem Placed.writable_of_close (h : Placed p) (e : MessageError) :
    .error (.unwritable e) ∉ p.close.events := by
  intro hm
  by_cases hfailed : p.phase = .failed
  · rw [close_of_failed hfailed] at hm
    exact List.not_mem_nil hm
  · cases (h.reports_close hfailed).2 _ hm

/-- **No message is refused when it is complete**: the parts that were read make one. -/
theorem Reached.writable (h : Reached o p) (c : Call) (e : MessageError) :
    .error (.unwritable e) ∉ (p.call c).events := by
  cases c with
  | feed block => exact h.placed.writable_of_feed block e
  | close => exact h.placed.writable_of_close e

/-! ## Every message that is complete was read as a whole -/

/-- **Every message that a parser reports complete was read as a whole.** -/
theorem Reached.whole_of_complete (h : Reached o p) {c : Call}
    (hm : .complete m ∈ (p.call c).events) : ∃ s : Segment, s.Whole o ∧ m = s.message o := by
  rw [← h.options_eq]
  cases c with
  | feed block => exact h.placed.whole_of_feed hm
  | close => exact h.placed.whole_of_close hm

/-- **Every message that a parser reports complete can be written.** -/
theorem Reached.sound_of_complete (h : Reached o p) {c : Call}
    (hm : .complete m ∈ (p.call c).events) : m.Sound := by
  obtain ⟨s, hwhole, rfl⟩ := h.whole_of_complete hm
  exact hwhole.sound

end Parser

end HttpCodec
