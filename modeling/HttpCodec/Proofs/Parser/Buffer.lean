import HttpCodec.Proofs.Parser.Report
import HttpCodec.Proofs.Parser.Wait

set_option autoImplicit false

/-! # What a parser holds is bounded by its limits

A call leaves a parser that waits, so what it has not read is at most the start of one element, and
the limit on that element bounds it (`Pause`). The fields that it keeps were each read within the
limits (`Holds`), which every step keeps (`Kept.advance`). The main statement is
`bounded_of_calls`: whatever the calls and the blocks, a parser holds no more than `Bounded` says.
-/

namespace HttpCodec

/-- Limits of which none is negative. -/
structure Limits.NonNegative (l : Limits) : Prop where
  startLine : 0 ≤ l.startLine
  headerLine : 0 ≤ l.headerLine
  headers : 0 ≤ l.headers
  chunkLine : 0 ≤ l.chunkLine

namespace Parser

variable {o : Options} {p q : Parser} {es : List Event}

/-! ## Fields -/

/-- A field list that a parser fills: its fields were read, and it takes lines as long as the
parser does. -/
structure Holds (o : Options) (fs : Fields) : Prop where
  limit : fs.limit = o.noFields.limit
  read : FieldsRead o fs.fields

theorem holds_noFields (o : Options) : Holds o o.noFields := ⟨rfl, .nil o⟩

theorem Holds.append {fs : Fields} {line : Octets} {f : Field} (h : Holds o fs)
    (hfield : fieldOf o.limits fs line = .ok f) : Holds o (fs.append f) :=
  ⟨h.limit, h.read.append rfl h.limit hfield⟩

/-- What a parser with certain options keeps: both parts hold fields that were read. -/
structure Kept (o : Options) (p : Parser) : Prop where
  options : p.options = o
  fields : ∀ part, Holds o (p.draft.fields part)

theorem kept_new (o : Options) : Kept o (new o) :=
  ⟨rfl, fun part => by cases part <;> exact holds_noFields o⟩

/-- What is kept does not depend on anything but the fields. -/
theorem Kept.same (h : Kept o p) (hoptions : q.options = p.options)
    (hfields : ∀ part, q.draft.fields part = p.draft.fields part) : Kept o q :=
  ⟨hoptions.trans h.options, fun part => hfields part ▸ h.fields part⟩

theorem Kept.next (h : Kept o p) : Kept o p.next := by
  refine ⟨h.options, fun part => ?_⟩
  have hnone : p.next.draft.fields part = o.noFields := by
    rw [← h.options]
    cases part <;> rfl
  exact hnone ▸ holds_noFields o

/-- **A step that goes on keeps the fields, puts one more to them, or drops them.** -/
theorem Kept.advance (h : Kept o p) (hadvance : Advance p es q) : Kept o q := by
  cases hadvance with
  | @field part line rest f _ _ _ hfield =>
      refine ⟨h.options, fun other => ?_⟩
      rw [h.options] at hfield
      have happended := (h.fields part).append hfield
      cases part <;> cases other
      · exact happended
      · exact h.fields .trailer
      · exact h.fields .header
      · exact happended
  | next => exact h.next
  | _ => exact h.same rfl fun part => by cases part <;> rfl

/-- **Every call keeps the fields so.** -/
theorem kept_invariant (o : Options) : Invariant (Kept o) where
  leave _ h := h.same rfl fun part => by cases part <;> rfl
  advance h hadvance := h.advance hadvance
  refusal h hrefusal := by cases hrefusal <;> exact h.same rfl fun part => by cases part <;> rfl
  rested h _ := h.same rfl fun part => by cases part <;> rfl
  fail _ h := h.same rfl fun _ => rfl

/-! ## Calls -/

/-- The states that a parser comes to by calls that return: it is fed, told that the input ends, and
reset, in any order. -/
inductive Called (o : Options) : Parser → Prop
  | new : Called o (new o)
  | feed {p : Parser} (h : Called o p) {block : Octets}
      (hreturns : (p.feed block).interruption = none) : Called o (p.feed block).parser
  | close {p : Parser} (h : Called o p) : Called o p.close.parser
  | reset {p : Parser} (h : Called o p) : Called o p.reset

theorem Called.reached (h : Called o p) : Reached o p := by
  induction h with
  | new => exact .new
  | feed _ _ ih => exact ih.feed _
  | close _ ih => exact ih.close
  | reset _ ih => exact ih.reset

theorem Called.kept (h : Called o p) : Kept o p := by
  induction h with
  | new => exact kept_new o
  | feed _ _ ih => exact (kept_invariant o).feed ih _
  | close _ ih => exact (kept_invariant o).close ih
  | @reset p _ ih =>
      exact (ih.same (q := { p with unread := [], error := none }) rfl fun _ => rfl).next

/-- A parser between two calls makes no step, and keeps nothing unread once it has failed. -/
structure Still (p : Parser) : Prop where
  waits : p.step = .wait
  drops : p.phase = .failed → p.unread = []

theorem still_fail (p : Parser) (cause : ParseError) : Still (p.fail cause) := ⟨rfl, fun _ => rfl⟩

theorem still_of_start (hphase : p.phase = .awaitStartLine) (hempty : p.unread = [])
    (h0 : 0 ≤ p.options.limits.startLine) : Still p := by
  refine ⟨?_, by simp [hphase]⟩
  simp only [step, hphase, readStartLine, withLine, hempty, Line.scan_nil h0]

/-- A run that is not interrupted goes on until the parser is still. -/
theorem still_of_run (hp : p.phase ≠ .failed) (h : (run p).interruption = none) :
    Still (run p).parser := by
  have hcomes := comes_run p
  generalize run p = whole at hcomes h
  cases hcomes with
  | waits hreads hwait => exact ⟨hwait, fun hfailed => absurd hfailed (hreads.phase_ne_failed hp)⟩
  | rejects => exact still_fail _ _
  | interrupted => cases h

theorem still_of_feed {block : Octets} (h : (p.feed block).interruption = none) :
    Still (p.feed block).parser := by
  have hp := hasFailed_of_feed h
  have hrun := feed_eq_run hp h
  rw [hrun] at h ⊢
  exact still_of_run (of_decide_eq_false hp) h

theorem still_of_conclude (hempty : p.unread = []) (es : List Event) :
    Still (p.conclude es).parser := by
  unfold conclude finish
  cases p.message with
  | error cause => exact still_fail _ _
  | ok m =>
      refine ⟨?_, nofun⟩
      rw [step_of_done rfl, if_pos hempty]

theorem Still.close (h : Still p) : Still p.close.parser := by
  -- what ends with the input has been read up to there
  have hempty : p.phase = .awaitBody → p.draft.framing = some .untilClose → p.unread = [] := by
    intro hphase hframing
    cases pause_of_step h.waits with
    | body _ _ hempty => exact hempty
    | field part hphase' => cases part <;> simp [hphase, phaseOf] at hphase'
    | chunk _ hframing' | size _ hframing' | data _ hframing' | chunkEnd _ hframing' =>
        simp [hframing] at hframing'
    | startLine hphase' | done hphase' | failed hphase' => simp [hphase] at hphase'
  unfold Parser.close
  split
  · exact h
  · exact h
  · split_ifs with hidle hrest
    · exact h
    · exact still_of_conclude (hempty hrest.1 hrest.2) _
    · exact still_of_conclude (hempty hrest.1 hrest.2) _
    · exact still_fail _ _

theorem Called.still (h : Called o p) (h0 : 0 ≤ o.limits.startLine) : Still p := by
  induction h with
  | new => exact still_of_start rfl rfl h0
  | feed _ hreturns => exact still_of_feed hreturns
  | close _ ih => exact ih.close
  | @reset p hcalled =>
      rw [← hcalled.kept.options] at h0
      exact still_of_start rfl rfl h0

/-! ## Bounds -/

/-- How much a parser holds at most. -/
structure Bounded (o : Options) (p : Parser) : Prop where
  /-- Of a start line the carriage return after it may have arrived. -/
  startLine : p.phase = .awaitStartLine → p.unread.length ≤ o.limits.startLine + 1
  fieldLine : ∀ part, p.phase = phaseOf part → p.unread.length ≤ o.limits.headerLine + 1
  resting : p.phase = .done ∨ p.phase = .failed → p.unread = []
  /-- Of a body only chunks are kept until they have arrived, unless they are reported as they
  arrive: then only size lines are. -/
  body : p.phase = .awaitBody →
    (p.draft.framing = some .lengthKnown ∨ p.draft.framing = some .untilClose) ∧ p.unread = [] ∨
    p.draft.framing = some .chunked ∧
      (p.unread.length ≤ o.limits.chunkLine + 1 ∨
        o.streaming = false ∧ ∃ n rest, 0 < n ∧
          Chunk.takeSize p.unread o.limits.chunkLine = .ok (some (n, rest)) ∧
          p.unread.length ≤ o.limits.chunkLine + 2 + n + 1)
  fields : ∀ part, (p.draft.fields part).fields.length ≤ o.limits.headers ∧
    ∀ f ∈ (p.draft.fields part).fields, f.size ≤ o.limits.headerLine + 1

/-- A parser that waits for a body waits for one of a framing. -/
theorem Placed.framing (h : Placed p) (hphase : p.phase = .awaitBody) :
    ∃ framing, p.draft.framing = some framing := by
  obtain ⟨s, hwithin⟩ := h.exists_within (by simp [hphase]) (by simp [hphase]) (by simp [hphase])
  cases hwithin with
  | counted _ _ _ _ hframing | chunked _ _ _ _ hframing | rest _ _ _ _ hframing =>
      exact ⟨_, hframing⟩
  | head hother | trailers hother => simp [hphase] at hother

/-- In a body of declared length something is missing. -/
theorem Placed.remaining_ne_zero (h : Placed p) (hphase : p.phase = .awaitBody)
    (hframing : p.draft.framing = some .lengthKnown) : p.draft.remaining ≠ 0 := by
  obtain ⟨s, hwithin⟩ := h.exists_within (by simp [hphase]) (by simp [hphase]) (by simp [hphase])
  cases hwithin with
  | counted _ _ _ _ _ _ _ hmissing => exact hmissing
  | chunked _ _ _ _ hother | rest _ _ _ _ hother => simp [hframing] at hother
  | head hother | trailers hother => simp [hphase] at hother

/-- Of a chunk no more is kept than its size line and as many octets as that says, with the carriage
return after them; of a size line no more than its limit and its carriage return. -/
theorem body_of_pause (hpause : Pause p) (hplaced : Placed p) (hphase : p.phase = .awaitBody)
    (h0 : 0 ≤ p.options.limits.chunkLine) :
    (p.draft.framing = some .lengthKnown ∨ p.draft.framing = some .untilClose) ∧ p.unread = [] ∨
    p.draft.framing = some .chunked ∧
      (p.unread.length ≤ p.options.limits.chunkLine + 1 ∨
        p.options.streaming = false ∧ ∃ n rest, 0 < n ∧
          Chunk.takeSize p.unread p.options.limits.chunkLine = .ok (some (n, rest)) ∧
          p.unread.length ≤ p.options.limits.chunkLine + 2 + n + 1) := by
  cases hpause with
  | body _ hchunked hempty =>
      obtain ⟨framing, hframing⟩ := hplaced.framing hphase
      left
      cases framing with
      | lengthKnown => exact ⟨.inl hframing, hempty⟩
      | chunked => exact absurd hframing hchunked
      | untilClose => exact ⟨.inr hframing, hempty⟩
  | chunk _ hframing hs htake =>
      exact .inr ⟨hframing, (Chunk.length_le_of_take htake).imp id fun hchunk => ⟨hs, hchunk⟩⟩
  | size _ hframing _ _ _ hsize =>
      have hlen := (Line.scan_eq_none_iff.mp (Chunk.takeSize_eq_none_iff.mp hsize)).2
      exact .inr ⟨hframing, .inl hlen⟩
  | data _ hframing _ _ hempty =>
      refine .inr ⟨hframing, .inl ?_⟩
      rw [hempty, List.length_nil]
      omega
  | chunkEnd _ hframing _ _ _ hend =>
      have hlen := Chunk.length_le_of_hasEnd hend
      exact .inr ⟨hframing, .inl (by omega)⟩
  | field part hphase' => cases part <;> simp [hphase, phaseOf] at hphase'
  | startLine hphase' | done hphase' | failed hphase' => simp [hphase] at hphase'

/-- **What a parser holds is bounded by its limits**, after any calls and whatever the blocks. -/
theorem bounded_of_calls (hlimits : o.limits.NonNegative) (h : Called o p) : Bounded o p := by
  have hstill := h.still hlimits.startLine
  have hpause := pause_of_step hstill.waits
  obtain ⟨rfl, hfields⟩ := h.kept
  refine ⟨fun hphase => ?_, fun part hphase => ?_, ?_, fun hphase => ?_, fun part => ?_⟩
  · cases hpause with
    | startLine _ hscan => exact (Line.scan_eq_none_iff.mp hscan).2
    | field part hphase' => cases part <;> simp [hphase, phaseOf] at hphase'
    | _ hphase' => simp [hphase] at hphase'
  · cases hpause with
    | field _ _ hscan => exact (Line.scan_eq_none_iff.mp hscan).2
    | _ hphase' => cases part <;> simp [hphase, phaseOf] at hphase'
  · rintro (hdone | hfailed)
    · by_contra hne
      have hwaits := hstill.waits
      rw [step_of_done hdone, if_neg hne] at hwaits
      cases hwaits
    · exact hstill.drops hfailed
  · exact body_of_pause hpause h.reached.placed hphase hlimits.chunkLine
  · obtain ⟨-, hread⟩ := hfields part
    have hcount := hread.count
    have h0 := hlimits.headers
    exact ⟨by omega, hread.sizes⟩

/-- Of a chunk of ten octets the size line and five octets are held, and with the next block the
message fails and nothing is held any more. -/
theorem bounded_of_calls_chunk :
    let p := ((new {}).feed
      (Chunk.ascii "PUT / HTTP/1.1\r\nTransfer-Encoding: chunked\r\n\r\n")).parser
    let q := (p.feed (Chunk.ascii "a\r\n01234")).parser
    let r := (q.feed (Chunk.ascii "56789+")).parser
    (q.unread.length = 8 ∧ Bounded {} q) ∧ r.unread = [] ∧ r.phase = .failed ∧ Bounded {} r := by
  intro p q r
  have hlimits : Limits.NonNegative {} := by constructor <;> decide
  have hp : Called {} p := .feed .new (by decide +kernel)
  have hq : Called {} q := .feed hp (by decide +kernel)
  have hr : Called {} r := .feed hq (by decide +kernel)
  have hfailed : r.phase = .failed := by decide +kernel
  have hbounded := bounded_of_calls hlimits hr
  exact ⟨⟨by decide +kernel, bounded_of_calls hlimits hq⟩, hbounded.resting (.inr hfailed), hfailed,
    hbounded⟩

end Parser
end HttpCodec
