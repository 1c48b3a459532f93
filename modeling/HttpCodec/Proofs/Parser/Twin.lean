import HttpCodec.Proofs.Chunk
import HttpCodec.Proofs.Event
import HttpCodec.Proofs.Framing
import HttpCodec.Proofs.Parser.Supply

set_option autoImplicit false

/-! # Two parsers side by side

A parser that reports bodies as they arrive and one that keeps them read the same input. `Twin`
tells how their states go together: they differ in the body that the second has kept and, within a
chunk, in what it has not read yet, since it takes chunks as a whole. The main statement is
`follows_of_twin`: the second parser matches every step of the first with the same step, or stays
where it is while the first takes a chunk apart.
-/

namespace HttpCodec.Parser

open Event (Agree pending)

/-- The parser that keeps bodies in the place of one that does not: `held` is what the other has
read and this one has not, `body` is what it has kept. -/
def buffered (s : Parser) (held body : Octets) (remaining : Nat) : Parser :=
  { s with
    options := { s.options with streaming := false }
    unread := held ++ s.unread
    draft := { s.draft with body, remaining, inChunk := false } }

section

variable (s : Parser) (held body : Octets) (remaining : Nat)

@[simp] theorem kind_buffered :
    (s.buffered held body remaining).options.kind = s.options.kind := rfl

@[simp] theorem limits_buffered :
    (s.buffered held body remaining).options.limits = s.options.limits := rfl

@[simp] theorem phase_buffered : (s.buffered held body remaining).phase = s.phase := rfl

@[simp] theorem line_buffered :
    (s.buffered held body remaining).draft.line = s.draft.line := rfl

@[simp] theorem headers_buffered :
    (s.buffered held body remaining).draft.headers = s.draft.headers := rfl

@[simp] theorem fields_buffered (part : Part) :
    (s.buffered held body remaining).draft.fields part = s.draft.fields part := by
  cases part <;> rfl

@[simp] theorem unread_buffered :
    (s.buffered held body remaining).unread = held ++ s.unread := rfl

/-- The second parser takes a line off what it has not read when the first does. -/
theorem leave_buffered (rest : Octets) :
    (s.buffered [] body remaining).leave rest = (s.leave rest).buffered [] body remaining := rfl

end

/-- Tells that the start line that was read allows a body. -/
def AllowsBody (s : Parser) : Prop := ∀ line, s.draft.line = some line → line.allowsBody = true

/-- Where two parsers are in a message: `σ` is what the first has reported of a body that is not
complete, and `β` what the second has. -/
inductive Place : Parser → Parser → Octets → Octets → Prop
  /-- Before a body. -/
  | head {s : Parser} {remaining : Nat}
      (hphase : s.phase = .awaitStartLine ∨ s.phase = .awaitHeaders)
      (hin : s.draft.inChunk = false) : Place s (s.buffered [] [] remaining) [] []
  /-- In a body of declared length, which the second reports at its end. -/
  | counted {s : Parser} {body : Octets} (hphase : s.phase = .awaitBody)
      (hframing : s.draft.framing = some .lengthKnown) (hallows : s.AllowsBody) :
      Place s (s.buffered [] body s.draft.remaining) body []
  /-- Between two chunks. -/
  | chunkStart {s : Parser} {body : Octets} {remaining : Nat} (hphase : s.phase = .awaitBody)
      (hframing : s.draft.framing = some .chunked) (hallows : s.AllowsBody)
      (hremaining : s.draft.remaining = 0) (hin : s.draft.inChunk = false) :
      Place s (s.buffered [] body remaining) body body
  /-- In a chunk, of which the first has read the size line and some data. -/
  | chunk {s : Parser} {front data body : Octets} {remaining n : Nat}
      (hphase : s.phase = .awaitBody) (hframing : s.draft.framing = some .chunked)
      (hallows : s.AllowsBody) (hin : s.draft.inChunk = true)
      (hfront : Chunk.IsSizeLine front s.options.limits.chunkLine n) (hn : n ≠ 0)
      (hlen : data.length + s.draft.remaining = n) :
      Place s (s.buffered (front ++ data) body remaining) (body ++ data) body
  /-- In a body that goes on until the input ends, which the second reports there. -/
  | rest {s : Parser} {body : Octets} {remaining : Nat} (hphase : s.phase = .awaitBody)
      (hcounted : s.draft.framing ≠ some .lengthKnown)
      (hchunked : s.draft.framing ≠ some .chunked) (hallows : s.AllowsBody) :
      Place s (s.buffered [] body remaining) body []
  /-- After the last chunk. -/
  | trailers {s : Parser} {body : Octets} {remaining : Nat} (hphase : s.phase = .awaitTrailers)
      (hallows : s.AllowsBody) : Place s (s.buffered [] body remaining) body body
  /-- After a message. -/
  | done {s : Parser} {body : Octets} {remaining : Nat} (hphase : s.phase = .done) :
      Place s (s.buffered [] body remaining) [] []

/-- A parser that reports bodies as they arrive, and one in the same place that keeps them. -/
structure Twin (s b : Parser) (σ β : Octets) : Prop where
  streaming : s.options.streaming = true
  place : Place s b σ β

/-- What two parsers show alike, be they at work or failed. -/
structure Alike (s b : Parser) (σ β : Octets) : Prop where
  phase : s.phase = b.phase
  framing : s.draft.framing = b.draft.framing
  completed : s.completed = b.completed
  error : s.error = b.error
  reported : β <+: σ

theorem alike_buffered {s : Parser} {held body σ β : Octets} {remaining : Nat} (h : β <+: σ) :
    Alike s (s.buffered held body remaining) σ β := ⟨rfl, rfl, rfl, rfl, h⟩

theorem Place.alike {s b : Parser} {σ β : Octets} (h : Place s b σ β) : Alike s b σ β := by
  cases h with
  | head => exact alike_buffered (List.prefix_refl [])
  | counted => exact alike_buffered List.nil_prefix
  | chunkStart => exact alike_buffered (List.prefix_refl _)
  | chunk => exact alike_buffered (List.prefix_append _ _)
  | rest => exact alike_buffered List.nil_prefix
  | trailers => exact alike_buffered (List.prefix_refl _)
  | done => exact alike_buffered (List.prefix_refl [])

theorem Alike.leave {s b : Parser} {σ β rest : Octets} (h : Alike s b σ β) :
    Alike (s.leave rest) (b.leave rest) σ β := ⟨h.phase, h.framing, h.completed, h.error, h.reported⟩

/-- Two parsers that fail at the same error stay alike. -/
theorem Alike.fail {s b : Parser} {σ β : Octets} (h : Alike s b σ β) (cause : ParseError) :
    Alike (s.fail cause) (b.fail cause) σ β := ⟨rfl, h.framing, h.completed, rfl, h.reported⟩

/-- Steps that say the same and lead to the same place. -/
inductive Step.Matches (σ β : Octets) : Step → Step → Prop
  | wait : Matches σ β .wait .wait
  | next {es fs : List Event} {s b : Parser} (hagree : Agree σ β es fs)
      (htwin : Twin s b (pending σ es) (pending β fs)) : Matches σ β (.next es s) (.next fs b)
  | reject {es fs : List Event} {s b : Parser} {cause : ParseError} (hagree : Agree σ β es fs)
      (halike : Alike s b (pending σ es) (pending β fs)) :
      Matches σ β (.reject es s cause) (.reject fs b cause)
  | interrupt {s b : Parser} {cause : Decimal.Error} :
      Matches σ β (.interrupt s cause) (.interrupt b cause)

/-- The second parser follows the first by a step, or by staying where it is. -/
def Follows (s b : Parser) (σ β : Octets) : Prop :=
  s.step.Matches σ β b.step ∨
    ∃ es s', s.step = .next es s' ∧ Agree σ β es [] ∧ Twin s' b (pending σ es) β

/-! ## Lines -/

/-- An error without events before it. -/
theorem reject_matches {s b : Parser} {σ β : Octets} (h : Alike s b σ β) (cause : ParseError) :
    (Step.reject [] s cause).Matches σ β (.reject [] b cause) :=
  .reject (.nil σ β) h

theorem withLine_matches {s b : Parser} {σ β : Octets} {limit : Int} {tooLong : Int → ParseError}
    {unended : Line.Error → ParseError} {go : Octets → Parser → Step}
    (hunread : b.unread = s.unread) (halike : Alike s b σ β)
    (hgo : ∀ line rest, (go line (s.leave rest)).Matches σ β (go line (b.leave rest))) :
    (s.withLine limit tooLong unended go).Matches σ β (b.withLine limit tooLong unended go) := by
  unfold withLine
  rw [hunread]
  rcases Line.scan s.unread limit with cause | _ | ⟨line, rest⟩
  · cases cause with
    | tooLong n => exact reject_matches halike _
    | bareLineFeed => exact reject_matches halike _
    | bareCarriageReturn => exact reject_matches halike _
  · exact .wait
  · exact hgo line rest

/-! ## The end of a message -/

/-- The message is the same without its body, if it may have one. -/
theorem message_buffered {s : Parser} {body : Octets} (held : Octets) (remaining : Nat)
    (hs : s.options.streaming = true) (hallows : body = [] ∨ s.AllowsBody) :
    s.message = (s.buffered held body remaining).message.map Message.blank := by
  unfold message buffered
  simp only [hs, if_true, Bool.false_eq_true, if_false]
  cases hline : s.draft.line with
  | none => rfl
  | some line =>
      have hbody : body = [] ∨ line.allowsBody = true := hallows.imp id fun h => h line hline
      simp only [Message.ofStartLine_blank hbody]
      cases Message.ofStartLine line s.draft.headers body s.draft.trailers <;> rfl

theorem body_of_message_buffered {s : Parser} {held body : Octets} {remaining : Nat} {m : Message}
    (h : (s.buffered held body remaining).message = .ok m) : m.body = body := by
  unfold message buffered at h
  simp only [Bool.false_eq_true, if_false] at h
  cases hline : s.draft.line with
  | none => simp [hline] at h
  | some line =>
      simp only [hline] at h
      exact Message.body_of_ofStartLine (mapError_eq_ok_iff.mp h)

/-- **Both parsers complete a message whose body has been reported.** -/
theorem finish_matches {s : Parser} {body σ β : Octets} {remaining : Nat} {es fs : List Event}
    (hs : s.options.streaming = true) (hallows : body = [] ∨ s.AllowsBody)
    (hagree : Agree σ β es fs) (hσ : pending σ es = body) (hβ : pending β fs = body) :
    (s.finish es).Matches σ β ((s.buffered [] body remaining).finish fs) := by
  unfold finish
  rw [message_buffered [] remaining hs hallows]
  cases hmessage : (s.buffered [] body remaining).message with
  | error cause =>
      refine .reject hagree ?_
      rw [hσ, hβ]
      exact alike_buffered (List.prefix_refl body)
  | ok m =>
      have hbody : m.body = body := body_of_message_buffered hmessage
      refine .next (hagree.append ?_) ⟨hs, ?_⟩
      · rw [hσ, hβ, ← hbody]
        exact .complete m
      · rw [Event.pending_append, Event.pending_append]
        show Place s.rested (s.rested.buffered [] body remaining) [] []
        exact .done rfl

/-! ## The head -/

theorem readStartLine_matches {s : Parser} {remaining : Nat} (hs : s.options.streaming = true)
    (hphase : s.phase = .awaitStartLine) (hin : s.draft.inChunk = false) :
    s.readStartLine.Matches [] [] (s.buffered [] [] remaining).readStartLine := by
  have halike : Alike s (s.buffered [] [] remaining) [] [] := alike_buffered (List.prefix_refl [])
  refine withLine_matches rfl halike fun line rest => ?_
  by_cases hempty : line.isEmpty
  · simp only [if_pos hempty]
    exact .next (.nil [] []) ⟨hs, .head (s := s.leave rest) (Or.inl hphase) hin⟩
  · simp only [if_neg hempty, leave_buffered, kind_buffered]
    cases StartLine.read (s.leave rest).options.kind (Latin.decode line) with
    | error cause => exact reject_matches halike.leave _
    | ok start =>
        refine .next ⟨rfl, .nil⟩ ⟨hs, ?_⟩
        exact .head (s := { s with
          unread := rest, phase := .awaitHeaders, draft := { s.draft with line := some start } })
          (Or.inr rfl) hin

/-- A head that announces a body leads to the beginning of that body. -/
theorem place_awaitBody {s : Parser} {framing : Framing} {n remaining : Nat}
    (hallows : s.AllowsBody) (hin : s.draft.inChunk = false)
    (hchunked : framing = .chunked → n = 0) :
    Place (s.awaitBody framing n) ((s.buffered [] [] remaining).awaitBody framing n) [] [] := by
  cases framing with
  | lengthKnown => exact .counted (s := s.awaitBody .lengthKnown n) rfl rfl hallows
  | chunked =>
      show Place _ ((s.awaitBody .chunked n).buffered [] [] n) [] []
      exact .chunkStart rfl rfl hallows (hchunked rfl) hin
  | untilClose =>
      show Place _ ((s.awaitBody .untilClose n).buffered [] [] n) [] []
      exact .rest rfl (by simp [awaitBody]) (by simp [awaitBody]) hallows

theorem endHeaders_matches {s : Parser} {remaining : Nat} (hs : s.options.streaming = true)
    (hin : s.draft.inChunk = false) :
    s.endHeaders.Matches [] [] (s.buffered [] [] remaining).endHeaders := by
  have halike : Alike s (s.buffered [] [] remaining) [] [] := alike_buffered (List.prefix_refl [])
  unfold endHeaders
  rw [line_buffered, headers_buffered]
  cases hline : s.draft.line with
  | none => exact reject_matches halike _
  | some line =>
      -- a body is announced only where the start line allows one
      have hallows (hempty : Framing.decide line s.draft.headers ≠ .empty)
          (hrefused : ∀ cause, Framing.decide line s.draft.headers ≠ .refused cause) :
          s.AllowsBody := by
        intro line' hline'
        obtain rfl : line = line' := Option.some.inj (hline.symm.trans hline')
        exact Framing.allowsBody_of_decide hempty hrefused
      have hnext {framing : Framing} {n : Nat} (h : s.AllowsBody)
          (hchunked : framing = .chunked → n = 0) :
          (Step.next [] (s.awaitBody framing n)).Matches [] []
            (.next [] ((s.buffered [] [] remaining).awaitBody framing n)) :=
        .next (.nil [] []) ⟨hs, place_awaitBody h hin hchunked⟩
      cases hdecide : Framing.decide line s.draft.headers with
      | empty =>
          simp only [hdecide]
          exact finish_matches hs (Or.inl rfl) (.nil [] []) rfl rfl
      | length n =>
          simp only [hdecide]
          exact hnext (hallows (by simp [hdecide]) (by simp [hdecide])) (by simp)
      | chunked =>
          simp only [hdecide]
          exact hnext (hallows (by simp [hdecide]) (by simp [hdecide])) (by simp)
      | untilClose =>
          simp only [hdecide]
          exact hnext (hallows (by simp [hdecide]) (by simp [hdecide])) (by simp)
      | refused cause =>
          simp only [hdecide]
          exact reject_matches halike _
      | unreadable cause =>
          simp only [hdecide]
          exact .interrupt

/-- Field lines are read alike where the end of the part is. -/
theorem readField_matches {s : Parser} {body σ β : Octets} {remaining : Nat} {part : Part}
    (hs : s.options.streaming = true) (halike : Alike s (s.buffered [] body remaining) σ β)
    (hend : ∀ rest, ((s.leave rest).endPart part).Matches σ β
      (((s.leave rest).buffered [] body remaining).endPart part))
    (hfield : ∀ rest fields,
      let q : Parser := { s with unread := rest, draft := s.draft.setFields fields part }
      Place q (q.buffered [] body remaining) σ β) :
    (s.readField part).Matches σ β ((s.buffered [] body remaining).readField part) := by
  refine withLine_matches rfl halike fun line rest => ?_
  by_cases hempty : line.isEmpty
  · simp only [if_pos hempty, leave_buffered]
    cases part <;> exact hend rest
  · simp only [if_neg hempty, leave_buffered, limits_buffered, fields_buffered]
    cases fieldOf (s.leave rest).options.limits ((s.leave rest).draft.fields part) line with
    | error cause => exact reject_matches halike.leave _
    | ok f =>
        refine .next ⟨rfl, .nil⟩ ⟨hs, ?_⟩
        cases part <;> exact hfield rest _

/-! ## The body -/

theorem readCounted_matches {s : Parser} {body : Octets} (hs : s.options.streaming = true)
    (hphase : s.phase = .awaitBody) (hframing : s.draft.framing = some .lengthKnown)
    (hallows : s.AllowsBody) :
    s.readCounted.Matches body [] (s.buffered [] body s.draft.remaining).readCounted := by
  have hafter : (s.buffered [] body s.draft.remaining).afterCounted =
      s.afterCounted.buffered [] (body ++ s.unread.take s.draft.remaining)
        s.afterCounted.draft.remaining := rfl
  have hevents : s.countedEvents = [.body (s.unread.take s.draft.remaining)] := if_pos hs
  have hlen : (s.buffered [] body s.draft.remaining).draft.remaining = s.draft.remaining := rfl
  rw [readCounted_eq, readCounted_eq, hafter, hevents, unread_buffered, List.nil_append, hlen]
  by_cases hempty : s.unread = []
  · rw [if_pos hempty, if_pos hempty]
    exact .wait
  · rw [if_neg hempty, if_neg hempty]
    by_cases hall : s.draft.remaining ≤ s.unread.length
    · rw [if_pos hall, if_pos hall]
      have hlast : (s.buffered [] body s.draft.remaining).countedEvents =
          [.body (body ++ s.unread.take s.draft.remaining)] := if_pos hall
      rw [hlast]
      exact finish_matches hs (Or.inr hallows) ⟨rfl, .nil⟩ rfl rfl
    · rw [if_neg hall, if_neg hall]
      have hnone : (s.buffered [] body s.draft.remaining).countedEvents = [] := if_neg hall
      rw [hnone]
      exact .next (.body_left _ _ _) ⟨hs, .counted hphase hframing hallows⟩

theorem readRest_matches {s : Parser} {body : Octets} {remaining : Nat}
    (hs : s.options.streaming = true) (hphase : s.phase = .awaitBody)
    (hcounted : s.draft.framing ≠ some .lengthKnown) (hchunked : s.draft.framing ≠ some .chunked)
    (hallows : s.AllowsBody) :
    s.readRest.Matches body [] (s.buffered [] body remaining).readRest := by
  have hafter : (s.buffered [] body remaining).afterRest =
      s.afterRest.buffered [] (body ++ s.unread) remaining := rfl
  have hevents : s.restEvents = [.body s.unread] := if_pos hs
  have hnone : (s.buffered [] body remaining).restEvents = [] := rfl
  rw [readRest_eq, readRest_eq, hafter, hevents, hnone, unread_buffered, List.nil_append]
  by_cases hempty : s.unread = []
  · rw [if_pos hempty, if_pos hempty]
    exact .wait
  · rw [if_neg hempty, if_neg hempty]
    exact .next (.body_left _ _ _) ⟨hs, .rest hphase hcounted hchunked hallows⟩

/-! ## Chunks -/

/-- Between two chunks the first parser reads the size line of the next one. The second stays
there, unless the chunk is the last. -/
theorem follows_of_chunkStart {s : Parser} {body : Octets} {remaining : Nat}
    (hs : s.options.streaming = true) (hphase : s.phase = .awaitBody)
    (hframing : s.draft.framing = some .chunked) (hallows : s.AllowsBody)
    (hremaining : s.draft.remaining = 0) (hin : s.draft.inChunk = false) :
    Follows s (s.buffered [] body remaining) body body := by
  have halike : Alike s (s.buffered [] body remaining) body body :=
    alike_buffered (List.prefix_refl body)
  unfold Follows
  rw [step_of_readChunkPiece hphase hframing hs,
    step_of_readChunk (p := s.buffered [] body remaining) hphase hframing rfl]
  unfold readChunkPiece readChunk
  simp only [hremaining, lt_irrefl, if_false, hin, Bool.false_eq_true, limits_buffered,
    unread_buffered, List.nil_append]
  rcases hsize : Chunk.takeSize s.unread s.options.limits.chunkLine with cause | _ | ⟨n, rest⟩
  · left
    simp only [Chunk.take, hsize]
    exact reject_matches halike _
  · left
    simp only [Chunk.take, hsize]
    exact .wait
  · obtain ⟨front, hdata, hfront⟩ := Chunk.isSizeLine_of_takeSize hsize
    by_cases hn : n = 0
    · left
      subst hn
      simp only [hdata, Chunk.take_of_isSizeLine_zero hfront, if_true, List.isEmpty_nil]
      refine .next (.nil _ _) ⟨hs, ?_⟩
      exact .trailers (s := { s with unread := rest, phase := .awaitTrailers }) rfl hallows
    · right
      simp only [if_neg hn]
      refine ⟨[], _, rfl, .nil _ _, hs, ?_⟩
      -- the size line stays in what the second parser has not read
      set s' : Parser :=
        { s with unread := rest, draft := { s.draft with remaining := n, inChunk := true } }
      have hbuffered : s.buffered [] body remaining = s'.buffered (front ++ []) body remaining := by
        simp [buffered, hdata, s']
      rw [hbuffered]
      have hplace : Place s' (s'.buffered (front ++ []) body remaining) (body ++ []) body :=
        .chunk hphase hframing hallows rfl hfront hn (Nat.zero_add n)
      simpa [pending] using hplace

section

variable {s : Parser} {front data body : Octets} {remaining n : Nat}
  (hs : s.options.streaming = true) (hphase : s.phase = .awaitBody)
  (hframing : s.draft.framing = some .chunked) (hallows : s.AllowsBody)
  (hin : s.draft.inChunk = true)
  (hfront : Chunk.IsSizeLine front s.options.limits.chunkLine n) (hn : n ≠ 0)
  (hlen : data.length + s.draft.remaining = n)

include hs hphase hframing hallows hin hfront hn hlen

/-- In a chunk the first parser reads what has arrived of its data, and the second stays where it
is. -/
theorem follows_of_chunkData (hremaining : 0 < s.draft.remaining) :
    Follows s (s.buffered (front ++ data) body remaining) (body ++ data) body := by
  have htake := Chunk.take_of_isSizeLine hfront hn (data ++ s.unread)
  unfold Follows
  rw [step_of_readChunkPiece hphase hframing hs,
    step_of_readChunk (p := s.buffered (front ++ data) body remaining) hphase hframing rfl]
  unfold readChunkPiece readChunk
  rw [limits_buffered, unread_buffered, List.append_assoc, htake]
  simp only [if_pos hremaining, List.isEmpty_iff]
  by_cases hempty : s.unread = []
  · -- the data of the chunk has not arrived as a whole
    left
    have hnone : (data ++ s.unread).drop n = [] := List.drop_eq_nil_of_le (by simp [hempty]; omega)
    simp only [if_pos hempty, hnone]
    exact .wait
  · right
    simp only [if_neg hempty]
    refine ⟨_, _, rfl, .body_left _ _ _, hs, ?_⟩
    -- what the first parser takes joins the data that the second holds back
    set taken := s.unread.take s.draft.remaining with htaken
    set s' : Parser :=
      { s with
        unread := s.unread.drop s.draft.remaining
        draft := { s.draft with remaining := s.draft.remaining - taken.length } }
    have hbuffered : s.buffered (front ++ data) body remaining =
        s'.buffered (front ++ (data ++ taken)) body remaining := by
      simp [buffered, htaken, s']
    rw [hbuffered]
    have hlenTaken : taken.length ≤ s.draft.remaining := by
      rw [htaken, List.length_take]
      omega
    have hlenMore : (data ++ taken).length + s'.draft.remaining = n := by
      rw [List.length_append]
      show data.length + taken.length + (s.draft.remaining - taken.length) = n
      omega
    have hplace : Place s' (s'.buffered (front ++ (data ++ taken)) body remaining)
        (body ++ (data ++ taken)) body :=
      .chunk hphase hframing hallows hin hfront hn hlenMore
    simpa [pending] using hplace

/-- At the end of the chunk the second reads all of it. -/
theorem follows_of_chunkEnd (hremaining : ¬0 < s.draft.remaining) :
    Follows s (s.buffered (front ++ data) body remaining) (body ++ data) body := by
  have halike : Alike s (s.buffered (front ++ data) body remaining) (body ++ data) body :=
    alike_buffered (List.prefix_append _ _)
  have htake := Chunk.take_of_isSizeLine hfront hn (data ++ s.unread)
  -- all of the data is held back, so the second parser only waits for its end
  have hdata : data.length = n := by omega
  have hdrop : (data ++ s.unread).drop n = s.unread := by
    rw [← hdata, List.drop_left]
  have htakeData : (data ++ s.unread).take n = data := by
    rw [← hdata, List.take_left]
  have hdropMore : (data ++ s.unread).drop (n + 2) = s.unread.drop 2 := by
    rw [← List.drop_drop, hdrop]
  left
  rw [step_of_readChunkPiece hphase hframing hs,
    step_of_readChunk (p := s.buffered (front ++ data) body remaining) hphase hframing rfl]
  unfold readChunkPiece readChunk
  rw [limits_buffered, unread_buffered, List.append_assoc, htake]
  simp only [if_neg hremaining, hin, if_true, hdrop, htakeData, hdropMore]
  rcases hend : Chunk.hasEnd s.unread with cause | _ | _
  · exact reject_matches halike _
  · exact .wait
  · have hne : data ≠ [] := by
      intro hnil
      rw [hnil] at hdata
      exact hn hdata.symm
    simp only [Except.map, if_true, List.isEmpty_iff, if_neg hne]
    refine .next ⟨rfl, .nil⟩ ⟨hs, ?_⟩
    exact .chunkStart
      (s := { s with unread := s.unread.drop 2, draft := { s.draft with inChunk := false } })
      hphase hframing hallows (Nat.eq_zero_of_not_pos hremaining) rfl

end

/-! ## Any step -/

/-- **The second parser follows every step of the first.** -/
theorem follows_of_twin {s b : Parser} {σ β : Octets} (h : Twin s b σ β) : Follows s b σ β := by
  obtain ⟨hs, hplace⟩ := h
  have halike := hplace.alike
  cases hplace with
  | @head remaining hphase hin =>
      left
      rcases hphase with hphase | hphase
      · simp only [step, phase_buffered, hphase]
        exact readStartLine_matches hs hphase hin
      · rw [step_of_readField .header hphase,
          step_of_readField .header (p := s.buffered [] [] remaining) hphase]
        refine readField_matches hs halike (fun rest => endHeaders_matches hs hin)
          fun rest fields => .head (Or.inr hphase) hin
  | counted hphase hframing hallows =>
      left
      rw [step_of_readCounted hphase hframing,
        step_of_readCounted (p := s.buffered [] σ s.draft.remaining) hphase hframing]
      exact readCounted_matches hs hphase hframing hallows
  | chunkStart hphase hframing hallows hremaining hin =>
      exact follows_of_chunkStart hs hphase hframing hallows hremaining hin
  | chunk hphase hframing hallows hin hfront hn hlen =>
      by_cases hremaining : 0 < s.draft.remaining
      · exact follows_of_chunkData hs hphase hframing hallows hin hfront hn hlen hremaining
      · exact follows_of_chunkEnd hs hphase hframing hallows hin hfront hn hlen hremaining
  | @rest _ remaining hphase hcounted hchunked hallows =>
      left
      rw [step_of_readRest hphase hcounted hchunked,
        step_of_readRest (p := s.buffered [] σ remaining) hphase hcounted hchunked]
      exact readRest_matches hs hphase hcounted hchunked hallows
  | @trailers _ remaining hphase hallows =>
      left
      rw [step_of_readField .trailer hphase,
        step_of_readField .trailer (p := s.buffered [] σ remaining) hphase]
      refine readField_matches hs halike (fun rest => ?_)
        fun rest fields => .trailers hphase hallows
      exact finish_matches (s := s.leave rest) hs (Or.inr hallows) (.nil _ _) rfl rfl
  | @done body remaining hphase =>
      left
      rw [step_of_done hphase, step_of_done (p := s.buffered [] body remaining) hphase,
        unread_buffered, List.nil_append]
      by_cases hempty : s.unread = []
      · rw [if_pos hempty, if_pos hempty]
        exact .wait
      · rw [if_neg hempty, if_neg hempty]
        refine .next (.nil _ _) ⟨hs, ?_⟩
        show Place s.next (s.next.buffered [] [] 0) [] []
        exact .head (Or.inl rfl) rfl

end HttpCodec.Parser
