import HttpCodec.Proofs.Parser.Close
import HttpCodec.Proofs.Parser.Split
import HttpCodec.Proofs.Parser.Twin

set_option autoImplicit false

/-! # Reporting bodies as they arrive and keeping them

A parser that reports bodies as they arrive and one that keeps them find the same messages in the
same blocks of data. Where one step is followed (`Parser.Twin`), a run is (`run_matches`), and so
are blocks fed one after the other and the end of the input.
-/

namespace HttpCodec.Parser

open Event (Agree Delivered deliveries outlines pending)

/-- Runs that say the same and end in the same place. -/
structure Run.Matches (σ β : Octets) (r r' : Run) : Prop where
  interruption : r.interruption = r'.interruption
  agree : Agree σ β r.events r'.events
  alike : r.interruption = none →
    Alike r.parser r'.parser (pending σ r.events) (pending β r'.events)
  twin : r.isOver = false → Twin r.parser r'.parser (pending σ r.events) (pending β r'.events)

/-- Two parsers that stay where they are. -/
theorem matches_of_twin {s b : Parser} {σ β : Octets} (h : Twin s b σ β) :
    Run.Matches σ β { parser := s, events := [] } { parser := b, events := [] } :=
  ⟨rfl, .nil σ β, fun _ => h.place.alike, fun _ => h⟩

/-- Two parsers that fail. -/
theorem matches_of_fail {s b : Parser} {σ β : Octets} {es fs : List Event} {cause : ParseError}
    (hagree : Agree σ β es fs) (halike : Alike s b (pending σ es) (pending β fs)) :
    Run.Matches σ β { parser := s.fail cause, events := es ++ [.error cause] }
      { parser := b.fail cause, events := fs ++ [.error cause] } := by
  refine ⟨rfl, hagree.append (.error _ _ cause), fun _ => ?_, fun hover => by cases hover⟩
  simp only [Event.pending_append]
  exact halike.fail cause

/-- Two runs that are interrupted for the same reason. -/
theorem matches_of_interruption {σ β : Octets} {r r' : Run} {cause : Interruption}
    (h : r.interruption = some cause) (h' : r'.interruption = some cause) (hes : r.events = [])
    (hfs : r'.events = []) : r.Matches σ β r' := by
  refine ⟨h.trans h'.symm, ?_, fun hnone => ?_, fun hover => ?_⟩
  · rw [hes, hfs]
    exact .nil σ β
  · rw [h] at hnone
    cases hnone
  · simp [Run.isOver, h] at hover

/-- Two runs that go on after events that say the same. -/
theorem Run.Matches.after {σ β : Octets} {r r' : Run} {es fs : List Event}
    (hagree : Agree σ β es fs) (h : r.Matches (pending σ es) (pending β fs) r') :
    (r.after es).Matches σ β (r'.after fs) := by
  refine ⟨h.interruption, hagree.append h.agree, fun hnone => ?_, fun hover => ?_⟩
  · simp only [Run.after, Event.pending_append]
    exact h.alike hnone
  · simp only [Run.after, Event.pending_append]
    exact h.twin hover

/-- A run that is not interrupted is over when its parser has failed, and the other's has then. -/
theorem Run.Matches.isOver_eq {σ β : Octets} {r r' : Run} (h : r.Matches σ β r') :
    r.isOver = r'.isOver := by
  unfold Run.isOver
  rw [← h.interruption]
  cases hnone : r.interruption with
  | none =>
      unfold hasFailed
      rw [(h.alike hnone).phase]
  | some cause => rfl

/-- **A run is followed as its steps are.** -/
theorem run_matches {s b : Parser} {σ β : Octets} (h : Twin s b σ β) :
    (run s).Matches σ β (run b) := by
  -- by induction on the run of the first parser: at each step the second makes its own, or stays
  induction s using run.induct generalizing b σ β with
  | case1 s hwait =>
      rcases follows_of_twin h with hstep | ⟨es, s', hnext, _⟩
      · rw [hwait] at hstep
        cases hb : b.step <;> rw [hb] at hstep <;> cases hstep
        rw [run_eq s, run_eq b, hwait, hb]
        exact matches_of_twin h
      · rw [hwait] at hnext
        cases hnext
  | case2 s es s' hnext ih =>
      rcases follows_of_twin h with hstep | ⟨es', s'', hnext', hagree, htwin⟩
      · rw [hnext] at hstep
        cases hb : b.step <;> rw [hb] at hstep <;> cases hstep
        next hagree htwin =>
          rw [run_eq s, run_eq b, hnext, hb]
          exact (ih htwin).after hagree
      · -- the second parser stays where it is
        rw [hnext] at hnext'
        cases hnext'
        rw [run_eq s, hnext]
        have hall := (ih htwin).after hagree
        rwa [after_nil] at hall
  | case3 s es s' cause hreject =>
      rcases follows_of_twin h with hstep | ⟨es', s'', hnext, _⟩
      · rw [hreject] at hstep
        cases hb : b.step <;> rw [hb] at hstep <;> cases hstep
        next hagree halike =>
          rw [run_eq s, run_eq b, hreject, hb]
          exact matches_of_fail hagree halike
      · rw [hreject] at hnext
        cases hnext
  | case4 s s' cause hinterrupt =>
      rcases follows_of_twin h with hstep | ⟨es', s'', hnext, _⟩
      · rw [hinterrupt] at hstep
        cases hb : b.step <;> rw [hb] at hstep <;> cases hstep
        rw [run_eq s, run_eq b, hinterrupt, hb]
        exact matches_of_interruption rfl rfl rfl rfl
      · rw [hinterrupt] at hnext
        cases hnext

/-! ## Blocks -/

/-- Two parsers in the same place are still there when the same data arrives. -/
theorem Twin.supply {s b : Parser} {σ β : Octets} (h : Twin s b σ β) (more : Octets) :
    Twin (s.supply more) (b.supply more) σ β := by
  obtain ⟨hs, hplace⟩ := h
  refine ⟨hs, ?_⟩
  have hsupply (held body : Octets) (remaining : Nat) :
      (s.buffered held body remaining).supply more =
        (s.supply more).buffered held body remaining := by
    simp [Parser.supply, buffered]
  cases hplace with
  | head hphase hin =>
      rw [hsupply]
      exact .head hphase hin
  | counted hphase hframing hallows =>
      rw [hsupply]
      exact .counted hphase hframing hallows
  | chunkStart hphase hframing hallows hremaining hin =>
      rw [hsupply]
      exact .chunkStart hphase hframing hallows hremaining hin
  | chunk hphase hframing hallows hin hfront hn hlen =>
      rw [hsupply]
      exact .chunk hphase hframing hallows hin hfront hn hlen
  | rest hphase hcounted hchunked hallows =>
      rw [hsupply]
      exact .rest hphase hcounted hchunked hallows
  | trailers hphase hallows =>
      rw [hsupply]
      exact .trailers hphase hallows
  | done hphase =>
      rw [hsupply]
      exact .done hphase

theorem Place.hasFailed_eq {s b : Parser} {σ β : Octets} (h : Place s b σ β) :
    s.hasFailed = false ∧ b.hasFailed = false := by
  cases h with
  | head hphase => rcases hphase with hphase | hphase <;> simp [hasFailed, hphase]
  | _ => simp_all [hasFailed]

theorem feed_matches {s b : Parser} {σ β : Octets} (h : Twin s b σ β) (block : Octets) :
    (s.feed block).Matches σ β (b.feed block) := by
  obtain ⟨hs, hb⟩ := h.place.hasFailed_eq
  rw [feed_eq hs, feed_eq hb]
  have hrun := run_matches (h.supply block)
  cases hnone : (run (s.supply block)).interruption with
  | none =>
      rw [settle_of_none hnone, settle_of_none (hrun.interruption ▸ hnone)]
      exact hrun
  | some cause =>
      have hsome : (run (b.supply block)).interruption = some cause := hrun.interruption ▸ hnone
      unfold Run.settle
      simp only [hnone, hsome, Option.isSome_some, if_true]
      exact matches_of_interruption rfl rfl rfl rfl

theorem feedAll_matches {s b : Parser} {σ β : Octets} (h : Twin s b σ β)
    (blocks : List Octets) : (s.feedAll blocks).Matches σ β (b.feedAll blocks) := by
  -- each block leaves the parsers in the same place, or ends both
  induction blocks generalizing s b σ β with
  | nil => exact matches_of_twin h
  | cons block blocks ih =>
      have hfeed := feed_matches h block
      simp only [feedAll, ← hfeed.isOver_eq]
      split_ifs with hover
      · exact hfeed
      · exact (ih (hfeed.twin (by simpa using hover))).after hfeed.agree

/-! ## The end of the input -/

theorem conclude_matches {s b : Parser} {σ β : Octets} {es fs : List Event}
    (h : (s.finish es).Matches σ β (b.finish fs)) :
    (s.conclude es).Matches σ β (b.conclude fs) := by
  unfold conclude
  cases hs : s.finish es with
  | wait => exact absurd hs (finish_ne_wait s es)
  | interrupt q cause => exact absurd hs (finish_ne_interrupt s es q cause)
  | next es' s' =>
      rw [hs] at h
      cases hb : b.finish fs <;> rw [hb] at h <;> cases h
      next hagree htwin =>
        exact ⟨rfl, hagree, fun _ => htwin.place.alike, fun _ => htwin⟩
  | reject es' s' cause =>
      rw [hs] at h
      cases hb : b.finish fs <;> rw [hb] at h <;> cases h
      next hagree halike => exact matches_of_fail hagree halike

/-- Both parsers fail where the input ends within a message. -/
theorem close_matches_of_within {s : Parser} {held body σ β : Octets} {remaining : Nat}
    (hreported : β <+: σ) (hdone : s.phase ≠ .done) (hfailed : s.phase ≠ .failed)
    (hstart : s.phase = .awaitStartLine → s.unread ≠ [])
    (hbody : s.phase = .awaitBody → s.draft.framing ≠ some .untilClose) :
    s.close.Matches σ β (s.buffered held body remaining).close := by
  have hunread : s.phase = .awaitStartLine → held ++ s.unread ≠ [] := fun h => by simp [hstart h]
  rw [close_of_within hdone hfailed hstart hbody,
    close_of_within (p := s.buffered held body remaining) hdone hfailed hunread hbody]
  exact matches_of_fail (.nil σ β) (alike_buffered hreported)

/-- Where a body goes on until the input ends, the second parser reports it there. -/
theorem close_matches_of_rest {s : Parser} {body : Octets} {remaining : Nat}
    (hs : s.options.streaming = true) (hphase : s.phase = .awaitBody)
    (hframing : s.draft.framing = some .untilClose) (hallows : s.AllowsBody) :
    s.close.Matches body [] (s.buffered [] body remaining).close := by
  rw [close_of_rest hphase hframing, if_pos (Or.inr hs),
    close_of_rest (p := s.buffered [] body remaining) hphase hframing]
  -- the first parser has reported the body, and the second does so now
  have hnone : (s.buffered [] body remaining).options.streaming ≠ true := by
    simp [buffered]
  have hbody : (s.buffered [] body remaining).draft.body = body := rfl
  by_cases hempty : body = []
  · rw [if_pos (Or.inl (hbody.trans hempty))]
    exact conclude_matches (finish_matches hs (Or.inr hallows) (.nil _ _) rfl hempty.symm)
  · rw [if_neg (by rw [hbody]; exact not_or.mpr ⟨hempty, hnone⟩), hbody]
    exact conclude_matches (finish_matches hs (Or.inr hallows) ⟨rfl, .nil⟩ rfl rfl)

theorem close_matches {s b : Parser} {σ β : Octets} (h : Twin s b σ β) :
    s.close.Matches σ β b.close := by
  obtain ⟨hs, hplace⟩ := h
  have htwin : Twin s b σ β := ⟨hs, hplace⟩
  have hreported := hplace.alike.reported
  cases hplace with
  | @head remaining hphase hin =>
      by_cases hempty : s.phase = .awaitStartLine ∧ s.unread = []
      · rw [close_of_start hempty.1 hempty.2,
          close_of_start (p := s.buffered [] [] remaining) hempty.1 hempty.2]
        exact matches_of_twin htwin
      · refine close_matches_of_within hreported ?_ ?_ (fun h hu => hempty ⟨h, hu⟩) ?_
        all_goals rcases hphase with hphase | hphase <;> simp [hphase]
  | counted hphase hframing =>
      exact close_matches_of_within hreported (by simp [hphase]) (by simp [hphase])
        (by simp [hphase]) (by simp [hframing])
  | chunkStart hphase hframing =>
      exact close_matches_of_within hreported (by simp [hphase]) (by simp [hphase])
        (by simp [hphase]) (by simp [hframing])
  | chunk hphase hframing =>
      exact close_matches_of_within hreported (by simp [hphase]) (by simp [hphase])
        (by simp [hphase]) (by simp [hframing])
  | rest hphase hcounted hchunked hallows =>
      by_cases hframing : s.draft.framing = some .untilClose
      · exact close_matches_of_rest hs hphase hframing hallows
      · exact close_matches_of_within hreported (by simp [hphase]) (by simp [hphase])
          (by simp [hphase]) fun _ => hframing
  | trailers hphase =>
      exact close_matches_of_within hreported (by simp [hphase]) (by simp [hphase])
        (by simp [hphase]) (by simp [hphase])
  | @done body remaining hphase =>
      rw [close_of_done hphase, close_of_done (p := s.buffered [] body remaining) hphase]
      exact matches_of_twin htwin

theorem readAll_matches {s b : Parser} {σ β : Octets} (h : Twin s b σ β)
    (blocks : List Octets) : (s.readAll blocks).Matches σ β (b.readAll blocks) := by
  have hfeed := feedAll_matches h blocks
  unfold readAll
  dsimp only
  rw [← hfeed.isOver_eq]
  by_cases hover : (s.feedAll blocks).isOver
  · simp only [hover, if_true]
    exact hfeed
  · simp only [hover]
    exact (close_matches (hfeed.twin (by simpa using hover))).after hfeed.agree

/-! ## The same messages -/

/-- Two parsers have come equally far: the first reports bodies as they arrive, and the second
keeps them. -/
structure Run.EquallyFar (r r' : Run) : Prop where
  uninterrupted : r.interruption = none
  phase : r.parser.phase = r'.parser.phase
  framing : r.parser.draft.framing = r'.parser.draft.framing
  completed : r.parser.completed = r'.parser.completed
  error : r.parser.error = r'.parser.error
  /-- The events are the same without body data. -/
  outlines : outlines r.events = outlines r'.events
  /-- Of each complete message both have reported all of the body, which only the second keeps. -/
  deliveries : List.Forall₂ Delivered (deliveries [] r.events) (deliveries [] r'.events)
  /-- Of a message that is not complete the first has reported at least what the second has. -/
  pending : pending [] r'.events <+: pending [] r.events

theorem Run.Matches.equallyFar {r r' : Run} (h : r.Matches [] [] r')
    (hnone : r'.interruption = none) : r.EquallyFar r' := by
  have hsame : r.interruption = none := h.interruption.trans hnone
  have halike := h.alike hsame
  exact {
    uninterrupted := hsame
    phase := halike.phase
    framing := halike.framing
    completed := halike.completed
    error := halike.error
    outlines := h.agree.outlines
    deliveries := h.agree.deliveries
    pending := halike.reported }

/-- Blocks that do not interrupt a parser did not do so before. -/
theorem interruption_feedAll_take {p : Parser} {blocks : List Octets}
    (h : (p.feedAll blocks).interruption = none) (n : Nat) :
    (p.feedAll (blocks.take n)).interruption = none := by
  induction blocks generalizing p n with
  | nil =>
      rw [List.take_nil]
      exact h
  | cons block blocks ih =>
      cases n with
      | zero => rfl
      | succ n =>
          rw [List.take_succ_cons]
          simp only [feedAll] at h ⊢
          split_ifs at h ⊢ with hover
          · exact h
          · exact ih h n

/-- **Reporting bodies as they arrive and keeping them agree.** Whatever blocks the two parsers are
fed, they come equally far with each of them, and so they do when they are told that the input ends
after the last. -/
theorem streaming_of_buffered (options : Options) {blocks : List Octets}
    (h : ((new { options with streaming := false }).feedAll blocks).interruption = none) :
    (∀ n, ((new { options with streaming := true }).feedAll (blocks.take n)).EquallyFar
        ((new { options with streaming := false }).feedAll (blocks.take n))) ∧
      ((new { options with streaming := true }).readAll blocks).EquallyFar
        ((new { options with streaming := false }).readAll blocks) := by
  have htwin : Twin (new { options with streaming := true })
      (new { options with streaming := false }) [] [] := by
    refine ⟨rfl, ?_⟩
    show Place _ ((new { options with streaming := true }).buffered [] [] 0) [] []
    exact .head (Or.inl rfl) rfl
  have hread : ((new { options with streaming := false }).readAll blocks).interruption = none := by
    unfold readAll
    simp only
    split_ifs
    · exact h
    · exact interruption_close _
  refine ⟨fun n => ?_, (readAll_matches htwin blocks).equallyFar hread⟩
  exact (feedAll_matches htwin (blocks.take n)).equallyFar (interruption_feedAll_take h n)

/-- A chunk that arrives in two blocks: the first parser has reported the octets that are there. -/
theorem streaming_of_buffered_chunk :
    let blocks := [Chunk.ascii "PUT /a HTTP/1.1\r\nTransfer-Encoding: chunked\r\n\r\n3\r\nab",
      Chunk.ascii "c\r\n0\r\n\r\n"]
    ((new {}).feedAll blocks).interruption = none ∧
      (∀ n, ((new { streaming := true }).feedAll (blocks.take n)).EquallyFar
        ((new {}).feedAll (blocks.take n))) ∧
      ((new { streaming := true }).readAll blocks).EquallyFar ((new {}).readAll blocks) := by
  intro blocks
  have hblocks : ((new {}).feedAll blocks).interruption = none := by decide +kernel
  exact ⟨hblocks, streaming_of_buffered {} hblocks⟩

end HttpCodec.Parser
