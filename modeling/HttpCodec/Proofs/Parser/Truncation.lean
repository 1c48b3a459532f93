import HttpCodec.Proofs.Parser.Report
import HttpCodec.Proofs.Parser.Wait

set_option autoImplicit false

/-! # A message that is cut off is not taken for a whole one

What is read of the front of some data is read in the same way when the rest is there (`Reads.cut`):
the front is read up to where the parser waits, and from there the rest leads where all of the data
does. So the parser that has read the front of one message has completed none, and is in none of the
places where the input may end (`truncation_detected`).
-/

namespace HttpCodec.Parser

variable {o : Options} {p q r z : Parser} {es fs gs : List Event} {more : Octets}

/-! ## Events that are reported in two parts -/

/-- The events `gs` are reported in two parts: one after the other or, where bodies are reported as
they arrive, with one event of body data cut in two. -/
inductive Joined (o : Options) : List Event → List Event → List Event → Prop
  | apart (es fs : List Event) : Joined o es fs (es ++ fs)
  | within (hs : o.streaming = true) (es fs : List Event) (d d' : Octets) :
      Joined o (es ++ [.body d]) (.body d' :: fs) (es ++ .body (d ++ d') :: fs)

theorem Joined.front (h : Joined o es fs gs) (before : List Event) :
    Joined o (before ++ es) fs (before ++ gs) := by
  cases h with
  | apart =>
      rw [← List.append_assoc]
      exact .apart _ _
  | within hs =>
      rw [← List.append_assoc, ← List.append_assoc]
      exact .within hs _ _ _ _

theorem Joined.behind (h : Joined o es fs gs) (after : List Event) :
    Joined o es (fs ++ after) (gs ++ after) := by
  cases h with
  | apart =>
      rw [List.append_assoc]
      exact .apart _ _
  | within hs =>
      rw [List.append_assoc]
      exact .within hs _ _ _ _

/-! ## A part of a body and the rest of it -/

/-- A parser that has read all that has arrived of a part of a body waits. -/
theorem Partly.waits (h : Partly p es q) : q.step = .wait := by
  obtain ⟨hempty, -⟩ := h.left
  cases h with
  | counted hphase hframing =>
      rw [step_of_readCounted (p := p.afterCounted) hphase hframing, readCounted_eq, if_pos hempty]
  | data hphase hframing hs _ hlen =>
      have hmissing : 0 < p.afterData.draft.remaining := by
        show 0 < p.draft.remaining - p.unread.length
        omega
      rw [step_of_readChunkPiece (p := p.afterData) hphase hframing hs, readChunkPiece,
        if_pos hmissing, hempty]
      rfl
  | rest hphase hcounted hchunked =>
      rw [step_of_readRest (p := p.afterRest) hphase hcounted hchunked, readRest_eq, if_pos hempty]

theorem countedEvents_of_streaming (hs : p.options.streaming = true) :
    p.countedEvents = [.body (p.unread.take p.draft.remaining)] := by
  rw [countedEvents, if_pos hs]

theorem restEvents_of_streaming (hs : p.options.streaming = true) :
    p.restEvents = [.body p.unread] := by
  rw [restEvents, if_pos hs]

/-- The rest of a body of declared length leads where all of it does. -/
theorem counted_cut (hphase : p.phase = .awaitBody) (hframing : p.draft.framing = some .lengthKnown)
    (hlen : p.unread.length < p.draft.remaining) (hmore : more ≠ [])
    (h : (p.supply more).step = .next gs r) :
    ∃ fs, (p.afterCounted.supply more).step = .next fs r ∧
      Joined p.options p.countedEvents fs gs := by
  rw [step_of_readCounted (p := p.supply more) hphase hframing] at h
  rw [step_of_readCounted (p := p.afterCounted.supply more) hphase hframing]
  by_cases hs : p.options.streaming
  · have hdrop : p.unread.drop p.draft.remaining = [] := List.drop_eq_nil_of_le (by omega)
    have htake : p.unread.take p.draft.remaining = p.unread := List.take_of_length_le (by omega)
    have hunread : (p.afterCounted.supply more).unread = more := by
      simp [afterCounted, hdrop]
    have hremaining : (p.afterCounted.supply more).draft.remaining =
        p.draft.remaining - p.unread.length := rfl
    -- the data that both parts report together is that of all at once
    have hjoined : ∀ after, Joined p.options p.countedEvents
        ((p.afterCounted.supply more).countedEvents ++ after)
        ((p.supply more).countedEvents ++ after) := by
      intro after
      rw [countedEvents_of_streaming hs, countedEvents_of_streaming (p := p.supply more) hs,
        countedEvents_of_streaming (p := p.afterCounted.supply more) hs, hunread, hremaining,
        unread_supply, draft_supply, List.take_append, htake]
      exact .within hs [] after _ _
    have hall : p.draft.remaining ≤ (p.unread ++ more).length ↔
        p.draft.remaining - p.unread.length ≤ more.length := by
      rw [List.length_append]
      omega
    rw [readCounted_eq, unread_supply, draft_supply, if_neg (by simp [hmore]),
      afterCounted_supply more hlen] at h
    rw [readCounted_eq, hunread, hremaining, if_neg hmore]
    simp only [hall] at h
    split_ifs at h ⊢
    · obtain ⟨m, hmessage, rfl, rfl⟩ := finish_eq_next_iff.mp h
      exact ⟨_, finish_eq_next_iff.mpr ⟨m, hmessage, rfl, rfl⟩, hjoined _⟩
    · cases h
      refine ⟨_, rfl, ?_⟩
      simpa using hjoined []
  · have hnone : p.countedEvents = [] := by
      rw [countedEvents, if_neg hs, if_neg (by omega)]
    rw [readCounted_supply_of_lt (by simpa using hs) hlen hmore] at h
    rw [hnone]
    exact ⟨gs, h, .apart [] gs⟩

/-- The rest of the data of a chunk leads where all of it does. -/
theorem data_cut (hphase : p.phase = .awaitBody) (hframing : p.draft.framing = some .chunked)
    (hs : p.options.streaming = true) (hlen : p.unread.length < p.draft.remaining)
    (hmore : more ≠ []) (h : (p.supply more).step = .next gs r) :
    ∃ fs, (p.afterData.supply more).step = .next fs r ∧
      Joined p.options [.body (p.unread.take p.draft.remaining)] fs gs := by
  have hdrop : p.unread.drop p.draft.remaining = [] := List.drop_eq_nil_of_le (by omega)
  have htake : p.unread.take p.draft.remaining = p.unread := List.take_of_length_le (by omega)
  have hunread : (p.afterData.supply more).unread = more := by
    simp [afterData, hdrop]
  have hremaining : (p.afterData.supply more).draft.remaining =
      p.draft.remaining - p.unread.length := rfl
  have hafter : (p.supply more).afterData = (p.afterData.supply more).afterData := by
    simp [afterData, supply, List.drop_append, hdrop, Nat.sub_sub]
  have hwhole : (p.supply more).step =
      .next [.body ((p.unread ++ more).take p.draft.remaining)] (p.supply more).afterData :=
    step_of_advance (.data (p := p.supply more) hphase hframing hs
      (show 0 < p.draft.remaining by omega) (by simp [hmore]))
  have hrest : (p.afterData.supply more).step =
      .next [.body ((p.afterData.supply more).unread.take
        (p.afterData.supply more).draft.remaining)] (p.afterData.supply more).afterData :=
    step_of_advance (.data (p := p.afterData.supply more) hphase hframing hs
      (by rw [hremaining]; omega) (by simp [hmore]))
  rw [hunread, hremaining] at hrest
  rw [hwhole, hafter] at h
  cases h
  refine ⟨_, hrest, ?_⟩
  rw [List.take_append, htake]
  exact .within hs [] [] _ _

/-- The rest of a body that goes on until the input ends leads where all of it does. -/
theorem rest_cut (hphase : p.phase = .awaitBody) (hcounted : p.draft.framing ≠ some .lengthKnown)
    (hchunked : p.draft.framing ≠ some .chunked) (hmore : more ≠ [])
    (h : (p.supply more).step = .next gs r) :
    ∃ fs, (p.afterRest.supply more).step = .next fs r ∧ Joined p.options p.restEvents fs gs := by
  rw [step_of_readRest (p := p.supply more) hphase hcounted hchunked] at h
  rw [step_of_readRest (p := p.afterRest.supply more) hphase hcounted hchunked]
  by_cases hs : p.options.streaming
  · have hunread : (p.afterRest.supply more).unread = more := rfl
    have hafter : (p.supply more).afterRest = (p.afterRest.supply more).afterRest := by
      simp [afterRest, supply, keptBody, hs]
    rw [readRest_eq, if_neg (by simp [hmore]), hafter] at h
    rw [readRest_eq, if_neg (by simp [hmore])]
    cases h
    refine ⟨_, rfl, ?_⟩
    rw [restEvents_of_streaming hs, restEvents_of_streaming (p := p.supply more) hs,
      restEvents_of_streaming (p := p.afterRest.supply more) hs, hunread]
    exact .within hs [] [] _ _
  · have hnone : p.restEvents = [] := by rw [restEvents, if_neg hs]
    rw [readRest_supply (by simpa using hs) hmore] at h
    rw [hnone]
    exact ⟨gs, h, .apart [] gs⟩

/-- **The rest of a part of a body leads where all of it does.** -/
theorem Partly.cut (h : Partly p es q) (hmore : more ≠ [])
    (hwhole : Advance (p.supply more) gs r) :
    ∃ fs, Advance (q.supply more) fs r ∧ Joined p.options es fs gs := by
  have hstep := step_of_advance hwhole
  have hrest : ∃ fs, (q.supply more).step = .next fs r ∧ Joined p.options es fs gs := by
    cases h with
    | counted hphase hframing _ hlen => exact counted_cut hphase hframing hlen hmore hstep
    | data hphase hframing hs _ hlen => exact data_cut hphase hframing hs hlen hmore hstep
    | rest hphase hcounted hchunked => exact rest_cut hphase hcounted hchunked hmore hstep
  obtain ⟨fs, hnext, hjoined⟩ := hrest
  exact ⟨fs, advance_of_step hnext, hjoined⟩

/-! ## The front of some data and the rest of it -/

/-- **What is read of all the data is read of its front, up to where the parser waits, and then of
the rest.** -/
theorem Reads.cut (h : Reads (p.supply more) gs z) (hmore : more ≠ []) (hz : z.unread = []) :
    ∃ es q fs, Reads p es q ∧ q.step = .wait ∧ Reads (q.supply more) fs z ∧
      Joined p.options es fs gs := by
  -- by induction on the steps over all of the data, next to those over its front
  generalize hwhole : p.supply more = whole at h
  induction h generalizing p with
  | refl z =>
      rw [← hwhole, unread_supply] at hz
      exact absurd (List.append_eq_nil_iff.mp hz).2 hmore
  | @step whole later z here beyond hadvance hreads ih =>
      subst hwhole
      have hnext := step_of_advance hadvance
      cases hstep : p.step with
      | wait => exact ⟨[], p, here ++ beyond, .refl p, hstep, .step hadvance hreads, .apart [] _⟩
      | next first q =>
          have hfront := advance_of_step hstep
          rcases hfront.supply_or_partly more with hsame | hpart
          · -- the step is the same, and the two go on side by side
            rw [step_of_advance hsame] at hnext
            cases hnext
            obtain ⟨es, r, fs, hes, hwait, hfs, hjoined⟩ := ih hz rfl
            rw [hfront.options_eq] at hjoined
            exact ⟨here ++ es, r, fs, .step hfront hes, hwait, hfs, hjoined.front here⟩
          · obtain ⟨rest, hrest, hjoined⟩ := hpart.cut hmore hadvance
            exact ⟨first, q, rest ++ beyond, hfront.reads, hpart.waits, .step hrest hreads,
              hjoined.behind beyond⟩
      | reject _ q cause =>
          rw [step_supply_of_stop (p := p) more (by simp [hstep]) (by simp [hstep]), hstep] at hnext
          cases hnext
      | interrupt q cause =>
          rw [step_supply_of_stop (p := p) more (by simp [hstep]) (by simp [hstep]), hstep] at hnext
          cases hnext

/-! ## Where a message is complete -/

/-- A message is complete where a step completes it, and nowhere else. -/
theorem Advance.completed_cases (h : Advance p es q) :
    q.completed = p.completed ∧ q.phase ≠ .done ∧ (∀ m, .complete m ∉ es) ∨
      q.completed = p.completed + 1 ∧ q.phase = .done := by
  cases h with
  | bodiless | countedEnd | trailersEnd => exact .inr ⟨rfl, rfl⟩
  | skip hphase | start hphase | next hphase => left; simp [leave, Parser.next, hphase]
  | @field part _ _ _ hphase => left; cases part <;> simp [hphase, phaseOf]
  | framed => left; simp [leave, awaitBody]
  | counted hphase _ _ hlen =>
      refine .inl ⟨rfl, by simp [afterCounted, hphase], fun m => ?_⟩
      unfold countedEvents
      split_ifs <;> simp
  | rest hphase =>
      refine .inl ⟨rfl, by simp [afterRest, hphase], fun m => ?_⟩
      unfold restEvents
      split_ifs <;> simp
  | chunk hphase | lastChunk hphase | size hphase | lastSize hphase | data hphase
  | chunkEnd hphase => left; simp [hphase]

theorem Reads.completed_le (h : Reads p es q) : p.completed ≤ q.completed := by
  induction h with
  | refl p => exact Nat.le_refl _
  | step hadvance _ ih =>
      rcases hadvance.completed_cases with ⟨hsame, -⟩ | ⟨hmore, -⟩ <;> omega

/-- Steps that report a complete message count it. -/
theorem Reads.completed_lt (h : Reads p es q) {m : Message} (hm : .complete m ∈ es) :
    p.completed < q.completed := by
  induction h with
  | refl p => cases hm
  | step hadvance hreads ih =>
      have hle := hreads.completed_le
      rcases hadvance.completed_cases with ⟨hsame, -, hnone⟩ | ⟨hmore, -⟩
      · have := ih ((List.mem_append.mp hm).resolve_left (hnone m))
        omega
      · omega

/-- Steps that lead to the end of a message complete it. -/
theorem Reads.completed_lt_of_done (h : Reads p es q) (hne : p ≠ q) (hq : q.phase = .done) :
    p.completed < q.completed := by
  induction h with
  | refl p => exact absurd rfl hne
  | @step p q r es fs hadvance hreads ih =>
      have hle := hreads.completed_le
      rcases hadvance.completed_cases with ⟨hsame, hdone, -⟩ | ⟨hmore, -⟩
      · have := ih (fun h => hdone (h ▸ hq)) hq
        omega
      · omega

/-- From within a message the next start line is reached behind its end only. -/
theorem Reads.completed_lt_of_start (h : Reads p es q)
    (hp : p.phase = .awaitHeaders ∨ p.phase = .awaitBody ∨ p.phase = .awaitTrailers)
    (hq : q.phase = .awaitStartLine) : p.completed < q.completed := by
  induction h with
  | refl p => simp [hq] at hp
  | @step p q r es fs hadvance hreads ih =>
      have hle := hreads.completed_le
      rcases hadvance.completed_cases with ⟨hsame, hdone, -⟩ | ⟨hmore, -⟩
      · have hwithin : q.phase = .awaitHeaders ∨ q.phase = .awaitBody ∨
            q.phase = .awaitTrailers := by
          cases hadvance with
          | skip hphase | start hphase | next hphase => simp [hphase] at hp
          | bodiless | countedEnd | trailersEnd => exact absurd rfl hdone
          | @field part _ _ _ hphase => cases part <;> simp [hphase, phaseOf]
          | framed | lastChunk | lastSize => simp [awaitBody]
          | counted hphase | rest hphase | chunk hphase | size hphase | data hphase
          | chunkEnd hphase => simp [afterCounted, afterRest, hphase]
        have := ih hwithin hq
        omega
      · omega

/-- Between messages only empty lines are read. -/
theorem Reads.unread_eq_of_start (h : Reads p es q) (hp : p.phase = .awaitStartLine)
    (hq : q.phase = .awaitStartLine) (hcompleted : q.completed = p.completed) :
    ∃ k, p.unread = (List.replicate k lineEnd).flatten ++ q.unread := by
  induction h with
  | refl p => exact ⟨0, rfl⟩
  | @step p q r es fs hadvance hreads ih =>
      cases hadvance with
      | skip _ hscan =>
          obtain ⟨k, hk⟩ := ih hp hq hcompleted
          refine ⟨k + 1, ?_⟩
          calc p.unread = [] ++ lineEnd ++ _ := (Line.data_eq_of_scan hscan).1
            _ = lineEnd ++ ((List.replicate k lineEnd).flatten ++ r.unread) := by
              rw [← hk]
              rfl
            _ = (List.replicate (k + 1) lineEnd).flatten ++ r.unread := by
              rw [List.replicate_succ, List.flatten_cons, List.append_assoc]
      | start =>
          have hlt := hreads.completed_lt_of_start (.inl rfl) hq
          simp only at hlt
          omega
      | @field part _ _ _ hphase => cases part <;> simp [hp, phaseOf] at hphase
      | _ hphase => simp [hp] at hphase

/-- A body that goes on until the input ends is not left before. -/
theorem Reads.phase_of_rest (h : Reads p es q) (hp : p.phase = .awaitBody)
    (hframing : p.draft.framing = some .untilClose) : q.phase = .awaitBody := by
  induction h with
  | refl p => exact hp
  | @step p q r es fs hadvance hreads ih =>
      cases hadvance with
      | rest => exact ih hp hframing
      | counted _ hother | countedEnd _ hother | chunk _ hother | lastChunk _ hother
      | size _ hother | lastSize _ hother | data _ hother | chunkEnd _ hother =>
          simp [hframing] at hother
      | @field part _ _ _ hphase => cases part <;> simp [hp, phaseOf] at hphase
      | _ hphase => simp [hp] at hphase

/-! ## Messages that are cut off -/

/-- **A message that is cut off is always noticed.** A new parser that is fed some data comes to the
end of one message. If it is fed only the front of the data, and that is more than empty lines, then
it reports what it reports of the whole data up to there, and neither a complete message nor an
error. The end of the input is then an error, the only event, and from then on nothing happens. -/
theorem truncation_detected {front : Octets} (hmore : more ≠ [])
    (hdone : ((new o).feed (front ++ more)).parser.phase = .done)
    (hone : ((new o).feed (front ++ more)).parser.completed = 1)
    (hfront : ∀ k, front ≠ (List.replicate k lineEnd).flatten) :
    let whole := (new o).feed (front ++ more)
    let part := (new o).feed front
    let closed := part.parser.close
    part.interruption = none ∧ (∀ m, .complete m ∉ part.events) ∧
      (∀ cause, .error cause ∉ part.events) ∧
      (∃ rest, Joined o part.events rest whole.events) ∧
      (∃ cause, closed.events = [.error cause] ∧ cause.type = .unexpectedEndOfStream) ∧
      closed.interruption = none ∧ closed.parser.phase = .failed ∧
      closed.parser.close = { parser := closed.parser, events := [] } := by
  intro whole part closed
  have hcompletes : Completes o (front ++ more) whole.events whole.parser := completes_of_done hdone
  obtain ⟨hreads, -, hunread⟩ := hcompletes
  rw [← supply_supply] at hreads
  obtain ⟨es, q, fs, hes, hwait, hfs, hjoined⟩ := hreads.cut hmore hunread
  have hpart : part = { parser := q, events := es } := feed_of_reads hes hwait
  -- the message is completed by the rest of the data
  have hzero : q.completed = 0 := by
    have hne : q.supply more ≠ whole.parser := by
      intro heq
      have hempty : q.unread ++ more = [] := by
        rw [← unread_supply, heq]
        exact hunread
      exact hmore (List.append_eq_nil_iff.mp hempty).2
    have hlt : q.completed < whole.parser.completed := hfs.completed_lt_of_done hne hdone
    have hcount : whole.parser.completed = 1 := hone
    omega
  have hquiet : ∀ m, .complete m ∉ es := by
    intro m hm
    have hlt := hes.completed_lt hm
    omega
  have hclose : q.close =
      { parser := q.fail (.endOfStream q.phase), events := [.error (.endOfStream q.phase)] } := by
    refine close_of_within ?_ (hes.phase_ne_failed nofun) ?_ ?_
    · intro hphase
      have hlt := hes.completed_lt_of_done (fun heq => ?_) hphase
      · omega
      · rw [← heq] at hphase
        cases hphase
    · intro hphase hempty
      obtain ⟨k, hk⟩ := hes.unread_eq_of_start rfl hphase hzero
      rw [hempty, List.append_nil] at hk
      exact hfront k hk
    · intro hphase hframing
      have := hfs.phase_of_rest hphase hframing
      rw [hdone] at this
      cases this
  have hclosed : closed =
      { parser := q.fail (.endOfStream q.phase), events := [.error (.endOfStream q.phase)] } := by
    simp only [closed, hpart, hclose]
  rw [hpart, hclosed]
  exact ⟨rfl, hquiet, hes.not_mem_error, ⟨fs, hjoined⟩, ⟨_, rfl, rfl⟩, rfl, rfl,
    close_of_failed rfl⟩

/-- A chunk that is cut off after two of its three octets, which have been reported. -/
theorem truncation_detected_chunk :
    let front := Chunk.ascii "PUT / HTTP/1.1\r\nTransfer-Encoding: chunked\r\n\r\n3\r\nab"
    let more := Chunk.ascii "c\r\n0\r\n\r\n"
    let whole := (new { streaming := true }).feed (front ++ more)
    let part := (new { streaming := true }).feed front
    (whole.parser.phase = .done ∧ whole.parser.completed = 1) ∧ part.parser.phase = .awaitBody ∧
      (∃ rest, Joined { streaming := true } part.events rest whole.events) ∧
      ∃ cause, part.parser.close.events = [.error cause] ∧ cause.type = .unexpectedEndOfStream := by
  intro front more whole part
  have hdone : whole.parser.phase = .done := by decide +kernel
  have hone : whole.parser.completed = 1 := by decide +kernel
  have hfront : ∀ k, front ≠ (List.replicate k lineEnd).flatten := by
    intro k h
    have hhead : front.head? = some 0x50 := by decide
    rw [h] at hhead
    cases k <;> cases hhead
  obtain ⟨-, -, -, hevents, herror, -⟩ :=
    truncation_detected (by decide) hdone hone hfront
  exact ⟨⟨hdone, hone⟩, by decide +kernel, hevents, herror⟩

end HttpCodec.Parser
