import HttpCodec.Proofs.Chunk.Decoder

set_option autoImplicit false

/-! # Decoders that have failed

When the framing of the data is wrong, a decoder keeps all of the data, so it reads the same data
again with the next block, but it also keeps what it has noted: that the last chunk was read, and
trailers. A failure that noted nothing is final (`Spoilt.feedAll_eq`). One that noted trailers alone
notes them again with every block, but goes on failing (`Stuck.rejects`). One that noted the last
chunk is not final: the decoder takes the chunks for trailer lines, and may find an empty line among
them. Hence a failure is final if and only if it noted nothing (`final_iff_of_invalid`).
-/

namespace HttpCodec.Chunk.Decoder

variable {d e : Decoder} {payload block : Octets}

/-! ## Steps -/

/-- What a step that goes on has read. -/
inductive Taken (d : Decoder) : Octets → Decoder → Prop where
  | chunk {payload rest : Octets} (hlast : d.isLast = false)
      (htake : take d.buffer d.limit = .ok (some (payload, rest))) :
      Taken d payload { d with buffer := rest }
  | lastChunk {rest : Octets} (hlast : d.isLast = false)
      (htake : take d.buffer d.limit = .ok (some ([], rest))) :
      Taken d [] { d with buffer := rest, isLast := true }
  | trailer {line rest : Octets} (hlast : d.isLast = true)
      (hscan : Line.scan d.buffer d.limit = .ok (some (line, rest))) (hne : line ≠ []) :
      Taken d [] { d with buffer := rest, trailers := d.trailers ++ [line] }
  | emptyLine {rest : Octets} (hlast : d.isLast = true)
      (hscan : Line.scan d.buffer d.limit = .ok (some ([], rest))) :
      Taken d [] { d with buffer := rest, isDone := true }

/-- Only a decoder that is not done makes steps. -/
theorem isDone_of_step (h : d.step ≠ .wait) : d.isDone = false := by
  by_contra hdone
  exact h (step_of_done (by simpa using hdone))

theorem taken_of_step (h : d.step = .next payload e) : Taken d payload e := by
  have hdone : d.isDone = false := isDone_of_step (by rw [h]; simp)
  cases hlast : d.isLast with
  | false =>
      rw [step_of_chunks hdone hlast] at h
      rcases htake : take d.buffer d.limit with cause | _ | ⟨data, rest⟩
      · rw [htake] at h
        cases h
      · rw [htake] at h
        cases h
      · simp only [htake] at h
        split_ifs at h with hempty
        · subst hempty
          cases h
          exact .lastChunk hlast htake
        · cases h
          exact .chunk hlast htake
  | true =>
      rw [step_of_trailers hdone hlast] at h
      rcases hscan : Line.scan d.buffer d.limit with cause | _ | ⟨line, rest⟩
      · rw [hscan] at h
        cases h
      · rw [hscan] at h
        cases h
      · simp only [hscan] at h
        split_ifs at h with hempty
        · subst hempty
          cases h
          exact .emptyLine hlast hscan
        · cases h
          exact .trailer hlast hscan hempty

/-- A chunk starts with a line that is not empty. -/
theorem exists_line_of_take {data rest : Octets} {limit : Int}
    (h : take data limit = .ok (some (payload, rest))) :
    ∃ line after, Line.scan data limit = .ok (some (line, after)) ∧ line ≠ [] := by
  rcases hsize : takeSize data limit with cause | _ | ⟨n, after⟩
  · simp [take, hsize] at h
  · simp [take, hsize] at h
  · obtain ⟨line, hscan, hn⟩ := takeSize_eq_some_iff.mp hsize
    refine ⟨line, after, hscan, ?_⟩
    rintro rfl
    cases hn

/-! ## Trailers that were noted earlier -/

/-- The decoder with trailers that it noted before its own. -/
def withEarlier (ts : List Octets) (d : Decoder) : Decoder :=
  { d with trailers := ts ++ d.trailers }

/-- The step of a decoder that noted trailers earlier. -/
def Step.withEarlier (ts : List Octets) : Step → Step
  | .wait => .wait
  | .next payload d => .next payload (d.withEarlier ts)
  | .invalid => .invalid

/-- The decoder before it noted any trailers. -/
def unnoted (d : Decoder) : Decoder := { d with trailers := [] }

theorem withEarlier_unnoted (d : Decoder) : d.unnoted.withEarlier d.trailers = d := by
  simp [withEarlier, unnoted]

@[simp] theorem buffer_withEarlier (ts : List Octets) (d : Decoder) :
    (d.withEarlier ts).buffer = d.buffer := rfl

@[simp] theorem limit_withEarlier (ts : List Octets) (d : Decoder) :
    (d.withEarlier ts).limit = d.limit := rfl

/-- No step depends on the trailers so far. -/
theorem step_withEarlier (ts : List Octets) (d : Decoder) :
    (d.withEarlier ts).step = d.step.withEarlier ts := by
  cases hdone : d.isDone with
  | true =>
      rw [step_of_done hdone, step_of_done (d := d.withEarlier ts) hdone]
      rfl
  | false =>
      cases hlast : d.isLast with
      | false =>
          rw [step_of_chunks hdone hlast, step_of_chunks (d := d.withEarlier ts) hdone hlast,
            buffer_withEarlier, limit_withEarlier]
          rcases take d.buffer d.limit with cause | _ | ⟨data, rest⟩
          · rfl
          · rfl
          · by_cases hempty : data = [] <;> simp [hempty, Step.withEarlier, withEarlier]
      | true =>
          rw [step_of_trailers hdone hlast, step_of_trailers (d := d.withEarlier ts) hdone hlast,
            buffer_withEarlier, limit_withEarlier]
          rcases Line.scan d.buffer d.limit with cause | _ | ⟨line, rest⟩
          · rfl
          · rfl
          · by_cases hempty : line = [] <;> simp [hempty, Step.withEarlier, withEarlier]

/-- **No run depends on the trailers so far.** -/
theorem run_withEarlier (ts : List Octets) (d : Decoder) :
    run (d.withEarlier ts) = ((run d).1, (run d).2.1.withEarlier ts, (run d).2.2) := by
  have hstep := step_withEarlier ts d
  induction d using run.induct with
  | case1 d hwait =>
      rw [hwait] at hstep
      rw [run_of_wait hwait, run_of_wait hstep]
  | case2 d hinvalid =>
      rw [hinvalid] at hstep
      rw [run_eq d, run_eq (d.withEarlier ts), hinvalid, hstep]
      rfl
  | case3 d payload e hnext later last valid hrun ih =>
      rw [hnext] at hstep
      rw [run_of_next hnext, run_of_next hstep, ih (step_withEarlier ts e)]

/-! ## Runs -/

/-- What a run leaves as it was, or has noted. -/
structure Keeps (d e : Decoder) : Prop where
  limit : e.limit = d.limit
  isLast : d.isLast = true → e.isLast = true
  /-- Before the last chunk no trailers are noted. -/
  trailers : e.isLast = false → e.trailers = d.trailers

theorem Taken.keeps (h : Taken d payload e) : Keeps d e := by
  cases h with
  | chunk hlast => exact ⟨rfl, id, fun _ => rfl⟩
  | lastChunk hlast => exact ⟨rfl, fun _ => rfl, fun _ => rfl⟩
  | trailer hlast =>
      refine ⟨rfl, id, fun hnot => ?_⟩
      rw [hlast] at hnot
      cases hnot
  | emptyLine hlast => exact ⟨rfl, id, fun _ => rfl⟩

theorem Keeps.trans {f : Decoder} (h : Keeps d e) (h' : Keeps e f) : Keeps d f where
  limit := h'.limit.trans h.limit
  isLast := h'.isLast ∘ h.isLast
  trailers hnot := by
    have hbefore : e.isLast = false := by
      by_contra hlast
      rw [h'.isLast (by simpa using hlast)] at hnot
      cases hnot
    exact (h'.trailers hnot).trans (h.trailers hbefore)

theorem keeps_run (d : Decoder) : Keeps d (run d).2.1 := by
  induction d using run.induct with
  | case1 d hwait =>
      rw [run_of_wait hwait]
      exact ⟨rfl, id, fun _ => rfl⟩
  | case2 d hinvalid =>
      rw [run_eq, hinvalid]
      exact ⟨rfl, id, fun _ => rfl⟩
  | case3 d payload e hnext later last valid hrun ih =>
      rw [run_of_next hnext]
      exact (taken_of_step hnext).keeps.trans ih

/-- Trailers that were noted stay noted. -/
theorem trailers_run (d : Decoder) : d.trailers <+: (run d).2.1.trailers := by
  have hrun := run_withEarlier d.trailers d.unnoted
  rw [withEarlier_unnoted] at hrun
  rw [hrun]
  exact List.prefix_append _ _

/-- The framing of the data that a decoder holds is wrong. -/
def Fails (d : Decoder) : Prop := (run d).2.2 = false

/-- A run that fails ends where no step can be made. -/
theorem Fails.step_eq (h : d.Fails) : (run d).2.1.step = .invalid := by
  unfold Fails at h
  induction d using run.induct with
  | case1 d hwait =>
      rw [run_of_wait hwait] at h
      cases h
  | case2 d hinvalid =>
      rw [run_eq, hinvalid]
      exact hinvalid
  | case3 d payload e hnext later last valid hrun ih =>
      rw [run_of_next hnext] at h ⊢
      exact ih h

/-- A decoder that is done waits, so it does not fail. -/
theorem Fails.isDone_eq (h : d.Fails) : d.isDone = false := by
  by_contra hdone
  have hwait : d.step = .wait := step_of_done (by simpa using hdone)
  rw [Fails, run_of_wait hwait] at h
  cases h

/-- **Data that is framed wrongly fails at the same place, whatever follows.** -/
theorem Fails.run_supply (h : d.Fails) (more : Octets) :
    run (d.supply more) = ((run d).1, (run d).2.1.supply more, false) := by
  rw [Decoder.run_supply, resume, if_neg (by rw [h]; simp)]

theorem Fails.supply (h : d.Fails) (more : Octets) : (d.supply more).Fails := by
  rw [Fails, h.run_supply]

/-- The trailers so far have no part in the failure. -/
theorem fails_iff_unnoted : d.Fails ↔ d.unnoted.Fails := by
  have hrun := run_withEarlier d.trailers d.unnoted
  rw [withEarlier_unnoted] at hrun
  rw [Fails, Fails, hrun]

/-- A block is refused where a run over all that is unread then meets an error. -/
theorem feed_eq_invalid_iff :
    (d.feed block).1 = .invalid ↔ (d.supply block).Fails := by
  cases hdone : d.isDone with
  | true =>
      rw [feed_of_done hdone]
      refine ⟨nofun, fun hfails => ?_⟩
      have hnot : d.isDone = false := hfails.isDone_eq
      rw [hdone] at hnot
      cases hnot
  | false =>
      rw [feed_eq hdone, Fails]
      cases hvalid : (run (d.supply block)).2.2 with
      | true => simp [Decoded.ofOctets_ne_invalid]
      | false => simp

theorem Fails.feed_eq (h : (d.supply block).Fails) :
    d.feed block =
      (.invalid, { (run (d.supply block)).2.1 with buffer := d.buffer ++ block }) := by
  have hdone : d.isDone = false := h.isDone_eq
  rw [Decoder.feed_eq hdone, if_neg (by rw [h]; simp)]

/-- What a block leaves of the trailers is what a run leaves of them. -/
theorem trailers_feed (hdone : d.isDone = false) (block : Octets) :
    (d.feed block).2.trailers = (run (d.supply block)).2.1.trailers := by
  rw [Decoder.feed_eq hdone]
  split_ifs <;> rfl

/-! ## Failing for ever -/

/-- The decoder fails without reading the last chunk. -/
structure Stuck (d : Decoder) : Prop where
  fails : d.Fails
  isLast : (run d).2.1.isLast = d.isLast

/-- From now on every block is invalid, and the body is never complete. -/
def Rejects (d : Decoder) : Prop :=
  ∀ later : List Octets, (∀ given ∈ (d.feedAll later).1, given = .invalid) ∧
    (d.feedAll later).2.isDone = false ∧ (d.feedAll later).2.flush = .invalid

theorem stuck_iff_unnoted : d.Stuck ↔ d.unnoted.Stuck := by
  have hlast : (run d).2.1.isLast = (run d.unnoted).2.1.isLast := by
    have hrun := run_withEarlier d.trailers d.unnoted
    rw [withEarlier_unnoted] at hrun
    rw [hrun]
    rfl
  constructor
  · intro h
    exact ⟨fails_iff_unnoted.mp h.fails, hlast.symm.trans h.isLast⟩
  · intro h
    exact ⟨fails_iff_unnoted.mpr h.fails, hlast.trans h.isLast⟩

theorem Stuck.supply (h : d.Stuck) (more : Octets) : (d.supply more).Stuck := by
  refine ⟨h.fails.supply more, ?_⟩
  rw [h.fails.run_supply]
  exact h.isLast

/-- A failure that does not read the last chunk leaves more data and trailers. -/
theorem Stuck.feed_eq (h : (d.supply block).Stuck) :
    d.feed block =
      (.invalid, { d.supply block with trailers := (run (d.supply block)).2.1.trailers }) := by
  have hlimit := (keeps_run (d.supply block)).limit
  have hlast := h.isLast
  have hdone : (run (d.supply block)).2.1.isDone = d.isDone := by
    have hbefore : d.isDone = false := h.fails.isDone_eq
    rw [hbefore, isDone_of_step (by rw [h.fails.step_eq]; simp)]
  rw [h.fails.feed_eq]
  generalize (run (d.supply block)).2.1 = e at *
  obtain ⟨limit, buffer, trailers, isLast, isDone⟩ := e
  simp only at hlimit hlast hdone
  subst hlimit hlast hdone
  rfl

theorem Stuck.feed (h : (d.supply block).Stuck) : (d.feed block).2.Stuck := by
  have hunnoted := stuck_iff_unnoted.mp h
  rw [h.feed_eq, stuck_iff_unnoted]
  exact hunnoted

/-- **A decoder that fails without reading the last chunk fails for ever.** -/
theorem Stuck.rejects (h : d.Stuck) : d.Rejects := by
  intro later
  induction later generalizing d with
  | nil =>
      have hdone : d.isDone = false := h.fails.isDone_eq
      refine ⟨nofun, hdone, ?_⟩
      show (if d.isDone then Decoded.nothing else .invalid) = .invalid
      rw [hdone]
      rfl
  | cons block later ih =>
      have hnext := h.supply block
      obtain ⟨hgiven, hrest⟩ := ih hnext.feed
      refine ⟨fun given hmem => ?_, hrest⟩
      rcases List.mem_cons.mp hmem with rfl | hmem
      · exact feed_eq_invalid_iff.mpr hnext.fails
      · exact hgiven given hmem

/-! ## Failures that note nothing -/

/-- The decoder fails and notes nothing. -/
structure Spoilt (d : Decoder) : Prop extends Stuck d where
  trailers : (run d).2.1.trailers = d.trailers

theorem Spoilt.supply (h : d.Spoilt) (more : Octets) : (d.supply more).Spoilt := by
  refine ⟨h.toStuck.supply more, ?_⟩
  rw [h.fails.run_supply]
  exact h.trailers

/-- A failure that notes nothing leaves more data, and nothing else. -/
theorem Spoilt.feed_eq (h : (d.supply block).Spoilt) :
    d.feed block = (.invalid, d.supply block) := by
  rw [h.toStuck.feed_eq, h.trailers]

/-- **What follows a failure that noted nothing is invalid, and is kept.** -/
theorem Spoilt.feedAll_eq (h : d.Spoilt) (later : List Octets) :
    d.feedAll later = (later.map fun _ => .invalid, d.supply later.flatten) := by
  induction later generalizing d with
  | nil => simp [feedAll]
  | cons block later ih =>
      have hnext := h.supply block
      rw [feedAll, hnext.feed_eq, ih hnext]
      simp

/-- From now on every block is invalid, and nothing more is noted. -/
def Final (d : Decoder) : Prop :=
  d.Rejects ∧ ∀ later : List Octets, (d.feedAll later).2.trailers = d.trailers

theorem Spoilt.final (h : d.Spoilt) : d.Final := by
  refine ⟨h.rejects, fun later => ?_⟩
  rw [h.feedAll_eq]
  rfl

/-! ## Failures that note something -/

/-- Data of which a failing decoder notes something starts with a line that is not empty, and the
last chunk has been read by then. -/
theorem Fails.exists_line (h : d.Fails)
    (hnoted : ¬ ((run d).2.1.isLast = d.isLast ∧ (run d).2.1.trailers = d.trailers)) :
    (run d).2.1.isLast = true ∧
      ∃ line rest, Line.scan d.buffer d.limit = .ok (some (line, rest)) ∧ line ≠ [] := by
  have hkeeps := keeps_run d
  have hlast : (run d).2.1.isLast = true := by
    by_contra hnot
    have hnot : (run d).2.1.isLast = false := by simpa using hnot
    refine hnoted ⟨?_, hkeeps.trailers hnot⟩
    cases hbefore : d.isLast with
    | false => exact hnot
    | true => rw [hkeeps.isLast hbefore] at hnot; cases hnot
  refine ⟨hlast, ?_⟩
  cases hstep : d.step with
  | wait =>
      rw [Fails, run_of_wait hstep] at h
      cases h
  | invalid =>
      rw [run_eq, hstep] at hnoted
      exact absurd ⟨rfl, rfl⟩ hnoted
  | next payload e =>
      cases taken_of_step hstep with
      | chunk _ htake | lastChunk _ htake => exact exists_line_of_take htake
      | trailer _ hscan hne => exact ⟨_, _, hscan, hne⟩
      | @emptyLine rest hlast hscan =>
          -- the body would be complete
          have hwait : ({ d with buffer := rest, isDone := true } : Decoder).step = .wait :=
            step_of_done rfl
          rw [Fails, run_of_next hstep, run_of_wait hwait] at h
          cases h

/-- **A failure that noted something is not final:** the data is read again, this time as trailers,
and its first line is noted. -/
theorem Fails.not_final (h : (d.supply block).Fails)
    (hnoted : ¬ ((run (d.supply block)).2.1.isLast = d.isLast ∧
      (run (d.supply block)).2.1.trailers = d.trailers)) : ¬ (d.feed block).2.Final := by
  intro hfinal
  obtain ⟨hlast, line, rest, hscan, hne⟩ := h.exists_line hnoted
  have hdone : (run (d.supply block)).2.1.isDone = false :=
    isDone_of_step (by rw [h.step_eq]; simp)
  have hlimit := (keeps_run (d.supply block)).limit
  have hfeed := h.feed_eq
  set e : Decoder := { (run (d.supply block)).2.1 with buffer := d.buffer ++ block } with he
  have hstep : e.step = .next [] { e with buffer := rest, trailers := e.trailers ++ [line] } := by
    refine step_of_trailer hdone hlast ?_ hne
    show Line.scan (d.buffer ++ block) (run (d.supply block)).2.1.limit = _
    rw [hlimit]
    exact hscan
  have hmore : e.trailers ++ [line] <+: (e.feed []).2.trailers := by
    rw [trailers_feed (d := e) hdone, supply_nil, run_of_next hstep]
    exact trailers_run { e with buffer := rest, trailers := e.trailers ++ [line] }
  have hsame : (e.feed []).2.trailers = e.trailers := by
    rw [hfeed] at hfinal
    exact hfinal.2 [[]]
  rw [hsame] at hmore
  have hlen := hmore.length_le
  rw [List.length_append, List.length_singleton] at hlen
  omega

/-- **When a failure is final.** After a block that makes the framing wrong, whatever came before,
every block is invalid and the body is never complete, if the block did not bring the decoder past
the last chunk. Nothing more is noted either if and only if the block brought it neither past the
last chunk nor past a trailer. -/
theorem final_iff_of_invalid (h : (d.feed block).1 = .invalid) :
    ((d.feed block).2.isLast = d.isLast → (d.feed block).2.Rejects) ∧
      ((d.feed block).2.Final ↔
        (d.feed block).2.isLast = d.isLast ∧ (d.feed block).2.trailers = d.trailers) := by
  have hfails := feed_eq_invalid_iff.mp h
  have hfeed := hfails.feed_eq
  refine ⟨fun hlast => ?_, ?_, ?_⟩
  · rw [hfeed] at hlast
    have hstuck : (d.supply block).Stuck := ⟨hfails, hlast⟩
    exact hstuck.feed.rejects
  · intro hfinal
    by_contra hnoted
    refine hfails.not_final ?_ hfinal
    rwa [hfeed] at hnoted
  · rintro ⟨hlast, htrailers⟩
    rw [hfeed] at hlast htrailers
    have hspoilt : (d.supply block).Spoilt := ⟨⟨hfails, hlast⟩, htrailers⟩
    rw [hspoilt.feed_eq]
    exact hspoilt.final

/-- A chunk that goes on beyond its size, of which a part was there already. -/
theorem final_of_overlong_chunk :
    let d : Decoder := { buffer := ascii "5\r\nhel" }
    let block := ascii "loXX"
    (d.feed block).1 = .invalid ∧ (d.feed block).2.isLast = d.isLast ∧
      (d.feed block).2.trailers = d.trailers ∧ (d.feed block).2.Final := by
  intro d block
  have hinvalid : (d.feed block).1 = .invalid := by decide +kernel
  have hlast : (d.feed block).2.isLast = d.isLast := by decide +kernel
  have htrailers : (d.feed block).2.trailers = d.trailers := by decide +kernel
  exact ⟨hinvalid, hlast, htrailers, (final_iff_of_invalid hinvalid).2.mpr ⟨hlast, htrailers⟩⟩

/-- A body whose trailer section is framed wrongly, with an empty line in the data of its chunk. The
next block, which is empty, completes it. -/
theorem complete_after_invalid :
    let d : Decoder := {}
    let block := ascii "4\r\n\r\n\r\n\r\n0\r\nbad\n"
    let e := (d.feed block).2
    (d.feed block).1 = .invalid ∧ (e.feed []).1 = .nothing ∧ (e.feed []).2.isDone = true ∧
      (e.feed []).2.flush = .nothing ∧ e.trailers = [] ∧ (e.feed []).2.trailers = [ascii "4"] ∧
      ¬ e.Rejects ∧ ¬ e.Final := by
  intro d block e
  have hgiven : (e.feed []).1 = .nothing := by decide +kernel
  have hrejects : ¬ e.Rejects := by
    intro h
    have hfirst := (h [[]]).1 _ List.mem_cons_self
    rw [hgiven] at hfirst
    cases hfirst
  exact ⟨by decide +kernel, hgiven, by decide +kernel, by decide +kernel, by decide +kernel,
    by decide +kernel, hrejects, fun h => hrejects h.1⟩

end HttpCodec.Chunk.Decoder
