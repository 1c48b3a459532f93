import HttpCodec.Proofs.Parser.Boundary
import HttpCodec.Proofs.Parser.Cursor.Calls

set_option autoImplicit false

/-! # A call makes few steps

A step that goes on moves the offset, or moves on from a complete message to the next one with data
left to read (`Progress`), and never twice in a row without moving the offset. So twice the number of
octets that are left, and one more between two messages, goes down with each step (`exists_run`). The
main statement is `terminating_of_feed`.
-/

namespace HttpCodec.Parser

variable {o : Options} {p q : Parser} {es : List Event}

/-- **A step that goes on reads something**, or moves on from a complete message. -/
theorem Advance.length_lt (hadvance : Advance p es q) (h : Placed p) :
    q.unread.length < p.unread.length ∨ p.phase = .done ∧ q = p.next := by
  have hpos : 0 < p.unread.length := List.length_pos_iff.mpr hadvance.unread_ne_nil
  have hdrop : ∀ n, 0 < n → (p.unread.drop n).length < p.unread.length := by
    intro n hn
    rw [List.length_drop]
    omega
  cases hadvance with
  | skip _ hscan | start _ hscan | field _ hscan | bodiless _ hscan | framed _ hscan
  | trailersEnd _ hscan => exact .inl (Line.length_lt_of_scan hscan)
  | counted hphase hframing | countedEnd hphase hframing =>
      exact .inl (hdrop _ (Nat.pos_of_ne_zero (h.remaining_ne_zero hphase hframing)))
  | chunk _ _ _ htake | lastChunk _ _ _ htake => exact .inl (Chunk.length_lt_of_take htake)
  | size _ _ _ _ _ hsize | lastSize _ _ _ _ _ hsize =>
      exact .inl (Chunk.length_lt_of_takeSize hsize)
  | data _ _ _ hremaining => exact .inl (hdrop _ hremaining)
  | chunkEnd => exact .inl (hdrop 2 Nat.two_pos)
  | rest => exact .inl hpos
  | next hphase => exact .inr ⟨hphase, rfl⟩

namespace Cursor

variable {c d e : Cursor}

/-! ## Steps -/

/-- What a step that goes on does to the offset. -/
inductive Progress (c d : Cursor) : Prop where
  | consumes (h : c.offset < d.offset)
  /-- The step leads from a message to the next one. -/
  | moves_on (hdone : c.phase = .done) (hstart : d.phase = .awaitStartLine)
      (hoffset : d.offset = c.offset) (hleft : c.offset < c.buffer.length)

theorem GoesOn.progress (hgoes : c.GoesOn d) (h : c.offset ≤ c.buffer.length)
    (hplaced : Placed c.parser) : Progress c d := by
  obtain ⟨es, hstep, hstays⟩ := hgoes.next h
  have hd := hstays.offset_le
  rw [hstays.buffer] at hd
  have hadvance := advance_of_step hstep
  have hleft := List.length_pos_iff.mpr hadvance.unread_ne_nil
  rw [length_unread] at hleft
  -- in the same buffer less is left exactly if the offset has moved
  rcases hadvance.length_lt hplaced with hlt | ⟨hdone, hnext⟩
  · rw [length_unread, length_unread, hstays.buffer] at hlt
    exact .consumes (by omega)
  · have hlength : d.parser.unread.length = c.parser.unread.length := by
      rw [hnext]
      rfl
    rw [length_unread, length_unread, hstays.buffer] at hlength
    exact .moves_on hdone (congrArg Parser.phase hnext) (by omega) (by omega)

/-- After a step to the next message the following one moves the offset. -/
theorem Progress.consumes_next (hprogress : Progress c d) (hnext : Progress d e) :
    c.offset < d.offset ∨ d.offset < e.offset := by
  rcases hprogress with hlt | ⟨-, hstart, -, -⟩
  · exact .inl hlt
  · rcases hnext with hlt | ⟨hdone, -, -, -⟩
    · exact .inr hlt
    · simp [hstart] at hdone

/-- Steps lead from place to place in the same buffer. -/
theorem placed_of_steps (h : c.offset ≤ c.buffer.length) (hplaced : Placed c.parser)
    (hsteps : Relation.ReflTransGen GoesOn c d) : Stays c d ∧ Placed d.parser := by
  induction hsteps with
  | refl => exact ⟨stays_self h, hplaced⟩
  | tail _ hgoes ih =>
      obtain ⟨hstays, hplaced⟩ := ih
      obtain ⟨es, hstep, hnext⟩ := hgoes.next hstays.offset_le
      exact ⟨⟨hnext.buffer.trans hstays.buffer, hnext.offset_le⟩,
        hplaced.advance (advance_of_step hstep)⟩

/-! ## Runs -/

/-- How many more steps can go on: two for each octet, since a step to the next message may come
between two that read. -/
def pace (c : Cursor) : Nat :=
  2 * (c.buffer.length - c.offset) + if c.phase = .done then 1 else 0

theorem pace_le (c : Cursor) : c.pace ≤ 2 * (c.buffer.length - c.offset) + 1 := by
  unfold pace
  split_ifs <;> omega

theorem Progress.pace_lt (hprogress : Progress c d) (hstays : Stays c d) : d.pace < c.pace := by
  have hd := hstays.offset_le
  rcases hprogress with hlt | ⟨hdone, hstart, hoffset, -⟩
  · have hbound := d.pace_le
    have hc : 2 * (c.buffer.length - c.offset) ≤ c.pace := Nat.le_add_right _ _
    rw [hstays.buffer] at hbound hd
    omega
  · simp only [pace, hstays.buffer, hoffset, hdone, hstart]
    simp

/-- **More steps than the pace allows are enough** for a run, which needs one more to end. -/
theorem exists_run {n : Nat} (h : c.offset ≤ c.buffer.length) (hplaced : Placed c.parser)
    (hn : c.pace < n) : ∃ r, c.run n = some r := by
  -- by induction on the steps that may still be made: one that goes on lowers the pace as well
  induction n generalizing c with
  | zero => exact absurd hn (Nat.not_lt_zero _)
  | succ n ih =>
      rw [run]
      cases hstep : c.step with
      | next es d =>
          have hgoes : c.GoesOn d := ⟨es, hstep⟩
          obtain ⟨hstays, hplaced'⟩ := placed_of_steps h hplaced (.single hgoes)
          have hlt := (hgoes.progress h hplaced).pace_lt hstays
          obtain ⟨r, hrun⟩ := ih hstays.offset_le hplaced' (by omega)
          exact ⟨_, Option.bind_eq_some_iff.mpr ⟨r, hrun, rfl⟩⟩
      | wait | reject | interrupt => exact ⟨_, rfl⟩

/-- A block to read leaves the cursor in place. -/
theorem placed_supply (h : c.offset ≤ c.buffer.length) (hplaced : Placed c.parser)
    (block : Octets) : Placed (c.supply block).parser := by
  rw [parser_supply h]
  exact hplaced.leave _

/-- Two steps for each octet that is left, and two more, are enough for a block. -/
theorem exists_feed (h : c.offset ≤ c.buffer.length) (hplaced : Placed c.parser) (block : Octets) :
    ∃ r, c.feed block (2 * ((c.buffer ++ block).length - c.offset) + 2) = some r := by
  unfold feed
  by_cases hphase : c.phase = .failed
  · exact ⟨_, if_pos hphase⟩
  · rw [if_neg hphase]
    obtain ⟨r, hrun⟩ := exists_run (offset_le_supply h block) (placed_supply h hplaced block)
      (Nat.lt_succ_of_le (pace_le _))
    exact ⟨_, Option.bind_eq_some_iff.mpr ⟨r, hrun, rfl⟩⟩

/-- **A call terminates.** In each state in which it makes a step the offset is within the buffer,
and a step that goes on reads something, or leads from a complete message to the next one with
something left to read. Of two such steps in a row one reads something, so that two steps for each
octet that is left, and two more, are enough for the call. It does what it does to the parser. -/
theorem terminating_of_feed (h : Reached o c) (block : Octets) :
    (∀ d, Relation.ReflTransGen GoesOn (c.supply block) d →
      d.buffer = c.buffer ++ block ∧ d.offset ≤ d.buffer.length ∧
      (∀ e, d.GoesOn e → Progress d e) ∧
      ∀ e f, d.GoesOn e → e.GoesOn f → d.offset < e.offset ∨ e.offset < f.offset) ∧
    ∃ r, r.Matches (c.parser.feed block) ∧
      ∀ n, 2 * ((c.buffer ++ block).length - c.offset) + 2 ≤ n → c.feed block n = some r := by
  have hle := h.offset_le
  have hplaced := h.parser.placed
  refine ⟨fun d hsteps => ?_, ?_⟩
  · obtain ⟨hstays, hd⟩ :=
      placed_of_steps (offset_le_supply hle block) (placed_supply hle hplaced block) hsteps
    have hprogress : ∀ e, d.GoesOn e → Progress d e := fun e he => he.progress hstays.offset_le hd
    refine ⟨hstays.buffer, hstays.offset_le, hprogress, fun e f he hf => ?_⟩
    obtain ⟨hstays', hplaced'⟩ := placed_of_steps hstays.offset_le hd (.single he)
    exact (hprogress e he).consumes_next (hf.progress hstays'.offset_le hplaced')
  · obtain ⟨r, hfeed⟩ := exists_feed hle hplaced block
    exact ⟨r, (matches_of_feed hle hfeed).1, fun n hn => feed_of_le hfeed hn⟩

/-- After a whole request, eight steps are enough for an empty line and the start of the next
request. -/
theorem terminating_of_feed_pipelined :
    ∃ c : Cursor, Reached {} c ∧ c.phase = .done ∧ c.buffer = [] ∧
      ∃ r, c.feed (Chunk.ascii "\r\nG") 8 = some r ∧ r.cursor.phase = .awaitStartLine := by
  have hnew : Reached {} (new {}) := .new
  obtain ⟨r, hfeed⟩ := exists_feed hnew.offset_le hnew.parser.placed
    (Chunk.ascii "GET / HTTP/1.1\r\n\r\n")
  obtain ⟨hmatches, hoffset⟩ := matches_of_feed hnew.offset_le hfeed
  have hparser : r.cursor.parser =
      ((Parser.new {}).feed (Chunk.ascii "GET / HTTP/1.1\r\n\r\n")).parser := hmatches.parser
  have hphase : r.cursor.phase = .done :=
    (congrArg Parser.phase hparser).trans (by decide +kernel)
  have hzero : r.cursor.offset = 0 := hoffset (hmatches.interruption.trans (by decide +kernel))
  have hbuffer : r.cursor.buffer = [] := by
    have hunread : r.cursor.buffer.drop r.cursor.offset = [] :=
      (congrArg Parser.unread hparser).trans (by decide +kernel)
    rwa [hzero, List.drop_zero] at hunread
  have hr : Reached {} r.cursor := hnew.feed hfeed
  obtain ⟨-, s, hmatches', hsteps⟩ := terminating_of_feed hr (Chunk.ascii "\r\nG")
  refine ⟨r.cursor, hr, hphase, hbuffer, s, hsteps 8 ?_, ?_⟩
  · rw [hbuffer, hzero]
    decide
  · have hstart := congrArg Parser.phase hmatches'.parser
    rw [hparser] at hstart
    exact hstart.trans (by decide +kernel)

end Cursor

end HttpCodec.Parser
