import HttpCodec.Proofs.Chunk.Failure
import HttpCodec.Proofs.Chunk.RoundTrip

set_option autoImplicit false

/-! # Decoding does not depend on how the data is cut

Blocks of any size come to the same as all of their data at once, whether the framing is right or
wrong (`feeding_of_any_split`). Where it is right, no block is refused, and the data and the state
are the same, but for what a decoder drops once it is done (`feedAll_of_run`). Where it is wrong,
one of the blocks is refused, up to which none was and the body was not complete
(`Fails.exists_refused`): a body that is complete after some blocks would be complete in all of the
data as well.
-/

namespace HttpCodec.Chunk.Decoder

variable {d e : Decoder} {data : Octets}

/-- What does not fail ends where more data is needed. -/
theorem exists_run_of_not_fails (h : ¬ d.Fails) : ∃ data e, run d = (data, e, true) := by
  rcases hrun : run d with ⟨data, e, valid⟩
  cases valid with
  | true => exact ⟨data, e, rfl⟩
  | false => exact absurd (by rw [Fails, hrun]) h

/-- Where all of the data together fails, some of it is left to read for a decoder that has read the
first block of it. -/
theorem Fails.isDone_of_run {block more : Octets} (h : (d.supply (block ++ more)).Fails)
    (hrun : run (d.supply block) = (data, e, true)) :
    e.isDone = false ∧ (e.supply more).Fails := by
  have hlater : (e.supply more).Fails := by
    rw [Fails, ← supply_supply, Decoder.run_supply, hrun] at h
    exact h
  exact ⟨hlater.isDone_eq, hlater⟩

/-- **Of data that fails as a whole, some block is refused.** None was before it, and the body was
not complete. -/
theorem Fails.exists_refused {blocks : List Octets} (hwait : d.step = .wait)
    (h : (d.supply blocks.flatten).Fails) :
    ∃ before block after, blocks = before ++ block :: after ∧ .invalid ∉ (d.feedAll before).1 ∧
      (d.feedAll before).2.isDone = false ∧ ((d.feedAll before).2.feed block).1 = .invalid := by
  induction blocks generalizing d with
  | nil =>
      -- a decoder that waits has nothing wrong in its buffer
      rw [List.flatten_nil, supply_nil, Fails, run_of_wait hwait] at h
      cases h
  | cons block blocks ih =>
      have hdone : d.isDone = false := h.isDone_eq
      by_cases hfirst : (d.supply block).Fails
      · exact ⟨[], block, blocks, rfl, List.not_mem_nil, hdone, feed_eq_invalid_iff.mpr hfirst⟩
      · obtain ⟨first, e, hrun⟩ := exists_run_of_not_fails hfirst
        have hfeed := feed_of_run hdone hrun
        obtain ⟨before, refused, after, rfl, hvalid, hnot, hrefused⟩ :=
          ih (step_of_run hrun) (h.isDone_of_run hrun).2
        refine ⟨block :: before, refused, after, rfl, ?_⟩
        simp only [feedAll, hfeed]
        refine ⟨?_, hnot, hrefused⟩
        simp [(Decoded.ofOctets_ne_invalid first).symm, hvalid]

/-- **Decoding does not depend on how the data is cut**, well framed or not. Where all of the data
at once is not refused, no block is, and the blocks give the same data and the same state, but for
what is unread of a body that is complete. Where it is refused, so is one of the blocks, with none
before it, and the body is not complete by then. -/
theorem feeding_of_any_split {limit : Int} (hlimit : 0 ≤ limit) (blocks : List Octets) :
    let d : Decoder := { limit }
    let whole := d.feed blocks.flatten
    let given := d.feedAll blocks
    (whole.1 ≠ .invalid →
      .invalid ∉ given.1 ∧ (given.1.map Decoded.octets).flatten = whole.1.octets ∧
        given.2.trailers = whole.2.trailers ∧ given.2.isLast = whole.2.isLast ∧
        given.2.isDone = whole.2.isDone ∧
        (given.2.isDone = false → given.2.buffer = whole.2.buffer)) ∧
    (whole.1 = .invalid →
      ∃ before block after, blocks = before ++ block :: after ∧ .invalid ∉ (d.feedAll before).1 ∧
        (d.feedAll before).2.isDone = false ∧
        ((d.feedAll before).2.feed block).1 = .invalid) := by
  intro d whole given
  have hwait : d.step = .wait := step_of_nothing hlimit
  constructor
  · intro hvalid
    have hnot : ¬ (d.supply blocks.flatten).Fails := fun h => hvalid (feed_eq_invalid_iff.mpr h)
    obtain ⟨data, e, hrun⟩ := exists_run_of_not_fails hnot
    obtain ⟨hgiven, hdata, dropped, hleft, hnone⟩ := feedAll_of_run rfl hwait hrun
    have hwhole : whole = (Decoded.ofOctets data, e) := feed_of_run rfl hrun
    rw [hwhole, Decoded.octets_ofOctets]
    refine ⟨hgiven, hdata, (congrArg trailers hleft).symm, (congrArg isLast hleft).symm,
      (congrArg isDone hleft).symm, fun hdone => ?_⟩
    rw [hleft, hnone hdone, supply_nil]
  · intro hinvalid
    exact (feed_eq_invalid_iff.mp hinvalid).exists_refused hwait

/-- Octet by octet: a body with a trailer and the start of a request after it, which is as it is in
one block, and a chunk that goes on beyond its size, of which one of the octets is refused. -/
theorem feeding_of_octets :
    let d : Decoder := { limit := 16 }
    let whole := ascii "2\r\nhi\r\n0\r\nA: b\r\n\r\nGET "
    let broken := ascii "2\r\nhiX\r\n"
    let given := d.feedAll (whole.map ([·]))
    (.invalid ∉ given.1 ∧ (given.1.map Decoded.octets).flatten = ascii "hi" ∧
      given.2.trailers = [ascii "A: b"] ∧ given.2.isLast = true ∧ given.2.isDone = true) ∧
    ∃ before block after, broken.map ([·]) = before ++ block :: after ∧
      .invalid ∉ (d.feedAll before).1 ∧ (d.feedAll before).2.isDone = false ∧
      ((d.feedAll before).2.feed block).1 = .invalid := by
  intro d whole broken given
  obtain ⟨hvalid, -⟩ := feeding_of_any_split (Int.zero_le_ofNat 16) (whole.map ([·]))
  obtain ⟨-, hinvalid⟩ := feeding_of_any_split (Int.zero_le_ofNat 16) (broken.map ([·]))
  obtain ⟨hnone, hdata, htrailers, hlast, hdone, -⟩ := hvalid (by decide +kernel)
  have hwhole : (d.feed (whole.map ([·])).flatten).1.octets = ascii "hi" ∧
      (d.feed (whole.map ([·])).flatten).2.trailers = [ascii "A: b"] ∧
      (d.feed (whole.map ([·])).flatten).2.isLast = true ∧
      (d.feed (whole.map ([·])).flatten).2.isDone = true := by decide +kernel
  exact ⟨⟨hnone, hdata.trans hwhole.1, htrailers.trans hwhole.2.1, hlast.trans hwhole.2.2.1,
    hdone.trans hwhole.2.2.2⟩, hinvalid (by decide +kernel)⟩

end HttpCodec.Chunk.Decoder
