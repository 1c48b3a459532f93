import HttpCodec.Chunk.Decoder
import HttpCodec.Proofs.Chunk

set_option autoImplicit false

/-! # A decoder that is given more data

A step of a decoder reads an element whose end it has seen, so it is the same step when more data
follows (`step_supply`), and a run over the whole of the data is the run over its first part,
resumed (`run_supply`). Hence a body that is decoded without an error as a whole is decoded without
an error in blocks of any size, with the same data and to the same state (`feedAll_of_run`). Only a
decoder that is done drops what follows.
-/

namespace HttpCodec.Chunk

/-- The data that a block gave. -/
def Decoded.octets : Decoded → Octets
  | .data payload => payload
  | .nothing | .invalid => []

@[simp] theorem Decoded.octets_nothing : Decoded.nothing.octets = [] := rfl

/-- What a block gives whose data is known and whose framing is right. -/
def Decoded.ofOctets : Octets → Decoded
  | [] => .nothing
  | payload => .data payload

@[simp] theorem Decoded.octets_ofOctets (payload : Octets) :
    (Decoded.ofOctets payload).octets = payload := by
  cases payload <;> rfl

theorem Decoded.ofOctets_ne_invalid (payload : Octets) : Decoded.ofOctets payload ≠ .invalid := by
  cases payload <;> simp [Decoded.ofOctets]

namespace Decoder

/-- The decoder with more data to read. -/
def supply (d : Decoder) (more : Octets) : Decoder := { d with buffer := d.buffer ++ more }

@[simp] theorem supply_nil (d : Decoder) : d.supply [] = d := by
  simp [supply]

@[simp] theorem supply_supply (d : Decoder) (a b : Octets) :
    (d.supply a).supply b = d.supply (a ++ b) := by
  simp [supply]

@[simp] theorem supply_buffer (d : Decoder) (more : Octets) :
    (d.supply more).buffer = d.buffer ++ more := rfl

@[simp] theorem supply_limit (d : Decoder) (more : Octets) : (d.supply more).limit = d.limit := rfl

@[simp] theorem supply_isDone (d : Decoder) (more : Octets) :
    (d.supply more).isDone = d.isDone := rfl

/-- The step with more data to read after it. -/
def Step.supply (more : Octets) : Step → Step
  | .wait => .wait
  | .next payload d => .next payload (d.supply more)
  | .invalid => .invalid

/-! ## Steps -/

/-- A decoder that is done waits. -/
theorem step_of_done {d : Decoder} (h : d.isDone = true) : d.step = .wait := by
  simp [step, h]

/-- Before the last chunk, a step reads a chunk. -/
theorem step_of_chunks {d : Decoder} (hdone : d.isDone = false) (hlast : d.isLast = false) :
    d.step = match take d.buffer d.limit with
      | .error _ => .invalid
      | .ok none => .wait
      | .ok (some (payload, rest)) =>
          if payload = [] then .next [] { d with buffer := rest, isLast := true }
          else .next payload { d with buffer := rest } := by
  unfold step
  simp only [hdone, hlast, Bool.false_eq_true, if_false]
  rcases take d.buffer d.limit with cause | _ | ⟨_ | ⟨c, payload⟩, rest⟩ <;> simp

/-- After the last chunk, a step reads a trailer line or the empty line. -/
theorem step_of_trailers {d : Decoder} (hdone : d.isDone = false) (hlast : d.isLast = true) :
    d.step = match Line.scan d.buffer d.limit with
      | .error _ => .invalid
      | .ok none => .wait
      | .ok (some (line, rest)) =>
          if line = [] then .next [] { d with buffer := rest, isDone := true }
          else .next [] { d with buffer := rest, trailers := d.trailers ++ [line] } := by
  unfold step
  simp only [hdone, hlast, Bool.false_eq_true, if_false, if_true]
  rcases Line.scan d.buffer d.limit with cause | _ | ⟨_ | ⟨c, line⟩, rest⟩ <;> simp

/-- A chunk with data gives its data. -/
theorem step_of_chunk {d : Decoder} {payload rest : Octets} (hdone : d.isDone = false)
    (hlast : d.isLast = false) (htake : take d.buffer d.limit = .ok (some (payload, rest)))
    (hne : payload ≠ []) : d.step = .next payload { d with buffer := rest } := by
  rw [step_of_chunks hdone hlast, htake]
  exact if_neg hne

/-- The last chunk brings a decoder to the trailers. -/
theorem step_of_lastChunk {d : Decoder} {rest : Octets} (hdone : d.isDone = false)
    (hlast : d.isLast = false) (htake : take d.buffer d.limit = .ok (some ([], rest))) :
    d.step = .next [] { d with buffer := rest, isLast := true } := by
  rw [step_of_chunks hdone hlast, htake]
  exact if_pos rfl

/-- A trailer line is kept. -/
theorem step_of_trailer {d : Decoder} {line rest : Octets} (hdone : d.isDone = false)
    (hlast : d.isLast = true) (hscan : Line.scan d.buffer d.limit = .ok (some (line, rest)))
    (hne : line ≠ []) :
    d.step = .next [] { d with buffer := rest, trailers := d.trailers ++ [line] } := by
  rw [step_of_trailers hdone hlast, hscan]
  exact if_neg hne

/-- The empty line ends the body. -/
theorem step_of_end {d : Decoder} {rest : Octets} (hdone : d.isDone = false)
    (hlast : d.isLast = true) (hscan : Line.scan d.buffer d.limit = .ok (some ([], rest))) :
    d.step = .next [] { d with buffer := rest, isDone := true } := by
  rw [step_of_trailers hdone hlast, hscan]
  exact if_pos rfl

/-- **A step that does not wait is the same when more data follows.** -/
theorem step_supply {d : Decoder} (more : Octets) (hw : d.step ≠ .wait) :
    (d.supply more).step = d.step.supply more := by
  have hdone : d.isDone = false := by
    by_contra h
    exact hw (step_of_done (by simpa using h))
  cases hlast : d.isLast with
  | false =>
      rw [step_of_chunks hdone hlast] at hw ⊢
      rw [step_of_chunks (d := d.supply more) hdone hlast]
      have htake : take d.buffer d.limit ≠ .ok none := by
        intro hnone
        exact hw (by rw [hnone])
      rw [supply_buffer, supply_limit, take_append more htake]
      rcases hfound : take d.buffer d.limit with cause | _ | ⟨payload, rest⟩
      · rfl
      · exact absurd hfound htake
      · by_cases hempty : payload = [] <;> simp [hempty, Step.supply, supply]
  | true =>
      rw [step_of_trailers hdone hlast] at hw ⊢
      rw [step_of_trailers (d := d.supply more) hdone hlast]
      have hscan : Line.scan d.buffer d.limit ≠ .ok none := by
        intro hnone
        exact hw (by rw [hnone])
      rw [supply_buffer, supply_limit, Line.scan_append more hscan]
      rcases hfound : Line.scan d.buffer d.limit with cause | _ | ⟨line, rest⟩
      · rfl
      · exact absurd hfound hscan
      · by_cases hempty : line = [] <;> simp [hempty, Step.supply, supply]

/-! ## Runs -/

/-- A run makes the first step and goes on from there. -/
theorem run_eq (d : Decoder) :
    run d = match d.step with
      | .wait => ([], d, true)
      | .invalid => ([], d, false)
      | .next payload e => (payload ++ (run e).1, (run e).2) := by
  rw [run]
  split <;> rename_i h <;> rw [h]

theorem run_of_wait {d : Decoder} (h : d.step = .wait) : run d = ([], d, true) := by
  rw [run_eq, h]

theorem run_of_next {d e : Decoder} {payload : Octets} (h : d.step = .next payload e) :
    run d = (payload ++ (run e).1, (run e).2) := by
  rw [run_eq, h]

/-- The run of the decoder after `r` when more data arrives, with the data of `r` in front. Nothing
is read after an error in the framing. -/
def resume (r : Octets × Decoder × Bool) (more : Octets) : Octets × Decoder × Bool :=
  if r.2.2 then (r.1 ++ (run (r.2.1.supply more)).1, (run (r.2.1.supply more)).2)
  else (r.1, r.2.1.supply more, false)

/-- **A run over the whole of the data is the run over its first part, resumed.** -/
theorem run_supply (d : Decoder) (more : Octets) : run (d.supply more) = resume (run d) more := by
  -- by induction on the run over the first part, each step of which is the same
  induction d using run.induct with
  | case1 d hwait =>
      rw [run_of_wait hwait]
      rfl
  | case2 d hinvalid =>
      have hsame := step_supply more (by rw [hinvalid]; simp)
      rw [run_eq d, run_eq (d.supply more), hsame, hinvalid]
      rfl
  | case3 d payload e hnext later last valid hrun ih =>
      have hsame := step_supply more (by rw [hnext]; simp)
      rw [hnext] at hsame
      rw [run_of_next hnext, run_of_next hsame, ih]
      unfold resume
      split_ifs <;> simp

/-- A run that has not met an error ends where more data is needed. -/
theorem step_of_run {d e : Decoder} {payload : Octets} (h : run d = (payload, e, true)) :
    e.step = .wait := by
  induction d using run.induct generalizing payload with
  | case1 d hwait =>
      rw [run_of_wait hwait] at h
      cases h
      exact hwait
  | case2 d hinvalid =>
      rw [run_eq, hinvalid] at h
      cases h
  | case3 d payload e hnext later last valid hrun ih =>
      rw [run_of_next hnext] at h
      cases hrest : run _ with
      | mk data last =>
          rw [hrest] at h
          cases h
          exact ih hrest

/-! ## Blocks -/

/-- A decoder that is not done reads what it holds and the block. -/
theorem feed_eq {d : Decoder} (hdone : d.isDone = false) (block : Octets) :
    d.feed block =
      if (run (d.supply block)).2.2 then
        (Decoded.ofOctets (run (d.supply block)).1, (run (d.supply block)).2.1)
      else (.invalid, { (run (d.supply block)).2.1 with buffer := d.buffer ++ block }) := by
  have hsupply : { d with buffer := d.buffer ++ block } = d.supply block := rfl
  unfold feed
  rw [if_neg (by simp [hdone])]
  dsimp only
  rw [hsupply]
  rcases run (d.supply block) with ⟨_ | ⟨c, payload⟩, e, _ | _⟩ <;> rfl

/-- Data whose framing is right is given out, and the decoder goes on from the end of the run. -/
theorem feed_of_run {d e : Decoder} {data block : Octets} (hdone : d.isDone = false)
    (h : run (d.supply block) = (data, e, true)) : d.feed block = (Decoded.ofOctets data, e) := by
  rw [feed_eq hdone, h]
  rfl

theorem feed_of_done {d : Decoder} (hdone : d.isDone = true) (block : Octets) :
    d.feed block = (.nothing, d) := by
  unfold feed
  rw [if_pos hdone]

/-- Takes blocks one after the other, whatever each of them gives. -/
def feedAll (d : Decoder) : List Octets → List Decoded × Decoder
  | [] => ([], d)
  | block :: blocks =>
      ((d.feed block).1 :: ((d.feed block).2.feedAll blocks).1,
        ((d.feed block).2.feedAll blocks).2)

/-- A decoder that is done takes nothing more. -/
theorem feedAll_of_done {d : Decoder} (hdone : d.isDone = true) (blocks : List Octets) :
    d.feedAll blocks = (blocks.map fun _ => .nothing, d) := by
  induction blocks with
  | nil => rfl
  | cons block blocks ih =>
      rw [feedAll, feed_of_done hdone, ih]
      rfl

/-- What blocks have given: the data, without an error, and the decoder that is left but for the
data that it dropped once it was done. -/
structure Gave (given : List Decoded) (data : Octets) (d e : Decoder) : Prop where
  valid : .invalid ∉ given
  data : (given.map Decoded.octets).flatten = data
  left : ∃ dropped, e = d.supply dropped ∧ (d.isDone = false → dropped = [])

/-- **Data that is decoded as a whole without an error is decoded in blocks of any size**, to the
same data and the same state. -/
theorem feedAll_of_run {d e : Decoder} {data : Octets} {blocks : List Octets}
    (hdone : d.isDone = false) (hwait : d.step = .wait)
    (h : run (d.supply blocks.flatten) = (data, e, true)) :
    Gave (d.feedAll blocks).1 data (d.feedAll blocks).2 e := by
  induction blocks generalizing d data with
  | nil =>
      rw [List.flatten_nil, supply_nil, run_of_wait hwait] at h
      cases h
      exact ⟨by simp [feedAll], rfl, [], (supply_nil _).symm, fun _ => rfl⟩
  | cons block blocks ih =>
      rw [List.flatten_cons, ← supply_supply, run_supply] at h
      rcases hfirst : run (d.supply block) with ⟨first, d₁, valid⟩
      cases valid with
      | false =>
          rw [hfirst] at h
          simp [resume] at h
      | true =>
          have hfeed := feed_of_run hdone hfirst
          simp only [hfirst, resume, if_true] at h
          rcases hlater : run (d₁.supply blocks.flatten) with ⟨later, e', valid'⟩
          rw [hlater] at h
          cases h
          cases hdone₁ : d₁.isDone with
          | true =>
              -- the rest is dropped
              have hstay : (d₁.supply blocks.flatten).step = .wait := step_of_done hdone₁
              rw [run_of_wait hstay] at hlater
              cases hlater
              simp only [feedAll, hfeed, feedAll_of_done hdone₁]
              refine ⟨?_, ?_, _, rfl, fun hnot => ?_⟩
              · simp [(Decoded.ofOctets_ne_invalid first).symm]
              · simp
              · rw [hdone₁] at hnot
                cases hnot
          | false =>
              obtain ⟨hvalid, hdata, hleft⟩ := ih hdone₁ (step_of_run hfirst) hlater
              simp only [feedAll, hfeed]
              refine ⟨?_, ?_, hleft⟩
              · simp [(Decoded.ofOctets_ne_invalid first).symm, hvalid]
              · simp [hdata]

end Decoder

end HttpCodec.Chunk
