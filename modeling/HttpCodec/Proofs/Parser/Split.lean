import HttpCodec.Proofs.Parser.Supply
import HttpCodec.Proofs.Source

set_option autoImplicit false

/-! # Parsing does not depend on how the input is cut

Feeding blocks one after the other is feeding all of their data at once (`feedAll_eq_feed`), for
parsers that keep bodies: the same events, the same error, and the same state to the last field.
So a source may hand out its data in blocks of any size.
-/

namespace HttpCodec.Parser

theorem feed_eq {p : Parser} (hp : p.hasFailed = false) (block : Octets) :
    p.feed block = (run (p.supply block)).settle := by
  unfold feed
  rw [hp]
  rfl

theorem settle_of_none {r : Run} (h : r.interruption = none) : r.settle = r := by
  simp [Run.settle, h]

theorem interruption_settle (r : Run) : r.settle.interruption = r.interruption := by
  unfold Run.settle
  split_ifs <;> rfl

/-- Feeding a parser that is not interrupted is a run. -/
theorem feed_eq_run {p : Parser} (hp : p.hasFailed = false) {block : Octets}
    (h : (p.feed block).interruption = none) : p.feed block = run (p.supply block) := by
  rw [feed_eq hp] at h ⊢
  exact settle_of_none (by rwa [interruption_settle] at h)

/-- Only a parser that has not failed takes data. -/
theorem hasFailed_of_feed {p : Parser} {block : Octets} (h : (p.feed block).interruption = none) :
    p.hasFailed = false := by
  by_contra hfailed
  unfold Parser.feed at h
  rw [if_pos (by simpa using hfailed)] at h
  cases h

/-- A run that was not interrupted and lost nothing is its parser with its events. -/
theorem after_stay {r : Run} (h : r.interruption = none) (hlost : r.lost = []) :
    ({ parser := r.parser, events := [] } : Run).after r.events = r := by
  cases r
  simp_all [Run.after]

theorem feedAll_singleton {p : Parser} (hp : p.hasFailed = false) {block : Octets}
    (h : (p.feed block).interruption = none) : p.feedAll [block] = p.feed block := by
  simp only [feedAll]
  split_ifs
  · rfl
  · refine after_stay h ?_
    rw [feed_eq_run hp h]
    exact lost_run (p.supply block)

/-- Feeding the data in two parts is feeding it at once, unless the first part ends it. -/
theorem feed_append {p : Parser} (hs : p.options.streaming = false) (hp : p.hasFailed = false)
    {a b : Octets} (h : (p.feed (a ++ b)).interruption = none) :
    (p.feed a).interruption = none ∧
      p.feed (a ++ b) =
        if (p.feed a).isOver then p.feed a
        else ((p.feed a).parser.feed b).after (p.feed a).events := by
  have hrun : run (p.supply (a ++ b)) = (run (p.supply a)).resume b := by
    rw [← supply_supply, run_supply b (by simpa using hs) (by simpa using hp)]
  have hwhole := feed_eq_run hp h
  rw [hwhole, hrun] at h
  -- an interruption of the first run would be one of the whole run
  have hfirst : (run (p.supply a)).interruption = none := by
    by_contra hsome
    have hisSome : (run (p.supply a)).interruption.isSome = true := by
      simpa [Option.isSome_iff_ne_none] using hsome
    unfold Run.resume at h
    rw [if_pos hisSome] at h
    exact hsome h
  have hfeed : p.feed a = run (p.supply a) := by
    rw [feed_eq hp, settle_of_none hfirst]
  rw [hwhole, hrun, hfeed]
  refine ⟨hfirst, ?_⟩
  unfold Run.resume Run.isOver at *
  simp only [hfirst, Option.isSome_none, Bool.false_eq_true, if_false, Bool.false_or] at h ⊢
  split_ifs at h ⊢ with hfailed
  · rfl
  · have hsecond : (run ((run (p.supply a)).parser.supply b)).interruption = none := h
    rw [feed_eq (by simpa using hfailed), settle_of_none hsecond]

/-- **Feeding blocks one after the other is feeding their data at once.** -/
theorem feedAll_eq_feed {p : Parser} (hs : p.options.streaming = false)
    (hp : p.hasFailed = false) {blocks : List Octets} (hne : blocks ≠ [])
    (h : (p.feed blocks.flatten).interruption = none) :
    p.feedAll blocks = p.feed blocks.flatten := by
  induction blocks generalizing p with
  | nil => exact absurd rfl hne
  | cons block blocks ih =>
      rw [List.flatten_cons] at h ⊢
      by_cases hlast : blocks = []
      · subst hlast
        rw [List.flatten_nil, List.append_nil] at h ⊢
        exact feedAll_singleton hp h
      · obtain ⟨hfirst, hsplit⟩ := feed_append hs hp h
        rw [hsplit] at h ⊢
        simp only [feedAll]
        split_ifs at h ⊢ with hover
        · rfl
        · have hgo : (run (p.supply block)).isOver = false := by
            rw [← feed_eq_run hp hfirst]
            simpa using hover
          -- the parser goes on to the next block with the options it had
          have hoptions : (p.feed block).parser.options = p.options := by
            rw [feed_eq_run hp hfirst]
            refine run_induction (P := fun q => q.options = p.options) ?_ rfl hgo
            intro q q' events hadvance hq
            rw [hadvance.options_eq, hq]
          have hnotFailed : (p.feed block).parser.hasFailed = false := by
            simp only [Run.isOver, Bool.or_eq_true, not_or] at hover
            simpa using hover.2
          rw [ih (by rw [hoptions, hs]) hnotFailed hlast h]

theorem hasFailed_new (options : Options) : (new options).hasFailed = false := rfl

/-- A parser that waits makes nothing of no data. -/
theorem feed_nil_of_wait {p : Parser} (hp : p.hasFailed = false) (hwait : p.step = .wait) :
    p.feed [] = { parser := p, events := [] } := by
  rw [feed_eq hp, supply_nil, run_eq, hwait]
  rfl

/-- A parser that has read nothing waits when it is given nothing. -/
theorem feed_nil_new {options : Options} (h0 : 0 ≤ options.limits.startLine) :
    (new options).feed [] = { parser := new options, events := [] } := by
  have hwait : (new options).step = .wait := by
    simp only [step, new, readStartLine, withLine, Line.scan_nil h0]
  exact feed_nil_of_wait (hasFailed_new options) hwait

/-- **Parsing does not depend on how the input is cut.** A parser that keeps bodies, whatever else
its options are, ends with the same events and in the same state when it is fed any blocks of the
data as when it is fed all of the data at once, and so does reading the data from a source in
blocks of any size. -/
theorem parsing_of_any_split {options : Options} (hs : options.streaming = false)
    (h0 : 0 ≤ options.limits.startLine) {data : Octets}
    (hdata : ((new options).feed data).interruption = none) :
    (∀ blocks : List Octets, blocks ≠ [] → blocks.flatten = data →
      (new options).feedAll blocks = (new options).feed data ∧
        (new options).readAll blocks = (new options).readAll [data]) ∧
    ∀ size : Int, 1 ≤ size → ∃ source, Source.ofData data size = .ok source ∧
      (new options).read source = (new options).readAll [data] := by
  have hblocks : ∀ blocks : List Octets, blocks ≠ [] → blocks.flatten = data →
      (new options).feedAll blocks = (new options).feed data := by
    intro blocks hne hflatten
    subst hflatten
    exact feedAll_eq_feed hs (hasFailed_new options) hne hdata
  have hone : (new options).feedAll [data] = (new options).feed data :=
    hblocks [data] (by simp) (by simp)
  have hreadAll : ∀ blocks : List Octets, blocks ≠ [] → blocks.flatten = data →
      (new options).readAll blocks = (new options).readAll [data] := by
    intro blocks hne hflatten
    unfold readAll
    rw [hblocks blocks hne hflatten, hone]
  refine ⟨fun blocks hne hflatten => ⟨hblocks blocks hne hflatten, hreadAll blocks hne hflatten⟩,
    fun size hsize => ?_⟩
  refine ⟨⟨data, some size.toNat⟩, by rw [Source.ofData, if_neg (by omega)], ?_⟩
  have hflatten : (Source.mk data (some size.toNat)).blocks.flatten = data :=
    Source.flatten_blocks (by simp; omega)
  by_cases hne : (Source.mk data (some size.toNat)).blocks = []
  · -- no block is handed out, so there is no data
    rw [hne] at hflatten
    subst hflatten
    rw [Parser.read, hne]
    unfold readAll
    rw [hone, List.flatten_nil, feed_nil_new h0]
    rfl
  · exact hreadAll _ hne hflatten

/-- A request with a chunked body, cut within a line end and read octet by octet. -/
theorem parsing_of_any_split_chunked :
    let data := Chunk.ascii
      "PUT /a HTTP/1.1\r\nTransfer-Encoding: chunked\r\n\r\n3\r\nabc\r\n0\r\nT: 1\r\n\r\n"
    ((new {}).feed data).interruption = none ∧
      (new {}).readAll [data.take 16, [], data.drop 16] = (new {}).readAll [data] ∧
      ∃ source, Source.ofData data 1 = .ok source ∧
        (new {}).read source = (new {}).readAll [data] := by
  intro data
  have hdata : ((new {}).feed data).interruption = none := by decide +kernel
  have key := @parsing_of_any_split {} rfl (by decide) data hdata
  refine ⟨hdata, (key.1 [data.take 16, [], data.drop 16] (by simp) ?_).2, key.2 1 (by decide)⟩
  simp

end HttpCodec.Parser
