import HttpCodec.Proofs.Chunk.Decoder
import HttpCodec.Proofs.Chunk.Written
import HttpCodec.Proofs.Text.Latin

set_option autoImplicit false

/-! # Decoding what was encoded

A decoder reads the chunks that an encoder wrote of blocks, which brings it past the last chunk
(`run_chunks`), then the trailer lines up to the empty line, which ends the body (`run_trailers`).
Together with the law for data that arrives in pieces, this makes decoding undo encoding however the
data is cut, while a decoder that has not been given all of it is not done (`decoding_of_encoded`).
-/

namespace HttpCodec.Chunk

/-! ## What an encoder writes -/

/-- All that an encoder writes for blocks: what each of them gives, then the end of the body. -/
def Encoder.encodeAll (e : Encoder) (blocks : List Octets) : Except Latin.Unencodable Octets :=
  e.flush.map fun last => (blocks.map fun block => (e.feed block).getD []).flatten ++ last

/-- What can stand on a trailer line: Latin-1 text without line ends that is not empty. -/
structure IsTrailer (t : Text) : Prop where
  nonempty : t ≠ []
  latin : ∀ c ∈ t, Latin.isLatin c = true
  noCR : '\r' ∉ t
  noLF : '\n' ∉ t

/-- Text with a line end after it. -/
def withEnd (t : Text) : Text := t ++ ['\r', '\n']

theorem getD_feed (e : Encoder) (block : Octets) : (e.feed block).getD [] = encode block := by
  unfold Encoder.feed encode
  split_ifs <;> rfl

namespace IsTrailer

variable {t : Text}

theorem not_mem_octets (h : IsTrailer t) {c : Char} (hc : Latin.isLatin c = true) (hnot : c ∉ t) :
    c.toUInt8 ∉ Latin.octets t := by
  intro hmem
  obtain ⟨d, hd, hsame⟩ := List.mem_map.mp hmem
  have hcd : d = c := by
    rw [← Latin.ofUInt8_toUInt8 (h.latin d hd), hsame, Latin.ofUInt8_toUInt8 hc]
  exact hnot (hcd ▸ hd)

/-- The octets of a trailer are a line. -/
theorem proper (h : IsTrailer t) : Line.Proper (Latin.octets t) where
  nonempty := fun hnil => h.nonempty (List.map_eq_nil_iff.mp hnil)
  noCR := h.not_mem_octets (c := '\r') rfl h.noCR
  noLF := h.not_mem_octets (c := '\n') rfl h.noLF

theorem encode_withEnd (h : IsTrailer t) :
    Latin.encode (withEnd t) = .ok (Latin.octets t ++ lineEnd) := by
  have hlatin : ∀ c ∈ withEnd t, Latin.isLatin c = true := by
    intro c hc
    rcases List.mem_append.mp hc with hc | hc
    · exact h.latin c hc
    · fin_cases hc <;> rfl
  rw [Latin.encode_of_latin hlatin]
  exact congrArg Except.ok (Latin.octets_append t ['\r', '\n'])

end IsTrailer

theorem mapM_encode {ts : List Text} (h : ∀ t ∈ ts, IsTrailer t) :
    (ts.map withEnd).mapM Latin.encode = .ok ((ts.map Latin.octets).map (· ++ lineEnd)) := by
  induction ts with
  | nil => rfl
  | cons t ts ih =>
      have ht := (h t List.mem_cons_self).encode_withEnd
      have hts := ih fun u hu => h u (List.mem_cons_of_mem t hu)
      simp only [List.map_cons, List.mapM_cons, ht, hts]
      rfl

/-- **What an encoder writes:** the chunks, the size line of the last chunk, and the trailers with
the empty line. -/
theorem encodeAll_eq {ts : List Text} (h : ∀ t ∈ ts, IsTrailer t) (blocks : List Octets) :
    Encoder.encodeAll { trailers := ts.map withEnd } blocks =
      .ok ((blocks.map encode).flatten ++ (ascii "0" ++ lineEnd ++
        (Line.octetsOf (ts.map Latin.octets) ++ lineEnd))) := by
  unfold Encoder.encodeAll Encoder.flush encodeLast
  simp only [mapM_encode h, getD_feed]
  simp [Except.map, bind, Except.bind, pure, Except.pure, Line.octetsOf]

namespace Decoder

/-! ## Reading it back -/

/-- A decoder that has nothing waits. -/
theorem step_of_nothing {limit : Int} (hlimit : 0 ≤ limit) :
    step { limit := limit } = .wait := by
  rw [step_of_chunks rfl rfl, take_nil hlimit]

/-- A decoder reads the chunks of blocks and the last chunk. -/
theorem run_chunks {d : Decoder} {blocks : List Octets} (rest : Octets) (hdone : d.isDone = false)
    (hlast : d.isLast = false) (hlimit : 16 ≤ d.limit)
    (hlen : ∀ block ∈ blocks, block.length < 16 ^ 16) :
    run { d with buffer := (blocks.map encode).flatten ++ (ascii "0" ++ lineEnd ++ rest) } =
      (blocks.flatten ++ (run { d with buffer := rest, isLast := true }).1,
        (run { d with buffer := rest, isLast := true }).2) := by
  induction blocks with
  | nil =>
      exact run_of_next (step_of_lastChunk hdone hlast
        (take_last (sizeFits_of_le (by decide) hlimit) rest))
  | cons block blocks ih =>
      have hlater := ih fun b hb => hlen b (List.mem_cons_of_mem block hb)
      by_cases hempty : block = []
      · -- an empty block leaves nothing to read
        rw [hempty]
        exact hlater
      · have hshort := hlen block List.mem_cons_self
        have htake := take_encode hempty hshort (sizeFits_of_le hshort hlimit)
          ((blocks.map encode).flatten ++ (ascii "0" ++ lineEnd ++ rest))
        rw [List.map_cons, List.flatten_cons, List.append_assoc, List.flatten_cons,
          List.append_assoc]
        calc run { d with buffer := encode block ++ ((blocks.map encode).flatten ++
              (ascii "0" ++ lineEnd ++ rest)) }
            = (block ++ (run { d with buffer := (blocks.map encode).flatten ++
                (ascii "0" ++ lineEnd ++ rest) }).1, (run { d with buffer :=
                (blocks.map encode).flatten ++ (ascii "0" ++ lineEnd ++ rest) }).2) :=
              run_of_next (step_of_chunk hdone hlast htake hempty)
          _ = _ := by rw [hlater, List.append_assoc]

/-- A decoder past the last chunk reads the trailer lines and the empty line. -/
theorem run_trailers {d : Decoder} {lines : List Octets} (rest : Octets) (hdone : d.isDone = false)
    (hlast : d.isLast = true) (hlimit : 0 ≤ d.limit) (hproper : ∀ line ∈ lines, Line.Proper line)
    (hlen : ∀ line ∈ lines, line.length ≤ d.limit) :
    run { d with buffer := Line.octetsOf lines ++ (lineEnd ++ rest) } =
      ([], { d with buffer := rest, trailers := d.trailers ++ lines, isDone := true }, true) := by
  induction lines generalizing d with
  | nil =>
      have hstep := step_of_end (d := { d with buffer := lineEnd ++ rest }) hdone hlast
        (Line.scan_lineEnd hlimit)
      show run { d with buffer := lineEnd ++ rest } = _
      rw [run_of_next hstep, run_of_wait (step_of_done rfl), List.append_nil, List.append_nil]
  | cons line lines ih =>
      have hline := hproper line List.mem_cons_self
      have hscan : Line.scan (line ++ lineEnd ++ (Line.octetsOf lines ++ (lineEnd ++ rest))) d.limit =
          .ok (some (line, Line.octetsOf lines ++ (lineEnd ++ rest))) :=
        Line.scan_line _ hline.noCR hline.noLF (hlen line List.mem_cons_self)
      have hfront : Line.octetsOf (line :: lines) ++ (lineEnd ++ rest) =
          line ++ lineEnd ++ (Line.octetsOf lines ++ (lineEnd ++ rest)) := by
        simp [Line.octetsOf]
      have hlater := ih (d := { d with trailers := d.trailers ++ [line] }) hdone hlast hlimit
        (fun l hl => hproper l (List.mem_cons_of_mem line hl))
        (fun l hl => hlen l (List.mem_cons_of_mem line hl))
      have hstep := step_of_trailer (d := { d with
        buffer := line ++ lineEnd ++ (Line.octetsOf lines ++ (lineEnd ++ rest)) })
        hdone hlast hscan hline.nonempty
      rw [hfront, run_of_next hstep, hlater, List.nil_append, List.append_assoc,
        List.singleton_append]

/-- **All that was written is read back**, and what follows stays unread. -/
theorem run_encoded {blocks : List Octets} {ts : List Text} {limit : Int} {w : Octets}
    (hblocks : ∀ block ∈ blocks, block.length < 16 ^ 16) (hts : ∀ t ∈ ts, IsTrailer t)
    (hlimit : 16 ≤ limit) (hlen : ∀ t ∈ ts, t.length ≤ limit)
    (hw : Encoder.encodeAll { trailers := ts.map withEnd } blocks = .ok w) (rest : Octets) :
    run { limit := limit, buffer := w ++ rest } = (blocks.flatten,
      { limit := limit, buffer := rest, trailers := ts.map Latin.octets, isLast := true,
        isDone := true }, true) := by
  rw [encodeAll_eq hts] at hw
  cases hw
  have hproper : ∀ line ∈ ts.map Latin.octets, Line.Proper line := by
    intro line hline
    obtain ⟨t, ht, rfl⟩ := List.mem_map.mp hline
    exact (hts t ht).proper
  have hshort : ∀ line ∈ ts.map Latin.octets, (line.length : Int) ≤ limit := by
    intro line hline
    obtain ⟨t, ht, rfl⟩ := List.mem_map.mp hline
    rw [Latin.length_octets]
    exact hlen t ht
  have hfront := run_chunks (d := { limit := limit })
    (Line.octetsOf (ts.map Latin.octets) ++ (lineEnd ++ rest)) rfl rfl hlimit hblocks
  have hback := run_trailers (d := { limit := limit, isLast := true }) rest rfl rfl
    (by show 0 ≤ limit; omega) hproper hshort
  rw [hback] at hfront
  simpa only [List.append_assoc, List.append_nil, List.nil_append] using hfront

/-- A body that ends with the data is not complete before its end. -/
theorem run_of_front {d e : Decoder} {data front back : Octets}
    (h : run (d.supply (front ++ back)) = (data, e, true)) (hread : e.buffer = [])
    (hback : back ≠ []) :
    ∃ first d₁, run (d.supply front) = (first, d₁, true) ∧ d₁.isDone = false := by
  rw [← supply_supply, run_supply] at h
  rcases hfirst : run (d.supply front) with ⟨first, d₁, valid⟩
  rw [hfirst] at h
  cases valid with
  | false => simp [resume] at h
  | true =>
      refine ⟨first, d₁, rfl, ?_⟩
      by_contra hdone
      -- a decoder that is done would have kept what follows
      have hstay : (d₁.supply back).step = .wait := step_of_done (by simpa using hdone)
      simp only [resume, if_true, run_of_wait hstay] at h
      cases h
      rw [supply_buffer] at hread
      exact hback (List.append_eq_nil_iff.mp hread).2

/-- **Decoding undoes encoding over any split.** What follows the body is neither data nor a trailer
of it, and a decoder that has been given less than the whole of it is not done. -/
theorem decoding_of_encoded {blocks : List Octets} {ts : List Text} {limit : Int}
    (hblocks : ∀ block ∈ blocks, block.length < 16 ^ 16) (hts : ∀ t ∈ ts, IsTrailer t)
    (hlimit : 16 ≤ limit) (hlen : ∀ t ∈ ts, t.length ≤ limit) :
    ∃ w, Encoder.encodeAll { trailers := ts.map withEnd } blocks = .ok w ∧
      (∀ (suffix : Octets) (pieces : List Octets), pieces.flatten = w ++ suffix →
        let (given, d) := feedAll { limit := limit } pieces
        .invalid ∉ given ∧ (given.map Decoded.octets).flatten = blocks.flatten ∧
          d.isLast = true ∧ d.isDone = true ∧ d.trailers = ts.map Latin.octets ∧
          d.flush = .nothing ∧ d.buffer <+: suffix) ∧
      (∀ pieces : List Octets, pieces.flatten <+: w → pieces.flatten ≠ w →
        let (given, d) := feedAll { limit := limit } pieces
        .invalid ∉ given ∧ d.isDone = false ∧ d.flush = .invalid) := by
  obtain ⟨w, hw⟩ : ∃ w, Encoder.encodeAll { trailers := ts.map withEnd } blocks = .ok w :=
    ⟨_, encodeAll_eq hts blocks⟩
  have hwait : step { limit := limit } = .wait := step_of_nothing (by omega)
  refine ⟨w, hw, ?_, ?_⟩
  · intro suffix pieces hpieces
    have hrun := run_encoded hblocks hts hlimit hlen hw suffix
    rw [← hpieces] at hrun
    obtain ⟨hvalid, hdata, dropped, hleft, -⟩ := feedAll_of_run rfl hwait hrun
    have hdone : (feedAll { limit := limit } pieces).2.isDone = true :=
      (congrArg isDone hleft).symm
    exact ⟨hvalid, hdata, (congrArg isLast hleft).symm, hdone, (congrArg trailers hleft).symm,
      if_pos hdone, dropped, (congrArg buffer hleft).symm⟩
  · intro pieces hfront hne
    obtain ⟨back, rfl⟩ := hfront
    have hback : back ≠ [] := by
      rintro rfl
      exact hne (List.append_nil _).symm
    have hrun := run_encoded hblocks hts hlimit hlen hw []
    rw [List.append_nil] at hrun
    obtain ⟨first, d₁, hfirst, hnot⟩ := run_of_front (d := { limit := limit }) hrun rfl hback
    obtain ⟨hvalid, -, dropped, hleft, -⟩ := feedAll_of_run rfl hwait hfirst
    have hdone : (feedAll { limit := limit } pieces).2.isDone = false :=
      (congrArg isDone hleft).symm.trans hnot
    refine ⟨hvalid, hdone, ?_⟩
    unfold flush
    rw [hdone]
    rfl

/-- A body with a line end in its data, an empty block and two trailers, cut after each octet, with
the start of a request after it. -/
theorem decoding_of_encoded_octetwise :
    let blocks := [ascii "a\r\nb", [], ascii "c"]
    let ts : List Text := ["X: y", "Z: 0"]
    let w := ascii "4\r\na\r\nb\r\n1\r\nc\r\n0\r\nX: y\r\nZ: 0\r\n\r\n"
    let suffix := ascii "GET "
    let (given, d) := feedAll { limit := 16 } ((w ++ suffix).map ([·]))
    let (early, e) := feedAll { limit := 16 } ((w.dropLast).map ([·]))
    Encoder.encodeAll { trailers := ts.map withEnd } blocks = .ok w ∧
      (.invalid ∉ given ∧ (given.map Decoded.octets).flatten = ascii "a\r\nbc" ∧
        d.isLast = true ∧ d.isDone = true ∧ d.trailers = ts.map Latin.octets ∧
        d.flush = .nothing ∧ d.buffer <+: suffix) ∧
      (.invalid ∉ early ∧ e.isDone = false ∧ e.flush = .invalid) := by
  intro blocks ts w suffix
  have hblocks : ∀ block ∈ blocks, block.length < 16 ^ 16 := by decide +kernel
  have hts : ∀ t ∈ ts, IsTrailer t := by
    intro t ht
    have hall : ∀ u ∈ ts, u ≠ [] ∧ u.all Latin.isLatin = true ∧ '\r' ∉ u ∧ '\n' ∉ u := by
      decide +kernel
    obtain ⟨hne, hlatin, hCR, hLF⟩ := hall t ht
    exact ⟨hne, List.all_eq_true.mp hlatin, hCR, hLF⟩
  have hw : Encoder.encodeAll { trailers := ts.map withEnd } blocks = .ok w := by decide +kernel
  obtain ⟨w', hw', hwhole, hfront⟩ :=
    decoding_of_encoded hblocks hts (Int.le_refl 16) (by decide +kernel)
  obtain rfl : w = w' := Except.ok.inj (hw.symm.trans hw')
  exact ⟨hw, hwhole suffix _ (by decide +kernel), hfront _ (by decide +kernel) (by decide +kernel)⟩

end Decoder

end HttpCodec.Chunk
