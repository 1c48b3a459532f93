import HttpCodec.Proofs.Chunk.Written
import HttpCodec.Proofs.Line.Offset

set_option autoImplicit false

/-! # The grammar of chunks

`IsChunk` says which octets are a chunk with a certain payload: a size line of one to sixteen
hexadecimal digits, blanks and an extension (`IsSize`), and then as many octets as the digits denote
and a line end, or nothing more if the digits denote zero. What is taken off the front of the data
is exactly a chunk (`take_eq_some_iff`). The main statement is `taking_of_chunks`, for chunks at an
offset: what is taken, that more data does not change a verdict, and that a chunk that was written
is taken as soon as it has arrived as a whole.
-/

namespace HttpCodec

/-! ## Digits -/

namespace Hex

/-- A digit in base sixteen, of either case, and its value. -/
def IsDigit (c : Char) (d : Nat) : Prop :=
  (d < 10 ∧ c.toNat = '0'.toNat + d) ∨
    (10 ≤ d ∧ d < 16 ∧ (c.toNat + 10 = 'A'.toNat + d ∨ c.toNat + 10 = 'a'.toNat + d))

/-- The number that digits denote in base sixteen. -/
def Denotes (t : Text) (n : Nat) : Prop :=
  ∃ values, List.Forall₂ IsDigit t values ∧ Nat.ofDigits 16 values.reverse = n

theorem value?_eq_some_iff {c : Char} {d : Nat} : value? c = some d ↔ IsDigit c d := by
  have hle : ∀ a b : Char, a ≤ b ↔ a.toNat ≤ b.toNat := fun _ _ => Iff.rfl
  unfold value? IsDigit
  simp only [hle, Char.reduceToNat]
  split_ifs <;> simp only [Option.some.injEq, false_iff] <;> omega

theorem mapM_value?_eq_some_iff {t : Text} {values : List Nat} :
    t.mapM value? = some values ↔ List.Forall₂ IsDigit t values := by
  induction t generalizing values with
  | nil =>
      rw [List.forall₂_nil_left_iff]
      simp [eq_comm]
  | cons c t ih =>
      rw [List.forall₂_cons_left_iff]
      simp only [List.mapM_cons, Option.bind_eq_bind, Option.bind_eq_some_iff, Option.pure_def,
        Option.some.injEq, value?_eq_some_iff, ih]
      constructor
      · rintro ⟨d, hd, ds, hds, rfl⟩
        exact ⟨d, ds, hd, hds, rfl⟩
      · rintro ⟨d, ds, hd, hds, rfl⟩
        exact ⟨d, hd, ds, hds, rfl⟩

theorem ofValues_eq_ofDigits (values : List Nat) :
    ofValues values = Nat.ofDigits 16 values.reverse := by
  induction values using List.reverseRecOn with
  | nil => rfl
  | append_singleton values d ih =>
      rw [ofValues_append, List.reverse_append, List.reverse_singleton, List.singleton_append,
        Nat.ofDigits_cons, ih]
      exact add_comm _ _

/-- **What is read is what the digits denote.** -/
theorem read?_eq_some_iff {t : Text} {n : Nat} : read? t = some n ↔ Denotes t n := by
  unfold read? Denotes
  simp only [Option.map_eq_some_iff, mapM_value?_eq_some_iff, ofValues_eq_ofDigits]

/-- Digits are neither blanks nor semicolons. -/
theorem IsDigit.visible {c : Char} {d : Nat} (h : IsDigit c d) :
    c ≠ ';' ∧ CharClass.isSpaceOrTab c = false := by
  have hne : ∀ other : Char, c.toNat ≠ other.toNat → c ≠ other := fun _ hne heq => hne (heq ▸ rfl)
  unfold IsDigit at h
  simp only [Char.reduceToNat] at h
  simp only [CharClass.isSpaceOrTab, Bool.or_eq_false_iff, decide_eq_false_iff_not]
  refine ⟨hne _ ?_, hne _ ?_, hne _ ?_⟩ <;> simp only [Char.reduceToNat] <;> omega

theorem Denotes.visible {t : Text} {n : Nat} (h : Denotes t n) :
    ∀ c ∈ t, c ≠ ';' ∧ CharClass.isSpaceOrTab c = false := by
  obtain ⟨values, hvalues, -⟩ := h
  induction hvalues with
  | nil => exact nofun
  | cons hdigit _ ih =>
      intro c hc
      rcases List.mem_cons.mp hc with rfl | hc
      · exact hdigit.visible
      · exact ih c hc

end Hex

namespace Chunk

/-! ## Size lines -/

/-- A text that gives the size of a chunk: one to sixteen digits, then tabs and spaces, then nothing
or a semicolon and anything. -/
def IsSize (t : Text) (n : Nat) : Prop :=
  ∃ digits blanks extension, t = digits ++ blanks ++ extension ∧
    1 ≤ digits.length ∧ digits.length ≤ 16 ∧ Hex.Denotes digits n ∧
    (∀ c ∈ blanks, c = ' ' ∨ c = '\t') ∧ (extension = [] ∨ ∃ rest, extension = ';' :: rest)

variable {line : Octets} {n : Nat}

theorem isSpaceOrTab_iff {c : Char} : CharClass.isSpaceOrTab c = true ↔ c = ' ' ∨ c = '\t' := by
  simp [CharClass.isSpaceOrTab]

/-- The digits stand in front of blanks and an extension. -/
theorem exists_eq_sizeDigits (line : Octets) :
    ∃ blanks extension, Latin.decode line = sizeDigits line ++ blanks ++ extension ∧
      (∀ c ∈ blanks, c = ' ' ∨ c = '\t') ∧ (extension = [] ∨ ∃ rest, extension = ';' :: rest) := by
  obtain ⟨blanks, hblanks, hall⟩ :=
    exists_eq_append_trimEnd CharClass.isSpaceOrTab (cut ';' (Latin.decode line)).1
  have hbefore : (cut ';' (Latin.decode line)).1 = sizeDigits line ++ blanks := hblanks
  have hall : ∀ c ∈ blanks, c = ' ' ∨ c = '\t' := fun c hc => isSpaceOrTab_iff.mp (hall c hc)
  rcases eq_cut ';' (Latin.decode line) with hline | ⟨hline, -⟩
  · rw [hbefore] at hline
    exact ⟨blanks, _, hline, hall, .inr ⟨_, rfl⟩⟩
  · rw [hbefore] at hline
    exact ⟨blanks, [], by rwa [List.append_nil], hall, .inl rfl⟩

/-- Digits in front of blanks and an extension are found. -/
theorem sizeDigits_eq {digits blanks extension : Text}
    (hline : Latin.decode line = digits ++ blanks ++ extension)
    (hdigits : ∀ c ∈ digits, c ≠ ';' ∧ CharClass.isSpaceOrTab c = false)
    (hblanks : ∀ c ∈ blanks, c = ' ' ∨ c = '\t')
    (hextension : extension = [] ∨ ∃ rest, extension = ';' :: rest) :
    sizeDigits line = digits := by
  have hsemicolon : ';' ∉ digits ++ blanks := by
    intro hmem
    rcases List.mem_append.mp hmem with hmem | hmem
    · exact (hdigits _ hmem).1 rfl
    · simpa using hblanks _ hmem
  have hcut : (cut ';' (Latin.decode line)).1 = digits ++ blanks := by
    rcases hextension with rfl | ⟨rest, rfl⟩
    · rw [hline, List.append_nil, cut_of_not_mem hsemicolon]
    · rw [hline, cut_append hsemicolon]
  show trimEnd CharClass.isSpaceOrTab (cut ';' (Latin.decode line)).1 = digits
  rw [hcut]
  exact trimEnd_append (fun c hc => (hdigits c (List.mem_of_mem_getLast? hc)).2)
    fun c hc => isSpaceOrTab_iff.mpr (hblanks c hc)

/-- **What a size line is.** -/
theorem size_eq_ok_iff : size line = .ok n ↔ IsSize (Latin.decode line) n := by
  constructor
  · intro h
    unfold size at h
    dsimp only at h
    split at h
    next m hread =>
      split_ifs at h with hlen
      cases h
      obtain ⟨blanks, extension, hline, hblanks, hextension⟩ := exists_eq_sizeDigits line
      exact ⟨_, blanks, extension, hline, hlen.1, hlen.2, Hex.read?_eq_some_iff.mp hread, hblanks,
        hextension⟩
    · cases h
  · rintro ⟨digits, blanks, extension, hline, hpos, hlen, hdenotes, hblanks, hextension⟩
    have hdigits := sizeDigits_eq hline hdenotes.visible hblanks hextension
    have hread := Hex.read?_eq_some_iff.mpr hdenotes
    simp only [size, hdigits, hread]
    exact if_pos ⟨hpos, hlen⟩

/-! ## Chunks -/

/-- Octets that are a chunk with a payload, with a size line that is not too long. -/
inductive IsChunk (limit : Int) : Octets → Octets → Prop
  /-- The last chunk is its size line. -/
  | last {line : Octets} (hCR : CR ∉ line) (hLF : LF ∉ line) (hlen : line.length ≤ limit)
      (hsize : IsSize (Latin.decode line) 0) : IsChunk limit (line ++ lineEnd) []
  | data {line payload : Octets} (hCR : CR ∉ line) (hLF : LF ∉ line) (hlen : line.length ≤ limit)
      (hsize : IsSize (Latin.decode line) payload.length) (hne : payload ≠ []) :
      IsChunk limit (line ++ lineEnd ++ payload ++ lineEnd) payload

variable {data payload rest : Octets} {limit : Int}

theorem take_of_isChunk {front : Octets} (h : IsChunk limit front payload) (rest : Octets) :
    take (front ++ rest) limit = .ok (some (payload, rest)) := by
  cases h with
  | last hCR hLF hlen hsize =>
      have hline := isSizeLine_of_size hCR hLF hlen (size_eq_ok_iff.mpr hsize)
      exact take_of_isSizeLine_zero hline rest
  | @data line payload hCR hLF hlen hsize hne =>
      have hline := isSizeLine_of_size hCR hLF hlen (size_eq_ok_iff.mpr hsize)
      rw [List.append_assoc, List.append_assoc]
      exact take_of_payload hline hne rest

/-- **What is taken is a chunk.** -/
theorem take_eq_some_iff :
    take data limit = .ok (some (payload, rest)) ↔
      ∃ front, data = front ++ rest ∧ IsChunk limit front payload := by
  constructor
  · intro h
    obtain ⟨front, hfront, htake⟩ := take_cases h
    obtain ⟨line, rfl, hCR, hLF, hlen, hsize⟩ := hfront.exists_line
    have hsize := size_eq_ok_iff.mp hsize
    rcases htake with ⟨rfl, rfl⟩ | ⟨hne, rfl⟩
    · exact ⟨_, rfl, .last hCR hLF hlen hsize⟩
    · refine ⟨_, ?_, .data hCR hLF hlen hsize hne⟩
      rw [List.append_assoc _ lineEnd rest, List.append_assoc _ payload]
  · rintro ⟨front, rfl, hchunk⟩
    exact take_of_isChunk hchunk rest

/-- Of a chunk that was written any part that is not all of it is too little. -/
theorem take_front_of_encode {front : Octets} (hne : payload ≠ [])
    (hlen : payload.length < 16 ^ 16) (hlimit : 16 ≤ limit) (hfront : front <+: encode payload)
    (hpart : front ≠ encode payload) : take front limit = .ok none := by
  obtain ⟨more, hmore⟩ := hfront
  by_contra hverdict
  -- a verdict on the part would be one on the whole, with more than nothing left
  have hwhole := take_append more hverdict
  have htake := take_encode hne hlen (sizeFits_of_le hlen hlimit) []
  rw [hmore, ← List.append_nil (encode payload), htake] at hwhole
  rcases hpartly : take front limit with cause | _ | ⟨taken, rest⟩ <;> rw [hpartly] at hwhole
  · cases hwhole
  · exact hverdict hpartly
  · simp only [appendRest_some, Except.ok.injEq, Option.some.injEq, Prod.mk.injEq] at hwhole
    obtain rfl : more = [] := (List.append_eq_nil_iff.mp hwhole.2.symm).2
    exact hpart (by rw [← hmore, List.append_nil])

/-! ## Chunks at an offset -/

variable {offset : Nat}

theorem takeAt_eq (hoffset : offset ≤ data.length) :
    takeAt data offset limit =
      (take (data.drop offset) limit).map fun found =>
        found.map fun (payload, rest) => (payload, (data.drop offset).length - rest.length) := by
  rw [takeAt, if_neg (by omega), List.length_drop]

theorem takeSizeAt_eq (hoffset : offset ≤ data.length) :
    takeSizeAt data offset limit =
      (takeSize (data.drop offset) limit).map fun found =>
        found.map fun (n, rest) => (n, data.length - rest.length) := by
  unfold takeSizeAt takeSize
  rw [Line.scanAt_eq hoffset]
  rcases Line.scan (data.drop offset) limit with cause | _ | ⟨line, rest⟩
  · cases cause <;> rfl
  · rfl
  · simp only [sizeOfScan, Except.map, Option.map_some]
    cases size line <;> rfl

theorem takeAt_eq_some_iff (hoffset : offset ≤ data.length) {count : Nat} :
    takeAt data offset limit = .ok (some (payload, count)) ↔
      ∃ front rest, data.drop offset = front ++ rest ∧ IsChunk limit front payload ∧
        count = front.length := by
  rw [takeAt_eq hoffset, map_eq_ok_iff]
  constructor
  · rintro ⟨found, htake, hfound⟩
    obtain ⟨⟨taken, rest⟩, rfl, hpair⟩ := Option.map_eq_some_iff.mp hfound
    cases hpair
    obtain ⟨front, hdata, hchunk⟩ := take_eq_some_iff.mp htake
    refine ⟨front, rest, hdata, hchunk, ?_⟩
    rw [hdata, List.length_append, Nat.add_sub_cancel]
  · rintro ⟨front, rest, hdata, hchunk, rfl⟩
    refine ⟨some (payload, rest), take_eq_some_iff.mpr ⟨front, hdata, hchunk⟩, ?_⟩
    have hcount : (front ++ rest).length - rest.length = front.length := by simp
    simp only [hdata, Option.map_some, hcount]

/-- A verdict at an offset is final. -/
theorem takeAt_append (hoffset : offset ≤ data.length) (more : Octets)
    (h : takeAt data offset limit ≠ .ok none) :
    takeAt (data ++ more) offset limit = takeAt data offset limit := by
  have hmore : offset ≤ (data ++ more).length := by
    rw [List.length_append]
    omega
  rw [takeAt_eq hoffset] at h ⊢
  rw [takeAt_eq hmore, List.drop_append_of_le_length hoffset]
  have htake : take (data.drop offset) limit ≠ .ok none := by
    intro hnone
    exact h (by rw [hnone]; rfl)
  rw [take_append more htake]
  rcases take (data.drop offset) limit with cause | _ | ⟨taken, rest⟩
  · rfl
  · rfl
  · simp only [appendRest_some, Except.map, Option.map_some, List.length_append]
    rw [Nat.add_sub_add_right]

/-- **Taking chunks.** At an offset within the data a payload is taken exactly if a chunk with that
payload starts there, and with it the length of the chunk. Once a payload is taken or an error is
found, more data does not change that. A chunk that was written is taken wherever it stands and
whatever follows it, and while it has not arrived as a whole more data is needed. -/
theorem taking_of_chunks (hoffset : offset ≤ data.length) :
    (∀ payload count, takeAt data offset limit = .ok (some (payload, count)) ↔
      ∃ front rest, data.drop offset = front ++ rest ∧ IsChunk limit front payload ∧
        count = front.length) ∧
    (takeAt data offset limit ≠ .ok none →
      ∀ more, takeAt (data ++ more) offset limit = takeAt data offset limit) ∧
    ∀ payload before : Octets, payload ≠ [] → payload.length < 16 ^ 16 → 16 ≤ limit →
      (∀ after, takeAt (before ++ encode payload ++ after) before.length limit =
        .ok (some (payload, (encode payload).length))) ∧
      ∀ front, front <+: encode payload → front ≠ encode payload →
        takeAt (before ++ front) before.length limit = .ok none := by
  refine ⟨fun payload count => takeAt_eq_some_iff hoffset,
    fun h more => takeAt_append hoffset more h,
    fun payload before hne hlen hlimit => ⟨fun after => ?_, fun front hfront hpart => ?_⟩⟩
  · have htake := take_encode hne hlen (sizeFits_of_le hlen hlimit) after
    rw [takeAt_eq (by simp), List.append_assoc, List.drop_left, htake]
    simp [Except.map]
  · rw [takeAt_eq (by simp), List.drop_left,
      take_front_of_encode hne hlen hlimit hfront hpart]
    rfl

/-- A chunk with an extension, two octets into the data, and one that was written. -/
theorem taking_of_chunks_extended :
    let data := ascii "..3\t;x\r\nabc\r\n!"
    2 ≤ data.length ∧ takeAt data 2 16 = .ok (some (ascii "abc", 11)) ∧
      takeAt (data ++ ascii "?") 2 16 = takeAt data 2 16 ∧
      takeAt (ascii ".." ++ encode (ascii "abc")) 2 16 = .ok (some (ascii "abc", 8)) ∧
      takeAt (ascii ".." ++ ascii "3\r\nabc\r") 2 16 = .ok none := by
  intro data
  have hoffset : 2 ≤ data.length := by decide
  obtain ⟨hgrammar, hfinal, hwritten⟩ := @taking_of_chunks data 16 2 hoffset
  have hsize : IsSize (Latin.decode (ascii "3\t;x")) 3 := by
    refine ⟨['3'], ['\t'], [';', 'x'], by decide, by decide, by decide, ⟨[3], ?_, by decide⟩,
      by simp, .inr ⟨_, rfl⟩⟩
    exact .cons (.inl ⟨by decide, by decide⟩) .nil
  have hchunk : IsChunk 16 (ascii "3\t;x\r\nabc\r\n") (ascii "abc") :=
    @IsChunk.data 16 (ascii "3\t;x") (ascii "abc") (by decide) (by decide) (by decide) hsize
      (by decide)
  have htake := (hgrammar (ascii "abc") 11).mpr ⟨_, ascii "!", rfl, hchunk, rfl⟩
  obtain ⟨hwhole, hpart⟩ :=
    hwritten (ascii "abc") (ascii "..") (by decide) (by decide) (by decide)
  have hencoded := hwhole []
  rw [List.append_nil] at hencoded
  exact ⟨hoffset, htake, hfinal (by rw [htake]; nofun) _, hencoded,
    hpart (ascii "3\r\nabc\r") ⟨[LF], rfl⟩ (by decide)⟩

end Chunk

end HttpCodec
