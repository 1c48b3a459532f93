import HttpCodec.Proofs.Framing.Coding
import HttpCodec.Proofs.Message.Change

set_option autoImplicit false

/-! # The length that a message looks up

A parser takes the length of a body from all elements of all values that declare it; a message looks
up one text and reads it as a number. The main statement is `Held.contentLength_eq`: the lookup
fails exactly where the text consists of digits that write no number or of too many
(`Digit.Unreadable`), and for a message whose body a parser took by its declared length it gives
that length exactly if the text is one element. It gives nothing where the text is a list, though
the parser has read it (`contentLength_of_list`).
-/

namespace HttpCodec

/-! ## Digits of Latin-1 -/

namespace Digit

/-- The digits of Latin-1 that write no number: the superscripts. -/
def isSuperscript (c : Char) : Bool := c = '²' || c = '³' || c = '¹'

theorem isDigit_of_latin {c : Char} (hc : Latin.isLatin c = true) :
    isDigit c = (c.isDigit || isSuperscript c) := by
  have hall : ∀ n < 0x100, isDigit (Char.ofNat n) =
      ((Char.ofNat n).isDigit || isSuperscript (Char.ofNat n)) := by decide +kernel
  have h := hall c.toNat (of_decide_eq_true hc)
  rwa [Char.ofNat_toNat] at h

/-- Digits of Latin-1 that are not read as a number: one of them is a superscript, or they are too
many. -/
structure Unreadable (value : Text) : Prop where
  nonempty : value ≠ []
  digits : ∀ c ∈ value, c.isDigit = true ∨ isSuperscript c = true
  fails : (∃ c ∈ value, isSuperscript c = true) ∨ Decimal.maxDigits < value.length

end Digit

namespace Decimal

open Digit (isSuperscript)

/-- A superscript is no blank, no sign and no digit that writes a number. -/
theorem of_isSuperscript {c : Char} (h : isSuperscript c = true) :
    Blank.surroundsNumber c = false ∧ (∀ t, takeSign (c :: t) = (false, c :: t)) ∧
      isDigitOrUnderscore c = false := by
  simp only [isSuperscript, Bool.or_eq_true, decide_eq_true_eq] at h
  rcases h with (rfl | rfl) | rfl
  all_goals exact ⟨by decide, fun t => rfl, by decide⟩

/-- **Digits among which there is a superscript write no number.** -/
theorem read_of_isSuperscript {t : Text}
    (h : ∀ c ∈ t, c.isDigit = true ∨ isSuperscript c = true)
    (hsome : ∃ c ∈ t, isSuperscript c = true) : ∃ cause, read t = .error cause := by
  obtain ⟨c, hc, hsuperscript⟩ := hsome
  have htrim : trim Blank.surroundsNumber t = t := by
    refine trim_eq_self fun d hd => ?_
    rcases h d hd with hdigit | hother
    · exact surroundsNumber_of_isDigit hdigit
    · exact (of_isSuperscript hother).1
  have hsign : takeSign t = (false, t) := by
    cases t with
    | nil => rfl
    | cons d t =>
        rcases h d List.mem_cons_self with hdigit | hother
        · exact takeSign_of_isDigit hdigit
        · exact (of_isSuperscript hother).2.1 t
  -- what can write a number ends before the superscript
  have hshort : (t.takeWhile isDigitOrUnderscore).length < t.length := by
    refine lt_of_le_of_ne (List.takeWhile_prefix _).length_le fun hlen => ?_
    have hall := (List.takeWhile_prefix isDigitOrUnderscore).eq_of_length hlen
    have hwrites := List.mem_takeWhile_imp (hall ▸ hc)
    rw [(of_isSuperscript hsuperscript).2.2] at hwrites
    cases hwrites
  simp only [read, htrim, hsign]
  split_ifs
  all_goals exact ⟨_, rfl⟩

end Decimal

/-! ## Lookups -/

namespace Fields

variable {fs : Fields} {name first value : Text} {values : List Text}

/-- What is looked up of a name that is not kept apart: the first value, or all of them. -/
theorem get?_eq (hall : fs.getAll name = first :: values)
    (hjoined : separate.contains (LetterCase.lower name) = false) :
    fs.get? name =
      some (if fs.join = true ∧ values ≠ [] then (", " : Text).intercalate (first :: values)
        else first) := by
  unfold get?
  rw [hall]
  cases values with
  | nil => simp
  | cons second values =>
      simp only [hjoined, Bool.or_false, ne_eq, reduceCtorEq, not_false_eq_true, and_true]
      cases fs.join <;> rfl

/-- **What is looked up is one element** unless values are joined or the first is a list. -/
theorem comma_mem_get?_iff (hall : fs.getAll name = first :: values)
    (hjoined : separate.contains (LetterCase.lower name) = false)
    (hvalue : fs.get? name = some value) :
    ',' ∈ value ↔ fs.join = true ∧ values ≠ [] ∨ ',' ∈ first := by
  rw [get?_eq hall hjoined] at hvalue
  obtain rfl := Option.some.inj hvalue
  split_ifs with hmany
  · refine iff_of_true ?_ (.inl hmany)
    obtain ⟨second, rest, rfl⟩ := List.exists_cons_of_ne_nil hmany.2
    simp [List.intercalate]
  · simp [hmany]

/-- What is looked up in a list that was filled is Latin-1. -/
theorem Sound.latin_of_get? (h : fs.Sound) (hvalue : fs.get? name = some value) :
    ∀ c ∈ value, Latin.isLatin c = true := by
  have hall : ∀ v ∈ fs.getAll name, ∀ c ∈ v, Latin.isLatin c = true := fun v hv =>
    (h.of_mem_getAll hv).2.latin
  unfold get? at hvalue
  split at hvalue
  · cases hvalue
  next single hsingle =>
    cases hvalue
    exact hall _ (by simp [hsingle])
  next first values _ hmany =>
    split_ifs at hvalue
    · cases hvalue
      exact hall _ (by simp [hmany])
    · cases hvalue
      intro c hc
      rcases mem_intercalate hc with hc | ⟨part, hpart, hc⟩
      · have hends : (", " : Text).all Latin.isLatin = true := by decide
        exact List.all_eq_true.mp hends c hc
      · exact hall part (hmany ▸ hpart) c hc

end Fields

/-! ## What a message looks up -/

/-- Text of Latin-1 counts as digits if it consists of ASCII digits and superscripts. -/
theorem Digit.allDigits_iff {value : Text} (hlatin : ∀ c ∈ value, Latin.isLatin c = true) :
    allDigits value = true ↔
      value ≠ [] ∧ ∀ c ∈ value, c.isDigit = true ∨ isSuperscript c = true := by
  have hdigit : ∀ c ∈ value, isDigit c = true ↔ c.isDigit = true ∨ isSuperscript c = true := by
    intro c hc
    rw [isDigit_of_latin (hlatin c hc), Bool.or_eq_true]
  simp only [allDigits, Bool.and_eq_true, Bool.not_eq_true', List.isEmpty_eq_false_iff,
    List.all_eq_true]
  exact and_congr_right fun _ => forall₂_congr hdigit

namespace Message

variable {m : Message} {value : Text}

theorem contentLength_of_get? (h : m.headers.get? FieldName.contentLength = some value) :
    m.contentLength =
      if Digit.allDigits value then (Decimal.read value).map some else .ok none := by
  unfold contentLength
  rw [h]

/-- What does not count as digits is no length. -/
theorem contentLength_of_not_isDigit (h : m.headers.get? FieldName.contentLength = some value)
    {c : Char} (hc : c ∈ value) (hdigit : Digit.isDigit c = false) :
    m.contentLength = .ok none := by
  have hall : Digit.allDigits value = false := by
    refine Bool.and_eq_false_iff.mpr (.inr (List.all_eq_false.mpr ⟨c, hc, ?_⟩))
    simp [hdigit]
  rw [contentLength_of_get? h, hall]
  rfl

/-- ASCII digits are the length that they write, if they are not too many. -/
theorem contentLength_of_isDigit (h : m.headers.get? FieldName.contentLength = some value)
    (hne : value ≠ []) (hdigits : ∀ c ∈ value, c.isDigit = true) :
    m.contentLength =
      if value.length ≤ Decimal.maxDigits then .ok (some (Framing.number value))
      else .error (.tooLong value.length) := by
  have hall : Digit.allDigits value = true := by
    simp only [Digit.allDigits, Bool.and_eq_true, Bool.not_eq_true', List.isEmpty_eq_false_iff,
      List.all_eq_true]
    refine ⟨hne, fun c hc => ?_⟩
    rw [Digit.isDigit, Digit.value?_of_isDigit (hdigits c hc)]
    rfl
  rw [contentLength_of_get? h, if_pos hall, Decimal.read_of_isDigit hne hdigits]
  split_ifs <;> rfl

/-- **The lookup of a length fails exactly on digits that are not read.** -/
theorem contentLength_eq_error_iff (hm : m.headers.Sound) :
    (∃ cause, m.contentLength = .error cause) ↔
      ∃ value ∈ m.headers.get? FieldName.contentLength, Digit.Unreadable value := by
  constructor
  · rintro ⟨cause, hcause⟩
    cases hget : m.headers.get? FieldName.contentLength with
    | none =>
        rw [contentLength, hget] at hcause
        cases hcause
    | some value =>
        refine ⟨value, rfl, ?_⟩
        have hlatin := hm.latin_of_get? hget
        by_cases hall : Digit.allDigits value = true
        · obtain ⟨hne, hdigits⟩ := (Digit.allDigits_iff hlatin).mp hall
          refine ⟨hne, hdigits, or_iff_not_imp_left.mpr fun hnone => ?_⟩
          -- without a superscript there are only ASCII digits
          have hascii : ∀ c ∈ value, c.isDigit = true := fun c hc =>
            (hdigits c hc).resolve_right fun hother => hnone ⟨c, hc, hother⟩
          rw [contentLength_of_isDigit hget hne hascii] at hcause
          split_ifs at hcause with hlen
          exact Nat.lt_of_not_le hlen
        · rw [contentLength_of_get? hget, if_neg hall] at hcause
          cases hcause
  · rintro ⟨value, hget, hne, hdigits, hfails⟩
    by_cases hsome : ∃ c ∈ value, Digit.isSuperscript c = true
    · have hall := (Digit.allDigits_iff (hm.latin_of_get? hget)).mpr ⟨hne, hdigits⟩
      obtain ⟨cause, hcause⟩ := Decimal.read_of_isSuperscript hdigits hsome
      refine ⟨cause, ?_⟩
      rw [contentLength_of_get? hget, if_pos hall, hcause]
      rfl
    · have hascii : ∀ c ∈ value, c.isDigit = true := fun c hc =>
        (hdigits c hc).resolve_right fun hother => hsome ⟨c, hc, hother⟩
      have hlong := hfails.resolve_left hsome
      refine ⟨.tooLong value.length, ?_⟩
      rw [contentLength_of_isDigit hget hne hascii, if_neg (Nat.not_le.mpr hlong)]

end Message

/-! ## Lengths that a parser has taken -/

namespace Parser.Segment

variable {o : Options} {s : Segment}

/-- **Lengths that decided denote the length of the body.** -/
theorem Whole.denotes (h : s.Whole o) (hallows : (s.message o).line.allowsBody = true)
    (hcodings : (s.message o).headers.getAll FieldName.transferEncoding = [])
    (hlengths : (s.message o).headers.getAll FieldName.contentLength ≠ []) :
    ∃ digits, Framing.Denotes ((s.message o).headers.getAll FieldName.contentLength) digits ∧
      digits.length ≤ Decimal.maxDigits ∧ Framing.number digits = s.payloads.flatten.length := by
  have hdecide : s.decision o =
      Framing.ofLengths ((s.message o).headers.getAll FieldName.contentLength) :=
    Framing.decide_of_lengths hallows hcodings hlengths
  have hdenotes :
      ∃ digits, Framing.Denotes ((s.message o).headers.getAll FieldName.contentLength) digits := by
    by_contra hnone
    obtain ⟨cause, hrefused, -⟩ := Framing.ofLengths_of_not_denotes (not_exists.mp hnone)
    rw [hrefused] at hdecide
    cases h.framed with
    | bodiless hother | counted hother | chunked hother | untilClose hother =>
        rw [hother] at hdecide
        cases hdecide
  obtain ⟨digits, hdenotes⟩ := hdenotes
  refine ⟨digits, hdenotes, ?_⟩
  rw [Framing.ofLengths_of_denotes hdenotes] at hdecide
  cases h.framed with
  | bodiless hempty hpayloads =>
      rw [hempty] at hdecide
      split_ifs at hdecide with hlong hzero
      exact ⟨Nat.not_lt.mp hlong, by simp [hzero, hpayloads]⟩
  | counted hcounted =>
      rw [hcounted] at hdecide
      split_ifs at hdecide with hlong hzero
      exact ⟨Nat.not_lt.mp hlong, (Framing.Decision.length.inj hdecide).symm⟩
  | chunked hother | untilClose hother =>
      rw [hother] at hdecide
      split_ifs at hdecide

end Parser.Segment

/-- An element that stands alone is what lengths denote. -/
theorem Framing.Denotes.eq_of_not_mem {first digits : Text} {values : List Text}
    (h : Denotes (first :: values) digits) (hcomma : ',' ∉ first)
    (htrimmed : Trimmed CharClass.isSpaceOrTab first) : first = digits := by
  refine h.single first ?_
  have hsplit : splitOn ',' first = [first] := splitOn_eq_singleton hcomma
  rw [declaredLengths, List.flatMap_cons, hsplit, List.map_append, List.map_singleton,
    trim_of_trimmed htrimmed]
  exact List.mem_append_left _ List.mem_cons_self

theorem Parser.join_appendAll (fs : Fields) (more : List Field) :
    (fs.appendAll more).join = fs.join := by
  induction more generalizing fs with
  | nil => rfl
  | cons f more ih => exact ih (fs.append f)

namespace Message

variable {m : Message}

/-- **What a message says of its length.** For every message that a caller can hold, the lookup
fails exactly on digits that are not read. A message that a parser completed which keeps bodies, and
whose body it took by the lengths that were declared, says the length of the body exactly if the
lookup gives a single element: the values are not joined, or there is one, and the first is no list.
In all other cases it says nothing. -/
theorem Held.contentLength_eq (hm : m.Held) :
    ((∃ cause, m.contentLength = .error cause) ↔
      ∃ value ∈ m.headers.get? FieldName.contentLength, Digit.Unreadable value) ∧
    ∀ (o : Parser.Options) (p : Parser) (c : Parser.Call), Parser.Reached o p →
      o.streaming = false → .complete m ∈ (p.call c).events → m.line.allowsBody = true →
      m.headers.getAll FieldName.transferEncoding = [] →
      ∀ first values, m.headers.getAll FieldName.contentLength = first :: values →
        m.contentLength =
          .ok (if o.join = true ∧ values ≠ [] ∨ ',' ∈ first then none
            else some (m.body.length : Int)) := by
  refine ⟨contentLength_eq_error_iff hm.sound.headers, ?_⟩
  intro o p c hp hs hcomplete hallows hcodings first values hall
  have hsound : m.headers.Sound := hm.sound.headers
  obtain ⟨s, hwhole, rfl⟩ := hp.whole_of_complete hcomplete
  obtain ⟨digits, hdenotes, hlen, hnumber⟩ :=
    hwhole.denotes hallows hcodings (by rw [hall]; simp)
  rw [hall] at hdenotes
  have hjoin : (s.message o).headers.join = o.join := Parser.join_appendAll o.noFields s.headers
  have hjoined : Fields.separate.contains (LetterCase.lower FieldName.contentLength) = false := by
    decide
  have hbody : (s.message o).body.length = s.payloads.flatten.length := by
    simp [Parser.Segment.message, Parser.Options.read, hs]
  have hget := Fields.get?_eq hall hjoined
  have hlist := Fields.comma_mem_get?_iff hall hjoined hget
  rw [hjoin] at hget hlist
  split_ifs with hcomma
  · exact contentLength_of_not_isDigit hget (hlist.mpr hcomma) (by decide)
  · obtain ⟨hsingle, hfirst⟩ := not_or.mp hcomma
    rw [if_neg hsingle] at hget
    have hmem : first ∈ (s.message o).headers.getAll FieldName.contentLength := by
      rw [hall]
      exact List.mem_cons_self
    obtain rfl := hdenotes.eq_of_not_mem hfirst (hsound.of_mem_getAll hmem).1
    rw [contentLength_of_isDigit hget hdenotes.nonempty hdenotes.digits, if_pos hlen, hnumber,
      hbody]

/-- Tells whether an event completes a message of a certain kind. -/
def completes (P : Message → Bool) : Event → Bool
  | .complete m => P m
  | _ => false

theorem exists_of_any_completes {es : List Event} {P : Message → Bool}
    (h : es.any (completes P) = true) : ∃ m, .complete m ∈ es ∧ P m = true := by
  obtain ⟨e, he, hP⟩ := List.any_eq_true.mp h
  cases e with
  | complete m => exact ⟨m, he, hP⟩
  | _ => cases hP

/-- One length, and blanks around it. -/
theorem contentLength_of_counted :
    let data := Chunk.ascii "POST / HTTP/1.1\r\nContent-Length:  3 \r\n\r\nabc"
    ∃ m : Message, .complete m ∈ ((Parser.new {}).call (.feed data)).events ∧ m.Held ∧
      m.body = Chunk.ascii "abc" ∧ m.contentLength = .ok (some 3) := by
  intro data
  have hany : ((Parser.new {}).call (.feed data)).events.any (completes fun m =>
      m.line.allowsBody && decide (m.headers.getAll FieldName.transferEncoding = []) &&
      decide (m.headers.getAll FieldName.contentLength = [("3" : Text)]) &&
      decide (m.body = Chunk.ascii "abc")) = true := by decide +kernel
  obtain ⟨m, hcomplete, hm⟩ := exists_of_any_completes hany
  simp only [Bool.and_eq_true, decide_eq_true_eq] at hm
  obtain ⟨⟨⟨hallows, hcodings⟩, hlengths⟩, hbody⟩ := hm
  have hheld : m.Held := .reported .new hcomplete
  have hlength := (Held.contentLength_eq hheld).2 {} (.new {}) (.feed data) .new rfl hcomplete
    hallows hcodings "3" [] hlengths
  rw [hbody] at hlength
  exact ⟨m, hcomplete, hheld, hbody, hlength⟩

/-- Where the length is repeated, or is a list, a message says nothing of it though a parser has
taken the body by it; and a superscript, which counts as a digit, cannot be looked up at all. -/
theorem contentLength_of_list :
    let repeated := Chunk.ascii
      "POST / HTTP/1.1\r\nContent-Length: 3\r\nContent-Length: 3\r\n\r\nabc"
    let list := Chunk.ascii "POST / HTTP/1.1\r\nContent-Length: 3, 3\r\n\r\nabc"
    (∀ data ∈ [repeated, list], ∃ m : Message,
      .complete m ∈ ((Parser.new {}).call (.feed data)).events ∧ m.body.length = 3 ∧
        m.contentLength = .ok none) ∧
    ∃ m : Message, m.Held ∧ m.contentLength = .error (.malformed "²") := by
  intro repeated list
  constructor
  · intro data hdata
    have hany : ((Parser.new {}).call (.feed data)).events.any (completes fun m =>
        decide (m.body.length = 3) && decide (m.contentLength = .ok none)) = true := by
      fin_cases hdata <;> decide +kernel
    obtain ⟨m, hcomplete, hm⟩ := exists_of_any_completes hany
    simp only [Bool.and_eq_true, decide_eq_true_eq] at hm
    exact ⟨m, hcomplete, hm⟩
  · have hparts :=
      Parts.filled_of_pairs "HTTP/1.1" [(.text "Content-Length", .text "²")] (.octets [])
    have hrequest : ∃ m, request "GET" "/" none
        { protocol := "HTTP/1.1", headers := .pairs [(.text "Content-Length", .text "²")],
          body := .octets [] } = .ok m ∧ m.contentLength = .error (.malformed "²") :=
      ⟨_, rfl, by decide +kernel⟩
    obtain ⟨m, hmade, hlength⟩ := hrequest
    exact ⟨m, .made (.request hparts hmade), hlength⟩

end Message

end HttpCodec
