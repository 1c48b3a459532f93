import HttpCodec.Parser.Event
import HttpCodec.Proofs.Framing
import HttpCodec.Proofs.StartLine

set_option autoImplicit false

/-! # The rules of framing

`Framing.Rule` states what a head leads to, one constructor for each line of the rules: the start
line, all values of `Transfer-Encoding` and all values of `Content-Length` decide. The main
statements are that the decision of the library is the one that the rules give
(`outcome_of_rule`, `rule_of_outcome`), and so that the rules cover every head and give one outcome
for each.
-/

namespace HttpCodec.Framing

/-- What a head leads to. -/
inductive Outcome where
  /-- The message is refused. -/
  | fails (type : ErrorType)
  /-- The message is complete, without a body. -/
  | empty
  /-- A body of a declared length follows. -/
  | length (n : Nat)
  | chunked
  | untilClose
  deriving DecidableEq

/-- The outcome of a decision. There is none for a length of too many digits. -/
def Decision.outcome : Decision → Option Outcome
  | .empty => some .empty
  | .length n => some (.length n)
  | .chunked => some .chunked
  | .untilClose => some .untilClose
  | .refused cause => some (.fails (ParseError.framing cause).type)
  | .unreadable _ => none

/-- A response whose status says that there is no body. -/
def Bodiless (line : StartLine) : Prop :=
  ∃ l, line = .response l ∧ (100 ≤ l.status ∧ l.status < 200 ∨ l.status = 204 ∨ l.status = 304)

/-- All elements that `Content-Length` values list are one and the same number in ASCII digits. -/
structure Denotes (lengths : List Text) (digits : Text) : Prop where
  listed : digits ∈ declaredLengths lengths
  single : ∀ element ∈ declaredLengths lengths, element = digits
  nonempty : digits ≠ []
  digits : ∀ c ∈ digits, c.isDigit

/-- The number that ASCII digits denote. -/
def number (digits : Text) : Nat := Nat.ofDigitChars 10 digits 0

/-- What a start line, the values of `Transfer-Encoding` and those of `Content-Length` lead to. -/
inductive Rule (line : StartLine) (codings lengths : List Text) : Outcome → Prop where
  /-- Both a coding and a length. -/
  | both (hcodings : codings ≠ []) (hlengths : lengths ≠ []) :
      Rule line codings lengths (.fails .badHeader)
  /-- Whatever the fields say, if not both. -/
  | bodiless (hone : codings = [] ∨ lengths = []) (hline : Bodiless line) :
      Rule line codings lengths .empty
  /-- A coding that ends in the chunked one. -/
  | chunked {coding : Text} (hline : ¬ Bodiless line) (hlengths : lengths = [])
      (hlast : codings.getLast? = some coding) (hchunked : TransferCoding.isChunked coding = true) :
      Rule line codings lengths .chunked
  /-- A response with another coding. -/
  | recoded {coding : Text} (hline : ¬ Bodiless line) (hlengths : lengths = [])
      (hlast : codings.getLast? = some coding) (hchunked : TransferCoding.isChunked coding = false)
      (hkind : line.kind = .response) : Rule line codings lengths .untilClose
  /-- A request with another coding. -/
  | unended {coding : Text} (hlengths : lengths = [])
      (hlast : codings.getLast? = some coding) (hchunked : TransferCoding.isChunked coding = false)
      (hkind : line.kind = .request) : Rule line codings lengths (.fails .badHeader)
  /-- A length of zero. -/
  | zero {digits : Text} (hline : ¬ Bodiless line) (hcodings : codings = [])
      (hlengths : lengths ≠ []) (hdenotes : Denotes lengths digits) (hzero : number digits = 0) :
      Rule line codings lengths .empty
  /-- Any other length. -/
  | length {digits : Text} (hline : ¬ Bodiless line) (hcodings : codings = [])
      (hlengths : lengths ≠ []) (hdenotes : Denotes lengths digits) (hzero : number digits ≠ 0) :
      Rule line codings lengths (.length (number digits))
  /-- Lengths that are not one number. -/
  | badLength (hline : ¬ Bodiless line) (hcodings : codings = []) (hlengths : lengths ≠ [])
      (hnone : ∀ digits, ¬ Denotes lengths digits) : Rule line codings lengths (.fails .badHeader)
  /-- A response that declares neither. -/
  | undeclared (hline : ¬ Bodiless line) (hcodings : codings = []) (hlengths : lengths = [])
      (hkind : line.kind = .response) : Rule line codings lengths .untilClose
  /-- A request that declares neither, but has a body. -/
  | required {l : RequestLine} (hcodings : codings = []) (hlengths : lengths = [])
      (hline : line = .request l) (hmethod : TakesBody l.method) :
      Rule line codings lengths (.fails .lengthRequired)
  /-- A request that declares neither and has no body. -/
  | none {l : RequestLine} (hcodings : codings = []) (hlengths : lengths = [])
      (hline : line = .request l) (hmethod : ¬ TakesBody l.method) :
      Rule line codings lengths .empty

variable {line : StartLine} {codings lengths : List Text} {x : Outcome}

theorem bodiless_iff (h : line.Sound) : Bodiless line ↔ line.allowsBody = false := by
  unfold Bodiless StartLine.allowsBody
  cases line with
  | request l => simp
  | response l =>
      have hvalid := StatusLine.Sound.status h
      simp only [Status.isValid, Bool.and_eq_true, decide_eq_true_eq] at hvalid
      simp [Status.hasBody]
      omega

theorem allowsBody_of_not_bodiless (h : line.Sound) (hline : ¬ Bodiless line) :
    line.allowsBody = true := by
  by_contra hno
  exact hline ((bodiless_iff h).mpr (by simpa using hno))

/-! ## Lengths -/

/-- What lengths decide that denote a number. -/
theorem ofLengths_of_denotes {digits : Text} (h : Denotes lengths digits) :
    ofLengths lengths =
      if Decimal.maxDigits < digits.length then .unreadable (.tooLong digits.length)
      else if number digits = 0 then .empty else .length (number digits) := by
  rw [ofLengths_eq]
  have hlisted := h.listed
  have hsingle := h.single
  cases hdeclared : declaredLengths lengths with
  | nil => simp [hdeclared] at hlisted
  | cons first others =>
      rw [hdeclared] at hsingle
      obtain rfl : first = digits := hsingle first List.mem_cons_self
      have hothers : others.any (· ≠ first) = false := by
        simpa using fun element helement => hsingle element (List.mem_cons_of_mem first helement)
      have hdigits : Digit.allAsciiDigits first = true := by
        simp [Digit.allAsciiDigits, h.nonempty, List.all_eq_true.mpr h.digits]
      simp only [hothers, hdigits, Bool.not_true, Bool.false_eq_true, if_false]
      rfl

/-- Lengths that do not denote a number are refused. -/
theorem ofLengths_of_not_denotes (h : ∀ digits, ¬ Denotes lengths digits) :
    ∃ cause, ofLengths lengths = .refused cause ∧
      (ParseError.framing cause).type = .badHeader := by
  rw [ofLengths_eq]
  cases hdeclared : declaredLengths lengths with
  | nil => exact ⟨_, rfl, rfl⟩
  | cons first others =>
      simp only
      split_ifs with hothers hdigits
      · exact ⟨_, rfl, rfl⟩
      · exact ⟨_, rfl, rfl⟩
      all_goals
        have hdenotes : Denotes lengths first := by
          simp only [Digit.allAsciiDigits, Bool.not_eq_true', Bool.not_eq_false, Bool.and_eq_true,
            List.isEmpty_eq_false_iff, List.all_eq_true] at hdigits
          refine ⟨by simp [hdeclared], fun element helement => ?_, hdigits.1, hdigits.2⟩
          rw [hdeclared] at helement
          rcases List.mem_cons.mp helement with rfl | helement
          · rfl
          · by_contra hne
            exact hothers (List.any_eq_true.mpr ⟨element, helement, by simpa using hne⟩)
        exact absurd hdenotes (h first)

/-! ## The decision follows the rules -/

variable {headers : Fields}

/-- Lengths that denote a number are the body's length, if the number can be read. -/
theorem decide_of_denotes {digits : Text} (hline : line.Sound)
    (hread : ∀ cause, decide line headers ≠ .unreadable cause) (hbodiless : ¬ Bodiless line)
    (hcodings : headers.getAll FieldName.transferEncoding = [])
    (hlengths : headers.getAll FieldName.contentLength ≠ [])
    (hdenotes : Denotes (headers.getAll FieldName.contentLength) digits) :
    decide line headers = if number digits = 0 then .empty else .length (number digits) := by
  rw [decide_of_lengths (allowsBody_of_not_bodiless hline hbodiless) hcodings hlengths,
    ofLengths_of_denotes hdenotes] at hread ⊢
  refine if_neg fun hlong => ?_
  rw [if_pos hlong] at hread
  exact hread _ rfl

/-- **The decision is the one that the rules give**, if there is one. -/
theorem outcome_of_rule (hline : line.Sound)
    (hread : ∀ cause, decide line headers ≠ .unreadable cause)
    (h : Rule line (headers.getAll FieldName.transferEncoding)
      (headers.getAll FieldName.contentLength) x) :
    (decide line headers).outcome = some x := by
  cases h with
  | both hcodings hlengths =>
      simp [decide, hcodings, hlengths, Decision.outcome, ParseError.type]
  | bodiless hone hbodiless =>
      rw [decide_of_not_allowsBody ((bodiless_iff hline).mp hbodiless) hone]
      rfl
  | chunked hbodiless hlengths hlast hchunked =>
      rw [decide_of_coding (allowsBody_of_not_bodiless hline hbodiless) hlast hlengths,
        ofCoding.eq_def, if_pos hchunked]
      rfl
  | recoded hbodiless hlengths hlast hchunked hkind =>
      rw [decide_of_coding (allowsBody_of_not_bodiless hline hbodiless) hlast hlengths,
        ofCoding_of_response hkind hchunked]
      rfl
  | unended hlengths hlast hchunked hkind =>
      have hallows : line.allowsBody = true := by
        cases line with
        | request l => rfl
        | response l => cases hkind
      rw [decide_of_coding hallows hlast hlengths, ofCoding.eq_def, if_neg (by simp [hchunked]),
        hkind]
      rfl
  | zero hbodiless hcodings hlengths hdenotes hzero =>
      rw [decide_of_denotes hline hread hbodiless hcodings hlengths hdenotes, if_pos hzero]
      rfl
  | length hbodiless hcodings hlengths hdenotes hzero =>
      rw [decide_of_denotes hline hread hbodiless hcodings hlengths hdenotes, if_neg hzero]
      rfl
  | badLength hbodiless hcodings hlengths hnone =>
      obtain ⟨cause, hrefused, htype⟩ := ofLengths_of_not_denotes hnone
      rw [decide_of_lengths (allowsBody_of_not_bodiless hline hbodiless) hcodings hlengths,
        hrefused, Decision.outcome, htype]
  | undeclared hbodiless hcodings hlengths hkind =>
      rw [decide_of_nothing (allowsBody_of_not_bodiless hline hbodiless) hcodings hlengths,
        ofNothing_of_response hkind]
      rfl
  | required hcodings hlengths hrequest hmethod =>
      rw [decide_of_nothing (by rw [hrequest]; rfl) hcodings hlengths, hrequest,
        ofNothing_of_request, if_pos hmethod]
      rfl
  | none hcodings hlengths hrequest hmethod =>
      rw [decide_of_nothing (by rw [hrequest]; rfl) hcodings hlengths, hrequest,
        ofNothing_of_request, if_neg hmethod]
      rfl

/-- **The rules cover every head.** -/
theorem exists_rule (line : StartLine) (codings lengths : List Text) :
    ∃ x, Rule line codings lengths x := by
  by_cases hboth : codings ≠ [] ∧ lengths ≠ []
  · exact ⟨_, .both hboth.1 hboth.2⟩
  have hone : codings = [] ∨ lengths = [] := by
    by_contra hnone
    exact hboth (not_or.mp hnone)
  by_cases hline : Bodiless line
  · exact ⟨_, .bodiless hone hline⟩
  cases hlast : codings.getLast? with
  | some coding =>
      have hcodings : codings ≠ [] := by
        rintro rfl
        cases hlast
      have hlengths := hone.resolve_left hcodings
      cases hchunked : TransferCoding.isChunked coding with
      | true => exact ⟨_, .chunked hline hlengths hlast hchunked⟩
      | false =>
          cases hkind : line.kind with
          | request => exact ⟨_, .unended hlengths hlast hchunked hkind⟩
          | response => exact ⟨_, .recoded hline hlengths hlast hchunked hkind⟩
  | none =>
      have hcodings := List.getLast?_eq_none_iff.mp hlast
      by_cases hlengths : lengths = []
      · cases hrequest : line with
        | response l => exact ⟨_, .undeclared (hrequest ▸ hline) hcodings hlengths rfl⟩
        | request l =>
            by_cases hmethod : TakesBody l.method
            · exact ⟨_, .required hcodings hlengths rfl hmethod⟩
            · exact ⟨_, .none hcodings hlengths rfl hmethod⟩
      · by_cases hdenotes : ∃ digits, Denotes lengths digits
        · obtain ⟨digits, hdenotes⟩ := hdenotes
          by_cases hzero : number digits = 0
          · exact ⟨_, .zero hline hcodings hlengths hdenotes hzero⟩
          · exact ⟨_, .length hline hcodings hlengths hdenotes hzero⟩
        · exact ⟨_, .badLength hline hcodings hlengths (not_exists.mp hdenotes)⟩

/-- **The rules give the decision**, wherever it has an outcome. -/
theorem rule_of_outcome (hline : line.Sound) (h : (decide line headers).outcome = some x) :
    Rule line (headers.getAll FieldName.transferEncoding)
      (headers.getAll FieldName.contentLength) x := by
  obtain ⟨y, hrule⟩ := exists_rule line (headers.getAll FieldName.transferEncoding)
    (headers.getAll FieldName.contentLength)
  have hread : ∀ cause, decide line headers ≠ .unreadable cause := by
    intro cause hunreadable
    rw [hunreadable] at h
    cases h
  have hy := outcome_of_rule hline hread hrule
  rw [h] at hy
  cases hy
  exact hrule

/-- The rules give each decision that has an outcome. -/
theorem rule_of_decide {d : Decision} (hline : line.Sound) (h : decide line headers = d)
    (hd : d.outcome = some x) :
    Rule line (headers.getAll FieldName.transferEncoding)
      (headers.getAll FieldName.contentLength) x :=
  rule_of_outcome hline (by rw [h, hd])

/-- Only a response goes on until the input ends, one that declares no length and no coding that is
chunked at last. -/
theorem of_untilClose (hline : line.Sound) (h : decide line headers = .untilClose) :
    line.kind = .response ∧ headers.getAll FieldName.contentLength = [] ∧
      ∀ coding, (headers.getAll FieldName.transferEncoding).getLast? = some coding →
        TransferCoding.isChunked coding = false := by
  cases rule_of_decide hline h rfl with
  | recoded _ hlengths hlast hchunked hkind =>
      refine ⟨hkind, hlengths, fun coding hcoding => ?_⟩
      rw [hlast] at hcoding
      cases hcoding
      exact hchunked
  | undeclared _ hcodings hlengths hkind =>
      refine ⟨hkind, hlengths, fun coding hcoding => ?_⟩
      rw [hcodings] at hcoding
      cases hcoding

/-- **Where there is no decision:** the length that decides has too many digits. -/
theorem decide_eq_unreadable_iff {cause : Decimal.Error} :
    decide line headers = .unreadable cause ↔
      line.allowsBody = true ∧ headers.getAll FieldName.transferEncoding = [] ∧
        ∃ digits, Denotes (headers.getAll FieldName.contentLength) digits ∧
          Decimal.maxDigits < digits.length ∧ cause = .tooLong digits.length := by
  constructor
  · intro h
    have hallows : line.allowsBody = true :=
      allowsBody_of_decide (by rw [h]; nofun) (by rw [h]; nofun)
    have hlengths := ofLengths_of_decide h (.inr ⟨cause, rfl⟩)
    have hdenotes : ∃ digits, Denotes (headers.getAll FieldName.contentLength) digits := by
      by_contra hnone
      obtain ⟨error, hrefused, -⟩ := ofLengths_of_not_denotes (not_exists.mp hnone)
      rw [hrefused] at hlengths
      cases hlengths
    obtain ⟨digits, hdenotes⟩ := hdenotes
    rw [ofLengths_of_denotes hdenotes] at hlengths
    split_ifs at hlengths with hlong
    cases hlengths
    have hcodings : headers.getAll FieldName.transferEncoding = [] := by
      -- a coding would have decided
      by_contra hsome
      obtain ⟨coding, hlast⟩ := Option.isSome_iff_exists.mp (List.getLast?_isSome.mpr hsome)
      have hnotEmpty : headers.getAll FieldName.contentLength ≠ [] := by
        intro hempty
        rw [hempty] at hdenotes
        exact absurd hdenotes.listed (by simp [declaredLengths])
      simp [decide, hsome, hnotEmpty] at h
    exact ⟨hallows, hcodings, digits, hdenotes, hlong, rfl⟩
  · rintro ⟨hallows, hcodings, digits, hdenotes, hlong, rfl⟩
    have hne : headers.getAll FieldName.contentLength ≠ [] := by
      intro hempty
      rw [hempty] at hdenotes
      exact absurd hdenotes.listed (by simp [declaredLengths])
    rw [decide_of_lengths hallows hcodings hne, ofLengths_of_denotes hdenotes, if_pos hlong]

/-- There is a decision if a length that is denoted has not too many digits. -/
theorem decide_ne_unreadable (line : StartLine)
    (hshort : ∀ digits, Denotes (headers.getAll FieldName.contentLength) digits →
      digits.length ≤ Decimal.maxDigits) (cause : Decimal.Error) :
    decide line headers ≠ .unreadable cause := by
  intro h
  obtain ⟨-, -, digits, hdenotes, hlong, -⟩ := decide_eq_unreadable_iff.mp h
  exact absurd hlong (Nat.not_lt.mpr (hshort digits hdenotes))

end HttpCodec.Framing
