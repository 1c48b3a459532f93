import HttpCodec.Framing
import HttpCodec.Proofs.Text
import HttpCodec.Proofs.Text.Latin

set_option autoImplicit false

/-! # What heads decide

The cases of `Framing.decide` that a message in its own words falls into. A decision depends only
on the start line and on the values of the two fields that declare a coding and a length.
-/

namespace HttpCodec.Framing

variable {line : StartLine} {headers : Fields}

/-- A body is announced only where the start line allows one. -/
theorem allowsBody_of_decide (hempty : decide line headers ≠ .empty)
    (hrefused : ∀ cause, decide line headers ≠ .refused cause) : line.allowsBody = true := by
  by_contra hno
  by_cases hboth : (!(headers.getAll FieldName.transferEncoding).isEmpty &&
      !(headers.getAll FieldName.contentLength).isEmpty) = true
  · exact hrefused .bothDeclared (by simp only [decide, if_pos hboth])
  · exact hempty (by simp [decide, hboth, hno])

/-- Without a length the coding decides. -/
theorem decide_of_coding {coding : Text} (hallows : line.allowsBody = true)
    (hcoding : (headers.getAll FieldName.transferEncoding).getLast? = some coding)
    (hlength : headers.getAll FieldName.contentLength = []) :
    decide line headers = ofCoding line.kind coding := by
  simp [decide, hallows, hcoding, hlength]

/-- Without a coding the length decides. -/
theorem decide_of_lengths (hallows : line.allowsBody = true)
    (hcoding : headers.getAll FieldName.transferEncoding = [])
    (hlength : headers.getAll FieldName.contentLength ≠ []) :
    decide line headers = ofLengths (headers.getAll FieldName.contentLength) := by
  simp [decide, hallows, hcoding, hlength]

theorem decide_of_nothing (hallows : line.allowsBody = true)
    (hcoding : headers.getAll FieldName.transferEncoding = [])
    (hlength : headers.getAll FieldName.contentLength = []) :
    decide line headers = ofNothing line := by
  simp [decide, hallows, hcoding, hlength]

/-- The methods whose requests have a body. -/
def TakesBody (method : Text) : Prop := method = "POST" ∨ method = "PUT" ∨ method = "PATCH"

instance : DecidablePred TakesBody := fun _ => inferInstanceAs (Decidable (_ ∨ _ ∨ _))

theorem mem_methodsWithBody_iff {method : Text} : method ∈ methodsWithBody ↔ TakesBody method := by
  simp [methodsWithBody, TakesBody]

/-- Of a request that declares nothing, the method decides. -/
theorem ofNothing_of_request (l : RequestLine) :
    ofNothing (.request l) =
      if TakesBody l.method then .refused (.lengthRequired l.method) else .empty := by
  simp only [ofNothing, List.contains_iff_mem, mem_methodsWithBody_iff]

/-- A response that declares nothing goes on until the input ends. -/
theorem ofNothing_of_response (h : line.kind = .response) : ofNothing line = .untilClose := by
  cases line with
  | request l => cases h
  | response l => rfl

/-- So does a response whose final coding is not chunked. -/
theorem ofCoding_of_response {coding : Text} (h : line.kind = .response)
    (hcoding : TransferCoding.isChunked coding = false) : ofCoding line.kind coding = .untilClose := by
  simp [ofCoding, h, hcoding]

/-- A start line that allows no body decides, unless both a coding and a length are declared. -/
theorem decide_of_not_allowsBody (hallows : line.allowsBody = false)
    (hboth : headers.getAll FieldName.transferEncoding = [] ∨
      headers.getAll FieldName.contentLength = []) : decide line headers = .empty := by
  rcases hboth with h | h <;> simp [decide, hallows, h]

/-- A value of digits only lists itself. -/
theorem declaredLengths_of_isDigit {digits : Text} (h : ∀ c ∈ digits, c.isDigit) :
    declaredLengths [digits] = [digits] := by
  have hcomma : ',' ∉ digits := fun hmem => absurd (h ',' hmem) (by decide)
  have htrim : trim CharClass.isSpaceOrTab digits = digits :=
    trim_eq_self fun c hc => Latin.isSpaceOrTab_of_isDigit (h c hc)
  simp [declaredLengths, splitOn_eq_singleton hcomma, htrim]

/-- **The length that a writer declares is the one that is decided.** -/
theorem ofLengths_ofNat {n : Nat} (hn : n < 16 ^ 16) :
    ofLengths [Decimal.ofNat n] = if n = 0 then .empty else .length n := by
  have hdeclared : declaredLengths [Decimal.ofNat n] = [Decimal.ofNat n] :=
    declaredLengths_of_isDigit fun _ hc => Decimal.isDigit_of_mem_ofNat hc
  have hdigits : Digit.allAsciiDigits (Decimal.ofNat n) = true := by
    have hne : (Decimal.ofNat n).isEmpty = false := by simpa using Decimal.ofNat_ne_nil n
    have hall : (Decimal.ofNat n).all Char.isDigit = true :=
      List.all_eq_true.mpr fun c hc => Decimal.isDigit_of_mem_ofNat hc
    simp only [Digit.allAsciiDigits, hne, hall, Bool.not_false, Bool.and_self]
  have hread : Decimal.read (Decimal.ofNat n) = .ok n := by
    refine Decimal.read_ofNat ?_
    have hshort : (Decimal.ofNat n).length ≤ 20 :=
      (Nat.length_toDigits_le_iff (by decide) (by decide)).mpr (by omega)
    exact le_trans hshort (by decide)
  simp only [ofLengths, hdeclared, hdigits, hread, List.any_nil, Bool.not_true, Bool.false_eq_true,
    if_false, Int.natCast_eq_zero, Int.toNat_natCast]

/-- So a head that declares one length as a writer does, and no coding, decides for that length. -/
theorem decide_of_ofNat {n : Nat} (hallows : line.allowsBody = true)
    (hcoding : headers.getAll FieldName.transferEncoding = [])
    (hlength : headers.getAll FieldName.contentLength = [Decimal.ofNat n]) (hn : n < 16 ^ 16) :
    decide line headers = if n = 0 then .empty else .length n := by
  rw [decide_of_lengths hallows hcoding (by simp [hlength]), hlength]
  exact ofLengths_ofNat hn

/-- What declared lengths decide, with the number that the digits write. -/
theorem ofLengths_eq (values : List Text) :
    ofLengths values =
      match declaredLengths values with
      | [] => .refused (.conflictingLengths values)
      | length :: others =>
          if others.any (· ≠ length) then .refused (.conflictingLengths values)
          else if !Digit.allAsciiDigits length then .refused (.invalidLength length)
          else if Decimal.maxDigits < length.length then .unreadable (.tooLong length.length)
          else if Nat.ofDigitChars 10 length 0 = 0 then .empty
          else .length (Nat.ofDigitChars 10 length 0) := by
  unfold ofLengths
  cases declaredLengths values with
  | nil => rfl
  | cons length others =>
      simp only
      split_ifs with hothers hdigits
      · rfl
      · rfl
      all_goals
        have hall : Digit.allAsciiDigits length = true := by simpa using hdigits
        simp only [Digit.allAsciiDigits, Bool.and_eq_true, Bool.not_eq_true',
          List.isEmpty_eq_false_iff, List.all_eq_true] at hall
        rw [Decimal.read_of_isDigit hall.1 hall.2]
      · rw [if_neg (by omega)]
      next hshort hzero => simp [Nat.not_lt.mp hshort, hzero]
      next hshort hzero =>
        rw [if_pos (Nat.not_lt.mp hshort)]
        simp only [Int.natCast_eq_zero, hzero, if_false, Int.toNat_natCast]

/-- Only declared lengths decide for a length, or for one that cannot be read. -/
theorem ofLengths_of_decide {d : Decision} (h : decide line headers = d)
    (hd : (∃ n, d = .length n) ∨ ∃ cause, d = .unreadable cause) :
    ofLengths (headers.getAll FieldName.contentLength) = d := by
  unfold decide at h
  dsimp only at h
  split at h
  · subst h
    simp at hd
  · split at h
    · subst h
      simp at hd
    · split at h
      · unfold ofCoding at h
        split_ifs at h
        · subst h
          simp at hd
        · split at h <;> (subst h; simp at hd)
      · split at h
        · unfold ofNothing at h
          split at h
          · subst h
            simp at hd
          · split_ifs at h <;> (subst h; simp at hd)
        · exact h

/-- A body of declared length is not empty. -/
theorem ne_zero_of_decide {n : Nat} (h : decide line headers = .length n) : n ≠ 0 := by
  have hlengths := ofLengths_of_decide h (.inl ⟨n, rfl⟩)
  rw [ofLengths_eq] at hlengths
  split at hlengths
  · cases hlengths
  · split_ifs at hlengths with _ _ _ hzero
    cases hlengths
    exact hzero

end HttpCodec.Framing
