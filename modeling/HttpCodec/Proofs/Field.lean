import HttpCodec.Field.Line
import HttpCodec.Proofs.Field.Name
import HttpCodec.Proofs.Result

set_option autoImplicit false

/-! # Fields that can be written

`Field.check` passes what is `Field.Admissible` (`check_eq_ok_iff`), and `Field.Sound` says what
holds of the field that it gives. A number is admissible only if it is written. A sound field makes a
line that is read as the same name and value (`read_octets`), which are checked again and give the
same field (`check_of_sound`).
-/

namespace HttpCodec

open CharClass (isSpaceOrTab isForbiddenControl)

namespace Field

/-- A field that a line can hold: the name is a token in normal form, and the value is plain text
without blanks around it. -/
structure Sound (f : Field) : Prop where
  token : FieldName.isToken f.name = true
  normal : FieldName.normalize f.name = f.name
  trimmed : Trimmed isSpaceOrTab f.value
  plain : Latin.Plain f.value

/-- There are no blanks around digits. -/
theorem trimmed_of_isDigit {t : Text} (h : ∀ c ∈ t, c.isDigit) : Trimmed isSpaceOrTab t :=
  trimmed_of_forall fun c hc => Latin.isSpaceOrTab_of_isDigit (h c hc)

/-- A field that declares a length in digits is sound. -/
theorem sound_of_digits {digits : Text} (h : ∀ c ∈ digits, c.isDigit) :
    Sound ⟨FieldName.contentLength, digits⟩ := by
  have htoken : FieldName.isToken FieldName.contentLength = true := by decide
  exact ⟨htoken, FieldName.normalize_contentLength, trimmed_of_isDigit h, Latin.plain_of_isDigit h⟩

/-- A sound field has a known name if the lower case is that of the name. -/
theorem Sound.name_eq_iff {f : Field} (h : f.Sound) {known : Text}
    (hknown : FieldName.normalize known = known) :
    f.name = known ↔ LetterCase.lower f.name = LetterCase.lower known :=
  FieldName.eq_iff_lower_eq h.normal hknown

/-- How long the line of a field is, without its end. -/
def size (f : Field) : Nat := f.name.length + 2 + f.value.length

/-! ## Fields that were checked -/

/-- The text of a value: what is left without the blanks around it, or the digits of a number that is
short. -/
inductive Written : FieldValue → Text → Prop
  | text (t : Text) : Written (.text t) (trim isSpaceOrTab t)
  | number {n : Int} (hshort : Decimal.Short n) : Written (.number n) (Decimal.ofInt n)

theorem trimmed_eq_ok_iff {value : FieldValue} {t : Text} :
    value.trimmed = .ok t ↔ Written value t := by
  cases value with
  | text u =>
      constructor
      · rintro ⟨⟩
        exact .text u
      · rintro ⟨⟩
        rfl
  | number n =>
      constructor
      · intro h
        obtain ⟨hshort, rfl⟩ := Decimal.write_eq_ok_iff.mp h
        exact .number hshort
      · intro h
        cases h with
        | number hshort => exact Decimal.write_eq_ok_iff.mpr ⟨hshort, rfl⟩

/-- Text without blanks around it is left as it is. -/
theorem written_of_trimmed {t : Text} (h : Trimmed isSpaceOrTab t) : Written (.text t) t := by
  have htext := Written.text t
  rwa [trim_of_trimmed h] at htext

/-- Blanks are trimmed off text, and numbers have none. -/
theorem Written.trimmed {value : FieldValue} {t : Text} (h : Written value t) :
    Trimmed isSpaceOrTab t := by
  cases h with
  | text u => exact trimmed_trim isSpaceOrTab u
  | number hshort =>
      unfold Decimal.ofInt
      split_ifs with hneg
      · refine trimmed_of_forall (List.forall_mem_cons.mpr ⟨by decide, fun c hc => ?_⟩)
        exact Latin.isSpaceOrTab_of_isDigit (Decimal.isDigit_of_mem_ofNat hc)
      · exact trimmed_of_isDigit fun c hc => Decimal.isDigit_of_mem_ofNat hc

/-- A name and a value that make a field: the name is a token, the value has a text, which is plain
without the blanks around it, and the line is not too long. -/
structure Admissible (limit : Int) (name : Text) (value : FieldValue) (t : Text) : Prop where
  token : FieldName.isToken name = true
  written : Written value t
  plain : Latin.Plain t
  fits : (name.length : Int) + 2 + t.length ≤ limit

/-- What is checked of a value is that it is plain. -/
theorem plain_iff {t : Text} :
    Latin.Plain t ↔ ¬ t.any isForbiddenControl = true ∧ t.all Latin.isLatin = true := by
  simp only [Latin.Plain, List.any_eq_true, List.all_eq_true, not_exists, not_and,
    Bool.not_eq_true]
  rw [and_comm, ← forall₂_and]

/-- **A check passes exactly what is admissible**, and gives it in normal form. -/
theorem check_eq_ok_iff {limit : Int} {name : Text} {value : FieldValue} {f : Field} :
    check limit name value = .ok f ↔
      ∃ t, Admissible limit name value t ∧ f = ⟨FieldName.normalize name, t⟩ := by
  constructor
  · intro h
    simp only [check] at h
    split_ifs at h with htoken
    split at h
    · cases h
    next t hwritten =>
      split_ifs at h with hcontrol hlatin hlen
      cases h
      exact ⟨t, ⟨by simpa using htoken, trimmed_eq_ok_iff.mp hwritten,
        plain_iff.mpr ⟨hcontrol, by simpa using hlatin⟩, by omega⟩, rfl⟩
  · rintro ⟨t, ⟨htoken, hwritten, hplain, hfits⟩, rfl⟩
    have hwritten := trimmed_eq_ok_iff.mpr hwritten
    obtain ⟨hcontrol, hlatin⟩ := plain_iff.mp hplain
    have hshort : ¬ ((name.length : Int) + 2 + t.length > limit) := by omega
    simp only [check, htoken, hwritten, Bool.not_true, Bool.false_eq_true, if_false,
      if_neg hcontrol, hlatin, if_neg hshort]

/-- A token and a plain value make a field, if there is room for it. -/
theorem check_of_plain {limit : Int} {name t : Text} {value : FieldValue}
    (htoken : FieldName.isToken name = true) (hwritten : Written value t)
    (hplain : Latin.Plain t) :
    check limit name value =
      if (name.length : Int) + 2 + t.length ≤ limit then .ok ⟨FieldName.normalize name, t⟩
      else .error (.tooLong name limit) := by
  split_ifs with hfits
  · exact check_eq_ok_iff.mpr ⟨t, ⟨htoken, hwritten, hplain, hfits⟩, rfl⟩
  · have hwritten := trimmed_eq_ok_iff.mpr hwritten
    obtain ⟨hcontrol, hlatin⟩ := plain_iff.mp hplain
    simp only [check, htoken, hwritten, Bool.not_true, Bool.false_eq_true, if_false,
      if_neg hcontrol, hlatin, if_pos (not_le.mp hfits)]

/-- **A field that was checked is sound**, and its line is not too long. -/
theorem sound_of_check {limit : Int} {name : Text} {value : FieldValue} {f : Field}
    (h : check limit name value = .ok f) :
    f.Sound ∧ f.size ≤ limit ∧ f.name = FieldName.normalize name ∧
      Written value f.value := by
  obtain ⟨t, ⟨htoken, hwritten, hplain, hfits⟩, rfl⟩ := check_eq_ok_iff.mp h
  refine ⟨⟨FieldName.isToken_normalize htoken, FieldName.normalize_normalize htoken,
    hwritten.trimmed, hplain⟩, ?_, rfl, hwritten⟩
  unfold size
  rw [FieldName.length_normalize htoken]
  push_cast
  exact hfits

/-- A limit that the line keeps has no part in a check. -/
theorem check_of_le {limit limit' : Int} {name t : Text} {value : FieldValue}
    (hwritten : Written value t) (hfits : (name.length : Int) + 2 + t.length ≤ limit)
    (hle : limit ≤ limit') : check limit' name value = check limit name value := by
  simp only [check, trimmed_eq_ok_iff.mpr hwritten,
    if_neg (show ¬ (name.length : Int) + 2 + t.length > limit by omega),
    if_neg (show ¬ (name.length : Int) + 2 + t.length > limit' by omega)]

/-- A field that was checked has the name that was given. -/
theorem lower_of_check {limit : Int} {name : Text} {value : FieldValue} {f : Field}
    (h : check limit name value = .ok f) : LetterCase.lower f.name = LetterCase.lower name := by
  obtain ⟨t, hadmissible, rfl⟩ := check_eq_ok_iff.mp h
  exact FieldName.lower_normalize hadmissible.token

/-- A sound field is checked again with the same result, blanks in front of its value or not. -/
theorem check_of_sound {f : Field} (h : f.Sound) {limit : Int} (hlen : f.size ≤ limit) :
    check limit f.name (.text (' ' :: f.value)) = .ok f := by
  have hwritten : Written (.text (' ' :: f.value)) f.value := by
    have htext := Written.text (' ' :: f.value)
    rwa [trim_cons (by decide), trim_of_trimmed h.trimmed] at htext
  have hfits : (f.name.length : Int) + 2 + f.value.length ≤ limit := by
    unfold size at hlen
    push_cast at hlen
    exact hlen
  exact check_eq_ok_iff.mpr ⟨f.value, ⟨h.token, hwritten, h.plain, hfits⟩, by rw [h.normal]⟩

/-! ## Lines -/

/-- The octets of the line of a field, without its end. -/
def octets (f : Field) : Octets := Latin.octets (f.name ++ ": " ++ f.value)

theorem length_octets (f : Field) : f.octets.length = f.size := by
  unfold octets size
  rw [Latin.length_octets, List.length_append, List.length_append]
  rfl

theorem plain_of_token {t : Text} (h : FieldName.isToken t = true) : Latin.Plain t := by
  refine Latin.plain_of_visible fun c hc => ?_
  -- tokens are ASCII, so a decision over ASCII is enough
  have hall : ∀ d : Char, d.toNat < 0x80 → FieldName.isTokenChar d = true →
      0x20 ≤ d.toNat ∧ d.toNat ≤ 0x7E := fun d hd =>
    Latin.forall_ascii
      (P := fun d => FieldName.isTokenChar d = true → 0x20 ≤ d.toNat ∧ d.toNat ≤ 0x7E) (by decide) hd
  simp only [FieldName.isToken, Bool.and_eq_true, List.all_eq_true] at h
  exact hall c (FieldName.toNat_lt_of_isTokenChar (h.2 c hc)) (h.2 c hc)

theorem Sound.plain_line {f : Field} (h : f.Sound) : Latin.Plain (f.name ++ ": " ++ f.value) :=
  ((plain_of_token h.token).append (Latin.plain_of_all (by decide))).append h.plain

/-- A field is written as its line. -/
theorem encode_line {f : Field} (h : f.Sound) : Latin.encode f.line = .ok (f.octets ++ lineEnd) :=
  h.plain_line.encode_line

theorem octets_ne_nil (f : Field) : f.octets ≠ [] := by
  intro hnil
  have hlen := f.length_octets
  rw [hnil] at hlen
  unfold size at hlen
  rw [List.length_nil] at hlen
  omega

end Field

/-- **What is read off a line** stands on either side of its first colon. -/
theorem FieldLine.eq_of_read {line : Octets} {name value : Text}
    (h : FieldLine.read line = .ok (name, value)) :
    colon ∈ line ∧ name = Latin.decode (cut colon line).1 ∧
      value = Latin.decode (cut colon line).2 := by
  simp only [FieldLine.read, Latin.decodeAscii] at h
  split_ifs at h with _ hmalformed
  simp only [Bool.or_eq_true, not_or] at hmalformed
  have hcolon : colon ∈ line := by simpa using hmalformed.2
  split at h
  · cases h
  next hascii =>
    split at hascii
    · cases hascii
      cases h
      exact ⟨hcolon, rfl, rfl⟩
    · cases hascii

/-- The first octet of a token is neither a blank nor a colon, and neither is any other. -/
theorem FieldLine.not_mem_octets {t : Text} (h : FieldName.isToken t = true) {b : UInt8}
    (hb : b = FieldLine.space ∨ b = FieldLine.tab ∨ b = FieldLine.colon) :
    b ∉ Latin.octets t := by
  intro hmem
  obtain ⟨c, hc, rfl⟩ := List.mem_map.mp hmem
  have hall : ∀ d : Char, d.toNat < 0x80 → FieldName.isTokenChar d = true →
      ¬ (d.toUInt8 = FieldLine.space ∨ d.toUInt8 = FieldLine.tab ∨ d.toUInt8 = FieldLine.colon) :=
    fun d hd => Latin.forall_ascii (P := fun d => FieldName.isTokenChar d = true →
      ¬ (d.toUInt8 = FieldLine.space ∨ d.toUInt8 = FieldLine.tab ∨ d.toUInt8 = FieldLine.colon))
      (by decide) hd
  simp only [FieldName.isToken, Bool.and_eq_true, List.all_eq_true] at h
  exact hall c (FieldName.toNat_lt_of_isTokenChar (h.2 c hc)) (h.2 c hc) hb

/-- **A token, a colon and anything behind it** are read as a name and a value. -/
theorem FieldLine.read_of_token {name : Text} (h : FieldName.isToken name = true) (rest : Octets) :
    FieldLine.read (Latin.octets name ++ colon :: rest) = .ok (name, Latin.decode rest) := by
  have hcut : cut colon (Latin.octets name ++ colon :: rest) = (Latin.octets name, rest) :=
    cut_append (not_mem_octets h (Or.inr (Or.inr rfl))) rest
  have hne : Latin.octets name ≠ [] := by
    intro hnil
    rw [List.map_eq_nil_iff.mp hnil] at h
    cases h
  -- the line begins with the name, so it is no continuation
  have hhead : ∀ b, b = space ∨ b = tab →
      (Latin.octets name ++ colon :: rest).head? ≠ some b := by
    intro b hb hsome
    rw [List.head?_append_of_ne_nil _ hne] at hsome
    exact not_mem_octets h (hb.imp id Or.inl) (List.mem_of_mem_head? hsome)
  have hfolded : ¬ ((Latin.octets name ++ colon :: rest).head? = some space ∨
      (Latin.octets name ++ colon :: rest).head? = some tab) := by
    rintro (hsome | hsome)
    · exact hhead space (Or.inl rfl) hsome
    · exact hhead tab (Or.inr rfl) hsome
  have hcolon : (Latin.octets name ++ colon :: rest).contains colon = true := by simp
  have hempty : (Latin.octets name).isEmpty = false := by simpa using hne
  simp only [FieldLine.read, if_neg hfolded, hcut, hcolon, hempty, Bool.not_true, Bool.or_self,
    Bool.false_eq_true, if_false, Latin.decodeAscii_octets (FieldName.ascii_of_isToken h)]

/-- **The line of a sound field is read as its name and its value**, with the space in front. -/
theorem FieldLine.read_octets {f : Field} (h : f.Sound) :
    FieldLine.read f.octets = .ok (f.name, ' ' :: f.value) := by
  have hoctets : f.octets = Latin.octets f.name ++ colon :: Latin.octets (' ' :: f.value) := by
    unfold Field.octets
    rw [Latin.octets_append, Latin.octets_append, List.append_assoc]
    rfl
  have hlatin : ∀ c ∈ ' ' :: f.value, Latin.isLatin c = true := by
    intro c hc
    rcases List.mem_cons.mp hc with rfl | hc
    · decide
    · exact h.plain.latin c hc
  rw [hoctets, read_of_token h.token, Latin.decode_octets hlatin]

end HttpCodec
