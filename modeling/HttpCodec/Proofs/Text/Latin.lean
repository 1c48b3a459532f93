import HttpCodec.Text.CharClass
import HttpCodec.Text.Latin
import HttpCodec.Line
import Mathlib.Tactic

set_option autoImplicit false

/-! # Text that can stand on a line

Text that is plain, that is, Latin-1 without control characters other than tabs, can be written as
octets, holds no line end, and reads back from its octets (`decode_octets`).
-/

namespace HttpCodec.Latin

/-- The octets of a text whose characters all have one. -/
def octets (t : Text) : Octets := t.map Char.toUInt8

@[simp] theorem octets_nil : octets [] = [] := rfl

@[simp] theorem octets_cons (c : Char) (t : Text) : octets (c :: t) = c.toUInt8 :: octets t := rfl

@[simp] theorem octets_append (t u : Text) : octets (t ++ u) = octets t ++ octets u :=
  List.map_append

@[simp] theorem length_octets (t : Text) : (octets t).length = t.length := List.length_map _

theorem toNat_toUInt8 {c : Char} (hc : isLatin c = true) : c.toUInt8.toNat = c.toNat := by
  have hlt : c.toNat < 256 := of_decide_eq_true hc
  show c.toNat % 256 = c.toNat
  exact Nat.mod_eq_of_lt hlt

theorem ofUInt8_toUInt8 {c : Char} (hc : isLatin c = true) : Char.ofUInt8 c.toUInt8 = c := by
  apply Char.ext
  apply UInt32.toNat_inj.mp
  exact toNat_toUInt8 hc

theorem encode_of_latin {t : Text} (h : ∀ c ∈ t, isLatin c = true) : encode t = .ok (octets t) := by
  have hdrop : t.dropWhile isLatin = [] := by
    induction t with
    | nil => rfl
    | cons c t ih =>
        rw [List.dropWhile_cons_of_pos (h c List.mem_cons_self)]
        exact ih fun d hd => h d (List.mem_cons_of_mem c hd)
  simp only [encode, hdrop]
  rfl

/-- **Text reads back from its octets.** -/
theorem decode_octets {t : Text} (h : ∀ c ∈ t, isLatin c = true) : decode (octets t) = t := by
  induction t with
  | nil => rfl
  | cons c t ih =>
      have hc := ofUInt8_toUInt8 (h c List.mem_cons_self)
      have ht := ih fun d hd => h d (List.mem_cons_of_mem c hd)
      simp only [octets_cons, decode, List.map_cons, hc]
      exact congrArg (c :: ·) ht

/-- Decoded octets hold characters that have an octet, the one they were. -/
theorem isLatin_of_mem_decode {b : Octets} {c : Char} (hc : c ∈ decode b) : isLatin c = true := by
  obtain ⟨o, -, rfl⟩ := List.mem_map.mp hc
  exact isLatin_ofUInt8 o

theorem octets_decode (b : Octets) : octets (decode b) = b := by
  simp [octets, decode, List.map_map, Function.comp_def, toUInt8_ofUInt8]

/-! ## ASCII -/

theorem isLatin_of_lt {c : Char} (hc : c.toNat < 0x80) : isLatin c = true :=
  decide_eq_true (by omega)

/-- The letters and digits are those of ASCII. -/
theorem toNat_lt_of_isAlphanum {c : Char} (h : c.isAlphanum = true) : c.toNat < 0x80 := by
  delta Char.isAlphanum Char.isAlpha Char.isUpper Char.isLower Char.isDigit at h
  simp only [Bool.or_eq_true, Bool.and_eq_true, decide_eq_true_eq, UInt32.le_iff_toNat_le] at h
  show c.val.toNat < 0x80
  rcases h with (⟨_, h⟩ | ⟨_, h⟩) | ⟨_, h⟩
  · exact lt_of_le_of_lt h (by decide)
  · exact lt_of_le_of_lt h (by decide)
  · exact lt_of_le_of_lt h (by decide)

/-- What holds of the first 128 characters holds of ASCII. -/
theorem forall_ascii {P : Char → Prop} (h : ∀ n < 0x80, P (Char.ofNat n)) {c : Char}
    (hc : c.toNat < 0x80) : P c := by
  have := h c.toNat hc
  rwa [Char.ofNat_toNat] at this

theorem decodeAscii_octets {t : Text} (h : ∀ c ∈ t, c.toNat < 0x80) :
    decodeAscii (octets t) = .ok t := by
  have hlatin : ∀ c ∈ t, isLatin c = true := fun c hc => isLatin_of_lt (h c hc)
  have hdrop : (octets t).dropWhile (· < 0x80) = [] := by
    clear hlatin
    induction t with
    | nil => rfl
    | cons c t ih =>
        have hc := h c List.mem_cons_self
        have hlt : c.toUInt8 < 0x80 := by
          rw [UInt8.lt_iff_toNat_lt, toNat_toUInt8 (isLatin_of_lt hc)]
          exact hc
        rw [octets_cons, List.dropWhile_cons_of_pos (by simpa using hlt)]
        exact ih fun d hd => h d (List.mem_cons_of_mem c hd)
  simp only [decodeAscii, hdrop, decode_octets hlatin]

/-- Digits are not trimmed. -/
theorem isSpaceOrTab_of_isDigit {c : Char} (h : c.isDigit) : CharClass.isSpaceOrTab c = false := by
  obtain ⟨d, rfl⟩ := Digit.exists_eq_digitChar_of_isDigit h
  revert d
  decide

/-! ## Plain text -/

/-- Tells that a text can stand on a line. -/
def Plain (t : Text) : Prop :=
  ∀ c ∈ t, isLatin c = true ∧ CharClass.isForbiddenControl c = false

theorem Plain.latin {t : Text} (h : Plain t) : ∀ c ∈ t, isLatin c = true := fun c hc => (h c hc).1

theorem Plain.append {t u : Text} (ht : Plain t) (hu : Plain u) : Plain (t ++ u) := by
  intro c hc
  rcases List.mem_append.mp hc with hc | hc
  · exact ht c hc
  · exact hu c hc

/-- Visible ASCII characters and the space can stand on a line. -/
theorem plain_of_visible {t : Text} (h : ∀ c ∈ t, 0x20 ≤ c.toNat ∧ c.toNat ≤ 0x7E) : Plain t := by
  intro c hc
  obtain ⟨hlo, hhi⟩ := h c hc
  have hdelete : c ≠ '\x7f' := by
    rintro rfl
    exact absurd hhi (by decide)
  refine ⟨isLatin_of_lt (by omega), ?_⟩
  simp only [CharClass.isForbiddenControl, Bool.or_eq_false_iff, Bool.and_eq_false_iff,
    decide_eq_false_iff_not]
  exact ⟨Or.inl (by omega), hdelete⟩

/-- A check of a given text, character by character. -/
theorem plain_of_all {t : Text} (h : t.all (fun c => 0x20 ≤ c.toNat && c.toNat ≤ 0x7E) = true) :
    Plain t := by
  refine plain_of_visible fun c hc => ?_
  simpa using List.all_eq_true.mp h c hc

theorem plain_of_isDigit {t : Text} (h : ∀ c ∈ t, c.isDigit) : Plain t := by
  refine plain_of_visible fun c hc => ?_
  obtain ⟨d, hd⟩ := Digit.exists_eq_digitChar_of_isDigit (h c hc)
  rw [hd]
  clear hd
  revert d
  decide

/-- An octet of a plain text is no control character of ASCII, unless it is a tab. -/
theorem Plain.not_mem {t : Text} (h : Plain t) {b : UInt8} (hb : b.toNat < 0x20) (htab : b ≠ 0x09) :
    b ∉ octets t := by
  intro hmem
  obtain ⟨c, hc, rfl⟩ := List.mem_map.mp hmem
  obtain ⟨hlatin, hplain⟩ := h c hc
  rw [toNat_toUInt8 hlatin] at hb
  have hne : c ≠ '\t' := by
    rintro rfl
    exact htab rfl
  simp [CharClass.isForbiddenControl, hb, hne] at hplain

theorem Plain.not_mem_CR {t : Text} (h : Plain t) : CR ∉ octets t :=
  h.not_mem (by decide) (by decide)

theorem Plain.not_mem_LF {t : Text} (h : Plain t) : LF ∉ octets t :=
  h.not_mem (by decide) (by decide)

/-- A plain text is written on a line as its octets. -/
theorem Plain.encode_line {t : Text} (h : Plain t) :
    encode (t ++ "\r\n") = .ok (octets t ++ lineEnd) := by
  have hends : ("\r\n" : Text).all isLatin = true := by decide
  have hlatin : ∀ c ∈ t ++ "\r\n", isLatin c = true := by
    intro c hc
    rcases List.mem_append.mp hc with hc | hc
    · exact h.latin c hc
    · exact List.all_eq_true.mp hends c hc
  rw [encode_of_latin hlatin, octets_append]
  rfl

end HttpCodec.Latin
