import HttpCodec.Proofs.Field
import HttpCodec.StartLine

set_option autoImplicit false

/-! # Start lines that can be written

`StartLine.Sound` says what is checked of the parts of a start line. A sound line holds no line end
and is read as itself (`read_text`), whether the reader knows the kind of the message or has to
tell it from the line.
-/

namespace HttpCodec

/-- Tells that a character is visible ASCII. -/
def Visible (c : Char) : Prop := 0x21 ≤ c.toNat ∧ c.toNat ≤ 0x7E

/-- A request line whose method is a token and whose target is visible ASCII; the path is not
empty and ends where the query begins. -/
structure RequestLine.Sound (l : RequestLine) : Prop where
  method : FieldName.isToken l.method = true
  path : l.path ≠ []
  unqueried : '?' ∉ l.path
  visiblePath : ∀ c ∈ l.path, Visible c
  visibleQuery : ∀ c ∈ l.query, Visible c

/-- A status line with a valid status and a reason phrase that can be written. -/
structure StatusLine.Sound (l : StatusLine) : Prop where
  status : Status.isValid l.status = true
  reason : StartLine.isReason l.reason = true

/-- A start line that can be written. -/
def StartLine.Sound : StartLine → Prop
  | .request l => l.Sound
  | .response l => l.Sound

namespace StartLine

theorem isTarget_iff {t : Text} : isTarget t = true ↔ t ≠ [] ∧ ∀ c ∈ t, Visible c := by
  unfold isTarget Visible
  simp [List.all_eq_true]

theorem plain_of_visible {t : Text} (h : ∀ c ∈ t, Visible c) : Latin.Plain t :=
  Latin.plain_of_visible fun c hc => ⟨Nat.le_of_succ_le (h c hc).1, (h c hc).2⟩

theorem not_mem_space {t : Text} (h : ∀ c ∈ t, Visible c) : ' ' ∉ t :=
  fun hmem => absurd (h ' ' hmem).1 (by decide)

theorem plain_of_isReason {t : Text} (h : isReason t = true) : Latin.Plain t := by
  unfold isReason at h
  simp only [Bool.and_eq_true, Bool.not_eq_true', List.any_eq_false, List.all_eq_true,
    Bool.not_eq_true] at h
  exact fun c hc => ⟨h.2 c hc, h.1 c hc⟩

theorem ofText?_text (v : Version) : Version.ofText? v.text = some v := by
  cases v <;> decide

theorem plain_version (v : Version) : Latin.Plain v.text := by
  cases v <;> exact Latin.plain_of_all (by decide)

theorem not_mem_space_version (v : Version) : ' ' ∉ v.text := by
  cases v <;> decide

/-- A method is not the beginning of a protocol. -/
theorem kindOf_of_method {method : Text} (hmethod : '/' ∉ method) (rest : Text) :
    kindOf (method ++ ' ' :: rest) = .request := by
  -- a text that begins as a protocol does holds a slash before any space
  unfold kindOf
  rw [if_neg]
  intro hprefix
  obtain ⟨more, hmore⟩ := List.isPrefixOf_iff_prefix.mp hprefix
  rcases List.append_eq_append_iff.mp hmore with ⟨tail, heq, _⟩ | ⟨tail, hhttp, htail⟩
  · exact hmethod (by rw [heq]; simp)
  · cases tail with
    | nil =>
        rw [List.append_nil] at hhttp
        exact hmethod (by rw [← hhttp]; decide)
    | cons c tail =>
        -- the space after the method would be part of the protocol
        obtain rfl : ' ' = c := (List.cons.inj htail).1
        have hmem : ' ' ∈ ("HTTP/" : Text) := by
          rw [hhttp]
          simp
        exact absurd hmem (by decide)

theorem kindOf_of_version (v : Version) (rest : Text) : kindOf (v.text ++ rest) = .response := by
  have hfront : ("HTTP/" : Text) <+: v.text := by
    cases v
    · exact ⟨"1.0", rfl⟩
    · exact ⟨"1.1", rfl⟩
  unfold kindOf
  rw [if_pos (List.isPrefixOf_iff_prefix.mpr (hfront.trans (List.prefix_append _ _)))]

end StartLine

/-! ## Request lines -/

namespace RequestLine.Sound

open StartLine

variable {l : RequestLine}

theorem visible_target (h : l.Sound) : ∀ c ∈ l.target, Visible c := by
  intro c hc
  unfold RequestLine.target at hc
  split_ifs at hc with hempty
  · exact h.visiblePath c hc
  · rcases List.mem_append.mp hc with hc | hc
    · rcases List.mem_append.mp hc with hc | hc
      · exact h.visiblePath c hc
      · rw [List.mem_singleton.mp hc]
        exact ⟨by decide, by decide⟩
    · exact h.visibleQuery c hc

theorem isTarget_target (h : l.Sound) : isTarget l.target = true := by
  refine isTarget_iff.mpr ⟨?_, h.visible_target⟩
  intro hnil
  unfold RequestLine.target at hnil
  split_ifs at hnil
  · exact h.path hnil
  · simp at hnil

theorem not_mem_space_method (h : l.Sound) : ' ' ∉ l.method :=
  FieldName.not_mem_of_isToken h.method (by decide)

/-- The target comes apart into the path and the query. -/
theorem cut_target (h : l.Sound) : cut '?' l.target = (l.path, l.query) := by
  unfold RequestLine.target
  split_ifs with hempty
  · rw [cut_of_not_mem h.unqueried, List.isEmpty_iff.mp hempty]
  · have hsplit : l.path ++ "?" ++ l.query = l.path ++ '?' :: l.query := by simp
    rw [hsplit, cut_append h.unqueried]

theorem text_eq (l : RequestLine) :
    l.text = l.method ++ ' ' :: (l.target ++ ' ' :: l.version.text) := by
  unfold RequestLine.text
  simp

theorem plain (h : l.Sound) : Latin.Plain l.text := by
  have hspace : Latin.Plain (" " : Text) := Latin.plain_of_all (by decide)
  unfold RequestLine.text
  exact ((((Field.plain_of_token h.method).append hspace).append
    (plain_of_visible h.visible_target)).append hspace).append (plain_version _)

theorem readRequest_text (h : l.Sound) : readRequest l.text = .ok l := by
  have hsplit : splitOn ' ' l.text = [l.method, l.target, l.version.text] := by
    rw [text_eq, splitOn_append h.not_mem_space_method,
      splitOn_append (not_mem_space h.visible_target),
      splitOn_eq_singleton (not_mem_space_version l.version)]
  have hpath : l.path.isEmpty = false := by simpa using h.path
  simp only [readRequest, hsplit, h.method, h.isTarget_target, ofText?_text, h.cut_target, hpath,
    Bool.not_true, Bool.false_eq_true, if_false]

theorem kindOf_text (h : l.Sound) : kindOf l.text = .request := by
  rw [text_eq]
  exact kindOf_of_method (FieldName.not_mem_of_isToken h.method (by decide)) _

end RequestLine.Sound

/-! ## Status lines -/

namespace StatusLine.Sound

open StartLine

variable {l : StatusLine}

/-- A valid status is written with three digits. -/
theorem exists_digits {status : Int} (h : Status.isValid status = true) :
    ∃ a b c : Char, Decimal.ofInt status = [a, b, c] ∧ a.isDigit ∧ b.isDigit ∧ c.isDigit ∧
      (Nat.ofDigitChars 10 [a, b, c] 0 : Int) = status := by
  unfold Status.isValid at h
  simp only [Bool.and_eq_true, decide_eq_true_eq] at h
  obtain ⟨n, rfl⟩ : ∃ n : Nat, status = n := ⟨status.toNat, by omega⟩
  have hlow : 100 ≤ n := by omega
  have hhigh : n < 1000 := by omega
  -- a number from 100 to 999 has three digits
  have hlen : (Decimal.ofNat n).length = 3 := by
    have hle : (Decimal.ofNat n).length ≤ 3 :=
      (Nat.length_toDigits_le_iff (by decide) (by decide)).mpr (by omega)
    have hgt : ¬ (Decimal.ofNat n).length ≤ 2 := by
      intro htwo
      have := (Nat.length_toDigits_le_iff (b := 10) (by decide) (by decide)).mp htwo
      omega
    omega
  obtain ⟨a, b, c, habc⟩ := List.length_eq_three.mp hlen
  have hdigit : ∀ d ∈ [a, b, c], d.isDigit := fun d hd =>
    Decimal.isDigit_of_mem_ofNat (habc ▸ hd)
  refine ⟨a, b, c, ?_, hdigit a (by simp), hdigit b (by simp), hdigit c (by simp), ?_⟩
  · unfold Decimal.ofInt
    rw [if_neg (by omega)]
    exact habc
  · rw [← habc]
    exact congrArg Nat.cast Nat.ofDigitChars_ten_toDigits

theorem length_version (v : Version) : v.text.length = 8 := by
  cases v <;> decide

theorem plain (h : l.Sound) : Latin.Plain l.text := by
  have hspace : Latin.Plain (" " : Text) := Latin.plain_of_all (by decide)
  obtain ⟨a, b, c, habc, ha, hb, hc, _⟩ := exists_digits h.status
  have hdigits : Latin.Plain (Decimal.ofInt l.status) := by
    rw [habc]
    refine Latin.plain_of_isDigit fun d hd => ?_
    simp only [List.mem_cons, List.not_mem_nil, or_false] at hd
    rcases hd with rfl | rfl | rfl <;> assumption
  unfold StatusLine.text
  exact ((((plain_version _).append hspace).append hdigits).append hspace).append
    (plain_of_isReason h.reason)

theorem statusParts?_text {a b c : Char} (habc : Decimal.ofInt l.status = [a, b, c])
    (ha : a.isDigit) (hb : b.isDigit) (hc : c.isDigit) :
    statusParts? l.text = some (l.version, [a, b, c], l.reason) := by
  have htext : l.text = l.version.text ++ ' ' :: a :: b :: c :: ' ' :: l.reason := by
    unfold StatusLine.text
    rw [habc]
    simp
  have htake : l.text.take 8 = l.version.text := by
    rw [htext, ← length_version l.version, List.take_left]
  have hdrop : l.text.drop 8 = ' ' :: a :: b :: c :: ' ' :: l.reason := by
    rw [htext, ← length_version l.version, List.drop_left]
  simp only [statusParts?, htake, hdrop, ofText?_text, ha, hb, hc, Bool.and_self, if_true,
    reasonAfterCode, Option.map_some]

theorem readResponse_text (h : l.Sound) : readResponse l.text = .ok l := by
  obtain ⟨a, b, c, habc, ha, hb, hc, hvalue⟩ := exists_digits h.status
  have hplain : l.reason.any CharClass.isForbiddenControl = false := by
    rw [List.any_eq_false]
    intro d hd
    simp [(plain_of_isReason h.reason d hd).2]
  simp only [readResponse, statusParts?_text habc ha hb hc, hvalue, h.status, hplain,
    Bool.not_true, Bool.false_eq_true, if_false]

theorem kindOf_text (l : StatusLine) : kindOf l.text = .response := by
  unfold StatusLine.text
  rw [List.append_assoc, List.append_assoc, List.append_assoc]
  exact kindOf_of_version _ _

end StatusLine.Sound

/-! ## Start lines -/

namespace StartLine

variable {l : StartLine}

theorem Sound.plain (h : l.Sound) : Latin.Plain l.text := by
  cases l with
  | request l => exact RequestLine.Sound.plain h
  | response l => exact StatusLine.Sound.plain h

theorem kindOf_text (h : l.Sound) : kindOf l.text = l.kind := by
  cases l with
  | request l => exact RequestLine.Sound.kindOf_text h
  | response l => exact StatusLine.Sound.kindOf_text l

/-- **A start line that can be written is read as itself.** -/
theorem read_text (h : l.Sound) {kind : Option Kind} (hkind : kind = none ∨ kind = some l.kind) :
    StartLine.read kind l.text = .ok l := by
  have hget : kind.getD (kindOf l.text) = l.kind := by
    rcases hkind with rfl | rfl
    · exact kindOf_text h
    · rfl
  unfold StartLine.read
  rw [hget]
  cases l with
  | request l =>
      show (readRequest l.text).map StartLine.request = .ok (.request l)
      rw [RequestLine.Sound.readRequest_text h]
      rfl
  | response l =>
      show (readResponse l.text).map StartLine.response = .ok (.response l)
      rw [StatusLine.Sound.readResponse_text h]
      rfl

theorem text_ne_nil (l : StartLine) : l.text ≠ [] := by
  cases l with
  | request l => simp [text, RequestLine.text]
  | response l => simp [text, StatusLine.text]

end StartLine

end HttpCodec
