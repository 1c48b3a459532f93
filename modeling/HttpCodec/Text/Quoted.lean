import HttpCodec.Text.Hex
import HttpCodec.Text.Printable

set_option autoImplicit false

/-! # Quoted text

Error messages and reports show text and octets between quotation marks, with escapes for the
characters that would not be visible. The mark is the apostrophe, unless the text holds an
apostrophe and no double quotation mark. Control characters are always escaped, line breaks among
them, so quoted text and quoted octets stay on one line (`le_toNat_of_mem_text`,
`le_toNat_of_mem_octets`).
-/

namespace HttpCodec.Quoted

/-- The apostrophe. -/
def apostrophe : Char := '\x27'

/-- The double quotation mark. -/
def doubleMark : Char := '\x22'

/-- The mark to put around characters. -/
def markFor (t : Text) : Char :=
  if t.contains apostrophe && !t.contains doubleMark then doubleMark else apostrophe

/-- The escape of a character by its code point, as short as the code point allows. -/
def codePoint (c : Char) : Text :=
  if c.toNat < 0x100 then "\\x" ++ Hex.padded 2 (Hex.lower c.toNat)
  else if c.toNat < 0x10000 then "\\u" ++ Hex.padded 4 (Hex.lower c.toNat)
  else "\\U" ++ Hex.padded 8 (Hex.lower c.toNat)

/-- A character as it is written between two `mark`s, where `shown` tells which characters stand
for themselves. -/
def escaped (shown : Char → Bool) (mark c : Char) : Text :=
  if c = mark || c = '\\' then ['\\', c]
  else if c = '\t' then "\\t"
  else if c = '\n' then "\\n"
  else if c = '\r' then "\\r"
  else if shown c then [c]
  else codePoint c

/-- Characters between marks. -/
def between (shown : Char → Bool) (t : Text) : Text :=
  markFor t :: t.flatMap (escaped shown (markFor t)) ++ [markFor t]

/-- Quoted text. -/
def text (t : Text) : Text := between Printable.isPrintable t

/-- Tells whether a character is a visible ASCII character or the space. -/
def isPlainAscii (c : Char) : Bool := 0x20 ≤ c.toNat && c.toNat ≤ 0x7E

/-- Quoted octets: each is shown as the ASCII character it encodes, or escaped. -/
def octets (b : Octets) : Text := 'b' :: between isPlainAscii (b.map Char.ofUInt8)

/-- Items in brackets. -/
def list (items : List Text) : Text := "[" ++ (", " : Text).intercalate items ++ "]"

/-! ## Quotations have no control characters -/

theorem le_toNat_of_mem_of_all {t : Text} (ht : t.all (0x20 ≤ ·.toNat)) {d : Char} (h : d ∈ t) :
    0x20 ≤ d.toNat := by
  simpa using List.all_eq_true.mp ht d h

theorem le_toNat_of_mem_codePoint {c d : Char} (h : d ∈ codePoint c) : 0x20 ≤ d.toNat := by
  simp only [codePoint] at h
  split at h
  · rcases List.mem_append.mp h with hd | hd
    · exact le_toNat_of_mem_of_all (by decide) hd
    · exact Nat.le_trans (by decide) (Hex.le_toNat_of_mem_padded hd)
  · split at h
    all_goals
      rcases List.mem_append.mp h with hd | hd
      · exact le_toNat_of_mem_of_all (by decide) hd
      · exact Nat.le_trans (by decide) (Hex.le_toNat_of_mem_padded hd)

theorem le_toNat_of_mem_escaped {shown : Char → Bool} (hs : ∀ c, shown c → 0x20 ≤ c.toNat)
    {mark c d : Char} (hm : 0x20 ≤ mark.toNat) (h : d ∈ escaped shown mark c) :
    0x20 ≤ d.toNat := by
  simp only [escaped] at h
  split at h
  next hc =>
    simp only [List.mem_cons, List.not_mem_nil, or_false] at h
    rcases h with rfl | rfl
    · decide
    · simp only [Bool.or_eq_true, decide_eq_true_eq] at hc
      rcases hc with rfl | rfl
      · exact hm
      · decide
  · split at h
    · exact le_toNat_of_mem_of_all (by decide) h
    · split at h
      · exact le_toNat_of_mem_of_all (by decide) h
      · split at h
        · exact le_toNat_of_mem_of_all (by decide) h
        · split at h
          next hc => exact List.mem_singleton.mp h ▸ hs c hc
          next => exact le_toNat_of_mem_codePoint h

theorem le_toNat_of_mem_between {shown : Char → Bool} (hs : ∀ c, shown c → 0x20 ≤ c.toNat)
    {t : Text} {d : Char} (h : d ∈ between shown t) : 0x20 ≤ d.toNat := by
  have hm : 0x20 ≤ (markFor t).toNat := by
    simp only [markFor]
    split <;> decide
  simp only [between, List.cons_append, List.mem_cons, List.mem_append, List.mem_flatMap,
    List.not_mem_nil, or_false] at h
  rcases h with rfl | ⟨c, _, h⟩ | rfl
  · exact hm
  · exact le_toNat_of_mem_escaped hs hm h
  · exact hm

/-- Quoted text has no control characters below the space. -/
theorem le_toNat_of_mem_text {t : Text} {d : Char} (h : d ∈ text t) : 0x20 ≤ d.toNat := by
  refine le_toNat_of_mem_between (fun c hc => ?_) h
  simp only [Printable.isPrintable] at hc
  split at hc
  · simpa using hc
  · omega

/-- Quoted octets have no control characters below the space. -/
theorem le_toNat_of_mem_octets {b : Octets} {d : Char} (h : d ∈ octets b) : 0x20 ≤ d.toNat := by
  rcases List.mem_cons.mp h with rfl | h
  · decide
  · refine le_toNat_of_mem_between (fun c hc => ?_) h
    simp only [isPlainAscii, Bool.and_eq_true, decide_eq_true_eq] at hc
    exact hc.1

end HttpCodec.Quoted
