import HttpCodec.TransferCoding
import HttpCodec.Proofs.Text
import HttpCodec.Proofs.Text.Latin

set_option autoImplicit false

/-! # What counts as the chunked coding

A value names the chunked coding (`TransferCoding.Names`) if the element after its last comma,
without the tabs and spaces around it, is `chunked` in some letter case of ASCII. A value is taken
for chunked by a rule that trims more: among the characters that a field can hold, the next line and
the no-break space are blank as well. The main statements are that of plain values those and no
others are taken for chunked that name the coding once these are trimmed, too (`isChunked_iff`), so
that a value that names the coding always is, and one that does not only with such a blank beside
its last element (`NamesWidely.names`).
-/

namespace HttpCodec

namespace LetterCase

/-! ## Lower case in Latin-1 -/

/-- The lower case of a character that has an octet. -/
def lowerLatin (c : Char) : Char :=
  if c.toNat < 0x80 then c.toLower else Char.ofNat (shifted lowerShifts c.toNat)

/-- The lower case of a text that has an octet for each character is taken letter by letter. -/
theorem lowerFrom_of_latin {t : Text} (h : ∀ c ∈ t, Latin.isLatin c = true) (inWord : Bool) :
    lowerFrom inWord t = t.map lowerLatin := by
  induction t generalizing inWord with
  | nil => rfl
  | cons c rest ih =>
      have hc := h c List.mem_cons_self
      have hsigma : c ≠ 'Σ' := by
        rintro rfl
        exact absurd hc (by decide)
      have hdotted : c ≠ '\u0130' := by
        rintro rfl
        exact absurd hc (by decide)
      have hlower : lowerChar c = [lowerLatin c] := by
        unfold lowerChar lowerLatin
        rw [if_neg hdotted]
        split_ifs <;> rfl
      rw [lowerFrom, if_neg hsigma, hlower, ih fun d hd => h d (List.mem_cons_of_mem c hd)]
      rfl

/-- The letters of Latin-1 beyond ASCII have their lower case there, too. -/
theorem shifted_of_latin {n : Nat} (hascii : 0x80 ≤ n) (hlatin : n < 0x100) :
    0x80 ≤ shifted lowerShifts n ∧ shifted lowerShifts n < 0x100 := by
  have hruns : ∀ run ∈ lowerShifts, run.1 < 0x100 →
      0x80 ≤ (run.1 : Int) + run.2.2.2 ∧ (run.2.1 : Int) + run.2.2.2 < 0x100 := by decide +kernel
  unfold shifted
  split
  next first last step distance hfind =>
    have hmember := List.find?_some hfind
    simp only [Bool.and_eq_true, decide_eq_true_eq] at hmember
    have hrun := hruns _ (List.mem_of_find?_eq_some hfind) (by simp only; omega)
    simp only at hrun
    omega
  next => exact ⟨hascii, hlatin⟩

theorem le_toNat_lowerLatin {c : Char} (hc : Latin.isLatin c = true) (hascii : 0x80 ≤ c.toNat) :
    0x80 ≤ (lowerLatin c).toNat := by
  obtain ⟨hlower, hupper⟩ := shifted_of_latin hascii (of_decide_eq_true hc)
  have hvalid : (shifted lowerShifts c.toNat).isValidChar := .inl (by omega)
  rw [lowerLatin, if_neg (by omega), Char.ofNat, dif_pos hvalid]
  exact hlower

/-- Beyond ASCII there are no capitals of ASCII. -/
theorem toLower_of_le {c : Char} (h : 0x80 ≤ c.toNat) : c.toLower = c := by
  have hlarge : ¬ (c.val ≥ 'A'.val ∧ c.val ≤ 'Z'.val) := by
    rintro ⟨-, hz⟩
    have hz : c.toNat ≤ 0x5A := hz
    omega
  exact dif_neg hlarge

/-- A character has an ASCII letter as its lower case in Latin-1 if it does in ASCII. -/
theorem lowerLatin_eq_iff {c d : Char} (hc : Latin.isLatin c = true) (hd : d.toNat < 0x80) :
    lowerLatin c = d ↔ c.toLower = d := by
  by_cases hascii : c.toNat < 0x80
  · rw [lowerLatin, if_pos hascii]
  · have hle : 0x80 ≤ c.toNat := by omega
    rw [toLower_of_le hle]
    constructor
    · intro h
      have hlower := le_toNat_lowerLatin hc hle
      rw [h] at hlower
      omega
    · intro h
      rw [h] at hle
      omega

/-- **The lower case of a Latin-1 text is an ASCII text exactly if it is with only the letters of
ASCII in lower case.** -/
theorem lower_eq_iff {t ascii : Text} (ht : ∀ c ∈ t, Latin.isLatin c = true)
    (hascii : ∀ c ∈ ascii, c.toNat < 0x80) : lower t = ascii ↔ t.map Char.toLower = ascii := by
  rw [lower, lowerFrom_of_latin ht]
  induction t generalizing ascii with
  | nil => rfl
  | cons c t ih =>
      have hc := ht c List.mem_cons_self
      cases ascii with
      | nil => simp
      | cons d ascii =>
          have hhead := lowerLatin_eq_iff hc (hascii d List.mem_cons_self)
          have hrest := ih (fun e he => ht e (List.mem_cons_of_mem c he))
            fun e he => hascii e (List.mem_cons_of_mem d he)
          simp only [List.map_cons, List.cons.injEq, hhead, hrest]

end LetterCase

namespace TransferCoding

variable {value : Text}

/-! ## Naming the coding -/

/-- The last element that a value lists between commas, without the tabs and spaces around it. -/
def lastElement (value : Text) : Text := trim CharClass.isSpaceOrTab (afterLast ',' value)

/-- The last element of a value is `chunked`, in some letter case of ASCII. -/
def Names (value : Text) : Prop := (lastElement value).map Char.toLower = chunked

/-- The blanks beyond ASCII that have an octet: the next line and the no-break space. -/
def isWideBlank (c : Char) : Bool := c = '\u0085' || c = '\u00a0'

/-- Tabs, spaces and the blanks beyond ASCII that have an octet. -/
def isPadding (c : Char) : Bool := CharClass.isSpaceOrTab c || isWideBlank c

/-- The last element of a value is `chunked`, in some letter case of ASCII, once all blanks that
have an octet are off its ends. -/
def NamesWidely (value : Text) : Prop :=
  (trim isPadding (lastElement value)).map Char.toLower = chunked

instance : DecidablePred Names := fun _ => decEq _ _

instance : DecidablePred NamesWidely := fun _ => decEq _ _

/-- What is `chunked` in lower case has no blanks. -/
theorem isPadding_of_toLower {t : Text} (h : t.map Char.toLower = chunked) :
    ∀ c ∈ t, isPadding c = false := by
  have hblank : ∀ c, isPadding c = true → c.toLower ∉ chunked := by
    intro c hc
    simp only [isPadding, CharClass.isSpaceOrTab, isWideBlank, Bool.or_eq_true,
      decide_eq_true_eq] at hc
    rcases hc with (rfl | rfl) | (rfl | rfl) <;> decide
  intro c hc
  by_contra hpadding
  refine hblank c (by simpa using hpadding) ?_
  rw [← h]
  exact List.mem_map_of_mem hc

/-- **A value that names the coding does so with more blanks trimmed.** -/
theorem Names.namesWidely (h : Names value) : NamesWidely value := by
  unfold NamesWidely
  rw [trim_eq_self (isPadding_of_toLower h)]
  exact h

/-- **A value that names the coding only with more blanks trimmed** has such a blank at an end of
its last element. -/
theorem NamesWidely.names (h : NamesWidely value)
    (hwide : Trimmed isWideBlank (lastElement value)) : Names value := by
  have hnarrow := trimmed_trim CharClass.isSpaceOrTab (afterLast ',' value)
  have htrimmed : Trimmed isPadding (lastElement value) := by
    refine ⟨fun c hc => ?_, fun c hc => ?_⟩
    · exact Bool.or_eq_false_iff.mpr ⟨hnarrow.1 c hc, hwide.1 c hc⟩
    · exact Bool.or_eq_false_iff.mpr ⟨hnarrow.2 c hc, hwide.2 c hc⟩
  unfold NamesWidely at h
  rw [trim_of_trimmed htrimmed] at h
  exact h

/-! ## What is taken for chunked -/

/-- Among the characters that a field can hold, the blank ones are these. -/
theorem isBlank_of_plain {c : Char} (hlatin : Latin.isLatin c = true)
    (hcontrol : CharClass.isForbiddenControl c = false) : Blank.isBlank c = isPadding c := by
  have hall : ∀ n < 0x100, CharClass.isForbiddenControl (Char.ofNat n) = false →
      Blank.isBlank (Char.ofNat n) = isPadding (Char.ofNat n) := by decide +kernel
  have hc := hall c.toNat (of_decide_eq_true hlatin)
  rw [Char.ofNat_toNat] at hc
  exact hc hcontrol

/-- **What is taken for chunked.** -/
theorem isChunked_iff (h : Latin.Plain value) : isChunked value = true ↔ NamesWidely value := by
  have hlast : ∀ c ∈ afterLast ',' value, Blank.isBlank c = isPadding c := by
    intro c hc
    obtain ⟨hlatin, hcontrol⟩ := h c (mem_of_mem_afterLast hc)
    exact isBlank_of_plain hlatin hcontrol
  have hwider : ∀ c, CharClass.isSpaceOrTab c = true → isPadding c = true := by
    intro c hc
    rw [isPadding, hc, Bool.true_or]
  have hstrip : Blank.strip (afterLast ',' value) = trim isPadding (lastElement value) := by
    rw [Blank.strip, trim_congr hlast, lastElement, trim_trim hwider]
  have hlatin : ∀ c ∈ trim isPadding (lastElement value), Latin.isLatin c = true := by
    intro c hc
    exact h.latin c (mem_of_mem_afterLast (mem_of_mem_trim (mem_of_mem_trim hc)))
  have hall : chunked.all (·.toNat < 0x80) = true := by decide
  have hascii : ∀ c ∈ chunked, c.toNat < 0x80 := fun c hc =>
    of_decide_eq_true (List.all_eq_true.mp hall c hc)
  rw [isChunked, decide_eq_true_iff, final, hstrip, LetterCase.lower_eq_iff hlatin hascii]
  rfl

end TransferCoding

end HttpCodec
