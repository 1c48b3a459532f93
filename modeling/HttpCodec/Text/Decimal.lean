import HttpCodec.Text.Blank
import HttpCodec.Text.Digit
import HttpCodec.Text.Quoted

set_option autoImplicit false

/-! # Decimal numbers

Writing whole numbers in base ten and reading them back. A written number may have blanks around
it, a sign in front and single underscores between its digits, and the digits may be those of any
script. Numbers of more than `maxDigits` digits are neither read nor written, because that would
take too long. The main statements say which numbers are written (`write_eq_ok_iff`), what ASCII
digits are read as (`read_of_isDigit`) and that a natural number that is not too long reads back
(`read_ofNat`).
-/

namespace HttpCodec.Decimal

/-- A natural number in base ten. -/
def ofNat (n : Nat) : Text := Nat.toDigits 10 n

/-- A whole number in base ten, with a sign in front if it is negative. -/
def ofInt (n : Int) : Text :=
  if n < 0 then '-' :: ofNat n.natAbs else ofNat n.toNat

/-- The number of digits up to which numbers are read and written. -/
def maxDigits : Nat := 4300

/-- Why a text is not read as a number, or a number not written as a text. -/
inductive Error where
  /-- The text is not written as a number. -/
  | malformed (text : Text)
  /-- The text has more than `maxDigits` digits. -/
  | tooLong (digits : Nat)
  /-- The number has more than `maxDigits` digits. -/
  | unwritten
  deriving DecidableEq

/-- The wording of an error; of a malformed text at most two hundred characters are shown. -/
def Error.message : Error → Text
  | .malformed t => "invalid literal for int() with base 10: " ++ (Quoted.text t).take 200
  | .tooLong digits =>
      "Exceeds the limit (" ++ ofNat maxDigits ++
        " digits) for integer string conversion: value has " ++ ofNat digits ++
        " digits; use sys.set_int_max_str_digits() to increase the limit"
  | .unwritten =>
      "Exceeds the limit (" ++ ofNat maxDigits ++
        " digits) for integer string conversion; use sys.set_int_max_str_digits() to increase the limit"

/-- The text of a whole number, unless it has too many digits. The sign is not counted. -/
def write (n : Int) : Except Error Text :=
  if (ofNat n.natAbs).length ≤ maxDigits then .ok (ofInt n) else .error .unwritten

/-- The number that digits with the given values write. -/
def ofValues (values : List Nat) : Nat := values.foldl (fun n d => 10 * n + d) 0

/-- A sign, if there is one, and what follows it. -/
def takeSign : Text → Bool × Text
  | '-' :: t => (true, t)
  | '+' :: t => (false, t)
  | t => (false, t)

/-- Tells whether a character may stand among the digits of a number. -/
def isDigitOrUnderscore (c : Char) : Bool := c = '_' || (Digit.value? c).isSome

/-- The number that a text writes. -/
def read (t : Text) : Except Error Int :=
  let (negative, unsigned) := takeSign (trim Blank.surroundsNumber t)
  let run := unsigned.takeWhile isDigitOrUnderscore
  let groups := splitOn '_' run
  let values := groups.flatten.filterMap Digit.value?
  if groups.any List.isEmpty then .error (.malformed t)
  else if values.length > maxDigits then .error (.tooLong values.length)
  else if run.length < unsigned.length then .error (.malformed t)
  else .ok (if negative then -(ofValues values : Int) else ofValues values)

/-- A number of at most 4300 digits. -/
def Short (n : Int) : Prop := n.natAbs < Nat.pow 10 4300

theorem length_le_maxDigits_iff {n : Int} : (ofNat n.natAbs).length ≤ maxDigits ↔ Short n := by
  unfold maxDigits Short
  -- a name for the exponent keeps the power from being evaluated
  generalize hdigits : 4300 = digits
  exact Nat.length_toDigits_le_iff (by decide) (by omega)

/-- **The numbers that are written** are the short ones. -/
theorem write_eq_ok_iff {n : Int} {t : Text} : write n = .ok t ↔ Short n ∧ t = ofInt n := by
  unfold write
  rw [← length_le_maxDigits_iff]
  split
  next hshort => exact ⟨fun h => ⟨hshort, (Except.ok.inj h).symm⟩, fun h => by rw [h.2]⟩
  next hlong => exact ⟨nofun, fun h => absurd h.1 hlong⟩

/-! ## ASCII digits -/

theorem surroundsNumber_of_isDigit {c : Char} (h : c.isDigit) :
    Blank.surroundsNumber c = false := by
  obtain ⟨d, rfl⟩ := Digit.exists_eq_digitChar_of_isDigit h
  revert d
  decide

theorem takeSign_of_isDigit {c : Char} {t : Text} (h : c.isDigit) :
    takeSign (c :: t) = (false, c :: t) := by
  simp only [takeSign]
  split
  next hc => cases hc; exact absurd h (by decide)
  next hc => cases hc; exact absurd h (by decide)
  next => rfl

theorem ofValues_map (t : Text) :
    ofValues (t.map (·.toNat - 48)) = Nat.ofDigitChars 10 t 0 := by
  simp [ofValues, Nat.ofDigitChars_eq_foldl, List.foldl_map]

theorem filterMap_value? {t : Text} (h : ∀ c ∈ t, c.isDigit) :
    t.filterMap Digit.value? = t.map (·.toNat - 48) := by
  induction t with
  | nil => rfl
  | cons c t ih =>
      simp [Digit.value?_of_isDigit (h c List.mem_cons_self),
        ih fun d hd => h d (List.mem_cons_of_mem c hd)]

/-- ASCII digits write the number that they have in base ten, if they are not too many. -/
theorem read_of_isDigit {t : Text} (hne : t ≠ []) (h : ∀ c ∈ t, c.isDigit) :
    read t = if t.length ≤ maxDigits then .ok (Nat.ofDigitChars 10 t 0)
      else .error (.tooLong t.length) := by
  have htrim : trim Blank.surroundsNumber t = t :=
    trim_eq_self fun c hc => surroundsNumber_of_isDigit (h c hc)
  have hsign : takeSign t = (false, t) := by
    cases t with
    | nil => rfl
    | cons c t => exact takeSign_of_isDigit (h c List.mem_cons_self)
  have hrun : t.takeWhile isDigitOrUnderscore = t := by
    have hall : ∀ c ∈ t, isDigitOrUnderscore c := fun c hc => by
      simp [isDigitOrUnderscore, Digit.value?_of_isDigit (h c hc)]
    have htake : (t ++ []).takeWhile isDigitOrUnderscore = t ++ [].takeWhile isDigitOrUnderscore :=
      List.takeWhile_append_of_pos hall
    simpa using htake
  have hsplit : splitOn '_' t = [t] :=
    splitOn_eq_singleton fun hu => absurd (h '_' hu) (by decide)
  have hempty : t.isEmpty = false := by
    cases t <;> simp at hne ⊢
  simp only [read, htrim, hsign, hrun, hsplit, List.flatten_singleton, filterMap_value? h,
    List.length_map, List.any_cons, List.any_nil, hempty, ofValues_map]
  by_cases hlen : t.length ≤ maxDigits
  · simp [hlen, Nat.not_lt.mpr hlen]
  · simp [hlen, Nat.not_le.mp hlen]

theorem ofNat_ne_nil (n : Nat) : ofNat n ≠ [] :=
  List.ne_nil_of_length_pos Nat.length_toDigits_pos

theorem isDigit_of_mem_ofNat {n : Nat} {c : Char} (h : c ∈ ofNat n) : c.isDigit :=
  Nat.isDigit_of_mem_toDigits (by decide) (by decide) h

/-- A natural number that is not too long reads back. -/
theorem read_ofNat {n : Nat} (h : (ofNat n).length ≤ maxDigits) : read (ofNat n) = .ok n := by
  rw [read_of_isDigit (ofNat_ne_nil n) (fun c hc => isDigit_of_mem_ofNat hc), if_pos h]
  simp [ofNat]

end HttpCodec.Decimal
