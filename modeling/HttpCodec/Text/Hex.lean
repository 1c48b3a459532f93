import HttpCodec.Text

set_option autoImplicit false

/-! # Hexadecimal numbers

Chunk sizes, percent escapes and character escapes are written in base sixteen, the first two
with capital letters.
-/

namespace HttpCodec.Hex

/-- A number in base sixteen, with small letters. -/
def lower (n : Nat) : Text := Nat.toDigits 16 n

/-- A number in base sixteen, with capital letters. -/
def upper (n : Nat) : Text := (Nat.toDigits 16 n).map Char.toUpper

/-- The text with zeros in front of it that make it at least `width` long. -/
def padded (width : Nat) (t : Text) : Text := List.leftpad width '0' t

/-- The value of a digit in base sixteen, of either case. -/
def value? (c : Char) : Option Nat :=
  if '0' ≤ c ∧ c ≤ '9' then some (c.toNat - '0'.toNat)
  else if 'A' ≤ c ∧ c ≤ 'F' then some (c.toNat - 'A'.toNat + 10)
  else if 'a' ≤ c ∧ c ≤ 'f' then some (c.toNat - 'a'.toNat + 10)
  else none

/-- The number that digits with the given values write. -/
def ofValues (values : List Nat) : Nat := values.foldl (fun n d => 16 * n + d) 0

/-- The number that a text writes in base sixteen, if each of its characters is a digit. -/
def read? (t : Text) : Option Nat := (t.mapM value?).map ofValues

/-! ## The characters of a number -/

theorem exists_eq_digitChar_of_mem_toDigits {b n : Nat} (hb : 1 < b) {c : Char}
    (h : c ∈ Nat.toDigits b n) : ∃ d : Nat, c = d.digitChar := by
  induction n using Nat.strongRecOn with
  | ind n ih =>
      rw [Nat.toDigits_eq_if hb] at h
      split at h
      next => exact ⟨n, List.mem_singleton.mp h⟩
      next hn =>
        rcases List.mem_append.mp h with h | h
        · exact ih (n / b) (Nat.div_lt_self (by omega) hb) h
        · exact ⟨n % b, List.mem_singleton.mp h⟩

theorem le_toNat_digitChar (d : Nat) : 0x2A ≤ d.digitChar.toNat := by
  match d with
  | 0 | 1 | 2 | 3 | 4 | 5 | 6 | 7 | 8 | 9 | 10 | 11 | 12 | 13 | 14 | 15 => decide
  | _ + 16 => simp [Nat.digitChar]

/-- The characters of a number in base sixteen are visible, and so are the zeros before them. -/
theorem le_toNat_of_mem_padded {width n : Nat} {c : Char} (h : c ∈ padded width (lower n)) :
    0x2A ≤ c.toNat := by
  rcases List.mem_append.mp h with h | h
  · rw [List.eq_of_mem_replicate h]
    decide
  · obtain ⟨d, rfl⟩ := exists_eq_digitChar_of_mem_toDigits (by decide) h
    exact le_toNat_digitChar d

end HttpCodec.Hex
