import HttpCodec.Text.Utf8
import Mathlib.Tactic

set_option autoImplicit false

/-! # Text reads back from UTF-8

The octets of a character are its first octet, which tells how many follow and bounds the next one,
and octets of six bits each. A decoder that has read the first octet is in the middle of the
character with the bits that this octet holds (`start_of_two`, `start_of_three`, `start_of_four`),
and each further octet that is within the bounds adds its bits (`advance_more`, `advance_last`). So
text is decoded from its own encoding (`decode_encode`).
-/

namespace HttpCodec.Utf8

variable {n bits missing low high : Nat}

theorem toNat_ofNat_of_lt (h : n < 0x100) : (UInt8.ofNat n).toNat = n := by
  rw [UInt8.toNat_ofNat']
  exact Nat.mod_eq_of_lt h

/-! ## First octets -/

theorem start_of_one (h : n < 0x80) : start (UInt8.ofNat n) = ([Char.ofNat n], none) := by
  simp only [start, toNat_ofNat_of_lt (show n < 0x100 by omega), if_pos h]

/-- The first octet of two. Lower ones would encode ASCII once more. -/
theorem start_of_two (h : 2 ≤ n) (hlt : n < 0x20) :
    start (UInt8.ofNat (n + 0xC0)) = ([], some ⟨n, 1, 0x80, 0xBF⟩) := by
  simp only [start, toNat_ofNat_of_lt (show n + 0xC0 < 0x100 by omega)]
  rw [if_neg (by omega), if_neg (by omega), if_pos (by omega), Nat.add_sub_cancel]

/-- The first octet of three. The bounds of the next one leave out what two octets encode and the
surrogates. -/
theorem start_of_three (h : n < 0x10) :
    start (UInt8.ofNat (n + 0xE0)) =
      ([], some ⟨n, 2, if n = 0 then 0xA0 else 0x80, if n = 0xD then 0x9F else 0xBF⟩) := by
  simp only [start, toNat_ofNat_of_lt (show n + 0xE0 < 0x100 by omega)]
  rw [if_neg (by omega), if_neg (by omega), if_neg (by omega)]
  split_ifs <;> first | omega | simp_all

/-- The first octet of four. The bounds of the next one leave out what three octets encode and what
is beyond the last character. -/
theorem start_of_four (h : n ≤ 4) :
    start (UInt8.ofNat (n + 0xF0)) =
      ([], some ⟨n, 3, if n = 0 then 0x90 else 0x80, if n = 4 then 0x8F else 0xBF⟩) := by
  simp only [start, toNat_ofNat_of_lt (show n + 0xF0 < 0x100 by omega)]
  rw [if_neg (by omega), if_neg (by omega), if_neg (by omega), if_neg (by omega),
    if_neg (by omega), if_neg (by omega)]
  split_ifs <;> first | omega | simp_all

/-! ## Further octets -/

/-- An octet before the last one adds six bits. -/
theorem advance_more (h : n < 0x40) (hlow : low ≤ n + 0x80) (hhigh : n + 0x80 ≤ high)
    (hmissing : 1 < missing) :
    advance (some ⟨bits, missing, low, high⟩) (UInt8.ofNat (n + 0x80)) =
      ([], some ⟨64 * bits + n, missing - 1, 0x80, 0xBF⟩) := by
  simp only [advance, toNat_ofNat_of_lt (show n + 0x80 < 0x100 by omega),
    if_pos (And.intro hlow hhigh), Nat.add_sub_cancel, if_neg (not_le.mpr hmissing)]

/-- The last octet completes the character. -/
theorem advance_last (h : n < 0x40) (hlow : low ≤ n + 0x80) (hhigh : n + 0x80 ≤ high) :
    advance (some ⟨bits, 1, low, high⟩) (UInt8.ofNat (n + 0x80)) =
      ([Char.ofNat (64 * bits + n)], none) := by
  simp only [advance, toNat_ofNat_of_lt (show n + 0x80 < 0x100 by omega),
    if_pos (And.intro hlow hhigh), Nat.add_sub_cancel, le_refl, if_true]

/-! ## Characters and text -/

theorem decodeFrom_cons (p : Option Pending) (octet : UInt8) (rest : Octets) :
    decodeFrom p (octet :: rest) = (advance p octet).1 ++ decodeFrom (advance p octet).2 rest := by
  cases p <;> rfl

/-- **A character is decoded from its octets**, whatever follows them. -/
theorem decodeFrom_utf8EncodeChar (c : Char) (rest : Octets) :
    decodeFrom none (String.utf8EncodeChar c ++ rest) = c :: decodeFrom none rest := by
  have hvalid : c.toNat < 0xD800 ∨ 0xDFFF < c.toNat ∧ c.toNat < 0x110000 := c.valid
  have hchar : Char.ofNat c.toNat = c := Char.ofNat_toNat c
  have hval : c.val.toNat = c.toNat := rfl
  have hstart : ∀ octet, advance none octet = start octet := fun _ => rfl
  generalize c.toNat = v at hvalid hchar hval
  unfold String.utf8EncodeChar
  simp only [hval]
  -- by the number of octets; the first one holds the highest bits, and each adds six to them
  split_ifs with hone htwo hthree
  · simp only [List.cons_append, List.nil_append, decodeFrom_cons, hstart,
      start_of_one (show v < 0x80 by omega), hchar]
  · have hbits : v / 64 % 32 = v / 64 := by omega
    have hall : 64 * (v / 64) + v % 64 = v := by omega
    simp only [hbits, List.cons_append, List.nil_append, decodeFrom_cons, hstart]
    rw [start_of_two (by omega) (by omega), advance_last (by omega) (by omega) (by omega), hall,
      hchar]
    rfl
  · have hbits : v / 4096 % 16 = v / 4096 := by omega
    have hall : 64 * (64 * (v / 4096) + v / 64 % 64) + v % 64 = v := by omega
    simp only [hbits, List.cons_append, List.nil_append, decodeFrom_cons, hstart]
    rw [start_of_three (by omega),
      advance_more (by omega) (by split_ifs <;> omega) (by split_ifs <;> omega) (by omega),
      advance_last (by omega) (by omega) (by omega), hall, hchar]
    rfl
  · have hbits : v / 262144 % 8 = v / 262144 := by omega
    have hall : 64 * (64 * (64 * (v / 262144) + v / 4096 % 64) + v / 64 % 64) + v % 64 = v := by
      omega
    simp only [hbits, List.cons_append, List.nil_append, decodeFrom_cons, hstart]
    rw [start_of_four (by omega),
      advance_more (by omega) (by split_ifs <;> omega) (by split_ifs <;> omega) (by omega),
      advance_more (by omega) (by omega) (by omega) (by omega),
      advance_last (by omega) (by omega) (by omega), hall, hchar]
    rfl

/-- **Text is decoded from its encoding.** -/
theorem decode_encode (t : Text) : decode (encode t) = t := by
  unfold decode encode
  induction t with
  | nil => rfl
  | cons c t ih => rw [List.flatMap_cons, decodeFrom_utf8EncodeChar, ih]

end HttpCodec.Utf8
