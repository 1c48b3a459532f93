import HttpCodec.Proofs.Text.Hex
import HttpCodec.Proofs.Text.Utf8
import HttpCodec.Text.Percent
import Mathlib.Data.List.TakeWhile

set_option autoImplicit false

/-! # Text reads back from percent encoding

What percent encoding writes are unreserved characters, percent signs and digits, so none of it
separates anything in a query (`mem_encode`), and it reads back as the same text
(`decode_encode`).
-/

namespace HttpCodec.Percent

/-- A digit in base sixteen. -/
def digit (n : Nat) : Char := n.digitChar.toUpper

/-! ## One octet -/

/-- The escape of an octet has two digits. -/
theorem escape_eq (octet : UInt8) :
    escape octet = ['%', digit (octet.toNat / 16), digit (octet.toNat % 16)] := by
  have hall : ∀ n < 256, Hex.padded 2 (Hex.upper n) = [digit (n / 16), digit (n % 16)] := by
    decide +kernel
  unfold escape
  rw [hall octet.toNat octet.toNat_lt]

theorem encodeOctet_eq (octet : UInt8) :
    encodeOctet octet =
      if isUnreserved (Char.ofUInt8 octet) = true then [Char.ofUInt8 octet] else escape octet :=
  rfl

/-- **The characters that are written** are unreserved or percent signs. -/
theorem mem_encodeOctet {octet : UInt8} {c : Char} (hc : c ∈ encodeOctet octet) :
    isUnreserved c = true ∨ c = '%' := by
  rw [encodeOctet_eq] at hc
  split_ifs at hc with hunreserved
  · rw [List.mem_singleton.mp hc]
    exact .inl hunreserved
  · have hdigit : ∀ d < 16, isUnreserved (digit d) = true := by decide
    rw [escape_eq] at hc
    simp only [List.mem_cons, List.not_mem_nil, or_false] at hc
    have hlt := octet.toNat_lt
    rcases hc with rfl | rfl | rfl
    · exact .inr rfl
    · exact .inl (hdigit _ (by omega))
    · exact .inl (hdigit _ (by omega))

theorem unescape_cons {c : Char} (hc : c ≠ '%') (rest : Text) :
    unescape (c :: rest) = c.toUInt8 :: unescape rest := by
  rw [unescape]
  exact fun _ _ _ h => absurd h hc

/-- An octet reads back from what is written of it. -/
theorem unescape_encodeOctet (octet : UInt8) (rest : Text) :
    unescape (encodeOctet octet ++ rest) = octet :: unescape rest := by
  rw [encodeOctet_eq]
  split_ifs with hunreserved
  · have hne : Char.ofUInt8 octet ≠ '%' := by
      intro heq
      rw [heq] at hunreserved
      exact absurd hunreserved (by decide)
    rw [List.singleton_append, unescape_cons hne, Latin.toUInt8_ofUInt8]
  · have hlt := octet.toNat_lt
    have hhigh : Hex.value? (digit (octet.toNat / 16)) = some (octet.toNat / 16) :=
      Hex.value?_digitChar (by omega)
    have hlow : Hex.value? (digit (octet.toNat % 16)) = some (octet.toNat % 16) :=
      Hex.value?_digitChar (by omega)
    rw [escape_eq]
    simp only [List.cons_append, List.nil_append, unescape, hhigh, hlow]
    rw [Nat.div_add_mod, UInt8.ofNat_toNat]

/-! ## Text -/

theorem mem_encode {t : Text} {c : Char} (hc : c ∈ encode t) : isUnreserved c = true ∨ c = '%' := by
  obtain ⟨octet, -, hc⟩ := List.mem_flatMap.mp hc
  exact mem_encodeOctet hc

/-- Octets read back from what is written of them. -/
theorem unescape_flatMap (b : Octets) : unescape (b.flatMap encodeOctet) = b := by
  induction b with
  | nil => rfl
  | cons octet b ih => rw [List.flatMap_cons, unescape_encodeOctet, ih]

theorem isAscii_of_isUnreserved {c : Char} (h : isUnreserved c = true) : isAscii c = true := by
  unfold isUnreserved at h
  simp only [Bool.or_eq_true, decide_eq_true_eq] at h
  rcases h with (((h | rfl) | rfl) | rfl) | rfl
  · exact decide_eq_true (Latin.toNat_lt_of_isAlphanum h)
  all_goals decide

theorem isAscii_of_mem_encode {t : Text} {c : Char} (hc : c ∈ encode t) : isAscii c = true := by
  rcases mem_encode hc with h | rfl
  · exact isAscii_of_isUnreserved h
  · decide

/-- ASCII stands for the octets that its characters and escapes stand for. -/
theorem decode_of_ascii {t : Text} (h : ∀ c ∈ t, isAscii c = true) :
    decode t = Utf8.decode (unescape t) := by
  have htake : t.takeWhile isAscii = t := List.takeWhile_eq_self_iff.mpr h
  have hdrop : t.dropWhile isAscii = [] := List.dropWhile_eq_nil_iff.mpr h
  rw [decode, htake]
  split
  · exact List.append_nil _
  next c rest hrest => cases hdrop.symm.trans hrest

/-- **Text reads back from what is written of it.** -/
theorem decode_encode (t : Text) : decode (encode t) = t := by
  rw [decode_of_ascii fun _ => isAscii_of_mem_encode, encode, unescape_flatMap, Utf8.decode_encode]

end HttpCodec.Percent
