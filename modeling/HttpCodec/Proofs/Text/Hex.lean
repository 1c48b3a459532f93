import HttpCodec.Proofs.Text.Latin
import HttpCodec.Text.Hex

set_option autoImplicit false

/-! # Hexadecimal numbers read back

A number that is written in base sixteen is read as itself (`read?_upper`), and its digits can
stand on a line.
-/

namespace HttpCodec.Hex

theorem value?_digitChar {d : Nat} (hd : d < 16) : value? d.digitChar.toUpper = some d := by
  have hall : ∀ d < 16, value? d.digitChar.toUpper = some d := by decide
  exact hall d hd

theorem ofValues_append (values : List Nat) (d : Nat) :
    ofValues (values ++ [d]) = 16 * ofValues values + d := by
  simp [ofValues, List.foldl_append]

/-- **A number in base sixteen reads back.** -/
theorem read?_upper (n : Nat) : read? (upper n) = some n := by
  -- the digits but the last are those of the number without its last digit
  induction n using Nat.strongRecOn with
  | ind n ih =>
      unfold read? upper at *
      rw [Nat.toDigits_eq_if (by decide)]
      split_ifs with hn
      · simp [value?_digitChar hn, ofValues]
      · have hrest := ih (n / 16) (Nat.div_lt_self (by omega) (by decide))
        obtain ⟨values, hvalues, hsum⟩ := Option.map_eq_some_iff.mp hrest
        rw [List.map_append, List.mapM_append, hvalues]
        simp only [List.map_cons, List.map_nil, List.mapM_cons, List.mapM_nil,
          value?_digitChar (Nat.mod_lt n (by decide : 0 < 16)), Option.pure_def, Option.bind_eq_bind,
          Option.bind_some, Option.map_some, ofValues_append, hsum]
        exact congrArg some (Nat.div_add_mod n 16)

/-- A number below the power has at most as many digits as the exponent. -/
theorem length_upper_le {n k : Nat} (hk : 0 < k) (hn : n < 16 ^ k) : (upper n).length ≤ k := by
  unfold upper
  rw [List.length_map]
  exact (Nat.length_toDigits_le_iff (by decide) hk).mpr hn

theorem upper_ne_nil (n : Nat) : upper n ≠ [] := by
  unfold upper
  rw [ne_eq, List.map_eq_nil_iff]
  exact Nat.toDigits_ne_nil

theorem exists_eq_digitChar_of_mem_upper {n : Nat} {c : Char} (h : c ∈ upper n) :
    ∃ d : Fin 16, c = d.val.digitChar.toUpper := by
  unfold upper at h
  obtain ⟨e, he, rfl⟩ := List.mem_map.mp h
  clear h
  induction n using Nat.strongRecOn with
  | ind n ih =>
      rw [Nat.toDigits_eq_if (by decide)] at he
      split_ifs at he with hn
      · rw [List.mem_singleton.mp he]
        exact ⟨⟨n, hn⟩, rfl⟩
      · rcases List.mem_append.mp he with he | he
        · exact ih (n / 16) (Nat.div_lt_self (by omega) (by decide)) he
        · rw [List.mem_singleton.mp he]
          exact ⟨⟨n % 16, Nat.mod_lt n (by decide)⟩, rfl⟩

theorem visible_of_mem_upper {n : Nat} {c : Char} (h : c ∈ upper n) :
    0x20 ≤ c.toNat ∧ c.toNat ≤ 0x7E ∧ c ≠ ';' ∧ CharClass.isSpaceOrTab c = false := by
  obtain ⟨d, rfl⟩ := exists_eq_digitChar_of_mem_upper h
  clear h
  revert d
  decide

end HttpCodec.Hex
