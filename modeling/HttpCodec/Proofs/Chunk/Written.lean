import HttpCodec.Proofs.Chunk
import HttpCodec.Proofs.Text
import HttpCodec.Proofs.Text.Hex

set_option autoImplicit false

/-! # Chunks that were written

A chunk that was written is taken as a whole (`take_encode`), whatever follows it, and so is the
last chunk up to its trailers (`take_last`). A size line has at most sixteen digits, which is what
limits the data of a chunk, so that sixteen octets are room enough for it (`sizeFits_of_le`).
-/

namespace HttpCodec.Chunk

/-- A size line without extensions gives its number. -/
theorem size_upper {n : Nat} (hn : n < 16 ^ 16) : size (ascii (Hex.upper n)) = .ok n := by
  have hlatin : ∀ c ∈ Hex.upper n, Latin.isLatin c = true := fun c hc =>
    Latin.isLatin_of_lt (lt_of_le_of_lt (Hex.visible_of_mem_upper hc).2.1 (by decide))
  have hdecode : Latin.decode (ascii (Hex.upper n)) = Hex.upper n := Latin.decode_octets hlatin
  have hsemicolon : (Hex.upper n).takeWhile (· ≠ ';') = Hex.upper n :=
    List.takeWhile_eq_self_iff.mpr fun c hc => decide_eq_true (Hex.visible_of_mem_upper hc).2.2.1
  have hdigits : sizeDigits (ascii (Hex.upper n)) = Hex.upper n := by
    unfold sizeDigits
    rw [hdecode, hsemicolon]
    exact trimEnd_eq_self fun c hc => (Hex.visible_of_mem_upper hc).2.2.2
  have hpos : 1 ≤ (Hex.upper n).length := List.length_pos_of_ne_nil (Hex.upper_ne_nil n)
  have hlen : (Hex.upper n).length ≤ maxSizeDigits := Hex.length_upper_le (by decide) hn
  simp only [size, hdigits, Hex.read?_upper, if_pos (And.intro hpos hlen)]

/-- Tells that the size line of so much data has room. -/
def SizeFits (limit : Int) (n : Nat) : Prop := ((Hex.upper n).length : Int) ≤ limit

/-- Sixteen octets are room enough for any size line. -/
theorem sizeFits_of_le {n : Nat} {limit : Int} (hn : n < 16 ^ 16) (hlimit : 16 ≤ limit) :
    SizeFits limit n := by
  have hlen : (Hex.upper n).length ≤ 16 := Hex.length_upper_le (by decide) hn
  unfold SizeFits
  omega

/-- A number of at most sixteen digits makes a size line. -/
theorem isSizeLine_upper {n : Nat} {limit : Int} (hn : n < 16 ^ 16) (hfits : SizeFits limit n) :
    IsSizeLine (ascii (Hex.upper n) ++ lineEnd) limit n := by
  have hplain : Latin.Plain (Hex.upper n) := Latin.plain_of_visible fun c hc =>
    ⟨(Hex.visible_of_mem_upper hc).1, (Hex.visible_of_mem_upper hc).2.1⟩
  refine isSizeLine_of_size hplain.not_mem_CR hplain.not_mem_LF ?_ (size_upper hn)
  show (((Hex.upper n).map Char.toUInt8).length : Int) ≤ limit
  rw [List.length_map]
  exact hfits

/-- **A chunk that was written is taken as a whole.** -/
theorem take_encode {data : Octets} {limit : Int} (hne : data ≠ []) (hlen : data.length < 16 ^ 16)
    (hfits : SizeFits limit data.length) (rest : Octets) :
    take (encode data ++ rest) limit = .ok (some (data, rest)) := by
  have hencode : encode data ++ rest =
      (ascii (Hex.upper data.length) ++ lineEnd) ++ (data ++ (lineEnd ++ rest)) := by
    unfold encode
    rw [if_neg (by simpa using hne)]
    simp
  rw [hencode]
  exact take_of_payload (isSizeLine_upper hlen hfits) hne rest

/-- The last chunk is taken up to its trailers. -/
theorem take_last {limit : Int} (hfits : SizeFits limit 0) (rest : Octets) :
    take (ascii "0" ++ lineEnd ++ rest) limit = .ok (some ([], rest)) :=
  take_of_isSizeLine_zero (isSizeLine_upper (n := 0) (by decide) hfits) rest

end HttpCodec.Chunk
