set_option autoImplicit false

/-! # Text and octets

Text is a list of characters and raw data a list of octets, so that every rule of the library
about names, lines and bodies is a rule about lists. This file fixes the two types and the few
operations on lists that the rest is written with: cutting at a separator (`cut`, `splitOn`),
taking what follows the last one (`afterLast`) and trimming at the ends (`trim`, `trimEnd`).
-/

namespace HttpCodec

/-- Text, as the list of its characters. -/
abbrev Text := List Char

/-- Raw data, as the list of its octets. -/
abbrev Octets := List UInt8

/-- A string literal may stand for its text. -/
instance : Coe String Text := ⟨String.toList⟩

/-! ## Cutting and trimming -/

/-- What precedes the first `sep` and what follows it; without a `sep`, the whole list and
nothing. -/
def cut {α : Type} [DecidableEq α] (sep : α) (l : List α) : List α × List α :=
  (l.takeWhile (· ≠ sep), (l.dropWhile (· ≠ sep)).drop 1)

/-- The parts of a list between the occurrences of `sep`. There is one part more than there are
separators, so the empty list has one empty part. -/
def splitOn {α : Type} [DecidableEq α] (sep : α) : List α → List (List α)
  | [] => [[]]
  | a :: l =>
      if a = sep then [] :: splitOn sep l
      else
        match splitOn sep l with
        | [] => [[a]]
        | part :: parts => (a :: part) :: parts

/-- What follows the last `sep`; without a `sep`, the whole list. -/
def afterLast {α : Type} [DecidableEq α] (sep : α) (l : List α) : List α :=
  (l.reverse.takeWhile (· ≠ sep)).reverse

/-- The list without the elements at its end that satisfy `p`. -/
def trimEnd {α : Type} (p : α → Bool) (l : List α) : List α :=
  (l.reverse.dropWhile p).reverse

/-- The list without the elements at either end that satisfy `p`. -/
def trim {α : Type} (p : α → Bool) (l : List α) : List α :=
  trimEnd p (l.dropWhile p)

theorem splitOn_ne_nil {α : Type} [DecidableEq α] (sep : α) (l : List α) :
    splitOn sep l ≠ [] := by
  cases l with
  | nil => simp [splitOn]
  | cons a l =>
      simp only [splitOn]
      split
      · simp
      · split <;> simp

/-- Putting the separators back gives the list again. -/
theorem intercalate_splitOn {α : Type} [DecidableEq α] (sep : α) (l : List α) :
    [sep].intercalate (splitOn sep l) = l := by
  induction l with
  | nil => rfl
  | cons a l ih =>
      simp only [splitOn]
      split
      next h =>
        subst h
        revert ih
        cases hs : splitOn a l with
        | nil => exact absurd hs (splitOn_ne_nil a l)
        | cons part parts =>
            intro ih
            simp only [List.intercalate, List.intersperse, List.flatten_cons, List.nil_append]
            simpa [List.intercalate] using ih
      next h =>
        revert ih
        cases hs : splitOn sep l with
        | nil => exact absurd hs (splitOn_ne_nil sep l)
        | cons part parts =>
            intro ih
            cases parts with
            | nil => simpa [List.intercalate] using ih
            | cons p ps =>
                simp only [List.intercalate, List.intersperse, List.flatten_cons] at ih ⊢
                simpa using ih

theorem trimEnd_eq_self {α : Type} {p : α → Bool} {l : List α} (h : ∀ a ∈ l, p a = false) :
    trimEnd p l = l := by
  have : l.reverse.dropWhile p = l.reverse := by
    cases hr : l.reverse with
    | nil => rfl
    | cons a r =>
        have ha : a ∈ l := List.mem_reverse.mp (hr ▸ List.mem_cons_self)
        simp [h a ha]
  simp [trimEnd, this]

/-- Trimming leaves a list without trimmed elements alone. -/
theorem trim_eq_self {α : Type} {p : α → Bool} {l : List α} (h : ∀ a ∈ l, p a = false) :
    trim p l = l := by
  have : l.dropWhile p = l := by
    cases l with
    | nil => rfl
    | cons a l => simp [h a List.mem_cons_self]
  rw [trim, this, trimEnd_eq_self h]

/-- A list without separators is one part. -/
theorem splitOn_eq_singleton {α : Type} [DecidableEq α] {sep : α} {l : List α} (h : sep ∉ l) :
    splitOn sep l = [l] := by
  induction l with
  | nil => rfl
  | cons a l ih =>
      simp only [List.mem_cons, not_or] at h
      simp [splitOn, Ne.symm h.1, ih h.2]

end HttpCodec
