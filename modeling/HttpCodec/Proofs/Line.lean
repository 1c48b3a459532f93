import HttpCodec.Line
import HttpCodec.Proofs.Text
import Mathlib.Tactic

set_option autoImplicit false

/-! # Lines in data that goes on

`Line.scan` looks at the front of data of which more may arrive. A verdict that it gives, be it a
line or an error, is final: the octets that arrive later only lengthen the rest (`scan_append`).
Readers of one element that behave like this are described by `appendRest`. The lines that `scan`
takes are those without line end characters in them that are not too long (`scan_eq_some_iff`), and
a line that is there is the one it takes (`Proper.eq_of_scan`).
-/

namespace HttpCodec

/-- What a reader of one element finds when more octets follow: the same, with a longer rest. -/
def appendRest {ε α : Type} (more : Octets) :
    Except ε (Option (α × Octets)) → Except ε (Option (α × Octets))
  | .error e => .error e
  | .ok none => .ok none
  | .ok (some (a, rest)) => .ok (some (a, rest ++ more))

@[simp] theorem appendRest_error {ε α : Type} (more : Octets) (e : ε) :
    appendRest more (.error e : Except ε (Option (α × Octets))) = .error e := rfl

@[simp] theorem appendRest_none {ε α : Type} (more : Octets) :
    appendRest more (.ok none : Except ε (Option (α × Octets))) = .ok none := rfl

@[simp] theorem appendRest_some {ε α : Type} (more : Octets) (a : α) (rest : Octets) :
    appendRest more (.ok (some (a, rest)) : Except ε (Option (α × Octets))) =
      .ok (some (a, rest ++ more)) := rfl

namespace Line

/-- Where there is nothing, there is no line yet. -/
theorem scan_nil {limit : Int} (h : 0 ≤ limit) : scan [] limit = .ok none := by
  show (if ((0 : Nat) : Int) > limit + 1 then _ else _) = _
  exact if_neg (by omega)

/-- **A verdict on the front of the data is final.** -/
theorem scan_append {data : Octets} {limit : Int} (more : Octets)
    (h : scan data limit ≠ .ok none) :
    scan (data ++ more) limit = appendRest more (scan data limit) := by
  have hsplit : data.takeWhile (· ≠ LF) ++ data.dropWhile (· ≠ LF) = data :=
    List.takeWhile_append_dropWhile
  cases hdrop : data.dropWhile (· ≠ LF) with
  | nil =>
      -- without a line feed the only verdict is that the line is too long
      rw [hdrop, List.append_nil] at hsplit
      have hlong : (data.length : Int) > limit + 1 := by
        by_contra hle
        exact h (by simp only [scan, hsplit, hdrop, if_neg hle])
      have htake : (data ++ more).takeWhile (· ≠ LF) = data ++ more.takeWhile (· ≠ LF) := by
        rw [List.takeWhile_append, if_pos (by rw [hsplit])]
      have hlonger : ((data ++ more.takeWhile (· ≠ LF)).length : Int) > limit + 1 := by
        rw [List.length_append]
        omega
      simp only [scan, htake, hsplit, if_pos hlong, if_pos hlonger, appendRest_error]
  | cons c rest =>
      have htake : (data ++ more).takeWhile (· ≠ LF) = data.takeWhile (· ≠ LF) := by
        rw [List.takeWhile_append, if_neg]
        intro hlen
        have := congrArg List.length hsplit
        rw [hdrop, List.length_append, List.length_cons] at this
        omega
      have hdropMore : (data ++ more).dropWhile (· ≠ LF) = c :: (rest ++ more) := by
        rw [List.dropWhile_append, hdrop]
        rfl
      simp only [scan, htake, hdrop, hdropMore]
      split_ifs <;> rfl

/-- A line that is not too long is taken off the front, without its end. -/
theorem scan_line {line : Octets} {limit : Int} (rest : Octets) (hCR : CR ∉ line)
    (hLF : LF ∉ line) (hlen : line.length ≤ limit) :
    scan (line ++ lineEnd ++ rest) limit = .ok (some (line, rest)) := by
  have hdata : line ++ lineEnd ++ rest = (line ++ [CR]) ++ LF :: rest := by simp [lineEnd]
  have hpos : ∀ c ∈ line ++ [CR], decide (c ≠ LF) = true := by
    intro c hc
    rcases List.mem_append.mp hc with hc | hc
    · exact decide_eq_true fun h => hLF (h ▸ hc)
    · rw [List.mem_singleton.mp hc]
      rfl
  have htake : (line ++ lineEnd ++ rest).takeWhile (· ≠ LF) = line ++ [CR] := by
    rw [hdata, List.takeWhile_append_of_pos hpos]
    simp
  have hdrop : (line ++ lineEnd ++ rest).dropWhile (· ≠ LF) = LF :: rest := by
    rw [hdata, List.dropWhile_append_of_pos hpos]
    simp
  have hshort : ¬ (((line ++ [CR]).length : Int) > limit + 1) := by
    rw [List.length_append, List.length_singleton]
    omega
  simp only [scan, htake, hdrop, if_neg hshort]
  simp [hCR]

/-- The empty line is taken off the front. -/
theorem scan_lineEnd {rest : Octets} {limit : Int} (h : 0 ≤ limit) :
    scan (lineEnd ++ rest) limit = .ok (some ([], rest)) := by
  show scan ([] ++ lineEnd ++ rest) limit = _
  exact scan_line rest (by simp) (by simp) h

/-- What `scan` takes is a line at the front of the data that is not too long. -/
theorem data_eq_of_scan {data line rest : Octets} {limit : Int}
    (h : scan data limit = .ok (some (line, rest))) :
    data = line ++ lineEnd ++ rest ∧ CR ∉ line ∧ LF ∉ line ∧ line.length ≤ limit := by
  have hsplit : data.takeWhile (· ≠ LF) ++ data.dropWhile (· ≠ LF) = data :=
    List.takeWhile_append_dropWhile
  have hnoLF : LF ∉ data.takeWhile (· ≠ LF) := by
    intro hmem
    simpa using List.all_eq_true.mp (List.all_takeWhile (p := (· ≠ LF)) (l := data)) LF hmem
  cases hdrop : data.dropWhile (· ≠ LF) with
  | nil =>
      simp only [scan, hdrop] at h
      split_ifs at h
      cases h
  | cons c tail =>
      simp only [scan, hdrop] at h
      split_ifs at h with hlong hcr hbare
      simp only [Except.ok.injEq, Option.some.injEq, Prod.mk.injEq] at h
      obtain ⟨rfl, rfl⟩ := h
      have hc : c = LF := by
        have hhead := List.head_dropWhile_not (· ≠ LF) (l := data) (by rw [hdrop]; simp)
        simp only [hdrop, List.head_cons] at hhead
        simpa using hhead
      have hlast : (data.takeWhile (· ≠ LF)).getLast? = some CR := by simpa using hcr
      have hline : (data.takeWhile (· ≠ LF)).dropLast ++ [CR] = data.takeWhile (· ≠ LF) :=
        List.dropLast_append_getLast? CR hlast
      refine ⟨?_, ?_, ?_, ?_⟩
      · rw [hdrop, hc] at hsplit
        calc data = data.takeWhile (· ≠ LF) ++ LF :: tail := hsplit.symm
          _ = ((data.takeWhile (· ≠ LF)).dropLast ++ [CR]) ++ LF :: tail := by rw [hline]
          _ = (data.takeWhile (· ≠ LF)).dropLast ++ lineEnd ++ tail := by simp [lineEnd]
      · simpa using hbare
      · exact fun hmem => hnoLF (List.mem_of_mem_dropLast hmem)
      · have hlen := congrArg List.length hline
        rw [List.length_append, List.length_singleton] at hlen
        omega

/-- **What a line is:** `scan` takes exactly the lines that are not too long. -/
theorem scan_eq_some_iff {data line rest : Octets} {limit : Int} :
    scan data limit = .ok (some (line, rest)) ↔
      data = line ++ lineEnd ++ rest ∧ CR ∉ line ∧ LF ∉ line ∧ line.length ≤ limit := by
  constructor
  · exact data_eq_of_scan
  · rintro ⟨rfl, hCR, hLF, hlen⟩
    exact scan_line rest hCR hLF hlen

/-- **More data is needed** for what holds no line feed and may still be a line. -/
theorem scan_eq_none_iff {data : Octets} {limit : Int} :
    scan data limit = .ok none ↔ LF ∉ data ∧ data.length ≤ limit + 1 := by
  have hall : data.dropWhile (· ≠ LF) = [] ↔ LF ∉ data := by
    rw [List.dropWhile_eq_nil_iff]
    constructor
    · intro h hmem
      simpa using h LF hmem
    · intro h c hc
      exact decide_eq_true fun heq => h (heq ▸ hc)
  constructor
  · intro h
    cases hdrop : data.dropWhile (· ≠ LF) with
    | nil =>
        have hsplit := List.takeWhile_append_dropWhile (p := (· ≠ LF)) (l := data)
        rw [hdrop, List.append_nil] at hsplit
        simp only [scan, hdrop, hsplit] at h
        split_ifs at h with hlong
        exact ⟨hall.mp hdrop, by omega⟩
    | cons c tail =>
        simp only [scan, hdrop] at h
        split_ifs at h
        simp at h
  · rintro ⟨hnoLF, hlen⟩
    have hdrop := hall.mpr hnoLF
    have hsplit := List.takeWhile_append_dropWhile (p := (· ≠ LF)) (l := data)
    rw [hdrop, List.append_nil] at hsplit
    simp only [scan, hdrop, hsplit]
    exact if_neg (by omega)

/-- A higher limit changes nothing but that a line is too long. -/
theorem scan_of_le {limit limit' : Int} (hle : limit ≤ limit') (data : Octets) :
    scan data limit' = scan data limit ∨ scan data limit = .error (.tooLong limit) := by
  by_cases hlong : ((data.takeWhile (· ≠ LF)).length : Int) > limit + 1
  · exact .inr (by simp only [scan, if_pos hlong])
  · have hshort : ¬ ((data.takeWhile (· ≠ LF)).length : Int) > limit' + 1 := by omega
    exact .inl (by simp only [scan, if_neg hlong, if_neg hshort])

/-! ## Lines that are there -/

/-- The octets of lines, each with its end. -/
def octetsOf (lines : List Octets) : Octets := (lines.map (· ++ lineEnd)).flatten

/-- A line that is not empty and holds no line end. -/
structure Proper (line : Octets) : Prop where
  nonempty : line ≠ []
  noCR : CR ∉ line
  noLF : LF ∉ line

variable {line rest : Octets} {limit : Int}

/-- The line that is taken off the front is the line that is there. -/
theorem Proper.eq_of_scan (h : Proper line) {taken left : Octets}
    (hscan : scan (line ++ lineEnd ++ rest) limit = .ok (some (taken, left))) :
    taken = line ∧ left = rest := by
  obtain ⟨hdata, hCR, -, -⟩ := data_eq_of_scan hscan
  have hcut : ∀ {a b : Octets}, CR ∉ a → cut CR (a ++ lineEnd ++ b) = (a, LF :: b) := by
    intro a b ha
    rw [List.append_assoc]
    exact cut_append ha (LF :: b)
  have hsame := congrArg (cut CR) hdata
  rw [hcut h.noCR, hcut hCR] at hsame
  simp only [Prod.mk.injEq, List.cons.injEq, true_and] at hsame
  exact ⟨hsame.1.symm, hsame.2.symm⟩

/-- Where there is a line end, no more data is needed. -/
theorem scan_ne_none (line rest : Octets) (limit : Int) :
    scan (line ++ lineEnd ++ rest) limit ≠ .ok none := by
  intro h
  have hmem : LF ∈ line ++ lineEnd ++ rest := by simp [lineEnd]
  cases hdrop : (line ++ lineEnd ++ rest).dropWhile (· ≠ LF) with
  | nil => simpa using List.dropWhile_eq_nil_iff.mp hdrop LF hmem
  | cons c tail =>
      simp only [scan, hdrop] at h
      split_ifs at h
      simp at h

end Line

end HttpCodec
