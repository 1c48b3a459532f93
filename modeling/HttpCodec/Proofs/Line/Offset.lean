import HttpCodec.Proofs.Line
import HttpCodec.Proofs.Result
import HttpCodec.Proofs.Text.Latin

set_option autoImplicit false

/-! # Lines at an offset

`Line.scanAt` looks for a line that starts at an offset in a buffer. What it finds is what `scan`
finds in the octets from there on (`scanAt_eq`), so each of its outcomes is a fact about these octets:
a line stands there (`Stands`), there may still be one, the line is too long, or its end is
malformed. The main statement is `scanning_at_offset`.
-/

namespace HttpCodec.Line

variable {data line : Octets} {limit : Int}

/-! ## What stands at the front -/

/-- A line that is not too long stands at the front of the data. -/
structure Stands (limit : Int) (data line : Octets) : Prop where
  front : line ++ lineEnd <+: data
  noCR : CR ∉ line
  noLF : LF ∉ line
  fits : line.length ≤ limit

/-- A line stands at the front exactly if it is taken off, with some rest. -/
theorem stands_iff :
    Stands limit data line ↔ ∃ rest, scan data limit = .ok (some (line, rest)) := by
  constructor
  · rintro ⟨⟨rest, hdata⟩, hCR, hLF, hfits⟩
    exact ⟨rest, scan_eq_some_iff.mpr ⟨hdata.symm, hCR, hLF, hfits⟩⟩
  · rintro ⟨rest, hscan⟩
    obtain ⟨hdata, hCR, hLF, hfits⟩ := scan_eq_some_iff.mp hscan
    exact ⟨⟨rest, hdata.symm⟩, hCR, hLF, hfits⟩

/-- The first line feed comes after the octets that are none. Without a line feed these are all. -/
theorem length_takeWhile_LF (data : Octets) :
    (data.takeWhile (· ≠ LF)).length = data.idxOf LF := by
  induction data with
  | nil => rfl
  | cons c data ih =>
      by_cases hc : c = LF
      · simp [hc]
      · rw [List.takeWhile_cons_of_pos (by simpa using hc), List.length_cons, ih,
          List.idxOf_cons_ne data hc]

/-- **A line is too long** if the first line feed, or without one the end of the data, comes too
late for a line that keeps the limit. -/
theorem scan_eq_tooLong_iff {n : Int} :
    scan data limit = .error (.tooLong n) ↔ n = limit ∧ limit + 1 < data.idxOf LF := by
  simp only [scan, length_takeWhile_LF]
  by_cases hlong : (data.idxOf LF : Int) > limit + 1
  · rw [if_pos hlong, Except.error.injEq, Error.tooLong.injEq]
    exact ⟨fun h => ⟨h.symm, hlong⟩, fun h => h.1.symm⟩
  · rw [if_neg hlong]
    refine iff_of_false ?_ fun h => hlong h.2
    cases data.dropWhile (· ≠ LF) with
    | nil => simp
    | cons c rest =>
        simp only
        split_ifs <;> simp

/-! ## At an offset -/

variable {offset : Nat}

/-- At an offset within the data a line is looked for in what follows. -/
theorem scanAt_eq (hoffset : offset ≤ data.length) :
    scanAt data offset limit =
      (scan (data.drop offset) limit).map fun found =>
        found.map fun (line, rest) => (line, data.length - rest.length) := by
  rw [scanAt, if_neg (by omega)]

theorem scanAt_eq_error_iff (hoffset : offset ≤ data.length) {cause : Error} :
    scanAt data offset limit = .error cause ↔ scan (data.drop offset) limit = .error cause := by
  rw [scanAt_eq hoffset]
  cases scan (data.drop offset) limit <;> simp [Except.map]

theorem scanAt_eq_none_iff (hoffset : offset ≤ data.length) :
    scanAt data offset limit = .ok none ↔ scan (data.drop offset) limit = .ok none := by
  rw [scanAt_eq hoffset]
  rcases scan (data.drop offset) limit with cause | _ | found <;> simp [Except.map]

/-- The offset after a line is where what follows it begins. -/
theorem stop_eq_of_scan {rest : Octets} (h : scan (data.drop offset) limit = .ok (some (line, rest)))
    (hoffset : offset ≤ data.length) :
    data.length - rest.length = offset + line.length + 2 ∧
      data.drop (data.length - rest.length) = rest := by
  obtain ⟨hdata, -⟩ := data_eq_of_scan h
  have hlength := congrArg List.length hdata
  rw [List.length_drop, List.length_append, List.length_append] at hlength
  simp only [lineEnd, List.length_cons, List.length_nil] at hlength
  have hrest : rest <:+ data.drop offset := ⟨line ++ lineEnd, hdata.symm⟩
  have hsuffix : rest <:+ data := hrest.trans (List.drop_suffix offset data)
  exact ⟨by omega, (List.suffix_iff_eq_drop.mp hsuffix).symm⟩

theorem scanAt_eq_some_iff (hoffset : offset ≤ data.length) {stop : Nat} :
    scanAt data offset limit = .ok (some (line, stop)) ↔
      Stands limit (data.drop offset) line ∧ stop = offset + line.length + 2 := by
  rw [scanAt_eq hoffset, map_eq_ok_iff, stands_iff]
  constructor
  · rintro ⟨found, hscan, hfound⟩
    obtain ⟨⟨taken, rest⟩, rfl, hpair⟩ := Option.map_eq_some_iff.mp hfound
    obtain ⟨rfl, rfl⟩ := Prod.mk.inj hpair
    exact ⟨⟨rest, hscan⟩, (stop_eq_of_scan hscan hoffset).1⟩
  · rintro ⟨⟨rest, hscan⟩, rfl⟩
    have hstop := (stop_eq_of_scan hscan hoffset).1
    exact ⟨some (line, rest), hscan, by simp only [Option.map_some, hstop]⟩

/-- **A verdict at an offset is final.** -/
theorem scanAt_append (hoffset : offset ≤ data.length) (more : Octets)
    (h : scanAt data offset limit ≠ .ok none) :
    scanAt (data ++ more) offset limit = scanAt data offset limit := by
  have hmore : offset ≤ (data ++ more).length := by
    rw [List.length_append]
    omega
  have hscan : scan (data.drop offset) limit ≠ .ok none :=
    fun hnone => h ((scanAt_eq_none_iff hoffset).mpr hnone)
  rw [scanAt_eq hoffset, scanAt_eq hmore, List.drop_append_of_le_length hoffset,
    scan_append more hscan]
  rcases scan (data.drop offset) limit with cause | _ | ⟨line, rest⟩
  · rfl
  · rfl
  · simp only [appendRest_some, Except.map, Option.map_some, List.length_append]
    rw [Nat.add_sub_add_right]

/-- **Scanning for a line at an offset** within the data, whatever the limit. A line is found exactly
if it stands there, and with it the offset after its end. More data is needed exactly if no line
feed has arrived and what has arrived may still be a line with its carriage return. Anything else
is an error, namely that the line is too long exactly if the first line feed, or else the end of the
data, comes too late. Once a line or an error is found, more data does not change that. -/
theorem scanning_at_offset (hoffset : offset ≤ data.length) (limit : Int) :
    (∀ line stop, scanAt data offset limit = .ok (some (line, stop)) ↔
      Stands limit (data.drop offset) line ∧ stop = offset + line.length + 2) ∧
    (scanAt data offset limit = .ok none ↔
      LF ∉ data.drop offset ∧ ((data.length - offset : Nat) : Int) ≤ limit + 1) ∧
    ((∃ cause, scanAt data offset limit = .error cause) ↔
      (∀ line, ¬ Stands limit (data.drop offset) line) ∧
        ¬ (LF ∉ data.drop offset ∧ ((data.length - offset : Nat) : Int) ≤ limit + 1)) ∧
    (∀ n, scanAt data offset limit = .error (.tooLong n) ↔
      n = limit ∧ limit + 1 < (data.drop offset).idxOf LF) ∧
    (scanAt data offset limit ≠ .ok none →
      ∀ more, scanAt (data ++ more) offset limit = scanAt data offset limit) := by
  have hnone : scanAt data offset limit = .ok none ↔
      LF ∉ data.drop offset ∧ ((data.length - offset : Nat) : Int) ≤ limit + 1 := by
    rw [scanAt_eq_none_iff hoffset, scan_eq_none_iff, List.length_drop]
  refine ⟨fun line stop => scanAt_eq_some_iff hoffset, hnone, ?_,
    fun n => (scanAt_eq_error_iff hoffset).trans scan_eq_tooLong_iff,
    fun h more => scanAt_append hoffset more h⟩
  rw [← hnone]
  constructor
  · rintro ⟨cause, herror⟩
    refine ⟨fun line hstands => ?_, by simp [herror]⟩
    have hsome := (scanAt_eq_some_iff hoffset).mpr ⟨hstands, rfl⟩
    rw [herror] at hsome
    cases hsome
  · rintro ⟨hstands, hverdict⟩
    rcases hscan : scanAt data offset limit with cause | _ | ⟨line, stop⟩
    · exact ⟨cause, rfl⟩
    · exact absurd hscan hverdict
    · exact absurd ((scanAt_eq_some_iff hoffset).mp hscan).1 (hstands line)

/-- Behind two octets that are skipped: a line of exactly the limit, of which the carriage return may
arrive before the line feed, and one octet that is too many. -/
theorem scanning_at_offset_of_limit :
    let data := Latin.octets "..abc\r\n"
    2 ≤ data.length ∧ scanAt data 2 3 = .ok (some (Latin.octets "abc", 7)) ∧
      scanAt (data ++ [CR]) 2 3 = scanAt data 2 3 ∧ scanAt (data.take 6) 2 3 = .ok none ∧
      scanAt data 2 2 = .error (.tooLong 2) := by
  intro data
  have hoffset : 2 ≤ data.length := by decide
  obtain ⟨hline, -, -, -, hfinal⟩ := scanning_at_offset hoffset 3
  obtain ⟨-, -, -, hlong, -⟩ := scanning_at_offset hoffset 2
  obtain ⟨-, hwaits, -⟩ := scanning_at_offset (show 2 ≤ (data.take 6).length by decide) 3
  have hstands : Stands 3 (data.drop 2) (Latin.octets "abc") :=
    ⟨⟨[], rfl⟩, by decide, by decide, by decide⟩
  have hfound := (hline _ _).mpr ⟨hstands, rfl⟩
  exact ⟨hoffset, hfound, hfinal (by rw [hfound]; nofun) [CR], hwaits.mpr (by decide),
    (hlong 2).mpr (by decide)⟩

end HttpCodec.Line
