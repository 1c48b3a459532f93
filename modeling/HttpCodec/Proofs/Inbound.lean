import HttpCodec.Inbound
import Mathlib.Tactic

set_option autoImplicit false

/-! # Streams that hand out all of their data

`Inbound.Delivers` says what a reader relies on: the stream has an end, each read asks for data, and
a read that runs out of time takes none. Then the end is read where all of the data has been read
(`Delivers.data_eq_nil`), and a read without result leaves the data as it is
(`Delivers.data_eq_of_timeout`). No read runs out of time if the stream is `Prompt`.
-/

namespace HttpCodec.Inbound

/-- The stream hands out all of its data before its end, to reads of a patience and a size. -/
structure Delivers (s : Inbound) (patience : Patience) (size : Int) : Prop where
  ends : s.ends = true
  /-- A read asks for data. -/
  asks : size ≠ 0
  /-- A read that runs out of time takes nothing: it does not collect what is then lost. -/
  retains : size < 0 → patience = .limited → Arrival.silence ∉ s.arrivals

/-- No read of a patience runs out of time. -/
def Prompt (s : Inbound) : Patience → Prop
  | .limited => Arrival.silence ∉ s.arrivals
  | .exhausted => False
  | .unlimited => True

variable {s t : Inbound} {patience : Patience} {size : Int} {found : Option Octets}
  {ends waits : Bool} {n : Nat} {arrivals left : List Arrival}

/-- **What a read does:** it fails at once, or collects everything up to the end, or takes a
block. -/
theorem Delivers.read_cases (hs : s.Delivers patience size)
    (h : s.read patience size = (found, t)) :
    t.ends = s.ends ∧
      (patience = .exhausted ∧ found = none ∧ t.arrivals = s.arrivals ∨
        patience ≠ .exhausted ∧ size < 0 ∧
          readToEnd true (decide (patience = .unlimited)) s.arrivals = (found, t.arrivals) ∨
        patience ≠ .exhausted ∧ 0 < size ∧
          readBlock true (decide (patience = .unlimited)) size.toNat s.arrivals =
            (found, t.arrivals)) := by
  have hends := hs.ends
  have hasks := hs.asks
  simp only [Inbound.read, hends] at h
  split_ifs at h with hexhausted hneg
  · cases h
    exact ⟨rfl, .inl ⟨hexhausted, rfl, rfl⟩⟩
  all_goals
    obtain ⟨hfound, rfl⟩ := Prod.mk.inj h
    refine ⟨hends.symm, .inr ?_⟩
  · exact .inl ⟨hexhausted, hneg, Prod.ext hfound rfl⟩
  · exact .inr ⟨hexhausted, by omega, Prod.ext hfound rfl⟩

/-- Whatever brings no data is passed over, up to the end, a silence that is not waited for, or
data. -/
theorem exists_idle (ends waits : Bool) (n : Nat) (arrivals : List Arrival) :
    ∃ idle later, arrivals = idle ++ later ∧ idle.flatMap Arrival.octets = [] ∧
      readBlock ends waits n arrivals = readBlock ends waits n later ∧
      (later = [] ∨ (waits = false ∧ ∃ rest, later = .silence :: rest) ∨
        ∃ block rest, block ≠ [] ∧ later = .data block :: rest) := by
  induction arrivals with
  | nil => exact ⟨[], [], rfl, rfl, rfl, .inl rfl⟩
  | cons arrival rest ih =>
      obtain ⟨idle, later, hrest, hidle, hread, hlater⟩ := ih
      cases arrival with
      | silence =>
          cases waits with
          | false => exact ⟨[], _, rfl, rfl, rfl, .inr (.inl ⟨rfl, rest, rfl⟩)⟩
          | true => exact ⟨.silence :: idle, later, congrArg _ hrest, hidle, hread, hlater⟩
      | data block =>
          cases block with
          | nil => exact ⟨.data [] :: idle, later, congrArg _ hrest, hidle, hread, hlater⟩
          | cons c block =>
              exact ⟨[], _, rfl, rfl, rfl, .inr (.inr ⟨_, rest, List.cons_ne_nil c block, rfl⟩)⟩

/-- **Reading a block** comes to the end, or to a silence, or takes the block off data. -/
theorem readBlock_cases (h : readBlock ends waits n arrivals = (found, left)) :
    ∃ idle, idle.flatMap Arrival.octets = [] ∧
      (arrivals = idle ∧ found = atEnd ends ∧ left = [] ∨
        waits = false ∧ arrivals = idle ++ .silence :: left ∧ found = none ∨
        ∃ block rest, block ≠ [] ∧ arrivals = idle ++ .data block :: rest ∧
          found = some (block.take n) ∧ left = .data (block.drop n) :: rest) := by
  obtain ⟨idle, later, rfl, hidle, hread, hlater⟩ := exists_idle ends waits n arrivals
  rw [hread] at h
  refine ⟨idle, hidle, ?_⟩
  rcases hlater with rfl | ⟨rfl, rest, rfl⟩ | ⟨block, rest, hne, rfl⟩
  · cases h
    exact .inl ⟨List.append_nil idle, rfl, rfl⟩
  · cases h
    exact .inr (.inl ⟨rfl, rfl, rfl⟩)
  · rw [readBlock, if_neg (by simpa using hne)] at h
    cases h
    exact .inr (.inr ⟨block, rest, hne, rfl, rfl, rfl⟩)

/-- **Reading to the end** comes to a silence, or collects everything. -/
theorem readToEnd_cases (h : readToEnd ends waits arrivals = (found, left)) :
    (waits = false ∧ found = none ∧ ∃ before, arrivals = before ++ .silence :: left) ∨
      found = (atEnd ends).map (fun _ => arrivals.flatMap Arrival.octets) ∧ left = [] := by
  induction arrivals generalizing found with
  | nil =>
      cases h
      cases ends <;> exact .inr ⟨rfl, rfl⟩
  | cons arrival rest ih =>
      cases arrival with
      | silence =>
          cases waits with
          | false =>
              cases h
              exact .inl ⟨rfl, rfl, [], rfl⟩
          | true => exact .inr ((ih h).resolve_left fun hfalse => by cases hfalse.1)
      | data block =>
          rcases hread : readToEnd ends waits rest with ⟨more, last⟩
          simp only [readToEnd, hread] at h
          obtain ⟨rfl, rfl⟩ := Prod.mk.inj h
          rcases ih hread with ⟨hwaits, rfl, before, rfl⟩ | ⟨rfl, hnil⟩
          · exact .inl ⟨hwaits, rfl, .data block :: before, rfl⟩
          · refine .inr ⟨?_, hnil⟩
            rw [Option.map_map]
            rfl

/-! ## What a read leaves -/

/-- Reading a block leaves no silence that was not there. -/
theorem silence_of_readBlock (h : readBlock ends waits n arrivals = (found, left))
    (hmem : Arrival.silence ∈ left) : Arrival.silence ∈ arrivals := by
  obtain ⟨idle, -, ⟨-, -, rfl⟩ | ⟨-, rfl, -⟩ | ⟨block, rest, -, rfl, -, rfl⟩⟩ := readBlock_cases h
  · cases hmem
  · simp
  · have hrest : Arrival.silence ∈ rest := by simpa using hmem
    simp [hrest]

theorem silence_of_readToEnd (h : readToEnd ends waits arrivals = (found, left))
    (hmem : Arrival.silence ∈ left) : Arrival.silence ∈ arrivals := by
  obtain ⟨-, -, before, rfl⟩ | ⟨-, rfl⟩ := readToEnd_cases h
  · simp
  · cases hmem

theorem Delivers.silence_of_read (hs : s.Delivers patience size)
    (h : s.read patience size = (found, t)) (hmem : Arrival.silence ∈ t.arrivals) :
    Arrival.silence ∈ s.arrivals := by
  rcases (hs.read_cases h).2 with ⟨-, -, hsame⟩ | ⟨-, -, hread⟩ | ⟨-, -, hread⟩
  · exact hsame ▸ hmem
  · exact silence_of_readToEnd hread hmem
  · exact silence_of_readBlock hread hmem

/-- What is left after a read is handed out as well. -/
theorem Delivers.read (hs : s.Delivers patience size) (h : s.read patience size = (found, t)) :
    t.Delivers patience size :=
  ⟨(hs.read_cases h).1.trans hs.ends, hs.asks, fun hneg hlimited hmem =>
    hs.retains hneg hlimited (hs.silence_of_read h hmem)⟩

theorem Delivers.prompt (hs : s.Delivers patience size) (h : s.read patience size = (found, t))
    (hprompt : s.Prompt patience) : t.Prompt patience := by
  cases patience with
  | limited => exact fun hmem => hprompt (hs.silence_of_read h hmem)
  | exhausted => exact hprompt
  | unlimited => trivial

/-! ## Reads that run out of time -/

/-- A block that does not come in time is still to come. -/
theorem octets_eq_of_readBlock_none (h : readBlock true waits n arrivals = (none, left)) :
    left.flatMap Arrival.octets = arrivals.flatMap Arrival.octets := by
  obtain ⟨idle, hidle, ⟨-, hsome, -⟩ | ⟨-, rfl, -⟩ | ⟨_, _, -, -, hsome, -⟩⟩ := readBlock_cases h
  · cases hsome
  · rw [List.flatMap_append, hidle]
    rfl
  · cases hsome

/-- A block is read where there is no silence, or it is waited for. -/
theorem silence_of_readBlock_none (h : readBlock true waits n arrivals = (none, left)) :
    waits = false ∧ Arrival.silence ∈ arrivals := by
  obtain ⟨idle, -, ⟨-, hsome, -⟩ | ⟨hwaits, rfl, -⟩ | ⟨_, _, -, -, hsome, -⟩⟩ := readBlock_cases h
  · cases hsome
  · exact ⟨hwaits, by simp⟩
  · cases hsome

theorem silence_of_readToEnd_none (h : readToEnd true waits arrivals = (none, left)) :
    waits = false ∧ Arrival.silence ∈ arrivals := by
  obtain ⟨hwaits, -, before, rfl⟩ | ⟨hsome, -⟩ := readToEnd_cases h
  · exact ⟨hwaits, by simp⟩
  · cases hsome

/-- **A read that runs out of time leaves the data as it is.** -/
theorem Delivers.data_eq_of_timeout (hs : s.Delivers patience size)
    (h : s.read patience size = (none, t)) : t.data = s.data := by
  rcases (hs.read_cases h).2 with ⟨-, -, hsame⟩ | ⟨hexhausted, hneg, hread⟩ | ⟨-, -, hread⟩
  · exact congrArg (List.flatMap Arrival.octets) hsame
  · obtain ⟨hwaits, hsilence⟩ := silence_of_readToEnd_none hread
    cases patience with
    | limited => exact absurd hsilence (hs.retains hneg rfl)
    | exhausted => exact absurd rfl hexhausted
    | unlimited => cases hwaits
  · exact octets_eq_of_readBlock_none hread

/-- **No read of a prompt stream runs out of time.** -/
theorem Delivers.read_ne_none (hs : s.Delivers patience size) (hprompt : s.Prompt patience) :
    s.read patience size ≠ (none, t) := by
  intro h
  have hnever : ¬ (decide (patience = .unlimited) = false ∧ Arrival.silence ∈ s.arrivals) := by
    rintro ⟨hwaits, hsilence⟩
    cases patience with
    | limited => exact hprompt hsilence
    | exhausted => exact hprompt
    | unlimited => cases hwaits
  rcases (hs.read_cases h).2 with ⟨rfl, -, -⟩ | ⟨-, -, hread⟩ | ⟨-, -, hread⟩
  · exact hprompt
  · exact hnever (silence_of_readToEnd_none hread)
  · exact hnever (silence_of_readBlock_none hread)

/-! ## The end -/

/-- A block without data is read at the end. -/
theorem octets_eq_nil_of_readBlock (hn : n ≠ 0)
    (h : readBlock ends waits n arrivals = (some [], left)) :
    arrivals.flatMap Arrival.octets = [] := by
  obtain ⟨idle, hidle, ⟨rfl, -, -⟩ | ⟨-, -, hnone⟩ | ⟨block, _, hne, -, htake, -⟩⟩ :=
    readBlock_cases h
  · exact hidle
  · cases hnone
  · rcases List.take_eq_nil_iff.mp (Option.some.inj htake).symm with hzero | hnil
    · exact absurd hzero hn
    · exact absurd hnil hne

theorem octets_eq_nil_of_readToEnd (h : readToEnd ends waits arrivals = (some [], left)) :
    arrivals.flatMap Arrival.octets = [] := by
  obtain ⟨-, hnone, -⟩ | ⟨hall, -⟩ := readToEnd_cases h
  · cases hnone
  · obtain ⟨-, -, hnil⟩ := Option.map_eq_some_iff.mp hall.symm
    exact hnil

/-- **The end is read where all of the data has been read.** -/
theorem Delivers.data_eq_nil (hs : s.Delivers patience size)
    (h : s.read patience size = (some [], t)) : s.data = [] := by
  rcases (hs.read_cases h).2 with ⟨-, hnone, -⟩ | ⟨-, -, hread⟩ | ⟨-, hpos, hread⟩
  · cases hnone
  · exact octets_eq_nil_of_readToEnd hread
  · exact octets_eq_nil_of_readBlock (by omega) hread

end HttpCodec.Inbound
