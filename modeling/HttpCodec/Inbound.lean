import HttpCodec.Text

set_option autoImplicit false

/-! # The incoming half of a connection

The incoming half of a connection is what is going to arrive on it: blocks of data, silences
between them, and perhaps an end. Reading takes data off its front; how much, and whether it waits
in a silence, is up to the caller.

The main statement says that reading neither loses nor changes data (`data_eq_of_read`). Only a
read that runs out of time while it collects everything up to the end loses what it has collected.
-/

namespace HttpCodec

/-- What arrives while reads wait for it. -/
inductive Arrival where
  /-- Data that is there at once. -/
  | data (block : Octets)
  /-- A silence that outlasts a read of limited patience. -/
  | silence
  deriving DecidableEq

/-- The data of an arrival. -/
def Arrival.octets : Arrival → Octets
  | .data block => block
  | .silence => []

/-- The incoming half of a connection. -/
structure Inbound where
  /-- What has not been read, in the order in which it arrives. -/
  arrivals : List Arrival
  /-- Whether the other side then ends the stream. -/
  ends : Bool

/-- How long a read may take. -/
inductive Patience where
  /-- A read fails in a silence. -/
  | limited
  /-- The time is up from the start, so every read fails. -/
  | exhausted
  /-- A read waits for data. -/
  | unlimited
  deriving DecidableEq

namespace Inbound

/-- All the data that arrives. -/
def data (s : Inbound) : Octets := s.arrivals.flatMap Arrival.octets

/-- What is read at the end of the arrivals: nothing, or no end comes in time. -/
def atEnd (ends : Bool) : Option Octets := if ends then some [] else none

/-- Reading at most `size` octets of the next block of data, over silences if the read waits. The
data is empty at the end, and missing if none comes in time. -/
def readBlock (ends waits : Bool) (size : Nat) : List Arrival → Option Octets × List Arrival
  | [] => (atEnd ends, [])
  | .silence :: rest => if waits then readBlock ends waits size rest else (none, rest)
  | .data block :: rest =>
      if block.isEmpty then readBlock ends waits size rest
      else (some (block.take size), .data (block.drop size) :: rest)

/-- Reading everything up to the end. In a silence that the read does not wait for, what it has
collected is lost. -/
def readToEnd (ends waits : Bool) : List Arrival → Option Octets × List Arrival
  | [] => (atEnd ends, [])
  | .silence :: rest => if waits then readToEnd ends waits rest else (none, rest)
  | .data block :: rest =>
      let (more, left) := readToEnd ends waits rest
      (more.map (block ++ ·), left)

/-- Reading at most `size` octets; a negative size asks for everything up to the end. -/
def read (s : Inbound) (patience : Patience) (size : Int) : Option Octets × Inbound :=
  if patience = .exhausted then (none, s)
  else if size = 0 then (some [], s)
  else
    let waits : Bool := patience = .unlimited
    let (found, left) :=
      if size < 0 then readToEnd s.ends waits s.arrivals
      else readBlock s.ends waits size.toNat s.arrivals
    (found, { s with arrivals := left })

theorem octets_eq_of_readBlock {ends waits : Bool} {size : Nat} {arrivals left : List Arrival}
    {block : Octets} (h : readBlock ends waits size arrivals = (some block, left)) :
    arrivals.flatMap Arrival.octets = block ++ left.flatMap Arrival.octets := by
  induction arrivals with
  | nil =>
      cases ends <;> cases h
      rfl
  | cons arrival rest ih =>
      cases arrival with
      | silence =>
          simp only [readBlock] at h
          split at h
          · simpa [Arrival.octets] using ih h
          · cases h
      | data first =>
          simp only [readBlock] at h
          split at h
          next hempty =>
            rw [List.isEmpty_iff] at hempty
            simpa [Arrival.octets, hempty] using ih h
          next =>
            cases h
            simp [Arrival.octets, ← List.append_assoc]

theorem octets_eq_of_readToEnd {ends waits : Bool} {arrivals left : List Arrival}
    {block : Octets} (h : readToEnd ends waits arrivals = (some block, left)) :
    arrivals.flatMap Arrival.octets = block ++ left.flatMap Arrival.octets := by
  induction arrivals generalizing block with
  | nil =>
      cases ends <;> cases h
      rfl
  | cons arrival rest ih =>
      cases arrival with
      | silence =>
          simp only [readToEnd] at h
          split at h
          · simpa [Arrival.octets] using ih h
          · cases h
      | data first =>
          cases hrest : readToEnd ends waits rest with
          | mk more last =>
              cases more with
              | none => simp [readToEnd, hrest] at h
              | some more =>
                  simp only [readToEnd, hrest, Option.map_some, Prod.mk.injEq,
                    Option.some.injEq] at h
                  obtain ⟨rfl, rfl⟩ := h
                  simp [Arrival.octets, ih hrest]

/-- What a read finds comes before what it leaves. -/
theorem data_eq_of_read {s t : Inbound} {patience : Patience} {size : Int} {block : Octets}
    (h : s.read patience size = (some block, t)) : s.data = block ++ t.data := by
  simp only [read] at h
  split at h
  · cases h
  · split at h
    · cases h
      rfl
    · split at h
      all_goals
        obtain ⟨hfound, rfl⟩ := Prod.mk.inj h
      · exact octets_eq_of_readToEnd (Prod.ext hfound rfl)
      · exact octets_eq_of_readBlock (Prod.ext hfound rfl)

/-- A read that finds data leaves less of it. -/
theorem length_lt_of_read {s t : Inbound} {patience : Patience} {size : Int}
    {block : Octets} (h : s.read patience size = (some block, t)) (hne : block.isEmpty = false) :
    t.data.length < s.data.length := by
  have hpos : 0 < block.length := by
    cases block with
    | nil => simp at hne
    | cons a l => simp
  rw [data_eq_of_read h, List.length_append]
  omega

end Inbound

end HttpCodec
