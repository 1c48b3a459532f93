import HttpCodec.Text.Decimal

set_option autoImplicit false

/-! # Sources and sinks

A source hands out data block by block until it is used up. One over data in memory hands out
blocks of a positive size; one over a stream may also be asked for all that the stream has. A sink
takes blocks and keeps their data.
-/

namespace HttpCodec

/-- Data to be read in blocks. -/
structure Source where
  /-- What has not been handed out. -/
  unread : Octets
  /-- The largest size of a block, or none for a single block with everything. -/
  size : Option Nat

namespace Source

/-- A block size that is not positive. -/
structure Error where
  size : Int
  deriving DecidableEq

/-- The wording of an error, which shows the size if it is written. -/
def Error.message (e : Error) : Text :=
  match Decimal.write e.size with
  | .ok size => "Read size must be positive, got: " ++ size
  | .error cause => cause.message

/-- The block size that is used where none is given. -/
def defaultSize : Int := 64000

/-- A source of data in memory. -/
def ofData (data : Octets) (size : Int) : Except Error Source :=
  if size ≤ 0 then .error ⟨size⟩ else .ok ⟨data, some size.toNat⟩

/-- A source of the data of a stream. A negative size asks for everything. -/
def ofStream (data : Octets) (size : Int) : Source :=
  ⟨data, if size < 0 then none else some size.toNat⟩

/-- The data that is handed out next; none at the end. -/
def block (s : Source) : Octets :=
  match s.size with
  | none => s.unread
  | some n => s.unread.take n

/-- The next block and the source after it, or nothing at the end. -/
def read (s : Source) : Option (Octets × Source) :=
  if s.block.isEmpty then none
  else some (s.block, { s with unread := s.unread.drop s.block.length })

theorem length_block_le (s : Source) : s.block.length ≤ s.unread.length := by
  simp only [block]
  split
  · exact Nat.le_refl _
  · simp only [List.length_take]
    omega

theorem length_lt_of_read {s t : Source} {data : Octets} (h : s.read = some (data, t)) :
    t.unread.length < s.unread.length := by
  simp only [read] at h
  split at h
  · cases h
  next hne =>
    cases h
    have hle := s.length_block_le
    have hpos : 0 < s.block.length := by
      cases hb : s.block with
      | nil => simp [hb] at hne
      | cons a l => simp
    simp only [List.length_drop]
    omega

/-- All the blocks of a source. -/
def blocks (s : Source) : List Octets :=
  match _h : s.read with
  | none => []
  | some (block, t) => block :: blocks t
termination_by s.unread.length
decreasing_by exact length_lt_of_read ‹_›

end Source

/-- A sink that keeps what is written to it. -/
structure Sink where
  value : Octets := []

/-- Writes a block: how many octets were written, and the sink after it. -/
def Sink.write (s : Sink) (block : Octets) : Nat × Sink := (block.length, ⟨s.value ++ block⟩)

end HttpCodec
