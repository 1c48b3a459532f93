import HttpCodec.Text.Decimal

set_option autoImplicit false

/-! # Lines

A line is a run of octets without carriage returns and line feeds that is followed by one of each.
`scan` takes a line off the front of data that may still be incomplete. Its outcome depends on the
octets alone and not on how many of them have arrived: once it has found a line or an error, more
data changes nothing.
-/

namespace HttpCodec

/-- The carriage return. -/
def CR : UInt8 := 0x0D

/-- The line feed. -/
def LF : UInt8 := 0x0A

/-- The end of a line. -/
def lineEnd : Octets := [CR, LF]

namespace Line

/-- Why no line can be taken, whatever follows. -/
inductive Error where
  /-- The line is longer than the limit. -/
  | tooLong (limit : Int)
  /-- A line feed does not follow a carriage return. -/
  | bareLineFeed
  /-- A carriage return is not followed by a line feed. -/
  | bareCarriageReturn
  deriving DecidableEq

/-- The wording of an error. -/
def Error.message : Error → Text
  | .tooLong limit => "Line exceeds " ++ Decimal.ofInt limit ++ " bytes"
  | .bareLineFeed => "Line terminated by a bare LF"
  | .bareCarriageReturn => "Line contains a bare CR"

/-- Takes a line of at most `limit` octets off the front of the data: the line and what follows
it, or nothing if more data is needed. Without a line feed the last octet may be the carriage
return of a line of exactly `limit` octets. -/
def scan (data : Octets) (limit : Int) : Except Error (Option (Octets × Octets)) :=
  let line := data.takeWhile (· ≠ LF)
  if line.length > limit + 1 then .error (.tooLong limit)
  else
    match data.dropWhile (· ≠ LF) with
    | [] => .ok none
    | _ :: rest =>
        if line.getLast? ≠ some CR then .error .bareLineFeed
        else if line.dropLast.contains CR then .error .bareCarriageReturn
        else .ok (some (line.dropLast, rest))

/-- Takes the line that starts at `offset`: the line and the offset after it. Beyond the end of
the data there is no line, and more data is needed unless the limit is negative enough. -/
def scanAt (data : Octets) (offset : Nat) (limit : Int) :
    Except Error (Option (Octets × Nat)) :=
  if data.length < offset then
    if data.length - offset > limit + 1 then .error (.tooLong limit) else .ok none
  else
    (scan (data.drop offset) limit).map fun found =>
      found.map fun (line, rest) => (line, data.length - rest.length)

/-- The octet before a position; the one before the first is taken to be the last. -/
def octetBefore (data : Octets) (position : Nat) : Option UInt8 :=
  if position = 0 then data.getLast? else data[position - 1]?

/-- Takes the line that starts `back` octets before the end of the data, or at its beginning if
there are fewer: the line and the offset after it. The limit is for the length counted from `back`
octets before the beginning. A line feed at the very beginning ends the line of all octets but the
last, which has to be its carriage return. -/
def scanBack (data : Octets) (back : Nat) (limit : Int) :
    Except Error (Option (Octets × Nat)) :=
  let start := data.length - back
  let line := (data.drop start).takeWhile (· ≠ LF)
  let stop := start + line.length
  if stop + back > limit + 1 then .error (.tooLong limit)
  else if stop = data.length then .ok none
  else if octetBefore data stop ≠ some CR then .error .bareLineFeed
  else
    let line := if stop = 0 then data.dropLast else line.dropLast
    if line.contains CR then .error .bareCarriageReturn else .ok (some (line, stop + 1))

/-- A line that was taken ends before the rest. -/
theorem length_lt_of_scan {data line rest : Octets} {limit : Int}
    (h : scan data limit = .ok (some (line, rest))) : rest.length < data.length := by
  have hsplit : data.takeWhile (· ≠ LF) ++ data.dropWhile (· ≠ LF) = data :=
    List.takeWhile_append_dropWhile
  simp only [scan] at h
  split at h
  · cases h
  · split at h
    · cases h
    · next octet tail hdrop =>
        split at h
        · cases h
        · split at h
          · cases h
          · simp only [Except.ok.injEq, Option.some.injEq, Prod.mk.injEq] at h
            have := congrArg List.length hsplit
            simp only [hdrop, List.length_append, List.length_cons] at this
            rw [← h.2]
            omega

end Line

end HttpCodec
