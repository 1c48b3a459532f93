import HttpCodec.Parser.Step
import HttpCodec.Proofs.Field

set_option autoImplicit false

/-! # The grammar of field lines

A field line is a token, a colon and a value, which may have blanks around it (`Field.Spelled`). The
lines that a parser makes a field of are those that spell one, if the field list has room for it
(`fieldOf_eq_ok_iff`). A list that allows one octet more than the line has never lacks it
(`fieldOf_ne_tooLong`), for the space after the colon is all that is counted and need not be there.
-/

namespace HttpCodec

open CharClass (isSpaceOrTab isForbiddenControl)

/-- Tells that a line spells a field, and what stands in front of the first colon and behind it: the
name is a token, which holds no colon (`Field.Spelled.cut_line`). -/
structure Field.Spelled (f : Field) (name value line : Text) : Prop where
  line_eq : line = name ++ ':' :: value
  token : FieldName.isToken name = true
  plain : ∀ c ∈ trim isSpaceOrTab value, isForbiddenControl c = false
  name_eq : f.name = FieldName.normalize name
  value_eq : f.value = trim isSpaceOrTab value

/-- The name is what stands in front of the first colon. -/
theorem Field.Spelled.cut_line {f : Field} {name value line : Text}
    (h : f.Spelled name value line) : cut ':' line = (name, value) := by
  rw [h.line_eq, cut_append (FieldName.not_mem_of_isToken h.token (by decide))]

/-- The name and the value are no longer than the line, the colon and a space after it included. -/
theorem Field.Spelled.length_le {f : Field} {name value line : Text}
    (h : f.Spelled name value line) : name.length + 2 + f.value.length ≤ line.length + 1 := by
  have htrim := length_trim_le isSpaceOrTab value
  rw [h.line_eq, h.value_eq, List.length_append, List.length_cons]
  omega

namespace FieldLine

variable {line : Octets} {name value : Text}

/-- What is read as a name and a value stands on either side of the first colon. -/
theorem decode_of_read (h : read line = .ok (name, value)) :
    Latin.decode line = name ++ ':' :: value := by
  obtain ⟨hcolon, rfl, rfl⟩ := eq_of_read h
  conv_lhs => rw [eq_cut_of_mem hcolon]
  exact List.map_append

/-- **The lines with a token in front of the first colon** are read as what stands on either
side. -/
theorem read_eq_ok_iff (htoken : FieldName.isToken name = true) :
    read line = .ok (name, value) ↔ Latin.decode line = name ++ ':' :: value := by
  constructor
  · exact decode_of_read
  · intro hline
    have hoctets : line = Latin.octets name ++ colon :: Latin.octets value := by
      rw [← Latin.octets_decode line, hline, Latin.octets_append]
      rfl
    have hlatin : ∀ c ∈ value, Latin.isLatin c = true := by
      intro c hc
      have hmem : c ∈ Latin.decode line := by simp [hline, hc]
      exact Latin.isLatin_of_mem_decode hmem
    rw [hoctets, read_of_token htoken, Latin.decode_octets hlatin]

/-- The name and the value on a line are no longer than the line, the colon and a space after it
included. -/
theorem length_of_read (h : read line = .ok (name, value)) :
    name.length + 2 + (trim isSpaceOrTab value).length ≤ line.length + 1 := by
  have hlen : (Latin.decode line).length = line.length := List.length_map _
  have htrim := length_trim_le isSpaceOrTab value
  rw [decode_of_read h, List.length_append, List.length_cons] at hlen
  omega

end FieldLine

namespace Parser

variable {limits : Limits} {fields : Fields} {line : Octets} {f : Field} {cause : ParseError}

/-- **The fields that a parser makes of lines** are those that the lines spell and that there is
room for. -/
theorem fieldOf_eq_ok_iff :
    fieldOf limits fields line = .ok f ↔
      fields.fields.length < limits.headers ∧
        ∃ name value, f.Spelled name value (Latin.decode line) ∧
          (name.length : Int) + 2 + f.value.length ≤ fields.limit := by
  constructor
  · intro h
    unfold fieldOf at h
    split_ifs at h with hroom
    split at h
    · cases h
    next name value hread =>
      obtain ⟨t, ⟨htoken, hwritten, hplain, hfits⟩, rfl⟩ :=
        Field.check_eq_ok_iff.mp (mapError_eq_ok_iff.mp h)
      cases hwritten
      exact ⟨by omega, name, value, ⟨FieldLine.decode_of_read hread, htoken,
        fun c hc => (hplain c hc).2, rfl, rfl⟩, hfits⟩
  · rintro ⟨hroom, name, value, hspelled, hfits⟩
    have hread := (FieldLine.read_eq_ok_iff hspelled.token).mpr hspelled.line_eq
    have hplain : Latin.Plain (trim isSpaceOrTab value) := by
      intro c hc
      have hmem : c ∈ Latin.decode line := by
        rw [hspelled.line_eq]
        exact List.mem_append_right _ (List.mem_cons_of_mem _ (mem_of_mem_trim hc))
      exact ⟨Latin.isLatin_of_mem_decode hmem, hspelled.plain c hc⟩
    have heq : f = ⟨FieldName.normalize name, trim isSpaceOrTab value⟩ :=
      congrArg₂ Field.mk hspelled.name_eq hspelled.value_eq
    unfold fieldOf
    rw [if_neg (by omega), hread]
    rw [hspelled.value_eq] at hfits
    exact mapError_eq_ok_iff.mpr
      (Field.check_eq_ok_iff.mpr ⟨_, ⟨hspelled.token, .text value, hplain, hfits⟩, heq⟩)

/-- A list that has room for the field, and allows one octet more than the line has, takes every
field that is spelled. -/
theorem fieldOf_eq_ok_iff_of_room (hroom : fields.fields.length < limits.headers)
    (hlimit : (line.length : Int) + 1 ≤ fields.limit) :
    fieldOf limits fields line = .ok f ↔
      ∃ name value, f.Spelled name value (Latin.decode line) := by
  rw [fieldOf_eq_ok_iff]
  constructor
  · rintro ⟨-, name, value, hspelled, -⟩
    exact ⟨name, value, hspelled⟩
  · rintro ⟨name, value, hspelled⟩
    have hlen := hspelled.length_le
    have hdecode : (Latin.decode line).length = line.length := List.length_map _
    exact ⟨hroom, name, value, hspelled, by omega⟩

/-- A line that gives no field is a malformed header, unless there are too many fields already. -/
theorem type_of_fieldOf (h : fieldOf limits fields line = .error cause) :
    cause.type =
      if fields.fields.length < limits.headers then .badHeader else .oversizedHeader := by
  unfold fieldOf at h
  split_ifs at h with hmany
  · cases h
    rw [if_neg (by omega)]
    rfl
  · rw [if_pos (by omega)]
    split at h
    · cases h
      rfl
    next name value _ =>
      cases hcheck : Field.check fields.limit name (.text value) with
      | ok f =>
          rw [hcheck] at h
          cases h
      | error cause =>
          rw [hcheck] at h
          cases h
          rfl

/-- **A list that allows one octet more than the line has** never finds the field too long. -/
theorem fieldOf_ne_tooLong (hlimit : (line.length : Int) + 1 ≤ fields.limit) (name : Text)
    (limit : Int) : fieldOf limits fields line ≠ .error (.field (.tooLong name limit)) := by
  intro h
  unfold fieldOf at h
  split_ifs at h
  · cases h
  split at h
  · cases h
  next n v hread =>
    have hlen := FieldLine.length_of_read hread
    cases hcheck : Field.check fields.limit n (.text v) with
    | ok f =>
        rw [hcheck] at h
        cases h
    | error cause =>
        rw [hcheck] at h
        cases h
        simp only [Field.check, FieldValue.trimmed] at hcheck
        split_ifs at hcheck <;> cases hcheck
        omega

end Parser

end HttpCodec
