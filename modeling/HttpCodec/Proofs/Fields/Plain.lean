import HttpCodec.Proofs.Fields

set_option autoImplicit false

/-! # Field lists without an index

Field lists could do without an index. `PlainFields` says what each operation would be on a plain
list of fields, where a field has a name if the two are equal in lower case. The operations on
field lists whose index is right are those on the plain list of their fields: there is a lemma for
each of them, such as `Sound.toPlain_set`, where the index is changed under the name that was
checked and the plain list under the name that the caller gives.
-/

namespace HttpCodec

open LetterCase (lower)

/-- A field list without an index. -/
structure PlainFields where
  fields : List Field
  join : Bool
  limit : Int

namespace PlainFields

variable (p : PlainFields) (name : Text)

/-- The fields that have a name. -/
def matching : List Field := p.fields.filter (lower ·.name = lower name)

/-- The fields that do not have a name. -/
def others : List Field := p.fields.filter (lower ·.name ≠ lower name)

/-- Puts a field after some of the fields. -/
def putAfter (kept : List Field) (value : FieldValue) : Except FieldError PlainFields :=
  (Field.check p.limit name value).map fun f => { p with fields := kept ++ [f] }

/-- Adding appends a field. -/
def add (value : FieldValue) : Except FieldError PlainFields := p.putAfter name p.fields value

/-- Adding many stops at the first that fails. -/
def addAll (pairs : List (Scalar × FieldValue)) : Except FieldError PlainFields :=
  pairs.foldlM (fun p pair => pair.1.fieldName >>= fun name => p.add name pair.2) p

/-- Setting appends a field to those that do not have its name. -/
def set (value : FieldValue) : Except FieldError PlainFields := p.putAfter name (p.others name) value

/-- Removing leaves the fields that do not have the name. -/
def remove : PlainFields := { p with fields := p.others name }

/-- The number of fields that have a name. -/
def count : Nat := (p.matching name).length

/-- The values of the fields that have a name. -/
def getAll : List Text := (p.matching name).map (·.value)

/-- The value of a name: the given one if no field has the name, and that of the only field that
has it; of several the values joined by commas, or the first value where they are kept apart. -/
def get (default : Option Text) : Option Text :=
  match p.getAll name with
  | [] => default
  | [value] => some value
  | value :: values =>
      if p.join = true ∧ lower name ≠ "set-cookie" then
        some ((", " : Text).intercalate (value :: values))
      else some value

/-- Whether some field has a name. -/
def has : Bool := p.fields.any (lower ·.name = lower name)

/-- Whether a value of any kind is the name of some field. -/
def hasScalar : Scalar → Bool
  | .text name => p.has name
  | _ => false

variable {p name} {q : PlainFields} {value : FieldValue}

/-- What is put after fields is what is admissible, in normal form. -/
theorem putAfter_eq_ok_iff {kept : List Field} : p.putAfter name kept value = .ok q ↔
    ∃ t, Field.Admissible p.limit name value t ∧
      q = { p with fields := kept ++ [⟨FieldName.normalize name, t⟩] } := by
  unfold putAfter
  rw [map_eq_ok_iff]
  constructor
  · rintro ⟨f, hcheck, rfl⟩
    obtain ⟨t, hadmissible, rfl⟩ := Field.check_eq_ok_iff.mp hcheck
    exact ⟨t, hadmissible, rfl⟩
  · rintro ⟨t, hadmissible, rfl⟩
    exact ⟨_, Field.check_eq_ok_iff.mpr ⟨t, hadmissible, rfl⟩, rfl⟩

/-- A field that was set is the only one that has its name. -/
theorem matching_of_set (h : p.set name value = .ok q) :
    ∃ t, Field.Written value t ∧ q.matching name = [⟨FieldName.normalize name, t⟩] := by
  obtain ⟨t, hadmissible, rfl⟩ := putAfter_eq_ok_iff.mp h
  refine ⟨t, hadmissible.written, ?_⟩
  have hothers : (p.others name).filter (lower ·.name = lower name) = [] := by
    simp [others, List.filter_filter]
  unfold matching
  rw [List.filter_append, hothers]
  simp [FieldName.lower_normalize hadmissible.token]

end PlainFields

namespace Fields

/-- A field list, when its index is left out. -/
def toPlain (fs : Fields) : PlainFields := ⟨fs.fields, fs.join, fs.limit⟩

theorem toPlain_add (fs : Fields) (name : Text) (value : FieldValue) :
    (fs.add name value).map toPlain = fs.toPlain.add name value := by
  unfold add PlainFields.add PlainFields.putAfter
  show _ = (Field.check fs.limit name value).map _
  cases Field.check fs.limit name value <;> rfl

theorem toPlain_addAll (fs : Fields) (pairs : List (Scalar × FieldValue)) :
    (fs.addAll pairs).map toPlain = fs.toPlain.addAll pairs := by
  induction pairs generalizing fs with
  | nil => rfl
  | cons pair pairs ih =>
      obtain ⟨name, value⟩ := pair
      show (name.fieldName >>= fun t => fs.add t value >>= fun next => next.addAll pairs).map toPlain =
        ((name.fieldName >>= fun t => fs.toPlain.add t value) >>= fun next => next.addAll pairs)
      cases name.fieldName with
      | error cause => rfl
      | ok t =>
          show (fs.add t value >>= fun next => next.addAll pairs).map toPlain =
            (fs.toPlain.add t value >>= fun next => next.addAll pairs)
          rw [← toPlain_add]
          cases fs.add t value with
          | error cause => rfl
          | ok next => exact ih next

theorem join_remove (fs : Fields) (name : Text) : (fs.remove name).join = fs.join := by
  simp only [remove]
  split_ifs <;> rfl

namespace Sound

variable {fs : Fields} (h : fs.Sound)

include h

theorem toPlain_remove (name : Text) : (fs.remove name).toPlain = fs.toPlain.remove name := by
  unfold toPlain
  rw [h.indexed.fields_remove, join_remove, limit_remove]
  rfl

theorem toPlain_set (name : Text) (value : FieldValue) :
    (fs.set name value).map toPlain = fs.toPlain.set name value := by
  rw [set_eq_append h]
  show _ = (Field.check fs.limit name value).map _
  cases hcheck : Field.check fs.limit name value with
  | error cause => rfl
  | ok f =>
      -- the name that is removed is that of the field, which has the same lower case
      have hfields : (fs.remove f.name).fields = fs.toPlain.others name := by
        rw [h.indexed.fields_remove, Field.lower_of_check hcheck]
        rfl
      show Except.ok (PlainFields.mk ((fs.remove f.name).fields ++ [f]) (fs.remove f.name).join
        (fs.remove f.name).limit) = _
      rw [hfields, join_remove, limit_remove]
      rfl

theorem count_eq (name : Text) : fs.count name = fs.toPlain.count name := by
  unfold count
  rw [h.indexed.getD_eq]
  exact List.length_map _

theorem getAll_eq (name : Text) : fs.getAll name = fs.toPlain.getAll name :=
  h.indexed.getAll_eq name

theorem get_eq (name : Text) (default : Option Text) :
    (fs.get? name).or default = fs.toPlain.get name default := by
  have hjoin : (!fs.join || separate.contains (lower name)) = true ↔
      ¬ (fs.toPlain.join = true ∧ lower name ≠ "set-cookie") := by
    rw [not_and_or]
    simp [separate, toPlain]
  unfold get? PlainFields.get
  rw [h.getAll_eq]
  match fs.toPlain.getAll name with
  | [] => rfl
  | [value] => rfl
  | value :: _ :: _ =>
      simp only [hjoin]
      split_ifs <;> rfl

theorem has_eq (name : Text) : fs.has name = fs.toPlain.has name := by
  rw [h.indexed.has_eq, Bool.eq_iff_iff]
  simp [valuesOf, PlainFields.has, toPlain, List.filter_eq_nil_iff]

theorem hasScalar_eq (name : Scalar) : fs.hasScalar name = fs.toPlain.hasScalar name := by
  cases name with
  | text t => exact h.has_eq t
  | null | boolean | integer => rfl

end Sound

end Fields

end HttpCodec
