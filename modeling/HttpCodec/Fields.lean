import HttpCodec.Field

set_option autoImplicit false

/-! # Field lists

The header fields of a message, or its trailer fields, in the order in which they arrived. Names
repeat, and are looked up without regard to letter case. An index from lower-case names to values
makes looking up fast; it always agrees with the fields.
-/

namespace HttpCodec

/-- Fields in order, with an index of their values. -/
structure Fields where
  fields : List Field := []
  /-- The values of each name, by its lower case, in the order of the fields. -/
  index : Dictionary Text (List Text) := []
  /-- Whether looking up a repeated name joins its values. -/
  join : Bool := true
  /-- The longest line of a field. -/
  limit : Int := 8192

namespace Fields

/-- The lower-case names whose values are never joined. -/
def separate : List Text := ["set-cookie"]

/-- The fields with one more at the end. -/
def append (fs : Fields) (f : Field) : Fields :=
  let key := LetterCase.lower f.name
  { fs with
    fields := fs.fields ++ [f]
    index := fs.index.put key ((fs.index.get? key).getD [] ++ [f.value]) }

/-- Appends the field with the given name and value. -/
def add (fs : Fields) (name : Text) (value : FieldValue) : Except FieldError Fields :=
  (Field.check fs.limit name value).map fs.append

/-- How many fields have a name. -/
def count (fs : Fields) (name : Text) : Nat :=
  ((fs.index.get? (LetterCase.lower name)).getD []).length

/-- The fields without those that have a name. -/
def remove (fs : Fields) (name : Text) : Fields :=
  let key := LetterCase.lower name
  if (fs.index.get? key).isSome then
    { fs with
      fields := fs.fields.filter (LetterCase.lower ·.name ≠ key)
      index := fs.index.erase key }
  else fs

/-- Replaces the fields that have a name by one field at the end. -/
def set (fs : Fields) (name : Text) (value : FieldValue) : Except FieldError Fields :=
  (Field.check fs.limit name value).map fun f =>
    let rest := fs.remove f.name
    { rest with
      fields := rest.fields ++ [f]
      index := rest.index.put (LetterCase.lower f.name) [f.value] }

/-- Adds fields one after the other. -/
def addAll (fs : Fields) : List (Scalar × FieldValue) → Except FieldError Fields
  | [] => .ok fs
  | (name, value) :: pairs => do
      let next ← fs.add (← name.fieldName) value
      next.addAll pairs

/-- All values of a name, in order. -/
def getAll (fs : Fields) (name : Text) : List Text :=
  (fs.index.get? (LetterCase.lower name)).getD []

/-- The value of a name: its only value; of several values all of them, joined by commas, if the
fields are to be joined and the name allows it, and else the first. -/
def get? (fs : Fields) (name : Text) : Option Text :=
  match fs.getAll name with
  | [] => none
  | [value] => some value
  | value :: values =>
      if !fs.join || separate.contains (LetterCase.lower name) then some value
      else some ((", " : Text).intercalate (value :: values))

/-- Tells whether a name occurs. -/
def has (fs : Fields) (name : Text) : Bool :=
  (fs.index.get? (LetterCase.lower name)).isSome

/-- Tells whether a scalar is a name that occurs. -/
def hasScalar (fs : Fields) : Scalar → Bool
  | .text name => fs.has name
  | _ => false

/-- The lines of the fields, in order. -/
def lines (fs : Fields) : List Text := fs.fields.map Field.line

/-- The octets of the lines. -/
def encode (fs : Fields) : Except Latin.Unencodable Octets := Latin.encode fs.lines.flatten

/-- The fields as a list of pairs, for reports. -/
def shown (fs : Fields) : Text :=
  "HeaderBag(" ++ Quoted.list (fs.fields.map Field.shown) ++ ")"

end Fields

end HttpCodec
