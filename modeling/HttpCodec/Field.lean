import HttpCodec.Field.Name
import HttpCodec.Scalar
import HttpCodec.Text.Latin

set_option autoImplicit false

/-! # Header and trailer fields

A field is a name and a value that can be written as a line `Name: value`: the name is a token,
the value holds Latin-1 characters and no control characters but tabs, and the line does not
exceed a limit. `Field.check` makes a field of what a caller gives, or says what is wrong with it.
-/

namespace HttpCodec

/-- A field, its name in normal form. -/
structure Field where
  name : Text
  value : Text
  deriving DecidableEq

/-- A field value as a caller gives it. -/
inductive FieldValue where
  | text (value : Text)
  | number (value : Int)
  deriving DecidableEq

/-- Why a name and a value make no field. -/
inductive FieldError where
  /-- The name is not a token. -/
  | invalidName (name : Text)
  /-- The name is not even a text. -/
  | notText (shown : Text)
  /-- The name or the value is a number that is not written. -/
  | unwritten (cause : Decimal.Error)
  /-- The value holds a control character. -/
  | invalidCharacter (name value : Text)
  /-- The value holds a character beyond Latin-1. -/
  | notLatin (name value : Text)
  /-- The line would be longer than the limit. -/
  | tooLong (name : Text) (limit : Int)
  deriving DecidableEq

/-- The wording of an error. -/
def FieldError.message : FieldError → Text
  | .invalidName name => "Invalid header name: " ++ Quoted.text name
  | .notText shown => "Invalid header name: " ++ shown
  | .unwritten cause => cause.message
  | .invalidCharacter name value =>
      "Invalid character in " ++ name ++ " value: " ++ Quoted.text value
  | .notLatin name value => "Header " ++ name ++ " value is not latin-1: " ++ Quoted.text value
  | .tooLong name limit => "Header " ++ name ++ " exceeds " ++ Decimal.ofInt limit ++ " bytes"

/-- The text of a value: without tabs and spaces around it, or the number in base ten, unless it is
not written. -/
def FieldValue.trimmed : FieldValue → Except Decimal.Error Text
  | .text t => .ok (trim CharClass.isSpaceOrTab t)
  | .number n => Decimal.write n

namespace Field

/-- The field with the given name and value, if it fits into `limit` octets, not counting the
line end. -/
def check (limit : Int) (name : Text) (value : FieldValue) : Except FieldError Field :=
  if !FieldName.isToken name then .error (.invalidName name)
  else
    match value.trimmed with
    | .error cause => .error (.unwritten cause)
    | .ok v =>
        if v.any CharClass.isForbiddenControl then .error (.invalidCharacter name v)
        else if !v.all Latin.isLatin then .error (.notLatin name v)
        else if name.length + 2 + v.length > limit then .error (.tooLong name limit)
        else .ok ⟨FieldName.normalize name, v⟩

/-- The line of a field, line end included. -/
def line (f : Field) : Text := f.name ++ ": " ++ f.value ++ "\r\n"

/-- A field as a pair of quoted texts. -/
def shown (f : Field) : Text :=
  "(" ++ Quoted.text f.name ++ ", " ++ Quoted.text f.value ++ ")"

end Field

/-- The field name that a scalar gives. Only a text is one. -/
def Scalar.fieldName : Scalar → Except FieldError Text
  | .text t => .ok t
  | s =>
      match s.shown with
      | .ok shown => .error (.notText shown)
      | .error cause => .error (.unwritten cause)

end HttpCodec
