import HttpCodec.Dictionary
import HttpCodec.Scalar
import HttpCodec.Text.Percent

set_option autoImplicit false

/-! # Query strings

A query string lists `key=value` pairs between ampersands, keys and values percent encoded.
Reading one gives a dictionary: a key that occurs again keeps its first place and gets the last
value. Values need not be text when a query string is written; a number that is too long to be
written makes it fail (`write`).
-/

namespace HttpCodec.Query

/-- One pair as it is written. -/
def parameter (key value : Text) : Text := Percent.encode key ++ "=" ++ Percent.encode value

/-- The query string of pairs. -/
def ofPairs (pairs : List (Text × Text)) : Text :=
  ("&" : Text).intercalate (pairs.map fun (key, value) => parameter key value)

/-- A pair with the text of its value, if it has one. -/
def showValue (pair : Text × Scalar) : Except Decimal.Error (Text × Text) :=
  pair.2.shown.map fun shown => (pair.1, shown)

/-- The query string of pairs that are added one after the other, up to a value without text. -/
def write (pairs : List (Text × Scalar)) : Except Decimal.Error Text :=
  (pairs.mapM showValue).map ofPairs

/-- The pair that one item of a query string stands for; without an equals sign the value is
empty. -/
def readItem (item : Text) : Text × Text :=
  let (key, value) := cut '=' item
  (Percent.decode key, Percent.decode value)

/-- The pairs of a query string. -/
def read (t : Text) : Dictionary Text Text :=
  if t.isEmpty then [] else Dictionary.ofPairs ((splitOn '&' t).map readItem)

end HttpCodec.Query
