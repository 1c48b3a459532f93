import HttpCodec.Dictionary
import HttpCodec.Text.LetterCase

set_option autoImplicit false

/-! # Field names

A field name is a token. Names that differ in letter case only are the same name, so names are
normalized: each part between hyphens starts with a capital and goes on in lower case
(`normalize`). Because the same few names occur again and again, normalized names may be kept in a
cache of bounded size (`NameCache`), which changes no answer.
-/

namespace HttpCodec

namespace FieldName

/-- The characters of a token. -/
def isTokenChar (c : Char) : Bool :=
  c.isAlphanum || ("!#$%&'*+-.^_`|~" : Text).contains c

/-- Tells whether a text is a token. -/
def isToken (t : Text) : Bool := !t.isEmpty && t.all isTokenChar

/-- The normal form of the name whose lower case is `key`. -/
def ofLower (key : Text) : Text :=
  ("-" : Text).intercalate ((splitOn '-' key).map LetterCase.capitalize)

/-- The normal form of a name. -/
def normalize (name : Text) : Text := ofLower (LetterCase.lower name)

/-- The name of the field that declares the length of a body. -/
def contentLength : Text := "Content-Length"

/-- The name of the field that declares how a body is coded. -/
def transferEncoding : Text := "Transfer-Encoding"

/-- The name of the field that declares what a body is. -/
def contentType : Text := "Content-Type"

end FieldName

/-- Normal forms by the lower case of their names. -/
structure NameCache where
  entries : Dictionary Text Text := []

namespace NameCache

/-- Names come from the network, so the cache takes this many and then no more. -/
def capacity : Nat := 1000

/-- The normal form of a name, and the cache with it. -/
def normalize (cache : NameCache) (name : Text) : Text × NameCache :=
  let key := LetterCase.lower name
  match cache.entries.get? key with
  | some normal => (normal, cache)
  | none =>
      let normal := FieldName.ofLower key
      if cache.entries.length < capacity then (normal, ⟨cache.entries.put key normal⟩)
      else (normal, cache)

/-- The normal forms of several names in turn, and the cache after the last one. -/
def normalizeAll (cache : NameCache) : List Text → List Text × NameCache
  | [] => ([], cache)
  | name :: names =>
      let (normal, next) := cache.normalize name
      let (normals, last) := next.normalizeAll names
      (normal :: normals, last)

end NameCache

end HttpCodec
