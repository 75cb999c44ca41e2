import TriangleTam.Text.Base64
import TriangleTam.Yaml.Scalar

/-!
# Tags

The meaning of a scalar depends on its tag: without one, a plain scalar means what it looks like and
a quoted one is text; with a standard tag it has to be what the tag says, where bytes are written in
base 64; with any other tag it is text.
-/

namespace TriangleTam.Yaml

namespace Tag

/-- What the standard tags start with. -/
def standardStem : String := "tag:yaml.org,2002:"

/-- The standard tag with this name. -/
def standard (name : String) : String := standardStem ++ name

/-- The tag as it is shown. -/
def short (tag : String) : String :=
  if standardStem.isPrefixOf tag then "!!" ++ (tag.drop standardStem.length).toString else tag

/-- The tag of what a scalar looks like. -/
def ofScalar : Scalar → String
  | .null => standard "null"
  | .bool _ => standard "bool"
  | .int _ => standard "int"
  | .float _ => standard "float"
  | .timestamp => standard "timestamp"
  | .binary _ => standard "binary"
  | .text => standard "str"

/-- Whether a scalar with this tag has to be what the tag says. -/
def isChecked (tag : String) : Bool :=
  ["bool", "int", "float", "null", "timestamp"].any fun n => tag == standard n

end Tag

/-- Why a scalar has no meaning. -/
inductive TagError where
  | mismatch (found wanted text : String)
  | base64
deriving DecidableEq, Repr

/-- What is said about a scalar without a meaning. -/
def TagError.message : TagError → String
  | mismatch found wanted text =>
    "cannot decode " ++ Tag.short found ++ " \x60" ++ text ++ "\x60 as a " ++ Tag.short wanted
  | base64 => "!!binary value contains invalid base64 data"

/-- The meaning of a scalar and the tag that goes with it. -/
def resolve (tag : String) (implicit : Bool) (text : String) :
    Except TagError (String × Scalar) :=
  if tag = "" ∧ !implicit then .ok (Tag.standard "str", .text)
  else if tag = Tag.standard "binary" then
    match Text.Base64.decode? text with
    | some bytes => .ok (tag, .binary bytes)
    | none => .error .base64
  else if tag ≠ "" ∧ !Tag.isChecked tag then .ok (tag, .text)
  else
    let look := Scalar.ofPlain text
    let look := if look = .timestamp ∧ tag ≠ "" ∧ tag ≠ Tag.standard "timestamp" then .text else look
    let found := Tag.ofScalar look
    if tag = "" ∨ tag = found then .ok (found, look)
    else
      match look, tag == Tag.standard "float" with
      | .int n, true =>
        if n ≤ Text.maxInt64 then
          let size := Int.ofNat (Scalar.roundToDouble n.natAbs 1)
          .ok (tag, .float (.whole (if n < 0 then -size else size)))
        else .error (.mismatch found tag text)
      | _, _ => .error (.mismatch found tag text)

end TriangleTam.Yaml
