import TriangleTam.Data
import TriangleTam.Text.Quoted

/-!
# Data as JSON text

A field or list item to a line, two blanks further in at each level. Characters that mean something
to a page the text may be shown on (`<`, `>`, `&` and the line separators) are escaped besides the
ones that have to be.
-/

namespace TriangleTam.Data.Json

/-- How a character is written in a string. -/
def escape (c : Char) : String :=
  match c with
  | '"' => "\\\""
  | '\\' => "\\\\"
  | '\n' => "\\n"
  | '\r' => "\\r"
  | '\t' => "\\t"
  | '\x08' => "\\b"
  | '\x0c' => "\\f"
  | c =>
    if c.toNat < 0x20 ∨ c ∈ ['<', '>', '&', '\u2028', '\u2029'] then "\\u" ++ Text.hex 4 c.toNat
    else String.singleton c

/-- A string between double quotes. -/
def string (s : String) : String :=
  "\"" ++ String.join (s.toList.map escape) ++ "\""

/-- A new line at the given level of nesting. -/
def newline (depth : Nat) : String :=
  "\n" ++ String.join (List.replicate depth "  ")

mutual

/-- The text of a value whose first line is at level `depth`. -/
def value (depth : Nat) : Data → String
  | .null => "null"
  | .bool b => if b then "true" else "false"
  | .int n => toString n
  | .text s => string s
  | .list [] => "[]"
  | .list (item :: items) =>
    "[" ++ newline (depth + 1) ++ value (depth + 1) item ++ itemsAfter (depth + 1) items
      ++ newline depth ++ "]"
  | .record [] => "\x7b\x7d"
  | .record ((name, item) :: fields) =>
    "\x7b" ++ newline (depth + 1) ++ string name ++ ": " ++ value (depth + 1) item
      ++ fieldsAfter (depth + 1) fields ++ newline depth ++ "\x7d"

/-- The items of a list after the first. -/
def itemsAfter (depth : Nat) : List Data → String
  | [] => ""
  | item :: items => "," ++ newline depth ++ value depth item ++ itemsAfter depth items

/-- The fields of a record after the first. -/
def fieldsAfter (depth : Nat) : List (String × Data) → String
  | [] => ""
  | (name, item) :: fields =>
    "," ++ newline depth ++ string name ++ ": " ++ value depth item ++ fieldsAfter depth fields

end

/-- The document with one value, on lines of its own. -/
def document (d : Data) : String :=
  value 0 d ++ "\n"

end TriangleTam.Data.Json
