import TriangleTam.Data.Json
import TriangleTam.Tree.Export
import TriangleTam.Tree.Outline
import TriangleTam.Yaml.Writer

/-!
# Written forms of trees

A tree is shown as an indented outline, or exported as a JSON or YAML document.
-/

namespace TriangleTam

/-- A written form of trees. -/
inductive Format where
  | text
  | json
  | yaml
deriving DecidableEq, Repr

namespace Format

/-- The form with this name. -/
def ofName? (name : String) : Option Format :=
  [("text", text), ("json", json), ("yaml", yaml)].lookup name

/-- A node in the given form, or what stands for a missing one. -/
def render (format : Format) (node : Option Node) : String :=
  match format, node with
  | text, some n => n.outline
  | text, none => ""
  | json, some n => Data.Json.document n.toData
  | json, none => Data.Json.document .null
  | yaml, some n => Yaml.document n.toData
  | yaml, none => Yaml.document .null

end Format

end TriangleTam
