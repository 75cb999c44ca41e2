/-!
# Structured data

Trees are exported as records, lists and plain values, which the two document formats write out.
The fields of a record have no order of their own; documents hold them in alphabetical order.
-/

namespace TriangleTam

/-- A value of a document. -/
inductive Data where
  | null
  | bool (b : Bool)
  | int (n : Int)
  | text (s : String)
  | list (items : List Data)
  | record (fields : List (String × Data))

namespace Data

/-- Adds a field to the record's fields, before the first with a later name. -/
def insertField (f : String × Data) : List (String × Data) → List (String × Data)
  | [] => [f]
  | g :: rest => if f.1 < g.1 then f :: g :: rest else g :: insertField f rest

/-- The fields of a record in alphabetical order. -/
def sortFields (fields : List (String × Data)) : List (String × Data) :=
  fields.foldr insertField []

/-- A record; its fields are put in alphabetical order. -/
def ofFields (fields : List (String × Data)) : Data :=
  .record (sortFields fields)

end Data

end TriangleTam
