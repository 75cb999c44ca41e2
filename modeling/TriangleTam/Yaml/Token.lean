/-!
# Tokens of documents

The tokens show the nesting of a document: where blocks start and end, which parts are keys and
which are values.
-/

namespace TriangleTam.Yaml

/-- The category of a token with what belongs to it. -/
inductive Kind where
  | streamEnd
  | version (major minor : Nat)
  | tagHandle (handle stem : String)
  | documentStart
  | documentEnd
  | blockSequenceStart
  | blockMappingStart
  | blockEnd
  | flowSequenceStart
  | flowSequenceEnd
  | flowMappingStart
  | flowMappingEnd
  | blockEntry
  | flowEntry
  | key
  | value
  | reference (name : String)
  | anchor (name : String)
  | tag (handle suffix : String)
  | scalar (text : String) (plain : Bool)
deriving DecidableEq, Repr

/-- A token, with the line it starts in, from zero. -/
structure Token where
  kind : Kind
  line : Nat
deriving DecidableEq, Repr

end TriangleTam.Yaml
