/-!
# Storage of entities

Where the value of a constant or variable is found at run time: it is known while compiling, or it
lies in words at a fixed offset from the base of the stack.
-/

namespace TriangleTam

/-- How an entity is addressed. -/
inductive Storage.Kind where
  /-- A constant whose value is known while compiling. -/
  | knownValue
  /-- A constant that is evaluated where its block is entered, and kept in memory. -/
  | unknownValue
  /-- A variable. -/
  | knownAddress
  /-- No way of addressing at all. -/
  | other (code : Int)
deriving DecidableEq, Repr

namespace Storage.Kind

/-- The way of addressing with a given number. -/
def ofCode (code : Int) : Kind :=
  if code = 1 then knownValue
  else if code = 2 then unknownValue
  else if code = 3 then knownAddress
  else other code

/-- How the way of addressing is called. -/
def name : Kind → String
  | knownValue => "known value"
  | unknownValue => "unknown value"
  | knownAddress => "known address"
  | other code => "storage(" ++ toString code ++ ")"

end Storage.Kind

/-- The run-time descriptor of an entity. `level` is the number of `let`s around its declaration,
`offset` counts words from the base of the stack. -/
structure Storage where
  kind : Storage.Kind
  level : Nat := 0
  offset : Nat := 0
  size : Nat := 0
  value : Int := 0
deriving DecidableEq, Repr

namespace Storage

/-- The descriptor as it stands in listings of declarations. -/
def render (s : Storage) : String :=
  match s.kind with
  | .knownValue => s.kind.name ++ " " ++ toString s.value
  | _ => s.kind.name ++ " " ++ toString s.offset ++ "[SB] level " ++ toString s.level

/-- A descriptor that may be missing. -/
def renderOf : Option Storage → String
  | some s => s.render
  | none => "<none>"

end Storage

end TriangleTam
