import TriangleTam.Check
import TriangleTam.Diagnostics
import TriangleTam.Generate
import TriangleTam.Parser.Text
import TriangleTam.Settings

/-!
# Compilations

A compilation goes through four stages. The checker runs whatever was found wrong before, so that a
misplaced token does not hide other problems; code is made only if nothing at all was found wrong.
-/

namespace TriangleTam

/-- A stage of a compilation. -/
inductive Stage where
  | scan
  | parse
  | check
  | generate
deriving DecidableEq, Repr

namespace Stage

/-- The stages in their order. -/
def all : List Stage := [scan, parse, check, generate]

/-- How the stage is called. -/
def name : Stage → String
  | scan => "scan"
  | parse => "parse"
  | check => "check"
  | generate => "generate"

/-- The stage with this name. -/
def ofName? (name : String) : Option Stage :=
  all.find? (·.name == name)

/-- The name of the stage with a given number, from zero. -/
def nameOfCode (code : Int) : String :=
  if code < 0 then "stage?" else (all[code.toNat]?.map name).getD "stage?"

end Stage

/-- Everything a compilation came to. Parts of stages that did not run are missing. -/
structure Compilation where
  file : String
  tokens : List Token
  diagnostics : List String
  program : Option Program := none
  frameSize : Option Nat := none
  code : Option (List Machine.Instruction) := none

namespace Compilation

/-- Why a compilation came to nothing. None of this is the program's fault. -/
inductive Failure where
  | read (file : String) (e : ReadError)
  | internal (file : String) (v : Violation)
  | malformed (m : MalformedLiteral)
deriving DecidableEq, Repr

/-- What is said about a compilation that came to nothing. -/
def Failure.message : Failure → String
  | read file e => "reading " ++ file ++ ": " ++ e.message
  | internal file v => "internal error compiling " ++ file ++ ": " ++ v.message
  | malformed m => m.message

/-- Whether nothing was found wrong. -/
def ok (c : Compilation) : Bool :=
  c.diagnostics.isEmpty

/-- The compilation after scanning. -/
def scanned (file : String) (cursor : Cursor) : Compilation :=
  let found := (Scanner.scan cursor).1
  ⟨file, Scanner.tokens found, (Scanner.messages found).map (·.render), none, none, none⟩

/-- The compilation after parsing. -/
def parsed (settings : Settings) (c : Compilation) : Compilation × Program :=
  let o := Parser.parse c.tokens settings.lenient settings.maxErrors
  ({ c with
      diagnostics := c.diagnostics ++ o.reports.map (·.render)
      program := some o.program }, o.program)

/-- The compilation after checking the program `p`. -/
def checked (p : Program) (c : Compilation) : Except Failure (Compilation × Program) :=
  match p.check 0 with
  | .error m => .error (.malformed m)
  | .ok r =>
    .ok ({ c with
      diagnostics := c.diagnostics ++ r.messages.map (·.render)
      program := some r.program
      frameSize := some r.frameSize }, r.program)

/-- The compilation after making the code of the program `p`. -/
def generated (p : Program) (c : Compilation) : Except Failure Compilation :=
  match p.code with
  | .ok code => .ok { c with code := some code }
  | .error f =>
    match f.violation with
    | .ok v => .error (.internal c.file v)
    | .error m => .error (.malformed m)

/-- Runs a compilation up to and including the stage `last`. -/
def run (file : String) (input : Input) (settings : Settings) (last : Stage) :
    Except Failure Compilation := do
  let source ← match Source.ofInput file input with
    | .ok s => .ok s
    | .error e => .error (.read file e)
  let c := scanned file source.cursor
  if last = .scan then return c
  let (c, p) := parsed settings c
  if last = .parse then return c
  let (c, p) ← checked p c
  if last = .check then return c
  if c.ok then generated p c else return c

end Compilation

end TriangleTam
