import TriangleTam.Check.Cmd
import TriangleTam.Tree.Walk

/-!
# Checking programs

A program is checked in a frame that binds the standard environment.
-/

namespace TriangleTam

namespace Check

/-- The outermost frame of a program. -/
def rootFrame : Frame Meaning :=
  Environment.root .builtin

/-- A checked program. -/
structure Result where
  /-- The program with all its annotations. -/
  program : Program
  reports : List (Report Error)
  /-- The outermost frame with all frames inside it. -/
  scopes : ScopeTree Meaning
  /-- The largest number of words in use at any place. -/
  frameSize : Nat

namespace Result

/-- Everything that is reported. -/
def messages (r : Result) : List (Report String) :=
  r.reports.map fun e => ⟨e.pos, e.cause.message⟩

end Result

/-- Checks a program; `distance` is how far a suggested name may be from an undeclared one. -/
def program (distance : Int) (p : Program) : Result :=
  let c := cmd ⟨[rootFrame], distance, 0, 0⟩ p.body
  ⟨⟨p.pos, c.value⟩, c.trace.reports, .node Pos.none rootFrame c.trace.scopes, c.trace.peak⟩

/-- The first constant declared as a character literal that is none. Its value cannot be found. -/
def malformedConstant? (p : Program) : Option Literal :=
  p.nodes.findSome? fun
    | .decl (.const _ _ _ _ (.char _ _ lit)) => if lit.charValue?.isNone then some lit else none
    | _ => none

end Check

/-- Checks a program in which all character literals that matter are ones. Those that come from a
text always are. -/
def Program.check (p : Program) (distance : Int) : Except MalformedLiteral Check.Result :=
  match Check.malformedConstant? p with
  | some lit => .error ⟨lit.spelling⟩
  | none => .ok (Check.program distance p)

end TriangleTam
