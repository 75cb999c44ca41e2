/-!
# Positions in a program text

A position is the line and column of a character, both counted from one. A position whose line is
not positive denotes no place in a text; built-in declarations have such a position.
-/

namespace TriangleTam

/-- Where a token or construct starts. -/
structure Pos where
  file : String
  line : Int
  col : Int
deriving DecidableEq, Repr, Inhabited

namespace Pos

/-- The position of what stands in no text. -/
def none : Pos := ⟨"", 0, 0⟩

/-- The position of the first character of a text. -/
def start (file : String) : Pos := ⟨file, 1, 1⟩

/-- Whether `p` is a place in a text. -/
def isValid (p : Pos) : Bool :=
  decide (0 < p.line)

/-- The position after the character `c` at `p`. -/
def after (p : Pos) (newline : Bool) : Pos :=
  if newline then { p with line := p.line + 1, col := 1 } else { p with col := p.col + 1 }

/-- Whether `p` comes strictly before `q`; the files are not compared. -/
def before (p q : Pos) : Bool :=
  decide (p.line < q.line) || (p.line == q.line && decide (p.col < q.col))

/-- Written `file:line:col`, without the file if it has no name, and `-` for no place. -/
def render (p : Pos) : String :=
  if !p.isValid then "-"
  else if p.file = "" then toString p.line ++ ":" ++ toString p.col
  else p.file ++ ":" ++ toString p.line ++ ":" ++ toString p.col

/-- The positions in order of `before`; positions that are level keep their order. -/
def sorted (ps : List Pos) : List Pos :=
  ps.mergeSort fun p q => !q.before p

end Pos

/-- A finding of type `ε` at a position. -/
structure Report (ε : Type) where
  pos : Pos
  cause : ε
deriving DecidableEq, Repr

end TriangleTam
