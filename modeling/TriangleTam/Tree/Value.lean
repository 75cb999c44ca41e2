import TriangleTam.Machine.Instruction
import TriangleTam.Text.Quoted
import TriangleTam.Tree

/-!
# Values of literals

What the spelling of a literal stands for. A spelling that comes from a program text always is one
of a literal, except that an integer may be too large.
-/

namespace TriangleTam

/-- A character literal that is none. -/
structure MalformedLiteral where
  spelling : String
deriving DecidableEq, Repr

/-- What is said about a character literal that is none. -/
def MalformedLiteral.message (m : MalformedLiteral) : String :=
  "malformed character literal " ++ Text.quoted m.spelling

namespace Literal

/-- The value of an integer literal, if it is one that fits a word. -/
def intValue? (l : Literal) : Option Int :=
  (Text.int64? l.spelling).filter fun n => decide (n ≤ Machine.maxInt)

/-- The value of a character literal, if it is one: the code point of the character between the
quotes. -/
def charValue? (l : Literal) : Option Nat :=
  match l.spelling.toList with
  | [_, c, _] => some c.toNat
  | _ => none

end Literal

end TriangleTam
