import TriangleTam.Pos

/-!
# Diagnostics

What is reported about a program, in the order in which it was found.
-/

namespace TriangleTam

/-- A report as it is shown: the position, then what was found there. -/
def Report.render (r : Report String) : String :=
  r.pos.render ++ ": " ++ r.cause

namespace Diagnostics

/-- All messages as one: a single message as it is, and several in a list. -/
def summary? : List String → Option String
  | [] => none
  | [m] => some m
  | ms =>
    some (toString ms.length ++ " errors occurred:" ++ String.join (ms.map ("\n\t" ++ ·)))

end Diagnostics

end TriangleTam
