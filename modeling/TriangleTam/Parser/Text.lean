import TriangleTam.Diagnostics
import TriangleTam.Parser
import TriangleTam.Source
import TriangleTam.Token.Scanner

/-!
# Parsing program texts

From a program text to its tree, with everything that is reported on the way: first what is wrong
with single tokens, then what is wrong with their order.
-/

namespace TriangleTam

/-- What is reported about the tokens of a text. -/
def Scanner.messages (found : List Scanner.Scanned) : List (Report String) :=
  (Scanner.reports found).map fun r => ⟨r.pos, r.cause.message⟩

namespace Parser

/-- A scanned and parsed text. -/
structure Reading where
  tokens : List Token
  /-- What is wrong with single tokens. -/
  lexical : List (Report String)
  outcome : Outcome

namespace Reading

/-- Everything that is reported. -/
def reports (r : Reading) : List (Report String) :=
  r.lexical ++ r.outcome.reports

/-- The program that was read. -/
def program (r : Reading) : Program :=
  r.outcome.program

end Reading

/-- Reads and parses a text. Without a limit of its own, the parser keeps to the default one. -/
def readText (file : String) (input : Input) (lenient : Bool) (limit : Int) :
    Except ReadError Reading := do
  let source ← Source.ofInput file input
  let found := (Scanner.scan source.cursor).1
  let tokens := Scanner.tokens found
  return ⟨tokens, Scanner.messages found, parse tokens lenient limit⟩

end Parser

end TriangleTam
