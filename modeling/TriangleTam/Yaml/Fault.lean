/-!
# Faults of documents

What can be wrong with the text of a YAML document, and how it is told. Lines count from zero here;
what is wrong in the first line is told without a line.
-/

namespace TriangleTam.Yaml

/-- How many blocks or brackets can stand inside each other. -/
def maxDepth : Nat := 10000

/-- What is wrong with a text. -/
inductive Problem where
  | controlChar
  | noToken
  | noColon
  | entryNotAllowed
  | keyNotAllowed
  | valueNotAllowed
  | directiveUnknown
  | directiveMissing
  | directiveChar
  | lineEnd
  | versionMissing
  | versionLong
  | versionDot
  | anchorName
  | tagMark
  | tagEmpty
  | tagClose
  | tagEnd
  | tagBlank
  | octetMissing
  | octetLeading
  | octetTrailing
  | indentZero
  | indentTab
  | documentMark
  | textEnd
  | escapeUnknown
  | escapeDigits
  | escapeValue
  | plainTab
  | tooDeep
  | noContent
  | noKey
  | noDash
  | noSequenceEnd
  | noMappingEnd
  | noDocumentStart
  | handleUnknown
  | versionTwice
  | versionOther
  | handleTwice
deriving DecidableEq, Repr

/-- What is said about a problem. -/
def Problem.message : Problem → String
  | controlChar => "control characters are not allowed"
  | noToken => "found character that cannot start any token"
  | noColon => "could not find expected ':'"
  | entryNotAllowed => "block sequence entries are not allowed in this context"
  | keyNotAllowed => "mapping keys are not allowed in this context"
  | valueNotAllowed => "mapping values are not allowed in this context"
  | directiveUnknown => "found unknown directive name"
  | directiveMissing => "could not find expected directive name"
  | directiveChar => "found unexpected non-alphabetical character"
  | lineEnd => "did not find expected comment or line break"
  | versionMissing => "did not find expected version number"
  | versionLong => "found extremely long version number"
  | versionDot => "did not find expected digit or '.' character"
  | anchorName => "did not find expected alphabetic or numeric character"
  | tagMark => "did not find expected '!'"
  | tagEmpty => "did not find expected tag URI"
  | tagClose => "did not find the expected '>'"
  | tagEnd => "did not find expected whitespace or line break"
  | tagBlank => "did not find expected whitespace"
  | octetMissing => "did not find URI escaped octet"
  | octetLeading => "found an incorrect leading UTF-8 octet"
  | octetTrailing => "found an incorrect trailing UTF-8 octet"
  | indentZero => "found an indentation indicator equal to 0"
  | indentTab => "found a tab character where an indentation space is expected"
  | documentMark => "found unexpected document indicator"
  | textEnd => "found unexpected end of stream"
  | escapeUnknown => "found unknown escape character"
  | escapeDigits => "did not find expected hexdecimal number"
  | escapeValue => "found invalid Unicode character escape code"
  | plainTab => "found a tab character that violates indentation"
  | tooDeep => "exceeded max depth of " ++ toString maxDepth
  | noContent => "did not find expected node content"
  | noKey => "did not find expected key"
  | noDash => "did not find expected '-' indicator"
  | noSequenceEnd => "did not find expected ',' or ']'"
  | noMappingEnd => "did not find expected ',' or '\x7d'"
  | noDocumentStart => "did not find expected <document start>"
  | handleUnknown => "found undefined tag handle"
  | versionTwice => "found duplicate %YAML directive"
  | versionOther => "found incompatible YAML document"
  | handleTwice => "found duplicate %TAG directive"

/-- Why a document cannot be read. -/
inductive Fault where
  | problem (p : Problem) (line : Option Nat)
  | unknownAnchor (name : String)
deriving DecidableEq, Repr

namespace Fault

/-- A problem with the characters of a line. -/
def lexical (p : Problem) (line : Nat) : Fault :=
  problem p (if line = 0 then none else some (line + 1))

/-- A problem with the order of tokens, found at a line; `context` is where what is spoiled by it
starts. -/
def grammatical (p : Problem) (context line : Nat) : Fault :=
  problem p (if line ≠ 0 then some line else if context ≠ 0 then some context else none)

/-- What is said about a fault. -/
def message : Fault → String
  | problem p none => p.message
  | problem p (some line) => "line " ++ toString line ++ ": " ++ p.message
  | unknownAnchor name => "unknown anchor '" ++ name ++ "' referenced"

end Fault

end TriangleTam.Yaml
