import TriangleTam.Yaml.Lexer.Tag
import TriangleTam.Yaml.Lexer.Text

/-!
# From text to tokens

Tokens are found from left to right. Whether something is a key shows only at the colon behind it,
which has to come in the same line and within 1024 characters. Until then the tokens from there on
are held back, and a fault in between comes before them.
-/

namespace TriangleTam.Yaml

/-- A token that may turn out to be the start of a key. -/
structure KeyCandidate where
  possible : Bool := false
  /-- Nothing else can stand there. -/
  required : Bool := false
  /-- The number of the token. -/
  number : Nat := 0
  mark : Mark := {}
  /-- The token is held back until it is clear whether it is a key. -/
  heldBack : Bool := false

/-- A text in the middle of being split into tokens. -/
structure Lexer where
  cursor : Cursor
  /-- A byte order mark stands in the first column, which is then left out of every line. -/
  ruled : Bool := false
  /-- The number of brackets that are open. -/
  flow : Nat := 0
  /-- The column of the innermost block, or -1 outside all blocks. -/
  indent : Int := -1
  /-- The columns of the blocks around. -/
  indents : List Int := []
  /-- A key may start here. -/
  keyAllowed : Bool := true
  /-- The innermost candidate, and those before the open brackets, innermost first. -/
  candidate : KeyCandidate := {}
  outer : List KeyCandidate := []
  /-- Tokens that were found and not yet given out, and the number of those given out. -/
  found : List Token := []
  given : Nat := 0
  atEnd : Bool := false

namespace Lexer

/-- The line of the next character. -/
def line (s : Lexer) : Nat :=
  s.cursor.mark.line

/-- The column of the next character. -/
def column (s : Lexer) : Nat :=
  s.cursor.mark.column

/-- A fault at the next character. -/
def fault {α : Type} (s : Lexer) (p : Problem) : Except Fault α :=
  .error (.lexical p s.line)

/-- Adds a token that starts in line `line`. -/
def add (s : Lexer) (kind : Kind) (line : Nat) : Lexer :=
  { s with found := s.found ++ [⟨kind, line⟩] }

/-- Adds a token before the one with the given number; if that was given out, at the end. -/
def addBefore (s : Lexer) (number : Nat) (kind : Kind) (line : Nat) : Lexer :=
  if number < s.given then s.add kind line
  else { s with found := s.found.insertIdx (number - s.given) ⟨kind, line⟩ }

/-- Drops the innermost candidate: it is no key. -/
def dropCandidate (s : Lexer) : Except Fault Lexer :=
  if s.candidate.possible then
    if s.candidate.required then s.fault .noColon
    else .ok { s with candidate := { s.candidate with possible := false, heldBack := false } }
  else .ok s

/-- Makes the next token a candidate, where a key may start. -/
def noteCandidate (s : Lexer) : Except Fault Lexer :=
  if s.keyAllowed then do
    let required := s.flow == 0 && s.indent == s.column
    let c : KeyCandidate := ⟨true, required, s.given + s.found.length, s.cursor.mark, true⟩
    let s ← s.dropCandidate
    return { s with candidate := c }
  else .ok s

/-- Whether a candidate can still be a key; one that is required has to be. -/
def isAlive (s : Lexer) (c : KeyCandidate) : Except Fault Bool :=
  if !c.possible then .ok false
  else if c.mark.line < s.line ∨ c.mark.index + 1024 < s.cursor.mark.index then
    if c.required then s.fault .noColon else .ok false
  else .ok true

/-- Opens a block at a column, if it is further in than the block around. The token that says so
comes before the one with the given number, or at the end. -/
def openBlock (s : Lexer) (column : Nat) (number : Option Nat) (kind : Kind) (line : Nat) :
    Except Fault Lexer :=
  if s.flow = 0 ∧ s.indent < column then
    if maxDepth ≤ s.indents.length then s.fault .tooDeep
    else
      let s := { s with indents := s.indent :: s.indents, indent := column }
      match number with
      | some n => .ok (s.addBefore n kind line)
      | none => .ok (s.add kind line)
  else .ok s

/-- Closes the blocks that are further in than a column, given those around the innermost one. -/
def closeBlocks (column : Int) (s : Lexer) : List Int → Lexer
  | [] => s
  | outer :: rest =>
    if column < s.indent then
      closeBlocks column { s.add .blockEnd s.line with indent := outer, indents := rest } rest
    else s

/-- Closes all blocks that are further in than a column. -/
def closeTo (s : Lexer) (column : Int) : Lexer :=
  if s.flow = 0 then closeBlocks column s s.indents else s

/-- Moves over blanks, comments and line ends. Outside brackets a tab cannot indent, and a key may
start in a new line; `ruled` says that no line starts before its second character. -/
def skipFrom (ruled flow keyAllowed inComment : Bool) (mark : Mark) : List Atom → Bool × Cursor
  | [] => (keyAllowed, ⟨[], mark⟩)
  | a :: rest =>
    if ruled ∧ mark.column = 0 then
      skipFrom ruled flow keyAllowed false ⟨mark.index + 1, mark.line, 1⟩ rest
    else
      let next := mark.after a
      match a with
      | .eol .. => skipFrom ruled flow (keyAllowed || !flow) false next rest
      | .char c =>
        if inComment then skipFrom ruled flow keyAllowed true next rest
        else if c = ' ' ∨ (c = '\t' ∧ (flow ∨ !keyAllowed)) then
          skipFrom ruled flow keyAllowed false next rest
        else if c = '#' then skipFrom ruled flow keyAllowed true next rest
        else (keyAllowed, ⟨a :: rest, mark⟩)

/-- Moves to the next token. -/
def skipBlanks (s : Lexer) : Lexer :=
  let (keyAllowed, cursor) :=
    skipFrom s.ruled (s.flow != 0) s.keyAllowed false s.cursor.mark s.cursor.text
  { s with keyAllowed := keyAllowed, cursor := cursor }

/-- Takes a token of `width` characters. -/
def take (s : Lexer) (kind : Kind) (width : Nat) : Lexer :=
  { s.add kind s.line with cursor := s.cursor.skip width }

/-- The end of the text, which counts as a line of its own. -/
def takeEnd (s : Lexer) : Except Fault Lexer := do
  let mark := s.cursor.mark
  let mark := if mark.column = 0 then mark else ⟨mark.index, mark.line + 1, 0⟩
  let s := { s with cursor := ⟨s.cursor.text, mark⟩ }
  let s ← (s.closeTo (-1)).dropCandidate
  return { s.add .streamEnd s.line with keyAllowed := false, atEnd := true }

/-- A directive. -/
def takeDirective (s : Lexer) : Except Fault Lexer := do
  let s ← (s.closeTo (-1)).dropCandidate
  let (kind, cursor) ← directive s.cursor.next
  return { s.add kind s.line with keyAllowed := false, cursor := cursor }

/-- A mark between documents. -/
def takeMark (s : Lexer) (kind : Kind) : Except Fault Lexer := do
  let s ← (s.closeTo (-1)).dropCandidate
  return { s.take kind 3 with keyAllowed := false }

/-- An opening bracket. -/
def takeOpening (s : Lexer) (kind : Kind) : Except Fault Lexer := do
  let s ← s.noteCandidate
  if maxDepth ≤ s.flow then s.fault .tooDeep
  let inner : KeyCandidate := { number := s.given + s.found.length, mark := s.cursor.mark }
  return { s.take kind 1 with
    keyAllowed := true, flow := s.flow + 1, candidate := inner, outer := s.candidate :: s.outer }

/-- A closing bracket. What stands before brackets without any candidate inside them is no longer
held back. -/
def takeClosing (s : Lexer) (kind : Kind) : Except Fault Lexer := do
  let s ← s.dropCandidate
  let s := { s.take kind 1 with keyAllowed := false }
  match s.flow, s.outer with
  | n + 1, c :: rest =>
    let c := if c.number = s.candidate.number then { c with heldBack := false } else c
    return { s with flow := n, candidate := c, outer := rest }
  | _, _ => return s

/-- A comma between brackets. -/
def takeComma (s : Lexer) : Except Fault Lexer := do
  let s ← s.dropCandidate
  return { s.take .flowEntry 1 with keyAllowed := true }

/-- The dash of a list item. -/
def takeDash (s : Lexer) : Except Fault Lexer := do
  if s.flow = 0 ∧ !s.keyAllowed then s.fault .entryNotAllowed
  let s ← s.openBlock s.column none .blockSequenceStart s.line
  let s ← s.dropCandidate
  return { s.take .blockEntry 1 with keyAllowed := true }

/-- The question mark before a key. -/
def takeQuestion (s : Lexer) : Except Fault Lexer := do
  if s.flow = 0 ∧ !s.keyAllowed then s.fault .keyNotAllowed
  let s ← s.openBlock s.column none .blockMappingStart s.line
  let s ← s.dropCandidate
  return { s.take .key 1 with keyAllowed := s.flow == 0 }

/-- The colon before a value. A candidate before it turns out to be the key. -/
def takeColon (s : Lexer) : Except Fault Lexer := do
  let c := s.candidate
  if ← s.isAlive c then
    let s := s.addBefore c.number .key c.mark.line
    let s ← s.openBlock c.mark.column (some c.number) .blockMappingStart c.mark.line
    return { s.take .value 1 with
      keyAllowed := false, candidate := { c with possible := false, heldBack := false } }
  else
    if s.flow = 0 ∧ !s.keyAllowed then s.fault .valueNotAllowed
    let s ← s.openBlock s.column none .blockMappingStart s.line
    return { s.take .value 1 with
      keyAllowed := s.flow == 0, candidate := { c with possible := false } }

/-- An anchor or alias. -/
def takeAnchor (s : Lexer) (kind : String → Kind) : Except Fault Lexer := do
  let s ← s.noteCandidate
  let (name, cursor) ← anchorName s.cursor.next
  return { s.add (kind name) s.line with keyAllowed := false, cursor := cursor }

/-- A tag. -/
def takeTag (s : Lexer) : Except Fault Lexer := do
  let s ← s.noteCandidate
  let (kind, cursor) ← tag s.cursor
  return { s.add kind s.line with keyAllowed := false, cursor := cursor }

/-- A block of lines. -/
def takeBlock (s : Lexer) (literal : Bool) : Except Fault Lexer := do
  let s ← s.dropCandidate
  let (chomp, increment, cursor) ← blockHeader s.cursor.next
  let around := s.indent.toNat
  let (b, cursor) ← blockFrom literal (max (s.indent + 1).toNat 1) (increment.map (around + ·)) 0
    false {} cursor.mark cursor.text
  return { s.add (.scalar (spell (b.chomped chomp)) false) s.line with
    keyAllowed := true, cursor := cursor }

/-- A text between quotes. -/
def takeQuoted (s : Lexer) (single : Bool) : Except Fault Lexer := do
  let s ← s.noteCandidate
  let start := s.cursor.next
  let (f, cursor) ← quotedFrom single {} .chars start.mark start.text
  return { s.add (.scalar (spell f.text) false) s.line with keyAllowed := false, cursor := cursor }

/-- A plain text. If it is followed by a line end, a key may start behind it. -/
def takePlain (s : Lexer) : Except Fault Lexer := do
  let s ← s.noteCandidate
  let (f, cursor) ← plainFrom (s.flow != 0) (s.indent + 1).toNat {} true s.cursor.mark s.cursor.text
  return { s.add (.scalar (spell f.text) true) s.line with
    keyAllowed := f.afterLine, cursor := cursor }

/-- Whether a plain text can start with the character `c` before `rest`. -/
def startsPlain (flow : Bool) (c : Char) (rest : List Atom) : Bool :=
  if c = '-' then !(rest.head?.any Atom.isBlank)
  else if c = '?' ∨ c = ':' then !flow && !endsWord rest
  else !([' ', '\t', ',', '[', ']', '\x7b', '\x7d', '#', '&', '*', '!', '|', '>', '\'', '"', '%',
    '@', '\x60'].contains c)

/-- Takes what starts with the character `c` before `rest`. -/
def takeAt (s : Lexer) (c : Char) (rest : List Atom) : Except Fault Lexer :=
  let flow := s.flow != 0
  if s.column = 0 ∧ c = '%' then s.takeDirective
  else if s.column = 0 ∧ startsMark (.char c :: rest) then
    s.takeMark (if c = '-' then .documentStart else .documentEnd)
  else if c = '[' then s.takeOpening .flowSequenceStart
  else if c = '\x7b' then s.takeOpening .flowMappingStart
  else if c = ']' then s.takeClosing .flowSequenceEnd
  else if c = '\x7d' then s.takeClosing .flowMappingEnd
  else if c = ',' then s.takeComma
  else if c = '-' ∧ endsWord rest then s.takeDash
  else if c = '?' ∧ (flow ∨ endsWord rest) then s.takeQuestion
  else if c = ':' ∧ (flow ∨ endsWord rest) then s.takeColon
  else if c = '*' then s.takeAnchor .reference
  else if c = '&' then s.takeAnchor .anchor
  else if c = '!' then s.takeTag
  else if c = '|' ∧ !flow then s.takeBlock true
  else if c = '>' ∧ !flow then s.takeBlock false
  else if c = '\'' then s.takeQuoted true
  else if c = '"' then s.takeQuoted false
  else if startsPlain flow c rest then s.takePlain
  else s.fault .noToken

/-- Takes the next token, with those that come before it. -/
def fetch (s : Lexer) : Except Fault Lexer :=
  let s := s.skipBlanks
  let s := s.closeTo s.column
  match s.cursor.text with
  | .char c :: rest => s.takeAt c rest
  | _ => s.takeEnd

/-- Whether the first token found is held back. -/
def isHeldBack (s : Lexer) : Except Fault Bool :=
  match (s.candidate :: s.outer).find? fun c => c.heldBack && c.number == s.given with
  | some c => s.isAlive c
  | none => .ok false

/-- Takes tokens until one can be given out; `fuel` bounds their number. -/
def fill : (fuel : Nat) → Lexer → Except Fault Lexer
  | 0, s => .ok s
  | fuel + 1, s => do
    let more ← if s.found.isEmpty then pure true else s.isHeldBack
    if more && !s.atEnd then fill fuel (← s.fetch) else return s

/-- All tokens that can be given out, and the fault that ends them; `fuel` bounds their number. Each
character is good for four tokens at most, so what is left of it bounds those to be taken, too. -/
def tokensFrom : (fuel : Nat) → Lexer → List Token × Option Fault
  | 0, _ => ([], none)
  | fuel + 1, s =>
    match fill fuel s with
    | .error f => ([], some f)
    | .ok s =>
      match s.found with
      | [] => ([], none)
      | t :: rest =>
        let (ts, f) := tokensFrom fuel { s with found := rest, given := s.given + 1 }
        (t :: ts, f)

end Lexer

/-- Whether a character can stand in a document. -/
def isDocumentChar (c : Char) : Bool :=
  let n := c.toNat
  c == '\t' || c == '\n' || c == '\r' || (decide (0x20 ≤ n) && decide (n ≤ 0x7E)) || n == 0x85
    || (decide (0xA0 ≤ n) && decide (n ≤ 0xFFFD)) || decide (0x10000 ≤ n)

/-- The tokens of a document, and the fault that ends them. A byte order mark before the document
does not belong to it. -/
def tokens (document : List Char) : List Token × Option Fault :=
  let chars := match document with
    | '\uFEFF' :: rest => rest
    | cs => cs
  if chars.all isDocumentChar then
    let atoms := Atom.ofChars chars
    Lexer.tokensFrom (4 * atoms.length + 16)
      { cursor := ⟨atoms, {}⟩, ruled := atoms.head? == some (.char '\uFEFF') }
  else ([], some (.problem .controlChar none))

end TriangleTam.Yaml
