import TriangleTam.Yaml.Cursor
import TriangleTam.Yaml.Fault
import TriangleTam.Yaml.Scalar

/-!
# The text of scalars

A scalar is written plainly, between quotes, or as a block of lines. Where it goes over several
lines the line ends are folded: one becomes a space, and of more than one the first is dropped.
-/

namespace TriangleTam.Yaml

/-- The text of a scalar as far as it is read; lists have the last character first. -/
structure Folding where
  text : List Char := []
  /-- Blanks behind the text, in its last line. -/
  blanks : List Char := []
  /-- The text is followed by a line end. -/
  afterLine : Bool := false
  /-- That line end, unless it is one to be left out. -/
  first : Option Char := none
  /-- The line ends behind that one. -/
  more : List Char := []

namespace Folding

/-- Reads a blank. Blanks at the start of a line are left out. -/
def blank (f : Folding) (c : Char) : Folding :=
  if f.afterLine then f else { f with blanks := c :: f.blanks }

/-- Reads a line end. Blanks before it are left out. -/
def line (f : Folding) (c : Char) : Folding :=
  if f.afterLine then { f with more := c :: f.more }
  else { f with blanks := [], first := some c, afterLine := true }

/-- Adds to the text what the blanks and line ends behind it come to. -/
def join (f : Folding) : Folding :=
  let added :=
    if f.afterLine then
      match f.first with
      | some '\n' => if f.more.isEmpty then [' '] else f.more
      | some c => f.more ++ [c]
      | none => f.more
    else f.blanks
  { text := added ++ f.text }

/-- Reads any other character. -/
def put (f : Folding) (c : Char) : Folding :=
  { text := c :: f.join.text }

/-- Leaves out the line end that follows. -/
def leaveOut (f : Folding) : Folding :=
  { f.join with afterLine := true }

end Folding

/-- The text that was read. -/
def spell (reversed : List Char) : String :=
  String.ofList reversed.reverse

/-- Whether a plain scalar ends before the character `c`. -/
def endsPlain (flow : Bool) (c : Char) (rest : List Atom) : Bool :=
  (c == ':' && endsWord rest)
    || (flow && [',', '?', '[', ']', '\x7b', '\x7d'].contains c)

/-- Reads a plain scalar. Its lines are indented by at least `indent`, unless it is inside brackets;
`inWord` says that the last character read belongs to it and is no blank. -/
def plainFrom (flow : Bool) (indent : Nat) (f : Folding) (inWord : Bool) (mark : Mark) :
    List Atom → Except Fault (Folding × Cursor)
  | [] => .ok (f, ⟨[], mark⟩)
  | .eol c w :: rest =>
    plainFrom flow indent (f.line c) false (mark.after (.eol c w)) rest
  | .char c :: rest =>
    if c = ' ' ∨ c = '\t' then
      if f.afterLine ∧ mark.column < indent ∧ c = '\t' then
        .error (.lexical .plainTab mark.line)
      else plainFrom flow indent (f.blank c) false (mark.after (.char c)) rest
    else
      let stops := !inWord && ((!flow && decide (mark.column < indent))
        || (mark.column == 0 && startsMark (.char c :: rest)) || c == '#')
      if stops || endsPlain flow c rest then .ok (f, ⟨.char c :: rest, mark⟩)
      else plainFrom flow indent (f.put c) true (mark.after (.char c)) rest

/-- What the next character of a quoted scalar belongs to. -/
inductive QuoteMode where
  | chars
  /-- A quote was read that ends the scalar unless there is another one. -/
  | quote
  /-- A backslash was read. -/
  | escape
  /-- So many more hexadecimal digits of a number are to come. -/
  | digits (left value : Nat)

/-- The character a letter stands for behind a backslash. -/
def escaped? (c : Char) : Option Char :=
  [('0', '\x00'), ('a', '\x07'), ('b', '\x08'), ('t', '\t'), ('\t', '\t'), ('n', '\n'),
    ('v', '\x0b'), ('f', '\x0c'), ('r', '\r'), ('e', '\x1b'), (' ', ' '), ('"', '"'),
    ('\'', '\''), ('\\', '\\'), ('N', '\u0085'), ('_', '\u00a0'), ('L', '\u2028'),
    ('P', '\u2029')].lookup c

/-- The number of digits a letter announces behind a backslash. -/
def escapeDigits? (c : Char) : Option Nat :=
  [('x', 2), ('u', 4), ('U', 8)].lookup c

/-- Whether a number is that of a character. -/
def isScalarValue (n : Nat) : Bool :=
  decide (n ≤ 0x10FFFF) && !(decide (0xD800 ≤ n) && decide (n ≤ 0xDFFF))

/-- Reads a scalar after its opening quote, through its closing quote. -/
def quotedFrom (single : Bool) (f : Folding) (mode : QuoteMode) (mark : Mark) :
    List Atom → Except Fault (Folding × Cursor)
  | [] =>
    match mode with
    | .chars => .error (.lexical .textEnd mark.line)
    | .quote => .ok (f, ⟨[], mark⟩)
    | .escape => .error (.lexical .escapeUnknown mark.line)
    | .digits .. => .error (.lexical .escapeDigits mark.line)
  | .eol c w :: rest =>
    let next := mark.after (.eol c w)
    match mode with
    | .chars => quotedFrom single (f.line c) .chars next rest
    | .quote => .ok (f, ⟨.eol c w :: rest, mark⟩)
    | .escape => quotedFrom single f.leaveOut .chars next rest
    | .digits .. => .error (.lexical .escapeDigits mark.line)
  | .char c :: rest =>
    let next := mark.after (.char c)
    match mode with
    | .chars =>
      if c = ' ' ∨ c = '\t' then quotedFrom single (f.blank c) .chars next rest
      else if mark.column = 0 ∧ startsMark (.char c :: rest) then
        .error (.lexical .documentMark mark.line)
      else if single then
        if c = '\'' then quotedFrom single f.join .quote next rest
        else quotedFrom single (f.put c) .chars next rest
      else if c = '"' then .ok (f.join, ⟨rest, next⟩)
      else if c = '\\' then quotedFrom single f.join .escape next rest
      else quotedFrom single (f.put c) .chars next rest
    | .quote =>
      if c = '\'' then quotedFrom single (f.put c) .chars next rest
      else .ok (f, ⟨.char c :: rest, mark⟩)
    | .escape =>
      match escaped? c, escapeDigits? c with
      | some d, _ => quotedFrom single (f.put d) .chars next rest
      | none, some n => quotedFrom single f (.digits n 0) next rest
      | none, none => .error (.lexical .escapeUnknown mark.line)
    | .digits left value =>
      match Text.digit? 16 c with
      | none => .error (.lexical .escapeDigits mark.line)
      | some d =>
        let value := value * 16 + d
        if 1 < left then quotedFrom single f (.digits (left - 1) value) next rest
        else if isScalarValue value then
          quotedFrom single (f.put (Char.ofNat value)) .chars next rest
        else .error (.lexical .escapeValue mark.line)

/-- What becomes of the line ends behind a block. -/
inductive Chomp where
  | strip
  | clip
  | keep
deriving DecidableEq

/-- The text of a block as far as it is read. -/
structure BlockText where
  text : List Char := []
  /-- The line end behind the text. -/
  first : Option Char := none
  /-- The line ends behind that one. -/
  more : List Char := []
  /-- The last line starts with a blank. -/
  indented : Bool := false

namespace BlockText

/-- Starts a line with the character `c`. In a folded block the line end before it becomes a space,
unless one of the two lines starts with a blank. -/
def startLine (b : BlockText) (literal : Bool) (c : Char) : BlockText :=
  let blank := c == ' ' || c == '\t'
  let joined :=
    if !literal && !b.indented && !blank && b.first == some '\n' then
      if b.more.isEmpty then ' ' :: b.text else b.more ++ b.text
    else b.more ++ b.first.toList ++ b.text
  { text := c :: joined, indented := blank }

/-- The whole text with the line ends behind it that are kept. -/
def chomped (b : BlockText) : Chomp → List Char
  | .strip => b.text
  | .clip => b.first.toList ++ b.text
  | .keep => b.more ++ b.first.toList ++ b.text

end BlockText

/-- Reads the lines of a block. Its indentation is that of its first line, but at least `least`,
unless it is known; `widest` is the largest number of blanks so far. -/
def blockFrom (literal : Bool) (least : Nat) (indent : Option Nat) (widest : Nat) (inLine : Bool)
    (b : BlockText) (mark : Mark) : List Atom → Except Fault (BlockText × Cursor)
  | [] => .ok (b, ⟨[], mark⟩)
  | .eol c w :: rest =>
    let next := mark.after (.eol c w)
    if inLine then blockFrom literal least indent 0 false { b with first := some c } next rest
    else
      blockFrom literal least indent (max widest mark.column) false { b with more := c :: b.more }
        next rest
  | .char c :: rest =>
    let next := mark.after (.char c)
    if inLine then
      blockFrom literal least indent widest true { b with text := c :: b.text } next rest
    else
      let inMargin := indent.all (mark.column < ·)
      if inMargin ∧ c = ' ' then blockFrom literal least indent widest false b next rest
      else if inMargin ∧ c = '\t' then .error (.lexical .indentTab mark.line)
      else
        let margin := indent.getD (max (max widest mark.column) least)
        if mark.column = margin then
          blockFrom literal least (some margin) 0 true (b.startLine literal c) next rest
        else .ok (b, ⟨.char c :: rest, mark⟩)

/-- Reads what is said about a block before its first line: what becomes of the line ends behind it
and how far it is indented. -/
def blockHeader (c : Cursor) : Except Fault (Chomp × Option Nat × Cursor) := do
  let sign? (c : Cursor) : Option Chomp :=
    match c.char? with
    | some '+' => some .keep
    | some '-' => some .strip
    | _ => none
  let digit (c : Cursor) : Except Fault (Option Nat × Cursor) :=
    match c.char? with
    | some d =>
      if d = '0' then .error (.lexical .indentZero c.mark.line)
      else if d.isDigit then .ok (some (d.toNat - '0'.toNat), c.next)
      else .ok (none, c)
    | none => .ok (none, c)
  let (chomp, indent, c) ←
    match sign? c with
    | some s => do
      let (n, c) ← digit c.next
      pure (s, n, c)
    | none => do
      let (n, c) ← digit c
      if n.isSome then
        match sign? c with
        | some s => pure (s, n, c.next)
        | none => pure (Chomp.clip, n, c)
      else pure (Chomp.clip, n, c)
  let c := c.skipComment
  if endsLine c.text then return (chomp, indent, c.next)
  else throw (.lexical .lineEnd c.mark.line)

end TriangleTam.Yaml
