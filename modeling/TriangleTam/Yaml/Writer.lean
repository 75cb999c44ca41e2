import TriangleTam.Data
import TriangleTam.Text.Quoted
import TriangleTam.Yaml.Scalar

/-!
# Data as YAML text

Records and lists are written in block style, a field or item to a line. A text is written without
quotes where it then reads back as itself; otherwise between quotes, or as a block of lines if it
has several. A long text is continued on the next line at a blank past column 80.
-/

namespace TriangleTam.Yaml

/-- A page being written. -/
structure Page where
  text : String := ""
  /-- The number of characters on the last line. -/
  column : Nat := 0
  /-- The last thing written was a blank or an indentation. -/
  afterBlank : Bool := true
  /-- The last line has nothing but indentation and item marks. -/
  atMargin : Bool := true

namespace Page

/-- The width beyond which a text is continued on the next line. -/
def bestWidth : Nat := 80

/-- Writes a character. -/
def put (p : Page) (c : Char) : Page :=
  { p with text := p.text.push c, column := p.column + 1 }

/-- Writes several characters. -/
def putAll (p : Page) (s : String) : Page :=
  s.toList.foldl put p

/-- Starts a new line. -/
def newline (p : Page) : Page :=
  { p with text := p.text.push '\n', column := 0 }

/-- Goes to column `indent` of a line on which nothing else stands. -/
def indentTo (p : Page) (indent : Nat) : Page :=
  let fresh := p.atMargin && decide (p.column ≤ indent) && (p.column != indent || p.afterBlank)
  let p := if fresh then p else p.newline
  { p.putAll (String.ofList (List.replicate (indent - p.column) ' ')) with
    afterBlank := true, atMargin := true }

/-- Writes a mark, after a blank if it needs one. -/
def mark (p : Page) (s : String) (needsBlank blankAfter keepsMargin : Bool) : Page :=
  let p := if needsBlank && !p.afterBlank then p.put ' ' else p
  { p.putAll s with afterBlank := blankAfter, atMargin := p.atMargin && keepsMargin }

end Page

/-- Whether a character ends a line. -/
def isBreak (c : Char) : Bool :=
  c == '\r' || c == '\n' || c == '\x85' || c == '\u2028' || c == '\u2029'

/-- Whether a character may stand in a document as it is. -/
def isPrintable (c : Char) : Bool :=
  let n := c.toNat
  n == 0x0A || (0x20 ≤ n && n ≤ 0x7E) || (0xA0 ≤ n && n ≤ 0xD7FF) ||
    (0xE000 ≤ n && n ≤ 0xFFFD && n != 0xFEFF)

/-- What matters about a text for the way it can be written. -/
structure Traits where
  /-- It holds something that would be taken for structure. -/
  indicators : Bool
  /-- It has several lines. -/
  multiline : Bool
  /-- It holds a character that has to be escaped. -/
  special : Bool
  /-- It starts or ends with a blank or a line end. -/
  openEnds : Bool
  /-- It ends with a blank. -/
  trailingBlank : Bool
  /-- A line after the first starts with a blank. -/
  breakBlank : Bool
  /-- A line before the last ends with a blank. -/
  blankBreak : Bool

/-- Whether the first character of a text would be taken for structure. -/
def leadingIndicator : List Char → Bool
  | [] => false
  | c :: rest =>
    let blankNext := rest.head?.all fun d => d == ' ' || d == '\t'
    if c ∈ ['#', ',', '[', ']', '\x7b', '\x7d', '&', '*', '!', '|', '>', '\'', '"', '%', '@',
        '\x60'] then true
    else if c ∈ ['?', ':', '-'] then blankNext
    else false

/-- Whether a character after the first would be taken for structure; `before` is the one before
it. -/
def innerIndicator (before : Char) : List Char → Bool
  | [] => false
  | c :: rest =>
    let blankNext := rest.head?.all fun d => d == ' ' || d == '\t'
    let blankBefore := before == ' ' || before == '\t' || isBreak before || before == '\x00'
    (c == ':' && blankNext) || (c == '#' && blankBefore) || innerIndicator c rest

/-- Whether some two neighbours of a text are related by `r`. -/
def anyPair (r : Char → Char → Bool) : List Char → Bool
  | a :: b :: rest => r a b || anyPair r (b :: rest)
  | _ => false

/-- What matters about a text. -/
def Traits.of (cs : List Char) : Traits :=
  let isEdge (c : Char) : Bool := c == ' ' || isBreak c
  { indicators := cs.take 3 == ['-', '-', '-'] || cs.take 3 == ['.', '.', '.'] ||
      leadingIndicator cs ||
      (match cs with
        | [] => false
        | c :: rest => innerIndicator c rest)
    multiline := cs.any isBreak
    special := cs.any fun c => !isPrintable c
    openEnds := cs.head?.any isEdge || cs.getLast?.any isEdge
    trailingBlank := cs.getLast? == some ' '
    breakBlank := anyPair (fun a b => isBreak a && b == ' ') cs
    blankBreak := anyPair (fun a b => a == ' ' && isBreak b) cs }

/-- The ways to write a text. -/
inductive Style where
  | plain
  | single
  | double
  | literal
deriving DecidableEq, Repr

/-- The way a text is written as a field's value. -/
def Style.of (s : String) : Style :=
  let t := Traits.of s.toList
  let hidden := t.blankBreak || t.special
  if s.toList.contains '\n' then
    if t.trailingBlank || hidden then .double else .literal
  else if !Scalar.isPlainText s then .double
  else if t.indicators || t.multiline || t.openEnds || t.breakBlank || hidden then
    if t.breakBlank || hidden then .double else .single
  else .plain

namespace Page

/-- Whether a text is continued on the next line instead of writing the blank that comes next in
it. -/
def breaksAt (p : Page) (afterSpace : Bool) : Bool :=
  !afterSpace && decide (bestWidth < p.column)

/-- The characters of a text without quotes. -/
def plainChars (indent : Nat) (afterSpace : Bool) (p : Page) : List Char → Page
  | [] => p
  | c :: rest =>
    if c = ' ' then
      if p.breaksAt afterSpace && rest.head? != some ' ' then
        plainChars indent true (p.indentTo indent) rest
      else plainChars indent true (p.put c) rest
    else plainChars indent false { p.put c with atMargin := false } rest

/-- A text without quotes. -/
def plain (p : Page) (indent : Nat) (s : String) : Page :=
  let p := if p.afterBlank then p else p.put ' '
  { plainChars indent false p s.toList with afterBlank := false, atMargin := false }

/-- Writes a line end that stands in a text. -/
def putBreak (p : Page) (c : Char) : Page :=
  if c = '\n' then p.newline else { p.put c with column := 0 }

/-- The characters of a text between single quotes; a quote is written twice. `first` holds of the
first character only. -/
def singleChars (indent : Nat) (first afterSpace afterBreak : Bool) (p : Page) : List Char → Page
  | [] => p
  | c :: rest =>
    if c = ' ' then
      if p.breaksAt afterSpace && !first && !rest.isEmpty && rest.head? != some ' ' then
        singleChars indent false true afterBreak (p.indentTo indent) rest
      else singleChars indent false true afterBreak (p.put c) rest
    else if isBreak c then
      let p := if !afterBreak && c == '\n' then p.newline else p
      singleChars indent false afterSpace true { p.putBreak c with atMargin := true } rest
    else
      let p := if afterBreak then p.indentTo indent else p
      let p := if c = '\'' then p.put '\'' else p
      singleChars indent false false false { p.put c with atMargin := false } rest

/-- A text between single quotes. -/
def single (p : Page) (indent : Nat) (s : String) : Page :=
  let p := p.mark "'" true false false
  let p := singleChars indent true false false p s.toList
  { p.mark "'" false false false with afterBlank := false, atMargin := false }

end Page

/-- The escape of a character that has a letter of its own. -/
def letterEscape? (c : Char) : Option Char :=
  match c.toNat with
  | 0x00 => some '0'
  | 0x07 => some 'a'
  | 0x08 => some 'b'
  | 0x09 => some 't'
  | 0x0A => some 'n'
  | 0x0B => some 'v'
  | 0x0C => some 'f'
  | 0x0D => some 'r'
  | 0x1B => some 'e'
  | 0x22 => some '"'
  | 0x5C => some '\\'
  | 0x85 => some 'N'
  | 0xA0 => some '_'
  | 0x2028 => some 'L'
  | 0x2029 => some 'P'
  | _ => none

/-- The escape of a character. -/
def escape (c : Char) : String :=
  let digits (width : Nat) : String :=
    String.ofList ((Text.hex width c.toNat).toList.map Char.toUpper)
  match letterEscape? c with
  | some l => String.ofList ['\\', l]
  | none =>
    if c.toNat ≤ 0xFF then "\\x" ++ digits 2
    else if c.toNat ≤ 0xFFFF then "\\u" ++ digits 4
    else "\\U" ++ digits 8

namespace Page

/-- The characters of a text between double quotes. -/
def doubleChars (indent : Nat) (first afterSpace : Bool) (p : Page) : List Char → Page
  | [] => p
  | c :: rest =>
    if !isPrintable c || isBreak c || c == '"' || c == '\\' then
      doubleChars indent false false (p.putAll (escape c)) rest
    else if c = ' ' then
      if p.breaksAt afterSpace && !first && !rest.isEmpty then
        let p := p.indentTo indent
        let p := if rest.head? = some ' ' then p.put '\\' else p
        doubleChars indent false true p rest
      else doubleChars indent false true (p.put c) rest
    else doubleChars indent false false (p.put c) rest

/-- A text between double quotes. One that starts with a byte order mark is escaped throughout. -/
def double (p : Page) (indent : Nat) (s : String) : Page :=
  let p := p.mark "\"" true false false
  let p :=
    if s.toList.head? = some '\uFEFF' then p.putAll (String.join (s.toList.map escape))
    else doubleChars indent true false p s.toList
  { p.mark "\"" false false false with afterBlank := false, atMargin := false }

/-- How the line ends after the last line of a block of lines are to be taken. -/
def chompMark (cs : List Char) : String :=
  match cs.reverse with
  | [] => "-"
  | [c] => if isBreak c then "+" else "-"
  | c :: d :: _ => if !isBreak c then "-" else if isBreak d then "+" else ""

/-- The characters of a block of lines. -/
def literalChars (indent : Nat) (afterBreak : Bool) (p : Page) : List Char → Page
  | [] => p
  | c :: rest =>
    if isBreak c then literalChars indent true { p.putBreak c with atMargin := true } rest
    else
      let p := if afterBreak then p.indentTo indent else p
      literalChars indent false { p.put c with atMargin := false } rest

/-- A text as a block of lines. -/
def literal (p : Page) (indent : Nat) (s : String) : Page :=
  let p := p.mark "|" true false false
  let p := if s.toList.head?.any (fun c => c == ' ' || isBreak c) then p.mark "2" false false false
    else p
  let chomp := chompMark s.toList
  let p := if chomp.isEmpty then p else p.mark chomp false false false
  literalChars indent true { p.newline with atMargin := true, afterBlank := true } s.toList

/-- A text as a value; lines after the first are indented by `indent`. -/
def scalar (p : Page) (indent : Nat) (s : String) : Page :=
  match Style.of s with
  | .plain => p.plain indent s
  | .single => p.single indent s
  | .double => p.double indent s
  | .literal => p.literal indent s

end Page

mutual

/-- Writes a value inside something at column `indent`; `inRecord` holds of the value of a field.
The lines of a list that is the value of a field go no further in than the field. -/
def writeValue (indent : Option Nat) (inRecord : Bool) (p : Page) : Data → Page
  | .null => p.plain 0 "null"
  | .bool b => p.plain 0 (if b then "true" else "false")
  | .int n => p.plain 0 (toString n)
  | .text s => p.scalar (indent.elim 2 (· + 2)) s
  | .list [] => (p.mark "[" true true false).mark "]" false false false
  | .list (item :: items) =>
    let inner := if inRecord && !p.atMargin then indent.getD 0 else indent.elim 0 (· + 2)
    writeItems inner p (item :: items)
  | .record [] => (p.mark "\x7b" true true false).mark "\x7d" false false false
  | .record (field :: fields) => writeFields (indent.elim 0 (· + 2)) p (field :: fields)

/-- Writes the items of a list at column `indent`. -/
def writeItems (indent : Nat) (p : Page) : List Data → Page
  | [] => p
  | item :: items =>
    let p := (p.indentTo indent).mark "-" true false true
    writeItems indent (writeValue (some indent) false p item) items

/-- Writes the fields of a record at column `indent`. -/
def writeFields (indent : Nat) (p : Page) : List (String × Data) → Page
  | [] => p
  | (name, item) :: fields =>
    let p := ((p.indentTo indent).scalar indent name).mark ":" false false false
    writeFields indent (writeValue (some indent) true p item) fields

end

/-- The document with one value. -/
def document (d : Data) : String :=
  ((writeValue none false {} d).indentTo 0).text

end TriangleTam.Yaml
