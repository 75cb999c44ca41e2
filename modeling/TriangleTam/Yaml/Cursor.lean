/-!
# Places in the text of a document

The text of a document is a list of characters and line ends. All ways to end a line count as one
line end; most of them read as the same character.
-/

namespace TriangleTam.Yaml

/-- A character of a document, or the end of a line. -/
inductive Atom where
  | char (c : Char)
  /-- A line end, with the character it reads as and the number of characters it is written with. -/
  | eol (read : Char) (width : Nat)
deriving DecidableEq, Repr

namespace Atom

/-- The text as characters and line ends. -/
def ofChars : List Char → List Atom
  | [] => []
  | '\r' :: '\n' :: rest => eol '\n' 2 :: ofChars rest
  | c :: rest =>
    (if c = '\r' ∨ c = '\n' ∨ c = '\u0085' then eol '\n' 1
      else if c = '\u2028' ∨ c = '\u2029' then eol c 1
      else char c) :: ofChars rest

/-- Whether the atom is a space or a tab. -/
def isBlank : Atom → Bool
  | char c => c == ' ' || c == '\t'
  | eol .. => false

/-- Whether the atom is a line end. -/
def isEol : Atom → Bool
  | char _ => false
  | eol .. => true

/-- Whether the atom is a character that satisfies `p`. -/
def all (p : Char → Bool) : Atom → Bool
  | char c => p c
  | eol .. => false

end Atom

/-- Whether a text is at its end, at a line end, or at a blank. -/
def endsWord : List Atom → Bool
  | [] => true
  | a :: _ => a.isBlank || a.isEol

/-- Whether a text is at its end or at a line end. -/
def endsLine : List Atom → Bool
  | [] => true
  | a :: _ => a.isEol

/-- Whether a text starts with a mark between documents: three dashes or dots, alone. -/
def startsMark : List Atom → Bool
  | .char a :: .char b :: .char c :: rest =>
    a == b && b == c && (a == '-' || a == '.') && endsWord rest
  | _ => false

/-- A place in a text: how many characters are before it, and its line and column from zero. -/
structure Mark where
  index : Nat := 0
  line : Nat := 0
  column : Nat := 0
deriving DecidableEq, Repr

/-- The place after an atom. -/
def Mark.after (m : Mark) : Atom → Mark
  | .char _ => ⟨m.index + 1, m.line, m.column + 1⟩
  | .eol _ width => ⟨m.index + width, m.line + 1, 0⟩

/-- What is left of a text, and the place where that starts. -/
structure Cursor where
  text : List Atom
  mark : Mark
deriving DecidableEq, Repr

namespace Cursor

/-- Moves on by one atom, if there is one. -/
def next (c : Cursor) : Cursor :=
  match c.text with
  | [] => c
  | a :: rest => ⟨rest, c.mark.after a⟩

/-- Moves on by `n` atoms. -/
def skip : Nat → Cursor → Cursor
  | 0, c => c
  | n + 1, c => skip n c.next

/-- Moves on over the atoms at the front that satisfy `p`. -/
def skipWhile (p : Atom → Bool) (c : Cursor) : Cursor :=
  skip (c.text.takeWhile p).length c

/-- The characters at the front that satisfy `p`. -/
def takeWhile (p : Char → Bool) (c : Cursor) : List Char :=
  (c.text.takeWhile (·.all p)).filterMap fun
    | .char c => some c
    | .eol .. => none

/-- The character at the front. -/
def char? (c : Cursor) : Option Char :=
  match c.text with
  | .char c :: _ => some c
  | _ => none

/-- Moves to the end of the line if only blanks and a comment are before it. -/
def skipComment (c : Cursor) : Cursor :=
  let c := c.skipWhile Atom.isBlank
  if c.char? = some '#' then c.skipWhile (!·.isEol) else c

end Cursor

end TriangleTam.Yaml
