import TriangleTam.Pos
import TriangleTam.Text.Glyph

/-!
# Sources of program text

A cursor stands on one glyph of a text, or past its end, and knows the position there. It only
moves forward. A source is a cursor over a text that was read from somewhere and has to be closed.
-/

namespace TriangleTam

open Text (Glyph)

/-- A place in a text: what is still to be read, and the position of its first glyph. -/
structure Cursor where
  text : List Glyph
  pos : Pos
deriving DecidableEq, Repr

namespace Cursor

/-- The cursor on the first glyph of a text. -/
def ofBytes (file : String) (bytes : List UInt8) : Cursor :=
  ⟨Glyph.decode bytes, Pos.start file⟩

/-- The position after the glyphs `taken`, the first of which stands at `p`. -/
def advance (p : Pos) (taken : List Glyph) : Pos :=
  taken.foldl (fun p g => p.after (g.isChar '\n')) p

/-- Moves on by one glyph. Past the end only the column goes on. -/
def next (c : Cursor) : Cursor :=
  match c.text with
  | [] => { c with pos := c.pos.after false }
  | g :: rest => ⟨rest, c.pos.after (g.isChar '\n')⟩

/-- Moves to the first glyph after the next line end, or to the end of the text. -/
def skipLine (c : Cursor) : Cursor :=
  let line := c.text.takeWhile (!·.isChar '\n')
  let here : Cursor := ⟨c.text.dropWhile (!·.isChar '\n'), advance c.pos line⟩
  match here.text with
  | [] => here
  | _ :: _ => here.next

end Cursor

/-- A text could not be read to its end. -/
structure ReadError where
  file : String
  reason : String
deriving DecidableEq, Repr

namespace ReadError

/-- What is said about the failure. -/
def message (e : ReadError) : String :=
  "reading " ++ e.file ++ ": " ++ e.reason

end ReadError

/-- A text with what reading and closing it comes to. -/
structure Input where
  bytes : List UInt8
  /-- Why the text could not be read to its end. -/
  readFault : Option String := none
  /-- Why closing it fails. -/
  closeFault : Option String := none

/-- A cursor over an open text. -/
structure Source where
  cursor : Cursor
  /-- What closing comes to; a closed source has nothing left to close. -/
  closeFault : Option String
deriving DecidableEq, Repr

namespace Source

/-- Reads a text and stands on its first glyph. -/
def ofInput (file : String) (input : Input) : Except ReadError Source :=
  match input.readFault with
  | some reason => .error ⟨file, reason⟩
  | none => .ok ⟨Cursor.ofBytes file input.bytes, input.closeFault⟩

/-- A text in memory, which needs no closing. -/
def ofBytes (file : String) (bytes : List UInt8) : Source :=
  ⟨Cursor.ofBytes file bytes, none⟩

/-- Closes the source. A second time there is nothing to close. -/
def close (s : Source) : Option String × Source :=
  (s.closeFault, { s with closeFault := none })

end Source

end TriangleTam
