/-!
# Glyphs: bytes read as UTF-8

A program text is a sequence of bytes. Each correctly encoded character is one glyph, and each byte
that belongs to no correct encoding is one `invalid` glyph, so reading never fails and a text after
a stray byte is still read.
-/

namespace TriangleTam.Text

/-- One unit of program text: a character, or a byte that is not part of any. -/
inductive Glyph where
  | char (c : Char)
  | invalid
deriving DecidableEq, Repr

namespace Glyph

/-- The replacement character, which stands for an undecodable byte. -/
def replacement : Char := '\uFFFD'

/-- The character a glyph is spelled with. -/
def toChar : Glyph → Char
  | char c => c
  | invalid => replacement

/-- Whether the glyph is the character `c`. An undecodable byte is no character. -/
def isChar (c : Char) : Glyph → Bool
  | char d => d == c
  | invalid => false

/-- Whether the glyph is a character with property `p`. -/
def all (p : Char → Bool) : Glyph → Bool
  | char c => p c
  | invalid => false

/-- The six payload bits of a continuation byte. -/
def continuation? (b : UInt8) : Option Nat :=
  if 0x80 ≤ b.toNat ∧ b.toNat ≤ 0xBF then some (b.toNat - 0x80) else none

/-- The character with code point `n`, unless `n` is a surrogate, too large, or has a shorter
encoding (`n < least`). -/
def scalar? (least n : Nat) : Option Char :=
  if least ≤ n ∧ n.isValidChar then some (Char.ofNat n) else none

/-- The character whose encoding starts with the byte `b` and goes on in `rest`, with the number
of bytes it takes from `rest`. -/
def leading? (b : UInt8) (rest : List UInt8) : Option (Char × Nat) :=
  let n := b.toNat
  if n < 0x80 then
    some (Char.ofNat n, 0)
  else if 0xC0 ≤ n ∧ n < 0xE0 then
    match rest with
    | b1 :: _ => do
      let x1 ← continuation? b1
      let c ← scalar? 0x80 ((n - 0xC0) * 64 + x1)
      return (c, 1)
    | _ => none
  else if 0xE0 ≤ n ∧ n < 0xF0 then
    match rest with
    | b1 :: b2 :: _ => do
      let x1 ← continuation? b1
      let x2 ← continuation? b2
      let c ← scalar? 0x800 (((n - 0xE0) * 64 + x1) * 64 + x2)
      return (c, 2)
    | _ => none
  else if 0xF0 ≤ n ∧ n < 0xF8 then
    match rest with
    | b1 :: b2 :: b3 :: _ => do
      let x1 ← continuation? b1
      let x2 ← continuation? b2
      let x3 ← continuation? b3
      let c ← scalar? 0x10000 ((((n - 0xF0) * 64 + x1) * 64 + x2) * 64 + x3)
      return (c, 3)
    | _ => none
  else none

/-- The glyphs of a byte sequence. -/
def decode : List UInt8 → List Glyph
  | [] => []
  | b :: rest =>
    match leading? b rest with
    | some (c, k) => char c :: decode (rest.drop k)
    | none => invalid :: decode rest
termination_by bytes => bytes.length
decreasing_by all_goals simp only [List.length_drop, List.length_cons]; omega

/-- The text a sequence of glyphs is spelled with. -/
def spell (glyphs : List Glyph) : String :=
  String.ofList (glyphs.map toChar)

end Glyph

end TriangleTam.Text
