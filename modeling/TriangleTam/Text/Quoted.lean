import TriangleTam.Text.Printable

/-!
# Quoted text

Messages quote names and characters so that every character can be told apart: a printable
character stands for itself, and any other is written as an escape. The quote in use and the
backslash are escaped as well, so the closing quote is the first unescaped one.
-/

namespace TriangleTam.Text

/-- The hexadecimal digits of `n`, lower case, at least `width` of them. -/
def hex (width n : Nat) : String :=
  let digits := String.ofList (Nat.toDigits 16 n)
  String.ofList (List.replicate (width - digits.length) '0') ++ digits

/-- The escape of a character that has a letter of its own. -/
def letterEscape? (c : Char) : Option Char :=
  match c.toNat with
  | 0x07 => some 'a'
  | 0x08 => some 'b'
  | 0x0C => some 'f'
  | 0x0A => some 'n'
  | 0x0D => some 'r'
  | 0x09 => some 't'
  | 0x0B => some 'v'
  | _ => none

/-- How `c` is written between two `quote` characters. -/
def escape (quote c : Char) : String :=
  if c = quote ∨ c = '\\' then String.ofList ['\\', c]
  else if isPrintable c then String.singleton c
  else match letterEscape? c with
    | some l => String.ofList ['\\', l]
    | none =>
      if c.toNat < 0x20 ∨ c.toNat = 0x7F then "\\x" ++ hex 2 c.toNat
      else if c.toNat < 0x10000 then "\\u" ++ hex 4 c.toNat
      else "\\U" ++ hex 8 c.toNat

/-- The text between double quotes. -/
def quoted (s : String) : String :=
  "\"" ++ String.join (s.toList.map (escape '"')) ++ "\""

/-- The character between single quotes. -/
def quotedChar (c : Char) : String :=
  "'" ++ escape '\'' c ++ "'"

end TriangleTam.Text
