/-!
# Bytes in base 64

Three bytes are written as four digits to base 64. A last group of one or two bytes has two or three
digits and is filled up with equals signs. Line ends do not count.
-/

namespace TriangleTam.Text.Base64

/-- The value of a digit. -/
def digit? (c : Char) : Option Nat :=
  if 'A' ≤ c ∧ c ≤ 'Z' then some (c.toNat - 'A'.toNat)
  else if 'a' ≤ c ∧ c ≤ 'z' then some (c.toNat - 'a'.toNat + 26)
  else if '0' ≤ c ∧ c ≤ '9' then some (c.toNat - '0'.toNat + 52)
  else if c = '+' then some 62
  else if c = '/' then some 63
  else none

/-- The value of four digits; an equals sign in one of the last two places counts as zero. -/
def group? (a b c d : Char) : Option Nat := do
  let a ← digit? a
  let b ← digit? b
  let c ← if c = '=' then some 0 else digit? c
  let d ← if d = '=' then some 0 else digit? d
  return ((a * 64 + b) * 64 + c) * 64 + d

/-- The first `count` of the three bytes of a group with this value. -/
def groupBytes (count value : Nat) : List UInt8 :=
  [UInt8.ofNat (value / 65536), UInt8.ofNat (value / 256), UInt8.ofNat value].take count

/-- The bytes written in groups of four characters. Only the last group can be filled up. -/
def bytesOfGroups? : List Char → Option (List UInt8)
  | [] => some []
  | a :: b :: c :: d :: rest =>
    if d ≠ '=' ∧ c ≠ '=' then do
      let value ← group? a b c d
      let bytes ← bytesOfGroups? rest
      return groupBytes 3 value ++ bytes
    else if d = '=' ∧ rest.isEmpty then
      (group? a b c d).map (groupBytes (if c = '=' then 1 else 2))
    else none
  | _ => none

/-- The bytes a text stands for. -/
def decode? (text : String) : Option (List UInt8) :=
  bytesOfGroups? (text.toList.filter fun c => c ≠ '\n' ∧ c ≠ '\r')

end TriangleTam.Text.Base64
