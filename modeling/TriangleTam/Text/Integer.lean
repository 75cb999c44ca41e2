import TriangleTam.Text.Decimal

/-!
# Integers in several bases

A number starts with `0x`, `0b` or `0o` for base sixteen, two or eight, or with `0` for base eight;
otherwise it is decimal. Underscores may separate its digits.
-/

namespace TriangleTam.Text

/-- The value of a digit in a base up to sixteen. -/
def digit? (base : Nat) (c : Char) : Option Nat :=
  let n :=
    if '0' ≤ c ∧ c ≤ '9' then c.toNat - '0'.toNat
    else if 'a' ≤ c ∧ c ≤ 'f' then c.toNat - 'a'.toNat + 10
    else if 'A' ≤ c ∧ c ≤ 'F' then c.toNat - 'A'.toNat + 10
    else 16
  if n < base then some n else none

/-- The base of an unsigned number, and its digits. -/
def splitBase : List Char → Nat × List Char
  | '0' :: p :: d :: rest =>
    if p = 'x' ∨ p = 'X' then (16, d :: rest)
    else if p = 'b' ∨ p = 'B' then (2, d :: rest)
    else if p = 'o' ∨ p = 'O' then (8, d :: rest)
    else (8, p :: d :: rest)
  | '0' :: rest => (8, rest)
  | cs => (10, cs)

/-- Why a text is no integer of 64 bits. -/
inductive NumberError where
  | notANumber
  | outOfRange
deriving DecidableEq, Repr

/-- What is said about a text that is no integer of 64 bits. -/
def NumberError.message : NumberError → String
  | notANumber => "invalid syntax"
  | outOfRange => "value out of range"

/-- The value of digits, continuing from `acc`, as an unsigned number of 64 bits. Underscores are
left out. -/
def digitsValue (base acc : Nat) : List Char → Except NumberError Nat
  | [] => .ok acc
  | c :: rest =>
    if c = '_' then digitsValue base acc rest
    else
      match digit? base c with
      | none => .error .notANumber
      | some d =>
        let acc := acc * base + d
        if acc < 2 ^ 64 then digitsValue base acc rest else .error .outOfRange

/-- Whether every underscore stands between two digits; what is before the text counts as a digit if
`afterDigit` holds. -/
def separatorsFit (afterDigit : Bool) : List Char → Bool
  | [] => true
  | ['_'] => false
  | '_' :: c :: rest => afterDigit && c != '_' && separatorsFit true rest
  | _ :: rest => separatorsFit true rest

/-- The value of an unsigned number of 64 bits. -/
def unsigned (cs : List Char) : Except NumberError Nat := do
  if cs.isEmpty then throw .notANumber
  let (base, ds) := splitBase cs
  let n ← digitsValue base 0 ds
  if separatorsFit (base != 10) ds then return n else throw .notANumber

/-- The value of a signed number of 64 bits. -/
def integer (s : String) : Except NumberError Int := do
  let (negative, cs) := match s.toList with
    | '+' :: cs => (false, cs)
    | '-' :: cs => (true, cs)
    | cs => (false, cs)
  let n ← unsigned cs
  let value : Int := if negative then -n else n
  if minInt64 ≤ value ∧ value ≤ maxInt64 then return value else throw .outOfRange

end TriangleTam.Text
