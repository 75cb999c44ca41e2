/-!
# Decimal numbers

Reading signed decimals that fit a 64-bit word, and the two ways numbers are laid out in reports:
right-aligned in a column, or with a comma after every third digit from the right.
-/

namespace TriangleTam.Text

/-- The least signed 64-bit number. -/
def minInt64 : Int := -9223372036854775808

/-- The largest signed 64-bit number. -/
def maxInt64 : Int := 9223372036854775807

/-- The value of a run of decimal digits, continuing from `acc`; nothing else may occur in it. -/
def digitsValue? (acc : Nat) : List Char → Option Nat
  | [] => some acc
  | c :: rest =>
    if '0' ≤ c ∧ c ≤ '9' then digitsValue? (acc * 10 + (c.toNat - '0'.toNat)) rest else none

/-- The value of a non-empty run of decimal digits. -/
def natural? : List Char → Option Nat
  | [] => none
  | cs => digitsValue? 0 cs

/-- The value of decimal digits after an optional sign. -/
def signed? : List Char → Option Int
  | '+' :: cs => (natural? cs).map Int.ofNat
  | '-' :: cs => (natural? cs).map fun n => -Int.ofNat n
  | cs => (natural? cs).map Int.ofNat

/-- The value of a signed decimal, if it is one and fits 64 bits. -/
def int64? (s : String) : Option Int :=
  (signed? s.toList).filter fun n => decide (minInt64 ≤ n) && decide (n ≤ maxInt64)

/-- Text filled up with blanks on the left to `width` characters. -/
def padLeft (width : Nat) (s : String) : String :=
  String.ofList (List.replicate (width - s.length) ' ') ++ s

/-- Text filled up with blanks on the right to `width` characters. -/
def padRight (width : Nat) (s : String) : String :=
  s ++ String.ofList (List.replicate (width - s.length) ' ')

/-- Digits, least significant first, with a comma after every third. -/
def groupDigits : List Char → List Char
  | a :: b :: c :: d :: rest => a :: b :: c :: ',' :: groupDigits (d :: rest)
  | ds => ds

/-- The decimal digits of `n` in groups of three, as in `1,201`. -/
def grouped (n : Nat) : String :=
  String.ofList (groupDigits (Nat.toDigits 10 n).reverse).reverse

end TriangleTam.Text
