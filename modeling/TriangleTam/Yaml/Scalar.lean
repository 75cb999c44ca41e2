import TriangleTam.Text.Integer

/-!
# Plain scalars

What an unquoted scalar of a YAML document means: nothing, a truth value, a number, a point in time,
or else the text itself.
-/

namespace TriangleTam.Yaml

/-- A binary floating-point number, as far as it matters for whole numbers: the value without its
fraction, or what is no number. -/
inductive FloatValue where
  | whole (n : Int)
  | infinite (negative : Bool)
  | notANumber
deriving DecidableEq, Repr

/-- The meaning of a scalar. -/
inductive Scalar where
  | null
  | bool (b : Bool)
  | int (n : Int)
  | float (f : FloatValue)
  | timestamp
  | binary (bytes : List UInt8)
  | text
deriving DecidableEq, Repr

namespace Scalar

/-- The words that mean something of their own. -/
def words : List (String × Scalar) :=
  ["y", "Y", "yes", "Yes", "YES", "true", "True", "TRUE", "on", "On", "ON"].map (·, bool true)
    ++ ["n", "N", "no", "No", "NO", "false", "False", "FALSE", "off", "Off", "OFF"].map
      (·, bool false)
    ++ ["", "~", "null", "Null", "NULL"].map (·, null)
    ++ [".nan", ".NaN", ".NAN"].map (·, float .notANumber)
    ++ [".inf", ".Inf", ".INF", "+.inf", "+.Inf", "+.INF"].map (·, float (.infinite false))
    ++ ["-.inf", "-.Inf", "-.INF"].map (·, float (.infinite true))

/-- The value of an unsigned number of 64 bits, without any separators. -/
def unsigned? (cs : List Char) : Option Nat :=
  if cs.contains '_' then none else (Text.unsigned cs).toOption

/-- The value of a whole number that fits 64 bits, with a sign or without. -/
def int? (cs : List Char) : Option Int :=
  let inRange (n : Int) : Bool := decide (Text.minInt64 ≤ n) && decide (n ≤ Text.maxInt64)
  match cs with
  | '+' :: rest => ((unsigned? rest).map Int.ofNat).filter inRange
  | '-' :: rest => ((unsigned? rest).map fun n => -Int.ofNat n).filter inRange
  | cs => (unsigned? cs).map Int.ofNat

/-- The digits at the front of a text, and the rest. -/
def spanDigits (cs : List Char) : List Char × List Char :=
  (cs.takeWhile Char.isDigit, cs.dropWhile Char.isDigit)

/-- The exponent at the end of a decimal number; none is an exponent of zero. -/
def exponent? : List Char → Option Int
  | [] => some 0
  | e :: rest => if e = 'e' ∨ e = 'E' then Text.signed? rest else none

/-- An unsigned decimal number as digits and the power of ten they are multiplied by. -/
def decimal? (cs : List Char) : Option (Nat × Int) :=
  let (whole, rest) := spanDigits cs
  let (fraction, rest) :=
    match rest with
    | '.' :: rest => spanDigits rest
    | rest => ([], rest)
  if whole.isEmpty && fraction.isEmpty then none
  else do
    let n ← Text.digitsValue? 0 (whole ++ fraction)
    let e ← exponent? rest
    return (n, e - fraction.length)

/-- The number of binary digits of `n`. -/
def bitLength (n : Nat) : Nat :=
  if n = 0 then 0 else n.log2 + 1

/-- `num / den` to the nearest whole number, a half to the even neighbour. -/
def roundDiv (num den : Nat) : Nat :=
  let q := num / den
  let r := num % den
  if 2 * r < den then q else if den < 2 * r then q + 1 else q + q % 2

/-- The number `num / den`, which is at least one, rounded to 53 binary digits, without its
fraction. -/
def roundToDouble (num den : Nat) : Nat :=
  let size : Int := Int.ofNat (bitLength (num / den)) - 53
  if 0 ≤ size then
    let scale := Nat.pow 2 size.toNat
    roundDiv num (den * scale) * scale
  else
    let scale := Nat.pow 2 (-size).toNat
    roundDiv (num * scale) den / scale

/-- The value of `n` times ten to the power `e` as a floating-point number, without its fraction,
unless it is too large for one. -/
def toFloat? (n : Nat) (e : Int) : Option Nat :=
  let places : Int := Int.ofNat (Nat.toDigits 10 n).length + e
  if n = 0 ∨ places < 0 then some 0
  else if 310 < places then none
  else
    let den := Nat.pow 10 (-e).toNat
    let num := n * Nat.pow 10 e.toNat
    let unit := Nat.pow 2 53
    let v := if num < den then roundDiv (num * unit) den / unit else roundToDouble num den
    if v < Nat.pow 2 1024 then some v else none

/-- The value of a decimal number with a sign or without, as a floating-point number. -/
def float? : List Char → Option FloatValue
  | '+' :: cs => (decimal? cs).bind fun (n, e) => (toFloat? n e).map fun v => .whole v
  | '-' :: cs => (decimal? cs).bind fun (n, e) => (toFloat? n e).map fun v => .whole (-Int.ofNat v)
  | cs => (decimal? cs).bind fun (n, e) => (toFloat? n e).map fun v => .whole v

/-- The number of days of a month. -/
def daysIn (year month : Nat) : Nat :=
  if month = 2 then
    if year % 4 = 0 ∧ (year % 100 ≠ 0 ∨ year % 400 = 0) then 29 else 28
  else if month = 4 ∨ month = 6 ∨ month = 9 ∨ month = 11 then 30
  else 31

/-- One or two digits with a value from `low` to `high`, and the rest. -/
def shortNumber? (low high : Nat) (cs : List Char) : Option (Nat × List Char) :=
  let ds := (cs.take 2).takeWhile Char.isDigit
  (Text.natural? ds).bind fun n =>
    if low ≤ n ∧ n ≤ high then some (n, cs.drop ds.length) else none

/-- A character and the rest. -/
def expect? (c : Char) : List Char → Option (List Char)
  | d :: rest => if d = c then some rest else none
  | [] => none

/-- Fractions of a second, which may be missing. -/
def skipFraction : List Char → List Char
  | p :: d :: rest =>
    if (p = '.' ∨ p = ',') ∧ d.isDigit then rest.dropWhile Char.isDigit else p :: d :: rest
  | cs => cs

/-- A time of day, and the rest. -/
def time? (cs : List Char) : Option (List Char) := do
  let (_, cs) ← shortNumber? 0 23 cs
  let cs ← expect? ':' cs
  let (_, cs) ← shortNumber? 0 59 cs
  let cs ← expect? ':' cs
  let (_, cs) ← shortNumber? 0 59 cs
  return skipFraction cs

/-- Whether the text is a time zone: `Z`, or hours and minutes of two digits each, with a sign. -/
def isZone : List Char → Bool
  | ['Z'] => true
  | [s, a, b, ':', c, d] =>
    (s == '+' || s == '-') && (Text.natural? [a, b]).any (· ≤ 24)
      && (Text.natural? [c, d]).any (· ≤ 60)
  | _ => false

/-- Whether the text is a date, or a date with a time of day. -/
def isTimestamp (cs : List Char) : Bool :=
  let year := cs.takeWhile Char.isDigit
  let rest? : Option (List Char) := do
    let y ← if year.length = 4 then Text.natural? year else none
    let cs ← expect? '-' (cs.drop 4)
    let (m, cs) ← shortNumber? 1 12 cs
    let cs ← expect? '-' cs
    let (_, cs) ← shortNumber? 1 (daysIn y m) cs
    return cs
  match rest? with
  | none => false
  | some [] => true
  | some (c :: cs) =>
    if c = 'T' ∨ c = 't' then (time? cs).any isZone
    else c == ' ' && (time? (cs.dropWhile (· == ' '))).any List.isEmpty

/-- Whether every underscore stands between two digits; `afterDigit` says that one is before the
text. -/
def separatesDigits (afterDigit : Bool) : List Char → Bool
  | [] => true
  | c :: rest =>
    if c = '_' then afterDigit && rest.head?.any Char.isDigit && separatesDigits false rest
    else separatesDigits c.isDigit rest

/-- The value of a whole number to base two that starts with `0b` and has a sign behind that. -/
def signedBinary? : List Char → Option Int
  | '0' :: 'b' :: '-' :: ds => int? ('-' :: '0' :: 'b' :: ds)
  | '0' :: 'b' :: '+' :: ds => int? ('+' :: '0' :: 'b' :: ds)
  | _ => none

/-- The meaning of a text that starts like a number. Underscores in it do not count, and a point in
time is none in `number`. -/
def ofNumber (number : List Char) : Scalar :=
  match int? number, float? number, signedBinary? number with
  | some n, _, _ => int n
  | none, some f, _ => float f
  | none, none, some n => int n
  | none, none, none => text

/-- The meaning of an unquoted scalar. -/
def ofPlain (s : String) : Scalar :=
  match words.lookup s with
  | some w => w
  | none =>
    match s.toList with
    | [] => text
    | c :: rest =>
      let digits := (c :: rest).filter (· ≠ '_')
      if c = '.' then
        if separatesDigits false rest then ((float? digits).map float).getD text else text
      else if c.isDigit ∨ c = '+' ∨ c = '-' then
        if isTimestamp (c :: rest) then timestamp else ofNumber digits
      else text

/-- Whether the text is a number to base sixty, such as `1:30`. Some readers take it for one. -/
def isBase60 (s : String) : Bool :=
  let unsignedPart :=
    match s.toList with
    | '+' :: cs | '-' :: cs => cs
    | cs => cs
  let beforeFraction := unsignedPart.takeWhile (· ≠ '.')
  let fraction := unsignedPart.dropWhile (· ≠ '.')
  let isGroup (g : String) : Bool :=
    match g.toList with
    | [d] => d.isDigit
    | [t, d] => '0' ≤ t && t ≤ '5' && d.isDigit
    | _ => false
  match (String.ofList beforeFraction).splitOn ":" with
  | first :: group :: groups =>
    (match first.toList with
      | d :: ds => d.isDigit && ds.all fun c => c.isDigit || c == '_'
      | [] => false)
      && (group :: groups).all isGroup
      && (fraction.drop 1).all fun c => c.isDigit || c == '_'
  | _ => false

/-- Whether a text reads back as itself when it is not quoted. -/
def isPlainText (s : String) : Bool :=
  ofPlain s == text && !isBase60 s

end Scalar

end TriangleTam.Yaml
