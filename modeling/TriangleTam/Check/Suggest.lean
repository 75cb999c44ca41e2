import TriangleTam.Scope
import TriangleTam.Text.Decimal
import TriangleTam.Text.EditDistance
import TriangleTam.Text.Letter
import TriangleTam.Text.LowerCase

/-!
# Suggesting names

For a name that is not declared, the visible name closest to it, if there is one that is close
enough. Upper and lower case count as the same, operators are never suggested, and of names that
are equally close the alphabetically first is taken.
-/

namespace TriangleTam.Check

/-- How far a suggested name may be from the one that was written, unless it is said otherwise. -/
def defaultDistance : Int := 2

/-- Whether a name can be suggested: it starts with a letter. -/
def isWord (name : String) : Bool :=
  match name.toList with
  | c :: _ => Text.isLetter c
  | [] => false

/-- The distance of two names, upper and lower case being the same. -/
def nameDistance (a b : String) : Nat :=
  Text.editDistance (Text.lower a) (Text.lower b)

/-- Goes through `names` for one that is closer to `name` than `bound`, and keeps the first of the
closest; `best` is what was found so far. -/
def closest (name : String) (bound : Int) (best : Option String) : List String → Option String
  | [] => best
  | candidate :: rest =>
    let d : Int := nameDistance name candidate
    if isWord candidate ∧ d < bound then closest name d (some candidate) rest
    else closest name bound best rest

/-- The first distance that is too far, as a signed 64-bit number: no distance at all is close
enough if the limit is the largest such number. -/
def tooFar (limit : Int) : Int :=
  if limit < Text.maxInt64 then limit + 1 else Text.minInt64

/-- The name to suggest for `name`. No distance given stands for the default one, and below zero
nothing is suggested. -/
def suggest {δ : Type} (distance : Int) (chain : Chain δ) (name : String) : Option String :=
  let limit := if distance = 0 then defaultDistance else distance
  if limit < 0 then none
  else
    closest name (tooFar limit) none
      ((Chain.visible chain).mergeSort fun a b => decide (a ≤ b))

end TriangleTam.Check
