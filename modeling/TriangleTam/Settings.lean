/-!
# Settings

What can be chosen about a compilation, and the limits within which it can be chosen.
-/

namespace TriangleTam

/-- The settings of the compiler. -/
structure Settings where
  /-- Missing tokens are not reported. -/
  lenient : Bool := false
  /-- The number of problems after which parsing stops; zero stands for the parser's own limit. -/
  maxErrors : Int := 10
  /-- The listing is shown also when it is written to a file. -/
  listing : Bool := true
  /-- How much is logged. -/
  verbose : Int := 0
deriving DecidableEq, Repr

namespace Settings

/-- A setting that is out of range. -/
inductive RangeError where
  | maxErrors (n : Int)
  | verbose (n : Int)
deriving DecidableEq, Repr

/-- What is said about a setting that is out of range. -/
def RangeError.message : RangeError → String
  | maxErrors n => "maxErrors must not be negative, got " ++ toString n
  | verbose n => "verbose must not be negative, got " ++ toString n

/-- The first setting that is out of range. -/
def rangeError? (s : Settings) : Option RangeError :=
  if s.maxErrors < 0 then some (.maxErrors s.maxErrors)
  else if s.verbose < 0 then some (.verbose s.verbose)
  else none

end Settings

end TriangleTam
