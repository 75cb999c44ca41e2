/-!
# Arithmetic, input and output

What the language and the machine both take from outside: how numbers are computed and compared,
how input is read and how output is written. The meaning of a program and the runs of its code are
told over any such platform.
-/

namespace TriangleTam

/-- Arithmetic, input and output. `ι` is the input that is still to be read, `ω` the output written
so far. An operation that gives nothing is a fault. -/
structure Platform (ι ω : Type) where
  add : Int → Int → Option Int
  sub : Int → Int → Option Int
  mult : Int → Int → Option Int
  div : Int → Int → Option Int
  lt : Int → Int → Bool
  gt : Int → Int → Bool
  /-- Whether the input is at its end. -/
  eof : ι → Option (Bool × ι)
  /-- Whether the input is at the end of a line. -/
  eol : ι → Option (Bool × ι)
  /-- Reads the code of a character. -/
  get : ι → Option (Int × ι)
  /-- Reads a number. -/
  getint : ι → Option (Int × ι)
  /-- Writes the character with a code. -/
  put : Int → ω → Option ω
  /-- Writes a number. -/
  putint : Int → ω → Option ω
  /-- Ends a line. -/
  puteol : ω → Option ω

/-- What a program can see and change outside of itself. -/
structure World (ι ω : Type) where
  input : ι
  output : ω
deriving DecidableEq

namespace World

variable {ι ω α : Type}

/-- Reads something. -/
def read (w : World ι ω) (f : ι → Option (α × ι)) : Option (α × World ι ω) :=
  (f w.input).map fun r => (r.1, { w with input := r.2 })

/-- Writes something. -/
def write (w : World ι ω) (f : ω → Option ω) : Option (World ι ω) :=
  (f w.output).map fun o => { w with output := o }

end World

end TriangleTam
