import TriangleTam.Meaning
import TriangleTam.SymbolTable

/-!
# The standard environment as a frame

The names that are there before anything is declared. Every program starts with a frame of its own
that binds them.
-/

namespace TriangleTam

/-- What a listing of a frame says of a name: the sort of declaration and its type. -/
def Signature.summary : Option Signature → String
  | some s => s.kind ++ " " ++ s.describe
  | none => Signature.group.kind ++ " " ++ Signature.group.describe

namespace Environment

variable {δ : Type}

/-- A frame that binds all built-in names, each to what `of` makes of its declaration. -/
def frame (comment : String) (of : Builtin → δ) : Frame δ :=
  ⟨comment, Builtin.all.map fun b => (b.name, some (of b))⟩

/-- The standard environment itself. Nothing can be added to it. -/
def standard (of : Builtin → δ) : FrameEntry δ :=
  { frame := frame "universe" of, frozen := true }

/-- The outermost frame of a program. -/
def root (of : Builtin → δ) : Frame δ :=
  frame "program" of

end Environment

end TriangleTam
