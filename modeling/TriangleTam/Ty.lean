/-!
# Types

The types of the language. `any` and `void` cannot be named in a program: `any` is the operand type
of `=` and the type of erroneous expressions, and `void` is the result type of procedures.
-/

namespace TriangleTam

/-- A type of the language. -/
inductive Ty where
  | integer
  | char
  | boolean
  | any
  | void
deriving DecidableEq, Repr

namespace Ty

/-- How the type is called. -/
def name : Ty → String
  | integer => "integer"
  | char => "char"
  | boolean => "boolean"
  | any => "any"
  | void => "void"

/-- The number of words a value of the type takes. -/
def size : Ty → Nat
  | integer | char | boolean => 1
  | any | void => 0

/-- Every type. -/
def all : List Ty := [integer, char, boolean, any, void]

/-- The type with this name. -/
def ofName? (name : String) : Option Ty :=
  all.find? (·.name == name)

/-- Whether a value of type `actual` may stand where `formal` is expected: `any` goes with every
type on either side, and otherwise the types are the same. -/
def accepts (formal actual : Ty) : Bool :=
  formal == any || actual == any || formal == actual

/-- As `accepts`, where a type may also be missing: a missing type goes with another missing one
and with `any`. -/
def accepts? (formal actual : Option Ty) : Bool :=
  formal == some any || actual == some any || formal == actual

/-- The name of a type that may be missing. -/
def nameOf : Option Ty → String
  | some t => t.name
  | none => "<nil>"

@[simp] theorem accepts?_some (formal actual : Ty) :
    accepts? (some formal) (some actual) = accepts formal actual := by
  cases formal <;> cases actual <;> rfl

end Ty

end TriangleTam
