import TriangleTam.Machine.Instruction
import TriangleTam.Pos
import TriangleTam.Ty

/-!
# What checking finds wrong

The ways in which a program breaks the rules on names and types, and how each is reported.
-/

namespace TriangleTam.Check

/-- A broken rule. A `sort` says what a name means instead of what it should. -/
inductive Error where
  | undeclared (name : String) (suggestion : Option String)
  | duplicate (name : String) (previous : Pos)
  | literalRange (spelling : String)
  | noValue (callee : String)
  | notValue (name sort : String)
  | notType (name sort : String)
  | notUnary (op : String)
  | notBinary (op : String)
  | operand (op : String) (found wanted : Ty)
  | leftOperand (op : String) (found wanted : Ty)
  | rightOperand (op : String) (found wanted : Ty)
  | operandsDiffer (op : String) (left right : Ty)
  | notRoutine (name sort : String)
  | argCount (name : String) (found wanted : Nat)
  | argNotVariable (name sort : String)
  | argType (found wanted : Ty)
  | wantsVariable (routine : String)
  | wantsValue (routine : String)
  | notAssignable (name sort : String)
  | assignType (name : String) (found wanted : Ty)
  | condition (command : String) (found : Ty)
  | misplacedDecl (node : String)
deriving DecidableEq, Repr

namespace Error

/-- What is reported. -/
def message : Error → String
  | undeclared name none => "undeclared identifier " ++ name
  | undeclared name (some s) => "undeclared identifier " ++ name ++ " (did you mean " ++ s ++ "?)"
  | duplicate name previous =>
    let said := "duplicate declaration of " ++ name
    if previous.isValid then said ++ " (previously declared at " ++ previous.render ++ ")" else said
  | literalRange spelling =>
    "integer literal " ++ spelling ++ " out of range (max " ++ toString Machine.maxInt ++ ")"
  | noValue callee => callee ++ " does not return a value"
  | notValue name sort => name ++ " is a " ++ sort ++ ", not a value"
  | notType name sort => name ++ " is a " ++ sort ++ ", not a type"
  | notUnary op => op ++ " is not a unary operator"
  | notBinary op => op ++ " is not a binary operator"
  | operand op found wanted =>
    "invalid operand for " ++ op ++ ": have " ++ found.name ++ ", want " ++ wanted.name
  | leftOperand op found wanted =>
    "invalid left operand for " ++ op ++ ": have " ++ found.name ++ ", want " ++ wanted.name
  | rightOperand op found wanted =>
    "invalid right operand for " ++ op ++ ": have " ++ found.name ++ ", want " ++ wanted.name
  | operandsDiffer op left right =>
    "mismatched operand types for " ++ op ++ ": " ++ left.name ++ " and " ++ right.name
  | notRoutine name sort => "cannot call " ++ sort ++ " " ++ name
  | argCount name found wanted =>
    "wrong number of arguments in call to " ++ name ++ ": have " ++ toString found ++ ", want "
      ++ toString wanted
  | argNotVariable name sort => "cannot pass " ++ sort ++ " " ++ name ++ " as var parameter"
  | argType found wanted =>
    "type mismatch: cannot pass " ++ found.name ++ " as " ++ wanted.name ++ " parameter"
  | wantsVariable routine => routine ++ " expects a var parameter"
  | wantsValue routine => routine ++ " expects a value parameter, not var"
  | notAssignable name sort => "cannot assign to " ++ sort ++ " " ++ name
  | assignType name found wanted =>
    "type mismatch: cannot assign " ++ found.name ++ " to " ++ name ++ " of type " ++ wanted.name
  | condition command found =>
    "non-boolean condition in " ++ command ++ " command (type " ++ found.name ++ ")"
  | misplacedDecl node => "unexpected declaration *syntax." ++ node

end Error

end TriangleTam.Check
