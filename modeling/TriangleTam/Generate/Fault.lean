import TriangleTam.Tree.Value

/-!
# Broken promises

Code is made only of programs that were checked and found right. A tree that breaks this promise
has no code, and the fault says what is missing in it.
-/

namespace TriangleTam

/-- A broken promise as it is told: something was asserted that does not hold, or there was no way
on. -/
inductive Violation where
  | assertion (text : String)
  | failure (text : String)
deriving DecidableEq, Repr

/-- What is said about a broken promise. -/
def Violation.message : Violation → String
  | assertion text => "An assertion has failed: " ++ text
  | failure text => "A failure has occurred: " ++ text

namespace Generate

/-- The reason why a tree has no code. -/
inductive Fault where
  | noProgram
  | noCode (node : String) (pos : Pos)
  | variableStorage (name : String) (kind : Storage.Kind)
  | constantStorage (name : String) (kind : Storage.Kind)
  | noStorage (name : String) (pos : Pos)
  | unresolved (name : String) (pos : Pos)
  | notEntity (name : String) (pos : Pos) (node : String)
  | loadStorage (name : String) (pos : Pos) (kind : Storage.Kind)
  | assignStorage (name : String) (pos : Pos) (kind : Storage.Kind)
  | varParamStorage (name : String) (pos : Pos) (kind : Storage.Kind)
  | untyped (node : String) (pos : Pos)
  | literalRange (spelling : String) (pos : Pos)
  | operatorUnresolved (symbol : String) (pos : Pos)
  | callUnresolved (name : String) (pos : Pos)
  | malformed (literal : MalformedLiteral)
deriving DecidableEq, Repr

namespace Fault

/-- How the sort of a node is written in what is told about it. -/
def nodeText (node : String) : String :=
  "*syntax." ++ node

/-- How a fault is told; a malformed literal is no broken promise. -/
def violation : Fault → Except MalformedLiteral Violation
  | noProgram => .ok (.assertion "nil program")
  | noCode node pos =>
    .ok (.failure ("cannot generate code for " ++ nodeText node ++ " at " ++ pos.render))
  | variableStorage name kind =>
    .ok (.assertion ("variable " ++ name ++ " has " ++ kind.name ++ " storage"))
  | constantStorage name kind =>
    .ok (.assertion ("constant " ++ name ++ " has " ++ kind.name ++ " storage"))
  | noStorage name pos => .ok (.assertion (name ++ " at " ++ pos.render ++ " has no storage"))
  | unresolved name pos =>
    .ok (.assertion ("identifier " ++ name ++ " at " ++ pos.render ++ " is unresolved"))
  | notEntity name pos node =>
    .ok (.assertion ("identifier " ++ name ++ " at " ++ pos.render ++ " resolves to "
      ++ nodeText node ++ ", not an entity"))
  | loadStorage name pos kind =>
    .ok (.failure ("identifier " ++ name ++ " at " ++ pos.render ++ " has invalid storage "
      ++ kind.name))
  | assignStorage name pos kind =>
    .ok (.assertion ("assignment to " ++ name ++ " at " ++ pos.render ++ " with " ++ kind.name
      ++ " storage"))
  | varParamStorage name pos kind =>
    .ok (.assertion ("var parameter " ++ name ++ " at " ++ pos.render ++ " with " ++ kind.name
      ++ " storage"))
  | untyped node pos =>
    .ok (.assertion ("expression " ++ nodeText node ++ " at " ++ pos.render ++ " is untyped"))
  | literalRange spelling pos =>
    .ok (.assertion ("integer literal " ++ spelling ++ " at " ++ pos.render))
  | operatorUnresolved symbol pos =>
    .ok (.assertion ("operator " ++ symbol ++ " at " ++ pos.render ++ " is unresolved"))
  | callUnresolved name pos =>
    .ok (.assertion ("call of " ++ name ++ " at " ++ pos.render ++ " is unresolved"))
  | malformed literal => .error literal

end Fault

end Generate

end TriangleTam
