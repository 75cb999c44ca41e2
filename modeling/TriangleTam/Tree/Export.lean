import TriangleTam.Data
import TriangleTam.Tree

/-!
# Trees as data

A node becomes a record with its sort, its position, its names and literals as text, and its parts.
Types and storage are there once they are known. What has no record of its own, such as a name or
a built-in declaration, is exported as unknown.
-/

namespace TriangleTam

namespace Export

/-- The fields of every record: the sort of node and where it is. -/
def basic (sort : String) (pos : Pos) : List (String × Data) :=
  [("type", .text sort), ("pos", .text pos.render)]

/-- The field for a type, if it is known. -/
def tyField : Option Ty → List (String × Data)
  | some t => [("typ", .text t.name)]
  | none => []

/-- The storage of an entity as a record. -/
def storageData (s : Storage) : Data :=
  .ofFields [("kind", .text s.kind.name), ("level", .int s.level), ("offset", .int s.offset),
    ("size", .int s.size), ("value", .int s.value)]

/-- The fields for the type and storage of an entity, if they are known. -/
def entityFields (ty : Option Ty) (storage : Option Storage) : List (String × Data) :=
  tyField ty ++
    match storage with
    | some s => [("storage", storageData s)]
    | none => []

/-- What has no record of its own. -/
def unknown : Data :=
  .ofFields [("type", .text "Unknown")]

end Export

open Export

mutual

/-- An expression as data. -/
def Expr.toData : Expr → Data
  | .int pos ty lit =>
    .ofFields (basic "IntExpr" pos ++ [("value", .text lit.spelling)] ++ tyField ty)
  | .char pos ty lit =>
    .ofFields (basic "CharExpr" pos ++ [("value", .text lit.spelling)] ++ tyField ty)
  | .name pos ty id => .ofFields (basic "IdExpr" pos ++ [("name", .text id.name)] ++ tyField ty)
  | .unary pos ty op x =>
    .ofFields (basic "UnaryExpr" pos ++ [("op", .text op.symbol), ("x", x.toData)] ++ tyField ty)
  | .binary pos ty x op y =>
    .ofFields (basic "BinaryExpr" pos
      ++ [("op", .text op.symbol), ("x", x.toData), ("y", y.toData)] ++ tyField ty)
  | .call pos ty callee arg =>
    .ofFields (basic "CallExpr" pos ++ [("name", .text callee.name), ("arg", arg.toData)]
      ++ tyField ty)
  | .bad pos ty => .ofFields (basic "BadExpr" pos ++ tyField ty)

/-- An actual parameter as data. -/
def Arg.toData : Arg → Data
  | .value pos x => .ofFields (basic "ExprParam" pos ++ [("x", x.toData)])
  | .var pos id => .ofFields (basic "VarParam" pos ++ [("name", .text id.name)])
  | .blank pos => .ofFields (basic "BlankParam" pos)
  | .bad pos => .ofFields (basic "BadParam" pos)

end

mutual

/-- A declaration as data. -/
def Decl.toData : Decl → Data
  | .const pos ty storage name value =>
    .ofFields (basic "ConstDecl" pos ++ [("name", .text name.name), ("value", value.toData)]
      ++ entityFields ty storage)
  | .var pos ty storage name typeName =>
    .ofFields (basic "VarDecl" pos
      ++ [("name", .text name.name), ("vartype", .text typeName.name)] ++ entityFields ty storage)
  | .seq pos decls => .ofFields (basic "SeqDecl" pos ++ [("list", .list (Decl.toDataAll decls))])
  | .bad pos => .ofFields (basic "BadDecl" pos)
  | .builtin _ => unknown

/-- Declarations as data, one after the other. -/
def Decl.toDataAll : List Decl → List Data
  | [] => []
  | d :: ds => d.toData :: Decl.toDataAll ds

end

mutual

/-- A command as data. -/
def Cmd.toData : Cmd → Data
  | .assign pos target value =>
    .ofFields (basic "AssignCmd" pos ++ [("name", .text target.name), ("value", value.toData)])
  | .call pos callee arg =>
    .ofFields (basic "CallCmd" pos ++ [("name", .text callee.name), ("arg", arg.toData)])
  | .seq pos cmds => .ofFields (basic "SeqCmd" pos ++ [("list", .list (Cmd.toDataAll cmds))])
  | .block pos body _ => .ofFields (basic "BlockCmd" pos ++ [("body", body.toData)])
  | .ifElse pos cond yes no =>
    .ofFields (basic "IfCmd" pos
      ++ [("cond", cond.toData), ("then", yes.toData), ("else", no.toData)])
  | .ifEither pos cond alt yes no =>
    .ofFields (basic "IfEitherCmd" pos
      ++ [("cond", cond.toData), ("or", alt.toData), ("then", yes.toData), ("else", no.toData)])
  | .whileDo pos cond body =>
    .ofFields (basic "WhileCmd" pos ++ [("cond", cond.toData), ("body", body.toData)])
  | .letIn pos decl body =>
    .ofFields (basic "LetCmd" pos ++ [("decl", decl.toData), ("body", body.toData)])
  | .skip pos explicit => .ofFields (basic "SkipCmd" pos ++ [("explicit", .bool explicit)])
  | .bad pos => .ofFields (basic "BadCmd" pos)

/-- Commands as data, one after the other. -/
def Cmd.toDataAll : List Cmd → List Data
  | [] => []
  | c :: cs => c.toData :: Cmd.toDataAll cs

end

/-- A program as data. -/
def Program.toData (p : Program) : Data :=
  .ofFields (basic "Program" p.pos ++ [("cmd", p.body.toData)])

/-- A node as data. -/
def Node.toData : Node → Data
  | .program p => p.toData
  | .cmd c => c.toData
  | .decl d => d.toData
  | .expr e => e.toData
  | .arg a => a.toData
  | .ident _ | .op _ | .intLit _ | .charLit _ => unknown

end TriangleTam
