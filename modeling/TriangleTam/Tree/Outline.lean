import TriangleTam.Text.Quoted
import TriangleTam.Tree

/-!
# Outlines

The outline of a tree has a line for each node, two blanks further in than the node it belongs to.
A line shows the sort of the node, its position, and its name, operator or literal; types and
storage are shown once they are known.
-/

namespace TriangleTam

namespace Outline

/-- A line of an outline. -/
def line (depth : Nat) (text : String) : String :=
  String.join (List.replicate depth "  ") ++ text ++ "\n"

/-- A label and, further in, what it stands for. -/
def labelled (depth : Nat) (label : String) (content : Nat → String) : String :=
  line depth (label ++ ":") ++ content (depth + 1)

/-- How a type is shown behind what has it. -/
def tySuffix : Option Ty → String
  | some t => " : " ++ t.name
  | none => ""

/-- How the type and storage of an entity are shown behind its declaration. -/
def entitySuffix (ty : Option Ty) (storage : Option Storage) : String :=
  tySuffix ty ++
    match storage with
    | some s => " @ " ++ s.render
    | none => ""

end Outline

open Outline

mutual

/-- The outline of an expression. -/
def Expr.outline (depth : Nat) : Expr → String
  | .int pos ty lit => line depth ("IntExpr " ++ pos.render ++ " " ++ lit.spelling ++ tySuffix ty)
  | .char pos ty lit => line depth ("CharExpr " ++ pos.render ++ " " ++ lit.spelling ++ tySuffix ty)
  | .name pos ty id => line depth ("IdExpr " ++ pos.render ++ " " ++ id.name ++ tySuffix ty)
  | .unary pos ty op x =>
    line depth ("UnaryExpr " ++ pos.render ++ " " ++ op.symbol ++ tySuffix ty)
      ++ x.outline (depth + 1)
  | .binary pos ty x op y =>
    line depth ("BinaryExpr " ++ pos.render ++ " " ++ op.symbol ++ tySuffix ty)
      ++ x.outline (depth + 1) ++ y.outline (depth + 1)
  | .call pos ty callee arg =>
    line depth ("CallExpr " ++ pos.render ++ " " ++ callee.name ++ tySuffix ty)
      ++ arg.outline (depth + 1)
  | .bad pos ty => line depth ("BadExpr " ++ pos.render ++ tySuffix ty)

/-- The outline of an actual parameter. -/
def Arg.outline (depth : Nat) : Arg → String
  | .value pos x => line depth ("ExprParam " ++ pos.render) ++ x.outline (depth + 1)
  | .var pos id => line depth ("VarParam " ++ pos.render ++ " " ++ id.name)
  | .blank pos => line depth ("BlankParam " ++ pos.render)
  | .bad pos => line depth ("BadParam " ++ pos.render)

end

/-- The outline of a built-in declaration, which has no position. -/
def Builtin.outline (depth : Nat) (b : Builtin) : String :=
  line depth (b.nodeName ++ " " ++
    match b with
    | .type t => t.name
    | .const name ty _ => name ++ entitySuffix (some ty) b.storage?
    | .unary op operand result _ => op ++ " " ++ operand.name ++ " -> " ++ result.name
    | .binary op left right result _ =>
      op ++ " " ++ left.name ++ " " ++ right.name ++ " -> " ++ result.name
    | .func name params result _ =>
      name ++ "(" ++ Signature.describeParams (params.map fun p => (some p.ty, p.byRef)) ++ ") -> "
        ++ result.name)

mutual

/-- The outline of a declaration. -/
def Decl.outline (depth : Nat) : Decl → String
  | .const pos ty storage name value =>
    line depth ("ConstDecl " ++ pos.render ++ " " ++ name.name ++ entitySuffix ty storage)
      ++ value.outline (depth + 1)
  | .var pos ty storage name typeName =>
    line depth ("VarDecl " ++ pos.render ++ " " ++ name.name ++ " " ++ typeName.name
      ++ entitySuffix ty storage)
  | .seq pos decls => line depth ("SeqDecl " ++ pos.render) ++ Decl.outlineAll (depth + 1) decls
  | .bad pos => line depth ("BadDecl " ++ pos.render)
  | .builtin b => b.outline depth

/-- The outlines of declarations one after the other. -/
def Decl.outlineAll (depth : Nat) : List Decl → String
  | [] => ""
  | d :: ds => d.outline depth ++ Decl.outlineAll depth ds

end

mutual

/-- The outline of a command. -/
def Cmd.outline (depth : Nat) : Cmd → String
  | .assign pos target value =>
    line depth ("AssignCmd " ++ pos.render ++ " " ++ target.name) ++ value.outline (depth + 1)
  | .call pos callee arg =>
    line depth ("CallCmd " ++ pos.render ++ " " ++ callee.name) ++ arg.outline (depth + 1)
  | .seq pos cmds => line depth ("SeqCmd " ++ pos.render) ++ Cmd.outlineAll (depth + 1) cmds
  | .block pos body _ => line depth ("BlockCmd " ++ pos.render) ++ body.outline (depth + 1)
  | .ifElse pos cond yes no =>
    line depth ("IfCmd " ++ pos.render)
      ++ labelled (depth + 1) "Cond" (fun d => cond.outline d)
      ++ labelled (depth + 1) "Then" (fun d => yes.outline d)
      ++ labelled (depth + 1) "Else" (fun d => no.outline d)
  | .ifEither pos cond alt yes no =>
    line depth ("IfEitherCmd " ++ pos.render)
      ++ labelled (depth + 1) "Cond" (fun d => cond.outline d)
      ++ labelled (depth + 1) "Or" (fun d => alt.outline d)
      ++ labelled (depth + 1) "Then" (fun d => yes.outline d)
      ++ labelled (depth + 1) "Else" (fun d => no.outline d)
  | .whileDo pos cond body =>
    line depth ("WhileCmd " ++ pos.render)
      ++ labelled (depth + 1) "Cond" (fun d => cond.outline d)
      ++ labelled (depth + 1) "Body" (fun d => body.outline d)
  | .letIn pos decl body =>
    line depth ("LetCmd " ++ pos.render)
      ++ labelled (depth + 1) "Decl" (fun d => decl.outline d)
      ++ labelled (depth + 1) "Body" (fun d => body.outline d)
  | .skip pos explicit =>
    line depth ("SkipCmd " ++ pos.render ++ if explicit then " pass" else "")
  | .bad pos => line depth ("BadCmd " ++ pos.render)

/-- The outlines of commands one after the other. -/
def Cmd.outlineAll (depth : Nat) : List Cmd → String
  | [] => ""
  | c :: cs => c.outline depth ++ Cmd.outlineAll depth cs

end

/-- The outline of a program. -/
def Program.outline (p : Program) : String :=
  line 0 ("Program " ++ p.pos.render) ++ p.body.outline 1

/-- The outline of a node on its own. -/
def Node.outline : Node → String
  | .program p => p.outline
  | .cmd c => c.outline 0
  | .decl d => d.outline 0
  | .expr e => e.outline 0
  | .arg a => a.outline 0
  | .ident i => line 0 ("Ident " ++ i.pos.render ++ " " ++ Text.quoted i.name)
  | .op o => line 0 ("OpName " ++ o.pos.render ++ " " ++ o.symbol)
  | .intLit l => line 0 ("IntLit " ++ l.pos.render ++ " " ++ l.spelling)
  | .charLit l => line 0 ("CharLit " ++ l.pos.render ++ " " ++ l.spelling)

end TriangleTam
