import TriangleTam.Meaning

/-!
# Syntax trees

The tree of a program has commands, declarations, expressions and actual parameters. Every node
knows the position of its first token. Checking a program fills in what is left open here: the
meaning of names and operators, the types of expressions, and the type and storage of declared
entities. A part that could not be parsed is a `bad` node.
-/

namespace TriangleTam

/-- An occurrence of an identifier. A missing identifier has an empty name. -/
structure Ident where
  pos : Pos
  name : String
  meaning : Option Meaning := none
deriving DecidableEq, Repr

/-- An occurrence of an operator. -/
structure OpName where
  pos : Pos
  symbol : String
  meaning : Option Meaning := none
deriving DecidableEq, Repr

/-- The spelling of a literal; that of a character literal includes the quotes. -/
structure Literal where
  pos : Pos
  spelling : String
deriving DecidableEq, Repr

mutual

/-- An expression, with its type once it is checked. -/
inductive Expr where
  | int (pos : Pos) (ty : Option Ty) (lit : Literal)
  | char (pos : Pos) (ty : Option Ty) (lit : Literal)
  | name (pos : Pos) (ty : Option Ty) (id : Ident)
  | unary (pos : Pos) (ty : Option Ty) (op : OpName) (x : Expr)
  | binary (pos : Pos) (ty : Option Ty) (x : Expr) (op : OpName) (y : Expr)
  | call (pos : Pos) (ty : Option Ty) (callee : Ident) (arg : Arg)
  | bad (pos : Pos) (ty : Option Ty)

/-- The actual parameter of a call. -/
inductive Arg where
  /-- The value of an expression. -/
  | value (pos : Pos) (x : Expr)
  /-- A variable itself. -/
  | var (pos : Pos) (id : Ident)
  /-- Nothing. -/
  | blank (pos : Pos)
  | bad (pos : Pos)

end

/-- A declaration. Those of the standard environment do not come from a program text. -/
inductive Decl where
  | const (pos : Pos) (ty : Option Ty) (storage : Option Storage) (name : Ident) (value : Expr)
  | var (pos : Pos) (ty : Option Ty) (storage : Option Storage) (name typeName : Ident)
  | seq (pos : Pos) (decls : List Decl)
  | bad (pos : Pos)
  | builtin (b : Builtin)

/-- A command. -/
inductive Cmd where
  | assign (pos : Pos) (target : Ident) (value : Expr)
  | call (pos : Pos) (callee : Ident) (arg : Arg)
  | seq (pos : Pos) (cmds : List Cmd)
  /-- A command in braces; `close` is the position of the closing brace. -/
  | block (pos : Pos) (body : Cmd) (close : Pos)
  | ifElse (pos : Pos) (cond : Expr) (yes no : Cmd)
  /-- The second condition counts only if the first does not hold. -/
  | ifEither (pos : Pos) (cond alt : Expr) (yes no : Cmd)
  | whileDo (pos : Pos) (cond : Expr) (body : Cmd)
  | letIn (pos : Pos) (decl : Decl) (body : Cmd)
  /-- The empty command, which is written `pass` if it is explicit. -/
  | skip (pos : Pos) (explicit : Bool)
  | bad (pos : Pos)

/-- A whole program. -/
structure Program where
  pos : Pos
  body : Cmd

namespace Expr

/-- Where the expression starts. -/
def pos : Expr → Pos
  | int pos _ _ | char pos _ _ | name pos _ _ | unary pos _ _ _ | binary pos _ _ _ _
  | call pos _ _ _ | bad pos _ => pos

/-- The type found by checking. -/
def ty : Expr → Option Ty
  | int _ ty _ | char _ ty _ | name _ ty _ | unary _ ty _ _ | binary _ ty _ _ _ | call _ ty _ _
  | bad _ ty => ty

/-- The expression with its type replaced. -/
def withTy (t : Option Ty) : Expr → Expr
  | int pos _ lit => int pos t lit
  | char pos _ lit => char pos t lit
  | name pos _ id => name pos t id
  | unary pos _ op x => unary pos t op x
  | binary pos _ x op y => binary pos t x op y
  | call pos _ callee arg => call pos t callee arg
  | bad pos _ => bad pos t

/-- The sort of node it is. -/
def nodeName : Expr → String
  | int .. => "IntExpr"
  | char .. => "CharExpr"
  | name .. => "IdExpr"
  | unary .. => "UnaryExpr"
  | binary .. => "BinaryExpr"
  | call .. => "CallExpr"
  | bad .. => "BadExpr"

@[simp] theorem ty_withTy (t : Option Ty) (e : Expr) : (e.withTy t).ty = t := by
  cases e <;> rfl

@[simp] theorem pos_withTy (t : Option Ty) (e : Expr) : (e.withTy t).pos = e.pos := by
  cases e <;> rfl

end Expr

namespace Arg

/-- Where the parameter starts. -/
def pos : Arg → Pos
  | value pos _ | var pos _ | blank pos | bad pos => pos

/-- The sort of node it is. -/
def nodeName : Arg → String
  | value .. => "ExprParam"
  | var .. => "VarParam"
  | blank .. => "BlankParam"
  | bad .. => "BadParam"

end Arg

namespace Builtin

/-- The sort of node a built-in declaration is. -/
def nodeName : Builtin → String
  | type .. => "TypeDecl"
  | const .. => "BuiltinConstDecl"
  | unary .. => "UnaryOpDecl"
  | binary .. => "BinaryOpDecl"
  | func .. => "FuncDecl"

end Builtin

namespace Decl

/-- Where the declaration starts. -/
def pos : Decl → Pos
  | const pos .. | var pos .. | seq pos _ | bad pos => pos
  | builtin _ => Pos.none

/-- The sort of node it is. -/
def nodeName : Decl → String
  | const .. => "ConstDecl"
  | var .. => "VarDecl"
  | seq .. => "SeqDecl"
  | bad .. => "BadDecl"
  | builtin b => b.nodeName

end Decl

namespace Cmd

/-- Where the command starts. -/
def pos : Cmd → Pos
  | assign pos .. | call pos .. | seq pos _ | block pos .. | ifElse pos .. | ifEither pos ..
  | whileDo pos .. | letIn pos .. | skip pos _ | bad pos => pos

/-- The sort of node it is. -/
def nodeName : Cmd → String
  | assign .. => "AssignCmd"
  | call .. => "CallCmd"
  | seq .. => "SeqCmd"
  | block .. => "BlockCmd"
  | ifElse .. => "IfCmd"
  | ifEither .. => "IfEitherCmd"
  | whileDo .. => "WhileCmd"
  | letIn .. => "LetCmd"
  | skip .. => "SkipCmd"
  | bad .. => "BadCmd"

end Cmd

/-- A node of a syntax tree. -/
inductive Node where
  | program (p : Program)
  | cmd (c : Cmd)
  | decl (d : Decl)
  | expr (e : Expr)
  | arg (a : Arg)
  | ident (i : Ident)
  | op (o : OpName)
  | intLit (l : Literal)
  | charLit (l : Literal)

namespace Node

/-- Where the node starts. -/
def pos : Node → Pos
  | program p => p.pos
  | cmd c => c.pos
  | decl d => d.pos
  | expr e => e.pos
  | arg a => a.pos
  | ident i => i.pos
  | op o => o.pos
  | intLit l | charLit l => l.pos

/-- The sort of node it is. -/
def name : Node → String
  | program _ => "Program"
  | cmd c => c.nodeName
  | decl d => d.nodeName
  | expr e => e.nodeName
  | arg a => a.nodeName
  | ident _ => "Ident"
  | op _ => "OpName"
  | intLit _ => "IntLit"
  | charLit _ => "CharLit"

end Node

end TriangleTam
