import TriangleTam.Tree

/-!
# Walking a tree

The nodes of a tree in the order in which they stand in the text, each before what is inside it.
What a name means is not inside the name. A walk may leave out what is inside some of the nodes.
-/

namespace TriangleTam

mutual

/-- The nodes of an expression. The inside of a node is left out unless `enter` holds of it. -/
def Expr.walk (enter : Node → Bool) (e : Expr) : List Node :=
  .expr e :: if !enter (.expr e) then [] else
    match e with
    | .int _ _ lit => [.intLit lit]
    | .char _ _ lit => [.charLit lit]
    | .name _ _ id => [.ident id]
    | .unary _ _ op x => .op op :: x.walk enter
    | .binary _ _ x op y => x.walk enter ++ .op op :: y.walk enter
    | .call _ _ callee arg => .ident callee :: arg.walk enter
    | .bad .. => []

/-- The nodes of an actual parameter. -/
def Arg.walk (enter : Node → Bool) (a : Arg) : List Node :=
  .arg a :: if !enter (.arg a) then [] else
    match a with
    | .value _ x => x.walk enter
    | .var _ id => [.ident id]
    | .blank _ | .bad _ => []

end

mutual

/-- The nodes of a declaration. -/
def Decl.walk (enter : Node → Bool) (d : Decl) : List Node :=
  .decl d :: if !enter (.decl d) then [] else
    match d with
    | .const _ _ _ name value => .ident name :: value.walk enter
    | .var _ _ _ name typeName => [.ident name, .ident typeName]
    | .seq _ decls => Decl.walkAll enter decls
    | .bad _ | .builtin _ => []

/-- The nodes of declarations one after the other. -/
def Decl.walkAll (enter : Node → Bool) : List Decl → List Node
  | [] => []
  | d :: ds => d.walk enter ++ Decl.walkAll enter ds

end

mutual

/-- The nodes of a command. -/
def Cmd.walk (enter : Node → Bool) (c : Cmd) : List Node :=
  .cmd c :: if !enter (.cmd c) then [] else
    match c with
    | .assign _ target value => .ident target :: value.walk enter
    | .call _ callee arg => .ident callee :: arg.walk enter
    | .seq _ cmds => Cmd.walkAll enter cmds
    | .block _ body _ => body.walk enter
    | .ifElse _ cond yes no => cond.walk enter ++ yes.walk enter ++ no.walk enter
    | .ifEither _ cond alt yes no =>
      cond.walk enter ++ alt.walk enter ++ yes.walk enter ++ no.walk enter
    | .whileDo _ cond body => cond.walk enter ++ body.walk enter
    | .letIn _ decl body => decl.walk enter ++ body.walk enter
    | .skip .. | .bad _ => []

/-- The nodes of commands one after the other. -/
def Cmd.walkAll (enter : Node → Bool) : List Cmd → List Node
  | [] => []
  | c :: cs => c.walk enter ++ Cmd.walkAll enter cs

end

/-- The nodes of a program. -/
def Program.walk (enter : Node → Bool) (p : Program) : List Node :=
  .program p :: if enter (.program p) then p.body.walk enter else []

/-- Every node of a program. -/
def Program.nodes (p : Program) : List Node :=
  p.walk fun _ => true

/-- A walk of a program that does not enter nodes of the sorts named in `closed`, as lines with
the sort and the position of each node. -/
def Program.walkLines (p : Program) (closed : List String) : List String :=
  (p.walk fun n => !closed.contains n.name).map fun n => n.name ++ " " ++ n.pos.render

/-- The positions of the closing braces of all blocks. -/
def Program.closePositions (p : Program) : List Pos :=
  p.nodes.filterMap fun
    | .cmd (.block _ _ close) => some close
    | _ => none

end TriangleTam
