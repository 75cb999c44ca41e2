import TriangleTam.Tree

/-!
# Changing the parts of a tree

A tree is gone through in the order of the text, and its names, literals and annotations are
replaced on the way. A visitor says what becomes of each sort of part; what it does not mention
stays as it is.
-/

namespace TriangleTam

/-- What becomes of the parts of a tree. -/
structure Visitor (m : Type → Type) [Monad m] where
  ident : Ident → m Ident := pure
  op : OpName → m OpName := pure
  intLit : Literal → m Literal := pure
  charLit : Literal → m Literal := pure
  /-- The type noted on an expression. -/
  ty : Option Ty → m (Option Ty) := pure
  /-- The storage noted on the declaration at a position. -/
  storage : Pos → Option Storage → m (Option Storage) := fun _ s => pure s
  /-- The declaration of a `let`, before it is gone through. -/
  letDecl : Decl → m Decl := pure

variable {m : Type → Type} [Monad m]

mutual

/-- Goes through an expression. -/
def Expr.traverse (v : Visitor m) : Expr → m Expr
  | .int pos ty lit => do
    let ty ← v.ty ty
    let lit ← v.intLit lit
    return .int pos ty lit
  | .char pos ty lit => do
    let ty ← v.ty ty
    let lit ← v.charLit lit
    return .char pos ty lit
  | .name pos ty id => do
    let ty ← v.ty ty
    let id ← v.ident id
    return .name pos ty id
  | .unary pos ty op x => do
    let ty ← v.ty ty
    let op ← v.op op
    let x ← x.traverse v
    return .unary pos ty op x
  | .binary pos ty x op y => do
    let ty ← v.ty ty
    let x ← x.traverse v
    let op ← v.op op
    let y ← y.traverse v
    return .binary pos ty x op y
  | .call pos ty callee arg => do
    let ty ← v.ty ty
    let callee ← v.ident callee
    let arg ← arg.traverse v
    return .call pos ty callee arg
  | .bad pos ty => do
    let ty ← v.ty ty
    return .bad pos ty

/-- Goes through an actual parameter. -/
def Arg.traverse (v : Visitor m) : Arg → m Arg
  | .value pos x => do
    let x ← x.traverse v
    return .value pos x
  | .var pos id => do
    let id ← v.ident id
    return .var pos id
  | .blank pos => pure (.blank pos)
  | .bad pos => pure (.bad pos)

end

mutual

/-- Goes through a declaration. -/
def Decl.traverse (v : Visitor m) : Decl → m Decl
  | .const pos ty storage name value => do
    let storage ← v.storage pos storage
    let name ← v.ident name
    let value ← value.traverse v
    return .const pos ty storage name value
  | .var pos ty storage name typeName => do
    let storage ← v.storage pos storage
    let name ← v.ident name
    let typeName ← v.ident typeName
    return .var pos ty storage name typeName
  | .seq pos ds => do
    let ds ← Decl.traverseAll v ds
    return .seq pos ds
  | .bad pos => pure (.bad pos)
  | .builtin b => pure (.builtin b)

/-- Goes through declarations one after the other. -/
def Decl.traverseAll (v : Visitor m) : List Decl → m (List Decl)
  | [] => pure []
  | d :: ds => do
    let d ← d.traverse v
    let ds ← Decl.traverseAll v ds
    return d :: ds

end

mutual

/-- Goes through a command. -/
def Cmd.traverse (v : Visitor m) : Cmd → m Cmd
  | .assign pos target value => do
    let target ← v.ident target
    let value ← value.traverse v
    return .assign pos target value
  | .call pos callee arg => do
    let callee ← v.ident callee
    let arg ← arg.traverse v
    return .call pos callee arg
  | .seq pos cs => do
    let cs ← Cmd.traverseAll v cs
    return .seq pos cs
  | .block pos body close => do
    let body ← body.traverse v
    return .block pos body close
  | .ifElse pos cond yes no => do
    let cond ← cond.traverse v
    let yes ← yes.traverse v
    let no ← no.traverse v
    return .ifElse pos cond yes no
  | .ifEither pos cond alt yes no => do
    let cond ← cond.traverse v
    let alt ← alt.traverse v
    let yes ← yes.traverse v
    let no ← no.traverse v
    return .ifEither pos cond alt yes no
  | .whileDo pos cond body => do
    let cond ← cond.traverse v
    let body ← body.traverse v
    return .whileDo pos cond body
  | .letIn pos d body => do
    let d ← v.letDecl d
    let d ← d.traverse v
    let body ← body.traverse v
    return .letIn pos d body
  | .skip pos explicit => pure (.skip pos explicit)
  | .bad pos => pure (.bad pos)

/-- Goes through commands one after the other. -/
def Cmd.traverseAll (v : Visitor m) : List Cmd → m (List Cmd)
  | [] => pure []
  | c :: cs => do
    let c ← c.traverse v
    let cs ← Cmd.traverseAll v cs
    return c :: cs

end

/-- Goes through a program. -/
def Program.traverse (v : Visitor m) (p : Program) : m Program := do
  let body ← p.body.traverse v
  return ⟨p.pos, body⟩

/-- The storage of a meaning replaced, if it is the entity declared at `pos`. -/
def Meaning.restore (pos : Pos) (storage : Option Storage) : Meaning → Meaning
  | .builtin b => .builtin b
  | .entity e => if e.pos = pos then .entity { e with storage := storage } else .entity e

/-- The program with the storage of the entity declared at `pos` replaced by what `f` makes of it,
on the declaration and on all names that mean it. -/
def Program.changeStorage (pos : Pos) (f : Option Storage → Option Storage) (p : Program) :
    Program :=
  let change (m : Meaning) : Meaning := m.restore pos (f m.storage?)
  p.traverse (m := Id)
    { ident := fun id => { id with meaning := id.meaning.map change }
      storage := fun at_ s => if at_ = pos then f s else s }

end TriangleTam
