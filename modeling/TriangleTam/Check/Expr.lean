import TriangleTam.Check.Basic
import TriangleTam.Tree.Value

/-!
# Checking expressions

Every expression gets a type. What is wrong gets the type `any`, so that nothing is reported about
what it stands in.
-/

namespace TriangleTam.Check

open Checked (report reportIf)

/-- How an expression without a value is called: by the name of the routine. -/
def calleeName : Expr → String
  | .call _ _ callee _ => callee.name
  | _ => "expression"

/-- The type of a checked expression that has to have a value. -/
def needValue (x : Expr) : Checked Ty :=
  match x.ty with
  | some .void => do
    report x.pos (.noValue (calleeName x))
    return .any
  | some t => pure t
  | none => pure .any

/-- A formal parameter, with the name of its routine. -/
structure Expected where
  routine : String
  formal : Formal

/-- Looks up the routine that is called: the name with its meaning, the formal parameter to compare
the actual one with, and the type of the call. -/
def routine (env : Env) (callee : Ident) (blank : Bool) :
    Checked (Ident × Option Expected × Ty) := do
  let (callee, m) ← env.resolve callee
  match m with
  | none => return (callee, none, .any)
  | some (.builtin (.func name params result _)) =>
    let found := if blank then 0 else 1
    if found = params.length then
      return (callee, params.head?.map (⟨name, ·⟩), result)
    else
      report callee.pos (.argCount name found params.length)
      return (callee, none, result)
  | some m =>
    report callee.pos (.notRoutine callee.name (sortOf m))
    return (callee, none, .any)

/-- Compares the type of an actual parameter with the formal one. -/
def argType (pos : Pos) (found : Ty) : Option Expected → Checked Unit
  | some e => reportIf (!e.formal.ty.accepts found) pos (.argType found e.formal.ty)
  | none => pure ()

/-- Whether the parameter is nothing at all. -/
def isBlank : Arg → Bool
  | .blank _ => true
  | _ => false

/-- Checks a variable that is passed itself. -/
def varArg (env : Env) (expected : Option Expected) (pos : Pos) (id : Ident) : Checked Arg := do
  let (id, m) ← env.resolve id
  match m with
  | none => pure ()
  | some m =>
    if m.isVariable then argType pos (m.valueTy?.getD .any) expected
    else report id.pos (.argNotVariable id.name (sortOf m))
  match expected with
  | some e => reportIf (!e.formal.byRef) pos (.wantsValue e.routine)
  | none => pure ()
  return .var pos id

/-- The type of a name used as an expression. -/
def nameType (pos : Pos) (id : Ident) : Option Meaning → Checked Ty
  | none => pure .any
  | some m =>
    match m.valueTy? with
    | some t => pure t
    | none => do
      report pos (.notValue id.name (sortOf m))
      return .any

/-- The type of an operator applied to one operand, and the operator with its meaning. -/
def applyUnary (env : Env) (op : OpName) (xPos : Pos) (t : Ty) : Checked (OpName × Ty) :=
  match env.lookup? op.symbol with
  | some (.builtin (.unary symbol operand result prim)) => do
    reportIf (!operand.accepts t) xPos (.operand symbol t operand)
    return ({ op with meaning := some (.builtin (.unary symbol operand result prim)) }, result)
  | _ => do
    report op.pos (.notUnary op.symbol)
    return (op, .any)

/-- The type of an operator between two operands, and the operator with its meaning. An operator
on operands of any type wants both to have the same. -/
def applyBinary (env : Env) (op : OpName) (xPos yPos : Pos) (s t : Ty) : Checked (OpName × Ty) :=
  match env.lookup? op.symbol with
  | some (.builtin (.binary symbol left right result prim)) => do
    if left = .any ∧ right = .any then
      reportIf (!s.accepts t) op.pos (.operandsDiffer symbol s t)
    else
      reportIf (!left.accepts s) xPos (.leftOperand symbol s left)
      reportIf (!right.accepts t) yPos (.rightOperand symbol t right)
    return ({ op with meaning := some (.builtin (.binary symbol left right result prim)) }, result)
  | _ => do
    report op.pos (.notBinary op.symbol)
    return (op, .any)

mutual

/-- Checks an expression. -/
def expr (env : Env) : Expr → Checked Expr
  | .bad pos _ => pure (.bad pos (some .any))
  | .int pos _ lit => do
    reportIf lit.intValue?.isNone pos (.literalRange lit.spelling)
    return .int pos (some .integer) lit
  | .char pos _ lit => pure (.char pos (some .char) lit)
  | .name pos _ id => do
    let (id, m) ← env.resolve id
    let t ← nameType pos id m
    return .name pos (some t) id
  | .unary pos _ op x => do
    let x ← expr env x
    let t ← needValue x
    let (op, result) ← applyUnary env op x.pos t
    return .unary pos (some result) op x
  | .binary pos _ x op y => do
    let x ← expr env x
    let s ← needValue x
    let y ← expr env y
    let t ← needValue y
    let (op, result) ← applyBinary env op x.pos y.pos s t
    return .binary pos (some result) x op y
  | .call pos _ callee a => do
    let (callee, expected, result) ← routine env callee (isBlank a)
    let a ← arg env expected a
    return .call pos (some result) callee a

/-- Checks an actual parameter, against a formal one if there is one to compare it with. -/
def arg (env : Env) (expected : Option Expected) : Arg → Checked Arg
  | .value pos x => do
    let x ← expr env x
    let t ← needValue x
    argType pos t expected
    match expected with
    | some e => reportIf e.formal.byRef pos (.wantsVariable e.routine)
    | none => pure ()
    return .value pos x
  | .var pos id => varArg env expected pos id
  | .blank pos => pure (.blank pos)
  | .bad pos => pure (.bad pos)

end

/-- Checks an expression that has to have a value, and gives its type too. -/
def value (env : Env) (x : Expr) : Checked (Expr × Ty) := do
  let x ← expr env x
  let t ← needValue x
  return (x, t)

end TriangleTam.Check
