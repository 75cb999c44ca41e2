import TriangleTam.Proofs.Platform
import TriangleTam.Tree.Value

/-!
# The meaning of programs

What running a program does, told without its code. Expressions are evaluated strictly and from
left to right, and commands change a store of the constants and variables declared around them.
`Exec` is about commands that come to an end, and `Program.Runs` about whole programs.
-/

namespace TriangleTam

namespace Semantics

/-- A value of the language; a character is given by its code. -/
inductive Value where
  | int (n : Int)
  | char (code : Int)
  | bool (b : Bool)
deriving DecidableEq, Repr

/-- The type of a value. -/
def Value.ty : Value → Ty
  | int _ => .integer
  | char _ => .char
  | bool _ => .boolean

/-- The constants and variables declared around a place with their values, innermost first. -/
abbrev Store := List (String × Value)

namespace Store

/-- The value of a name; what is not declared may be a constant of the standard environment. -/
def value? (σ : Store) (name : String) : Option Value :=
  match σ.lookup name with
  | some v => some v
  | none =>
    match name with
    | "true" => some (.bool true)
    | "false" => some (.bool false)
    | _ => none

/-- Gives a value to the innermost variable with a name. -/
def assign : Store → String → Value → Store
  | [], _, _ => []
  | (n, u) :: σ, name, v => if n = name then (n, v) :: σ else (n, u) :: assign σ name v

end Store

/-- The value variables of a type start with. -/
def initial? : String → Option Value
  | "integer" => some (.int 0)
  | "char" => some (.char 0)
  | "boolean" => some (.bool false)
  | _ => none

/-- The value of an operator on one operand. -/
def applyUnary : String → Value → Option Value
  | "\\", .bool b => some (.bool !b)
  | _, _ => none

section Platform

variable {ι ω : Type} (P : Platform ι ω)

/-- The value of an operator on two operands. -/
def applyBinary : String → Value → Value → Option Value
  | "+", .int a, .int b => (P.add a b).map .int
  | "-", .int a, .int b => (P.sub a b).map .int
  | "*", .int a, .int b => (P.mult a b).map .int
  | "/", .int a, .int b => (P.div a b).map .int
  | "<", .int a, .int b => some (.bool (P.lt a b))
  | ">", .int a, .int b => some (.bool (P.gt a b))
  | "=", u, v => some (.bool (u == v))
  | _, _, _ => none

/-- Calls a function, which has one parameter at most. -/
def callFunction : String → Option Value → World ι ω → Option (Value × World ι ω)
  | "chr", some (.int n), w => some (.char n, w)
  | "ord", some (.char c), w => some (.int c, w)
  | "eof", none, w => (w.read P.eof).map fun r => (.bool r.1, r.2)
  | "eol", none, w => (w.read P.eol).map fun r => (.bool r.1, r.2)
  | _, _, _ => none

/-- Calls a procedure that writes something. -/
def callWriter : String → Option Value → World ι ω → Option (World ι ω)
  | "put", some (.char c), w => w.write (P.put c)
  | "putint", some (.int n), w => w.write (P.putint n)
  | "puteol", none, w => w.write P.puteol
  | _, _, _ => none

/-- Calls a procedure that reads something: the value for its variable. -/
def callReader : String → World ι ω → Option (Value × World ι ω)
  | "get", w => (w.read P.get).map fun r => (.char r.1, r.2)
  | "getint", w => (w.read P.getint).map fun r => (.int r.1, r.2)
  | _, _ => none

mutual

/-- The value of an expression. Evaluating it may read the input. -/
def eval (σ : Store) : Expr → World ι ω → Option (Value × World ι ω)
  | .int _ _ lit, w => (Text.int64? lit.spelling).map fun n => (.int n, w)
  | .char _ _ lit, w => lit.charValue?.map fun (c : Nat) => (.char c, w)
  | .name _ _ id, w => (σ.value? id.name).map fun v => (v, w)
  | .unary _ _ op x, w => do
    let (v, w) ← eval σ x w
    let v ← applyUnary op.symbol v
    return (v, w)
  | .binary _ _ x op y, w => do
    let (u, w) ← eval σ x w
    let (v, w) ← eval σ y w
    let v ← applyBinary P op.symbol u v
    return (v, w)
  | .call _ _ callee a, w => do
    let (v, w) ← evalArg σ a w
    callFunction P callee.name v w
  | .bad .., _ => none

/-- The value of an actual parameter, if there is one. -/
def evalArg (σ : Store) : Arg → World ι ω → Option (Option Value × World ι ω)
  | .value _ x, w => do
    let (v, w) ← eval σ x w
    return (some v, w)
  | .blank _, w => some (none, w)
  | .var .., _ | .bad _, _ => none

end

mutual

/-- The store behind a declaration. A constant is evaluated once, where it is declared. -/
def declare : Decl → Store → World ι ω → Option (Store × World ι ω)
  | .const _ _ _ id x, σ, w => do
    let (v, w) ← eval P σ x w
    return ((id.name, v) :: σ, w)
  | .var _ _ _ id typeName, σ, w => do
    let v ← initial? typeName.name
    return ((id.name, v) :: σ, w)
  | .seq _ ds, σ, w => declareAll ds σ w
  | .bad _, _, _ | .builtin _, _, _ => none

/-- The store behind several declarations. -/
def declareAll : List Decl → Store → World ι ω → Option (Store × World ι ω)
  | [], σ, w => some (σ, w)
  | d :: ds, σ, w => do
    let (σ, w) ← declare d σ w
    declareAll ds σ w

end

/-- A command comes to an end and turns one store and world into others. -/
inductive Exec : Store → World ι ω → Cmd → Store → World ι ω → Prop where
  | skip {σ w pos explicit} : Exec σ w (.skip pos explicit) σ w
  | assign {σ w pos target x v w'} (value : eval P σ x w = some (v, w')) :
      Exec σ w (.assign pos target x) (σ.assign target.name v) w'
  /-- The result of a function called as a command is lost. -/
  | function {σ w pos callee a v w' r w''} (param : evalArg P σ a w = some (v, w'))
      (called : callFunction P callee.name v w' = some (r, w'')) :
      Exec σ w (.call pos callee a) σ w''
  | writer {σ w pos callee a v w' w''} (param : evalArg P σ a w = some (v, w'))
      (called : callWriter P callee.name v w' = some w'') : Exec σ w (.call pos callee a) σ w''
  | reader {σ w pos callee pos' id v w'} (called : callReader P callee.name w = some (v, w')) :
      Exec σ w (.call pos callee (.var pos' id)) (σ.assign id.name v) w'
  | seqNil {σ w pos} : Exec σ w (.seq pos []) σ w
  | seqCons {σ w pos c cs σ' w' σ'' w''} (first : Exec σ w c σ' w')
      (rest : Exec σ' w' (.seq pos cs) σ'' w'') : Exec σ w (.seq pos (c :: cs)) σ'' w''
  | block {σ w pos body close σ' w'} (inner : Exec σ w body σ' w') :
      Exec σ w (.block pos body close) σ' w'
  | ifTrue {σ w pos cond yes no w' σ'' w''} (holds : eval P σ cond w = some (.bool true, w'))
      (branch : Exec σ w' yes σ'' w'') : Exec σ w (.ifElse pos cond yes no) σ'' w''
  | ifFalse {σ w pos cond yes no w' σ'' w''} (fails : eval P σ cond w = some (.bool false, w'))
      (branch : Exec σ w' no σ'' w'') : Exec σ w (.ifElse pos cond yes no) σ'' w''
  | eitherFirst {σ w pos cond alt yes no w' σ'' w''}
      (holds : eval P σ cond w = some (.bool true, w')) (branch : Exec σ w' yes σ'' w'') :
      Exec σ w (.ifEither pos cond alt yes no) σ'' w''
  /-- The second condition is evaluated only where the first does not hold. -/
  | eitherSecond {σ w pos cond alt yes no w₁ w₂ σ' w'}
      (fails : eval P σ cond w = some (.bool false, w₁))
      (holds : eval P σ alt w₁ = some (.bool true, w₂)) (branch : Exec σ w₂ yes σ' w') :
      Exec σ w (.ifEither pos cond alt yes no) σ' w'
  | eitherNeither {σ w pos cond alt yes no w₁ w₂ σ' w'}
      (fails : eval P σ cond w = some (.bool false, w₁))
      (fails' : eval P σ alt w₁ = some (.bool false, w₂)) (branch : Exec σ w₂ no σ' w') :
      Exec σ w (.ifEither pos cond alt yes no) σ' w'
  | whileFalse {σ w pos cond body w'} (fails : eval P σ cond w = some (.bool false, w')) :
      Exec σ w (.whileDo pos cond body) σ w'
  | whileTrue {σ w pos cond body w₁ σ₂ w₂ σ' w'}
      (holds : eval P σ cond w = some (.bool true, w₁)) (once : Exec σ w₁ body σ₂ w₂)
      (again : Exec σ₂ w₂ (.whileDo pos cond body) σ' w') :
      Exec σ w (.whileDo pos cond body) σ' w'
  /-- What is declared is gone behind the body, which may have changed what was there before. -/
  | letIn {σ w pos d body σ₁ w₁ σ₂ w₂} (declared : declare P d σ w = some (σ₁, w₁))
      (inner : Exec σ₁ w₁ body σ₂ w₂) :
      Exec σ w (.letIn pos d body) (σ₂.drop (σ₁.length - σ.length)) w₂

end Platform

end Semantics

/-- The program comes to an end and turns the world `w` into `w'`. -/
def Program.Runs {ι ω : Type} (P : Platform ι ω) (p : Program) (w w' : World ι ω) : Prop :=
  ∃ σ, Semantics.Exec P [] w p.body σ w'

end TriangleTam
