import TriangleTam.Generate.Fault

/-!
# Code of expressions

The code of an expression pushes its value. Code is made only from what checking noted on the tree.
-/

namespace TriangleTam.Generate

open Machine

/-- A sequence of instructions, or the reason why there is none. -/
abbrev Code := Except Fault (List Instruction)

/-- Pushes a number. -/
def loadNumber (d : Int) : Instruction := { op := .loadl, d := d }

/-- Calls a primitive routine. -/
def callPrimitive (p : Primitive) : Instruction :=
  { op := .call, reg := .primitiveBase, n := Register.stackBase.code, d := p.displacement }

/-- The storage of the entity a name means. -/
def storageOf (id : Ident) : Except Fault Storage :=
  match id.meaning with
  | none => .error (.unresolved id.name id.pos)
  | some (.builtin b) =>
    match b.storage? with
    | some s => .ok s
    | none => .error (.notEntity id.name id.pos b.nodeName)
  | some (.entity e) =>
    match e.storage with
    | some s => .ok s
    | none => .error (.noStorage id.name id.pos)

/-- Pushes the value of the entity a name means. -/
def load (id : Ident) : Code := do
  let s ← storageOf id
  match s.kind with
  | .knownValue => return [loadNumber s.value]
  | .unknownValue | .knownAddress =>
    return [{ op := .load, reg := .stackBase, n := s.size, d := s.offset }]
  | .other _ => throw (.loadStorage id.name id.pos s.kind)

/-- Pops a value into the variable a name means. -/
def store (id : Ident) : Code := do
  let s ← storageOf id
  if s.kind = .knownAddress then
    return [{ op := .store, reg := .stackBase, n := s.size, d := s.offset }]
  else throw (.assignStorage id.name id.pos s.kind)

/-- Pushes the address of the variable a name means. -/
def address (id : Ident) : Code := do
  let s ← storageOf id
  if s.kind = .knownAddress then return [{ op := .loada, reg := .stackBase, d := s.offset }]
  else throw (.varParamStorage id.name id.pos s.kind)

/-- The routine a name means: its result type and how it is called. -/
def routineOf (callee : Ident) : Except Fault (Ty × Primitive) :=
  match callee.meaning with
  | some (.builtin (.func _ _ result prim)) => .ok (result, prim)
  | _ => .error (.callUnresolved callee.name callee.pos)

/-- The routine of an operator with one operand. -/
def unaryOf (op : OpName) : Except Fault Primitive :=
  match op.meaning with
  | some (.builtin (.unary _ _ _ prim)) => .ok prim
  | _ => .error (.operatorUnresolved op.symbol op.pos)

/-- The routine of an operator with two operands. -/
def binaryOf (op : OpName) : Except Fault Primitive :=
  match op.meaning with
  | some (.builtin (.binary _ _ _ _ prim)) => .ok prim
  | _ => .error (.operatorUnresolved op.symbol op.pos)

/-- The type checking noted on an expression. -/
def typeOf (x : Expr) : Except Fault Ty :=
  match x.ty with
  | some t => .ok t
  | none => .error (.untyped x.nodeName x.pos)

/-- Pushes the size of the operands, if the routine wants to know it. -/
def sizeOperand (prim : Primitive) (t : Ty) : List Instruction :=
  if prim.needsSize then [loadNumber t.size] else []

/-- Pushes the value of an integer literal at `pos`. -/
def intCode (pos : Pos) (lit : Literal) : Code :=
  match lit.intValue? with
  | some v => .ok [loadNumber v]
  | none => .error (.literalRange lit.spelling pos)

/-- Pushes the value of a character literal. -/
def charCode (lit : Literal) : Code :=
  match lit.charValue? with
  | some v => .ok [loadNumber v]
  | none => .error (.malformed ⟨lit.spelling⟩)

mutual

/-- The code of an expression. -/
def expr (e : Expr) : Code := do
  let _ ← typeOf e
  match e with
  | .int pos _ lit => intCode pos lit
  | .char _ _ lit => charCode lit
  | .name _ _ id => load id
  | .unary _ _ op x => do
    let code ← expr x
    let prim ← unaryOf op
    return code ++ [callPrimitive prim]
  | .binary _ _ x op y => do
    let left ← expr x
    let right ← expr y
    let prim ← binaryOf op
    let t ← typeOf x
    return left ++ right ++ sizeOperand prim t ++ [callPrimitive prim]
  | .call _ _ callee a => do
    let (_, prim) ← routineOf callee
    let code ← arg a
    return code ++ [callPrimitive prim]
  | .bad pos ty => throw (.noCode (Expr.bad pos ty).nodeName pos)

/-- The code that pushes an actual parameter. -/
def arg : Arg → Code
  | .value _ x => expr x
  | .var _ id => address id
  | .blank _ => .ok []
  | .bad pos => .error (.noCode (Arg.bad pos).nodeName pos)

end

end TriangleTam.Generate
