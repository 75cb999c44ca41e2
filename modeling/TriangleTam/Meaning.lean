import TriangleTam.Machine.Primitive
import TriangleTam.Pos
import TriangleTam.Storage
import TriangleTam.Ty

/-!
# What names mean

A name of the standard environment means a built-in type, constant, operator or routine; a name
declared in a program means an entity, a constant or a variable. The signature of a meaning is what
listings and messages show of it.
-/

namespace TriangleTam

open Machine (Primitive)

/-- A formal parameter of a built-in routine. -/
structure Formal where
  ty : Ty
  /-- The variable itself is passed, not its value. -/
  byRef : Bool
deriving DecidableEq, Repr

/-- A declaration of the standard environment. -/
inductive Builtin where
  | type (t : Ty)
  | const (name : String) (ty : Ty) (value : Int)
  | unary (op : String) (operand result : Ty) (prim : Primitive)
  | binary (op : String) (left right result : Ty) (prim : Primitive)
  | func (name : String) (params : List Formal) (result : Ty) (prim : Primitive)
deriving DecidableEq, Repr

namespace Builtin

/-- The name the declaration binds. -/
def name : Builtin → String
  | type t => t.name
  | const name _ _ => name
  | unary op _ _ _ => op
  | binary op _ _ _ _ => op
  | func name _ _ _ => name

/-- The storage of a built-in constant; nothing else that is built in has any. -/
def storage? : Builtin → Option Storage
  | const _ ty value => some { kind := .knownValue, size := ty.size, value := value }
  | _ => none

/-- The routine that computes an operator or function. -/
def prim? : Builtin → Option Primitive
  | unary _ _ _ p | binary _ _ _ _ p | func _ _ _ p => some p
  | _ => none

/-- The standard environment. -/
def all : List Builtin :=
  [.type .integer, .type .char, .type .boolean,
    .const "true" .boolean 1, .const "false" .boolean 0,
    .binary ">" .integer .integer .boolean .gt,
    .binary "<" .integer .integer .boolean .lt,
    .binary "=" .any .any .boolean .eq,
    .binary "+" .integer .integer .integer .add,
    .binary "-" .integer .integer .integer .sub,
    .binary "*" .integer .integer .integer .mult,
    .binary "/" .integer .integer .integer .div,
    .unary "\\" .boolean .boolean .not,
    .func "chr" [⟨.integer, false⟩] .char .id,
    .func "ord" [⟨.char, false⟩] .integer .id,
    .func "eof" [] .boolean .eof,
    .func "eol" [] .boolean .eol,
    .func "get" [⟨.char, true⟩] .void .get,
    .func "getint" [⟨.integer, true⟩] .void .getint,
    .func "put" [⟨.char, false⟩] .void .put,
    .func "putint" [⟨.integer, false⟩] .void .putint,
    .func "puteol" [] .void .puteol]

/-- The declaration of the standard environment with this name. -/
def named? (name : String) : Option Builtin :=
  all.find? (·.name == name)

end Builtin

/-- Whether an entity can be assigned. -/
inductive Entity.Kind where
  | const
  | var
deriving DecidableEq, Repr

/-- A constant or variable declared in a program. -/
structure Entity where
  kind : Entity.Kind
  name : String
  /-- Where the declaration starts. -/
  pos : Pos
  /-- Where the name stands in it. -/
  namePos : Pos
  ty : Option Ty
  storage : Option Storage
deriving DecidableEq, Repr

/-- What a name means. -/
inductive Meaning where
  | builtin (b : Builtin)
  | entity (e : Entity)
deriving DecidableEq, Repr

/-- What is shown of a declaration. A type may be missing in a declaration made by hand. -/
inductive Signature where
  | type (name : String)
  | const (name : String) (ty : Option Ty) (pos : Pos)
  | var (name : String) (ty : Option Ty) (pos : Pos)
  | unary (op : String) (operand result : Option Ty)
  | binary (op : String) (left right result : Option Ty)
  | routine (name : String) (params : List (Option Ty × Bool)) (result : Option Ty)
  /-- A sequence of declarations, or something that is none. -/
  | group
deriving DecidableEq, Repr

namespace Signature

/-- What sort of declaration it is. -/
def kind : Signature → String
  | type _ => "type"
  | const .. => "constant"
  | var .. => "variable"
  | unary .. | binary .. => "operator"
  | routine _ _ result => if result = some .void then "procedure" else "function"
  | group => "declaration"

/-- The name the declaration binds. -/
def name : Signature → String
  | type name | const name _ _ | var name _ _ => name
  | unary op _ _ | binary op _ _ _ => op
  | routine name _ _ => name
  | group => ""

/-- How a formal parameter is written. -/
def describeParam (p : Option Ty × Bool) : String :=
  if p.2 then "var " ++ Ty.nameOf p.1 else Ty.nameOf p.1

/-- The parameters of a routine, separated by commas. -/
def describeParams (ps : List (Option Ty × Bool)) : String :=
  ", ".intercalate (ps.map describeParam)

/-- The type or the parameter and result types. -/
def describe : Signature → String
  | type name => name
  | const _ ty _ | var _ ty _ => Ty.nameOf ty
  | unary _ operand result => "(" ++ Ty.nameOf operand ++ ") " ++ Ty.nameOf result
  | binary _ left right result =>
    "(" ++ Ty.nameOf left ++ ", " ++ Ty.nameOf right ++ ") " ++ Ty.nameOf result
  | routine _ params result => "(" ++ describeParams params ++ ") " ++ Ty.nameOf result
  | group => "?"

/-- Whether the declaration can be described: a routine cannot if a type of its parameters is
missing. -/
def isDescribable : Signature → Bool
  | routine _ params _ => params.all (·.1.isSome)
  | _ => true

/-- Where the declaration starts. -/
def pos : Signature → Pos
  | const _ _ pos | var _ _ pos => pos
  | _ => Pos.none

end Signature

namespace Builtin

/-- What is shown of a built-in declaration. -/
def signature : Builtin → Signature
  | type t => .type t.name
  | const name ty _ => .const name (some ty) Pos.none
  | unary op operand result _ => .unary op (some operand) (some result)
  | binary op left right result _ => .binary op (some left) (some right) (some result)
  | func name params result _ =>
    .routine name (params.map fun p => (some p.ty, p.byRef)) (some result)

end Builtin

namespace Meaning

/-- What is shown of a meaning. -/
def signature : Meaning → Signature
  | builtin b => b.signature
  | entity e =>
    match e.kind with
    | .const => .const e.name e.ty e.pos
    | .var => .var e.name e.ty e.pos

/-- Whether it is a value that cannot be assigned. -/
def isConstant : Meaning → Bool
  | builtin (.const ..) => true
  | builtin _ => false
  | entity e => e.kind == .const

/-- Whether it can be assigned. -/
def isVariable : Meaning → Bool
  | builtin _ => false
  | entity e => e.kind == .var

/-- The type of what has a value; other meanings have none. -/
def valueTy? : Meaning → Option Ty
  | builtin (.const _ ty _) => some ty
  | builtin _ => none
  | entity e => some (e.ty.getD .any)

/-- The storage of a meaning that has some. -/
def storage? : Meaning → Option Storage
  | builtin b => b.storage?
  | entity e => e.storage

/-- Where the name was declared. -/
def namePos : Meaning → Pos
  | builtin _ => Pos.none
  | entity e => e.namePos

end Meaning

end TriangleTam
