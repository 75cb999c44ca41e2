import TriangleTam.Tree.Value

/-!
# The rules on names and types

When a program is well typed, said by rules and not by a way of finding out. A context holds the
declarations around a place, and a name stands for the innermost of them, or else for what it means
in the standard environment. `HasType` gives types to expressions, `Declares` says what a
declaration adds to the context, and `WellTyped` is about commands.
-/

namespace TriangleTam.Typing

/-- What a name stands for. -/
inductive Denotation where
  | entity (kind : Entity.Kind) (ty : Ty)
  | builtin (b : Builtin)
deriving DecidableEq

/-- A declared constant or variable. -/
structure Binding where
  name : String
  kind : Entity.Kind
  ty : Ty
deriving DecidableEq

/-- The declarations around a place, innermost first. -/
abbrev Context := List Binding

/-- What a name stands for at a place. -/
def Context.denotes (Γ : Context) (name : String) : Option Denotation :=
  match Γ.find? (·.name == name) with
  | some b => some (.entity b.kind b.ty)
  | none => (Builtin.named? name).map .builtin

mutual

/-- An expression has a type. That of a call may be `void`, which is not the type of any value. -/
inductive HasType (Γ : Context) : Expr → Ty → Prop where
  | int {pos ty lit n} (value : Text.int64? lit.spelling = some n) (le : n ≤ 32767) :
      HasType Γ (.int pos ty lit) .integer
  | char {pos ty lit} : HasType Γ (.char pos ty lit) .char
  | entity {pos ty id kind t} (found : Γ.denotes id.name = some (.entity kind t)) :
      HasType Γ (.name pos ty id) t
  | constant {pos ty id name t value}
      (found : Γ.denotes id.name = some (.builtin (.const name t value))) :
      HasType Γ (.name pos ty id) t
  | unary {pos ty op x symbol operand result prim}
      (found : Γ.denotes op.symbol = some (.builtin (.unary symbol operand result prim)))
      (typed : HasType Γ x operand) : HasType Γ (.unary pos ty op x) result
  | binary {pos ty x op y symbol left right result prim}
      (found : Γ.denotes op.symbol = some (.builtin (.binary symbol left right result prim)))
      (typed : HasType Γ x left) (typed' : HasType Γ y right) :
      HasType Γ (.binary pos ty x op y) result
  /-- An operator on operands of any type wants both to have the same. -/
  | same {pos ty x op y symbol t result prim}
      (found : Γ.denotes op.symbol = some (.builtin (.binary symbol .any .any result prim)))
      (typed : HasType Γ x t) (typed' : HasType Γ y t) (value : t ≠ .void) :
      HasType Γ (.binary pos ty x op y) result
  | call {pos ty callee a name params result prim}
      (found : Γ.denotes callee.name = some (.builtin (.func name params result prim)))
      (passed : Passed Γ a params) : HasType Γ (.call pos ty callee a) result

/-- An actual parameter goes with the formal parameters of a routine, of which there is one at
most. -/
inductive Passed (Γ : Context) : Arg → List Formal → Prop where
  | blank {pos} : Passed Γ (.blank pos) []
  | value {pos x t} (typed : HasType Γ x t) : Passed Γ (.value pos x) [⟨t, false⟩]
  | var {pos id t} (found : Γ.denotes id.name = some (.entity .var t)) :
      Passed Γ (.var pos id) [⟨t, true⟩]

end

/-- A declaration can stand in one context and leads to another. -/
inductive Declares : Context → Decl → Context → Prop where
  | const {Γ pos ty storage id x t} (typed : HasType Γ x t) (value : t ≠ .void) :
      Declares Γ (.const pos ty storage id x) (⟨id.name, .const, t⟩ :: Γ)
  | var {Γ pos ty storage id typeName t}
      (found : Γ.denotes typeName.name = some (.builtin (.type t))) :
      Declares Γ (.var pos ty storage id typeName) (⟨id.name, .var, t⟩ :: Γ)
  | nil {Γ pos} : Declares Γ (.seq pos []) Γ
  | cons {Γ Δ Θ pos d ds} (first : Declares Γ d Δ) (rest : Declares Δ (.seq pos ds) Θ) :
      Declares Γ (.seq pos (d :: ds)) Θ

mutual

/-- The names a declaration declares. -/
def declaredNames : Decl → List String
  | .const _ _ _ id _ | .var _ _ _ id _ => [id.name]
  | .seq _ ds => allDeclaredNames ds
  | .bad _ | .builtin _ => []

/-- The names several declarations declare. -/
def allDeclaredNames : List Decl → List String
  | [] => []
  | d :: ds => declaredNames d ++ allDeclaredNames ds

end

/-- A command can stand in a context. -/
inductive WellTyped : Context → Cmd → Prop where
  | skip {Γ pos explicit} : WellTyped Γ (.skip pos explicit)
  | assign {Γ pos target x t} (found : Γ.denotes target.name = some (.entity .var t))
      (typed : HasType Γ x t) : WellTyped Γ (.assign pos target x)
  | call {Γ pos callee a name params result prim}
      (found : Γ.denotes callee.name = some (.builtin (.func name params result prim)))
      (passed : Passed Γ a params) : WellTyped Γ (.call pos callee a)
  | seq {Γ pos cs} (all : ∀ c ∈ cs, WellTyped Γ c) : WellTyped Γ (.seq pos cs)
  | block {Γ pos body close} (typed : WellTyped Γ body) : WellTyped Γ (.block pos body close)
  | ifElse {Γ pos cond yes no} (typed : HasType Γ cond .boolean) (then_ : WellTyped Γ yes)
      (else_ : WellTyped Γ no) : WellTyped Γ (.ifElse pos cond yes no)
  | ifEither {Γ pos cond alt yes no} (typed : HasType Γ cond .boolean)
      (typed' : HasType Γ alt .boolean) (then_ : WellTyped Γ yes) (else_ : WellTyped Γ no) :
      WellTyped Γ (.ifEither pos cond alt yes no)
  | whileDo {Γ pos cond body} (typed : HasType Γ cond .boolean) (body_ : WellTyped Γ body) :
      WellTyped Γ (.whileDo pos cond body)
  /-- No two declarations of one `let` may declare the same name. -/
  | letIn {Γ Δ pos d body} (declared : Declares Γ d Δ) (distinct : (declaredNames d).Nodup)
      (typed : WellTyped Δ body) : WellTyped Γ (.letIn pos d body)

end Typing

/-- A program follows the rules on names and types. -/
def Program.WellTyped (p : Program) : Prop :=
  Typing.WellTyped [] p.body

end TriangleTam
