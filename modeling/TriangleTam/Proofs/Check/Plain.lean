import TriangleTam.Proofs.Check.Scoped

/-!
# What opens no frame and takes no storage

Only a block and a `let` open frames, and only a declaration takes words. Checking anything else is
plain: `plain_expr` for expressions, `plain_condition` and `plain_assign` for what commands are made
of, and `plain_declare` for binding a name.
-/

namespace TriangleTam.Check

namespace Checked

variable {α β : Type}

/-- No frame was opened and no words were taken. -/
def Plain (x : Checked α) : Prop := x.trace.scopes = [] ∧ x.trace.peak = 0

@[simp] theorem plain_pure (a : α) : (pure a : Checked α).Plain := ⟨rfl, rfl⟩

@[simp] theorem plain_bind (x : Checked α) (f : α → Checked β) :
    (x >>= f).Plain ↔ x.Plain ∧ (f x.value).Plain := by
  simp only [Plain, trace_bind, Trace.append, List.append_eq_nil_iff, Nat.max_eq_zero_iff]
  exact and_and_and_comm

@[simp] theorem plain_report (pos : Pos) (e : Error) : (report pos e).Plain := ⟨rfl, rfl⟩

@[simp] theorem plain_reportIf (c : Bool) (pos : Pos) (e : Error) : (reportIf c pos e).Plain := by
  cases c <;> exact ⟨rfl, rfl⟩

end Checked

variable (env : Env)

@[simp] theorem plain_resolve (id : Ident) : (env.resolve id).Plain := by
  unfold Env.resolve
  split
  · simp
  · split <;> simp

@[simp] theorem plain_needValue (x : Expr) : (needValue x).Plain := by
  unfold needValue
  split <;> simp

@[simp] theorem plain_argType (pos : Pos) (found : Ty) (expected : Option Expected) :
    (argType pos found expected).Plain := by
  unfold argType
  split <;> simp

@[simp] theorem plain_nameType (pos : Pos) (id : Ident) (m : Option Meaning) :
    (nameType pos id m).Plain := by
  unfold nameType
  split
  · simp
  · split <;> simp

@[simp] theorem plain_applyUnary (op : OpName) (pos : Pos) (t : Ty) :
    (applyUnary env op pos t).Plain := by
  unfold applyUnary
  split <;> simp

@[simp] theorem plain_applyBinary (op : OpName) (xPos yPos : Pos) (s t : Ty) :
    (applyBinary env op xPos yPos s t).Plain := by
  simp only [applyBinary]
  split
  · split <;> simp
  · simp

@[simp] theorem plain_routine (callee : Ident) (blank : Bool) :
    (routine env callee blank).Plain := by
  simp only [routine, Checked.plain_bind, plain_resolve, true_and]
  split
  · simp
  · by_cases count : (if blank = true then 0 else 1) = ‹List Formal›.length <;> simp [count]
  · simp

@[simp] theorem plain_typeNamed (id : Ident) : (typeNamed env id).Plain := by
  simp only [typeNamed, Checked.plain_bind, plain_resolve, true_and]
  split <;> simp

@[simp] theorem plain_varArg (expected : Option Expected) (pos : Pos) (id : Ident) :
    (varArg env expected pos id).Plain := by
  simp only [varArg, Checked.plain_bind, plain_resolve, true_and]
  cases expected <;> (split <;> try split) <;> simp

mutual

@[simp] theorem plain_expr : ∀ x : Expr, (expr env x).Plain
  | .int .. | .char .. | .name .. | .bad .. => by simp [expr]
  | .unary _ _ _ x => by simp [expr, plain_expr x]
  | .binary _ _ x _ y => by simp [expr, plain_expr x, plain_expr y]
  | .call _ _ _ a => by simp [expr, plain_arg _ a]

@[simp] theorem plain_arg (expected : Option Expected) : ∀ a : Arg, (arg env expected a).Plain
  | .value _ x => by cases expected <;> simp [arg, plain_expr x]
  | .var .. | .blank _ | .bad _ => by simp [arg]

end

@[simp] theorem plain_value (x : Expr) : (value env x).Plain := by
  simp [value]

@[simp] theorem plain_condition (command : String) (x : Expr) :
    (condition env command x).Plain := by
  simp [condition]

@[simp] theorem plain_assign (target : Ident) (x : Expr) : (assign env target x).Plain := by
  simp only [assign, Checked.plain_bind, plain_value, plain_resolve, true_and]
  split
  · simp
  · split <;> simp

@[simp] theorem plain_declare (block : Block) (id : Ident) (e : Entity) :
    (declare block id e).Plain := by
  unfold declare
  split
  · simp
  · split <;> simp

end TriangleTam.Check
