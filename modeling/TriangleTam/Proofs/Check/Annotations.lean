import TriangleTam.Proofs.Check.Scoped

/-!
# Annotations of trees

The bare tree has what stands in the text and nothing that checking finds out. The first lemmas say
what checking makes of each part of a tree. Main statement: `Check.bare_program`, checking a
program adds annotations to its tree and changes nothing else.
-/

namespace TriangleTam

/-- The identifier without its meaning. -/
def Ident.bare (id : Ident) : Ident := ⟨id.pos, id.name, none⟩

/-- The operator without its meaning. -/
def OpName.bare (op : OpName) : OpName := ⟨op.pos, op.symbol, none⟩

mutual

/-- The expression without types and meanings. -/
def Expr.bare : Expr → Expr
  | .int pos _ lit => .int pos none lit
  | .char pos _ lit => .char pos none lit
  | .name pos _ id => .name pos none id.bare
  | .unary pos _ op x => .unary pos none op.bare x.bare
  | .binary pos _ x op y => .binary pos none x.bare op.bare y.bare
  | .call pos _ callee a => .call pos none callee.bare a.bare
  | .bad pos _ => .bad pos none

/-- The actual parameter without types and meanings. -/
def Arg.bare : Arg → Arg
  | .value pos x => .value pos x.bare
  | .var pos id => .var pos id.bare
  | .blank pos => .blank pos
  | .bad pos => .bad pos

end

mutual

/-- The declaration without types, storage and meanings. -/
def Decl.bare : Decl → Decl
  | .const pos _ _ name x => .const pos none none name.bare x.bare
  | .var pos _ _ name typeName => .var pos none none name.bare typeName.bare
  | .seq pos ds => .seq pos (Decl.bareAll ds)
  | .bad pos => .bad pos
  | .builtin b => .builtin b

/-- Declarations without types, storage and meanings. -/
def Decl.bareAll : List Decl → List Decl
  | [] => []
  | d :: ds => d.bare :: Decl.bareAll ds

end

mutual

/-- The command without types, storage and meanings. -/
def Cmd.bare : Cmd → Cmd
  | .assign pos target x => .assign pos target.bare x.bare
  | .call pos callee a => .call pos callee.bare a.bare
  | .seq pos cs => .seq pos (Cmd.bareAll cs)
  | .block pos body close => .block pos body.bare close
  | .ifElse pos cond yes no => .ifElse pos cond.bare yes.bare no.bare
  | .ifEither pos cond alt yes no => .ifEither pos cond.bare alt.bare yes.bare no.bare
  | .whileDo pos cond body => .whileDo pos cond.bare body.bare
  | .letIn pos d body => .letIn pos d.bare body.bare
  | .skip pos explicit => .skip pos explicit
  | .bad pos => .bad pos

/-- Commands without types, storage and meanings. -/
def Cmd.bareAll : List Cmd → List Cmd
  | [] => []
  | c :: cs => c.bare :: Cmd.bareAll cs

end

/-- The program as it stands in the text. -/
def Program.bare (p : Program) : Program := ⟨p.pos, p.body.bare⟩

@[simp] theorem Decl.bareAll_eq (ds : List Decl) : Decl.bareAll ds = ds.map Decl.bare := by
  induction ds with
  | nil => rfl
  | cons d ds ih => rw [Decl.bareAll, ih, List.map_cons]

@[simp] theorem Cmd.bareAll_eq (cs : List Cmd) : Cmd.bareAll cs = cs.map Cmd.bare := by
  induction cs with
  | nil => rfl
  | cons c cs ih => rw [Cmd.bareAll, ih, List.map_cons]

theorem Decl.bare_seq_iff {pos : Pos} {ds : List Decl} :
    (Decl.seq pos ds).bare = .seq pos ds ↔ ∀ d ∈ ds, d.bare = d := by
  rw [Decl.bare, Decl.bareAll_eq, Decl.seq.injEq]
  simpa using List.map_inj_left (l := ds) (f := Decl.bare) (g := id)

theorem Cmd.bare_seq_iff {pos : Pos} {cs : List Cmd} :
    (Cmd.seq pos cs).bare = .seq pos cs ↔ ∀ c ∈ cs, c.bare = c := by
  rw [Cmd.bare, Cmd.bareAll_eq, Cmd.seq.injEq]
  simpa using List.map_inj_left (l := cs) (f := Cmd.bare) (g := id)

namespace Check

section Values

variable (env : Env)

@[simp] theorem value_resolve_routine (callee : Ident) (blank : Bool) :
    (routine env callee blank).value.1 = (env.resolve callee).value.1 := by
  simp only [routine, Checked.value_bind]
  split
  · rfl
  · by_cases count : (if blank = true then 0 else 1) = ‹List Formal›.length <;> simp [count]
  · rfl

@[simp] theorem value_resolve_typeNamed (id : Ident) :
    (typeNamed env id).value.1 = (env.resolve id).value.1 := by
  simp only [typeNamed, Checked.value_bind]
  split <;> rfl

@[simp] theorem value_varArg (expected : Option Expected) (pos : Pos) (id : Ident) :
    (varArg env expected pos id).value = .var pos (env.resolve id).value.1 := by
  simp only [varArg, Checked.value_bind]
  cases expected <;> (split <;> try split) <;> rfl

@[simp] theorem value_arg_value (expected : Option Expected) (pos : Pos) (x : Expr) :
    (arg env expected (.value pos x)).value = .value pos (expr env x).value := by
  cases expected <;> rw [arg] <;> rfl

@[simp] theorem value_value_fst (x : Expr) : (value env x).value.1 = (expr env x).value := rfl

@[simp] theorem value_condition (command : String) (x : Expr) :
    (condition env command x).value = (expr env x).value := rfl

@[simp] theorem value_assign (target : Ident) (x : Expr) :
    (assign env target x).value = ((env.resolve target).value.1, (expr env x).value) := by
  simp only [assign, Checked.value_bind]
  split
  · rfl
  · split <;> rfl

end Values

@[simp] theorem bare_resolve (env : Env) (id : Ident) :
    (env.resolve id).value.1.bare = id.bare := by
  unfold Env.resolve
  split
  · rfl
  · split <;> rfl

@[simp] theorem bare_applyUnary (env : Env) (op : OpName) (pos : Pos) (t : Ty) :
    (applyUnary env op pos t).value.1.bare = op.bare := by
  unfold applyUnary
  split <;> rfl

@[simp] theorem bare_applyBinary (env : Env) (op : OpName) (xPos yPos : Pos) (s t : Ty) :
    (applyBinary env op xPos yPos s t).value.1.bare = op.bare := by
  simp only [applyBinary]
  split
  · split <;> rfl
  · rfl

mutual

@[simp] theorem bare_expr (env : Env) : ∀ x : Expr, (expr env x).value.bare = x.bare
  | .int .. | .char .. | .name .. | .bad .. => by simp [expr, Expr.bare]
  | .unary pos ty op x => by simp [expr, Expr.bare, bare_expr env x]
  | .binary pos ty x op y => by simp [expr, Expr.bare, bare_expr env x, bare_expr env y]
  | .call pos ty callee a => by simp [expr, Expr.bare, bare_arg env _ a]

@[simp] theorem bare_arg (env : Env) (expected : Option Expected) :
    ∀ a : Arg, (arg env expected a).value.bare = a.bare
  | .value pos x => by simp [Arg.bare, bare_expr env x]
  | .var pos id | .blank pos | .bad pos => by simp [arg, Arg.bare]

end

@[simp] theorem bare_declare (block : Block) (id : Ident) (e : Entity) :
    (declare block id e).value.1.bare = id.bare := by
  unfold declare
  split
  · rfl
  · split <;> rfl

@[simp] theorem name_declare (block : Block) (id : Ident) (e : Entity) :
    (declare block id e).value.1.name = id.name := by
  rw [← show id.bare.name = id.name from rfl, ← bare_declare block id e]
  rfl

@[simp] theorem pos_declare (block : Block) (id : Ident) (e : Entity) :
    (declare block id e).value.1.pos = id.pos := by
  rw [← show id.bare.pos = id.pos from rfl, ← bare_declare block id e]
  rfl

mutual

@[simp] theorem bare_decl (site : Site) (block : Block) :
    ∀ d : Decl, (decl site block d).value.1.bare = d.bare
  | .const .. | .var .. | .bad _ | .builtin _ => by simp [decl, Decl.bare]
  | .seq pos ds => by simpa [decl, Decl.bare] using bare_decls site block ds

theorem bare_decls (site : Site) (block : Block) :
    ∀ ds : List Decl, (decls site block ds).value.1.map Decl.bare = ds.map Decl.bare
  | [] => rfl
  | d :: ds => by
    simp [decls, bare_decl site block d, bare_decls site (decl site block d).value.2 ds]

end

mutual

theorem bare_cmd (p : Place) : ∀ c : Cmd, (cmd p c).value.bare = c.bare
  | .skip .. | .bad _ => by simp [cmd]
  | .assign .. | .call .. => by simp [cmd, Cmd.bare]
  | .seq pos cs => by simpa [cmd, Cmd.bare] using bare_cmds p cs
  | .block pos body close => by simp [cmd, Cmd.bare, bare_cmd p.inBraces body]
  | .ifElse pos cond yes no => by simp [cmd, Cmd.bare, bare_cmd p yes, bare_cmd p no]
  | .ifEither pos cond alt yes no => by simp [cmd, Cmd.bare, bare_cmd p yes, bare_cmd p no]
  | .whileDo pos cond body => by simp [cmd, Cmd.bare, bare_cmd p body]
  | .letIn pos d body => by simp [cmd, Cmd.bare, bare_cmd _ body]

theorem bare_cmds (p : Place) : ∀ cs : List Cmd, (cmds p cs).value.map Cmd.bare = cs.map Cmd.bare
  | [] => rfl
  | c :: cs => by simp [cmds, bare_cmd p c, bare_cmds p cs]

end

/-- Checking adds annotations and leaves what stands in the text. -/
theorem bare_program (distance : Int) (p : Program) :
    (program distance p).program.bare = p.bare := by
  simp [program, Program.bare, bare_cmd]

end Check

end TriangleTam
