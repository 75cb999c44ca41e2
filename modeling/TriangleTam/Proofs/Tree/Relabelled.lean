import TriangleTam.Proofs.Tree.Nodes

/-!
# Relabelled trees

A tree with other names for its identifiers, and with its parts at other positions. The names of the
standard environment keep their meaning, so they are not changed, and nor is the empty name, which
stands for one that is missing; different names stay different. Operators and literals are spelled
as before.
-/

namespace TriangleTam

/-- Other names and other positions. -/
structure Relabelling where
  name : String → String
  pos : Pos → Pos
  injective : Function.Injective name
  missing : name "" = ""
  standard : ∀ b ∈ Builtin.all, name b.name = b.name

namespace Relabelling

/-- Other names at the same positions. -/
def ofNames (name : String → String) (injective : Function.Injective name) (missing : name "" = "")
    (standard : ∀ b ∈ Builtin.all, name b.name = b.name) : Relabelling :=
  ⟨name, id, injective, missing, standard⟩

/-- The same names at other positions. -/
def ofPositions (pos : Pos → Pos) : Relabelling :=
  ⟨id, pos, fun _ _ same => same, rfl, fun _ _ => rfl⟩

variable (r : Relabelling)

theorem name_inj {a b : String} : r.name a = r.name b ↔ a = b := r.injective.eq_iff

theorem name_eq_empty {a : String} : r.name a = "" ↔ a = "" := by
  rw [← r.name_inj (a := a), r.missing]

end Relabelling

variable (r : Relabelling)

section Definitions

/-- The declared entity with its labels changed. -/
def Entity.relabel (e : Entity) : Entity :=
  { e with name := r.name e.name, pos := r.pos e.pos, namePos := r.pos e.namePos }

/-- The meaning with its labels changed; what is built in has none. -/
def Meaning.relabel : Meaning → Meaning
  | builtin b => builtin b
  | entity e => entity (e.relabel r)

/-- The identifier with its labels changed. -/
def Ident.relabel (id : Ident) : Ident :=
  ⟨r.pos id.pos, r.name id.name, id.meaning.map (Meaning.relabel r)⟩

/-- The operator with its labels changed. -/
def OpName.relabel (op : OpName) : OpName :=
  ⟨r.pos op.pos, op.symbol, op.meaning.map (Meaning.relabel r)⟩

/-- The literal with its labels changed. -/
def Literal.relabel (lit : Literal) : Literal := ⟨r.pos lit.pos, lit.spelling⟩

mutual

/-- The expression with its labels changed. -/
def Expr.relabel : Expr → Expr
  | .int pos ty lit => .int (r.pos pos) ty (lit.relabel r)
  | .char pos ty lit => .char (r.pos pos) ty (lit.relabel r)
  | .name pos ty id => .name (r.pos pos) ty (id.relabel r)
  | .unary pos ty op x => .unary (r.pos pos) ty (op.relabel r) x.relabel
  | .binary pos ty x op y => .binary (r.pos pos) ty x.relabel (op.relabel r) y.relabel
  | .call pos ty callee a => .call (r.pos pos) ty (callee.relabel r) a.relabel
  | .bad pos ty => .bad (r.pos pos) ty

/-- The actual parameter with its labels changed. -/
def Arg.relabel : Arg → Arg
  | .value pos x => .value (r.pos pos) x.relabel
  | .var pos id => .var (r.pos pos) (id.relabel r)
  | .blank pos => .blank (r.pos pos)
  | .bad pos => .bad (r.pos pos)

end

mutual

/-- The declaration with its labels changed. -/
def Decl.relabel : Decl → Decl
  | .const pos ty storage name x =>
    .const (r.pos pos) ty storage (name.relabel r) (x.relabel r)
  | .var pos ty storage name typeName =>
    .var (r.pos pos) ty storage (name.relabel r) (typeName.relabel r)
  | .seq pos ds => .seq (r.pos pos) (Decl.relabelAll ds)
  | .bad pos => .bad (r.pos pos)
  | .builtin b => .builtin b

/-- The declarations with their labels changed. -/
def Decl.relabelAll : List Decl → List Decl
  | [] => []
  | d :: ds => d.relabel :: Decl.relabelAll ds

end

mutual

/-- The command with its labels changed. -/
def Cmd.relabel : Cmd → Cmd
  | .assign pos target x => .assign (r.pos pos) (target.relabel r) (x.relabel r)
  | .call pos callee a => .call (r.pos pos) (callee.relabel r) (a.relabel r)
  | .seq pos cs => .seq (r.pos pos) (Cmd.relabelAll cs)
  | .block pos body close => .block (r.pos pos) body.relabel (r.pos close)
  | .ifElse pos cond yes no => .ifElse (r.pos pos) (cond.relabel r) yes.relabel no.relabel
  | .ifEither pos cond alt yes no =>
    .ifEither (r.pos pos) (cond.relabel r) (alt.relabel r) yes.relabel no.relabel
  | .whileDo pos cond body => .whileDo (r.pos pos) (cond.relabel r) body.relabel
  | .letIn pos d body => .letIn (r.pos pos) (d.relabel r) body.relabel
  | .skip pos explicit => .skip (r.pos pos) explicit
  | .bad pos => .bad (r.pos pos)

/-- The commands with their labels changed. -/
def Cmd.relabelAll : List Cmd → List Cmd
  | [] => []
  | c :: cs => c.relabel :: Cmd.relabelAll cs

end

/-- The program with its labels changed. -/
def Program.relabel (p : Program) : Program := ⟨r.pos p.pos, p.body.relabel r⟩

/-- The node with its labels changed. -/
def Node.relabel : Node → Node
  | program p => program (p.relabel r)
  | cmd c => cmd (c.relabel r)
  | decl d => decl (d.relabel r)
  | expr x => expr (x.relabel r)
  | arg a => arg (a.relabel r)
  | ident id => ident (id.relabel r)
  | op o => op (o.relabel r)
  | intLit lit => intLit (lit.relabel r)
  | charLit lit => charLit (lit.relabel r)

end Definitions

@[simp] theorem Decl.relabelAll_eq_map (ds : List Decl) :
    Decl.relabelAll r ds = ds.map (Decl.relabel r) := by
  induction ds with
  | nil => rfl
  | cons d ds ih => rw [Decl.relabelAll, List.map_cons, ih]

@[simp] theorem Cmd.relabelAll_eq_map (cs : List Cmd) :
    Cmd.relabelAll r cs = cs.map (Cmd.relabel r) := by
  induction cs with
  | nil => rfl
  | cons c cs ih => rw [Cmd.relabelAll, List.map_cons, ih]

@[simp] theorem Ident.name_relabel (id : Ident) : (id.relabel r).name = r.name id.name := rfl

@[simp] theorem Expr.pos_relabel (x : Expr) : (x.relabel r).pos = r.pos x.pos := by
  cases x <;> simp [Expr.relabel, Expr.pos]

@[simp] theorem Expr.ty_relabel (x : Expr) : (x.relabel r).ty = x.ty := by
  cases x <;> simp [Expr.relabel, Expr.ty]

@[simp] theorem Cmd.pos_relabel (c : Cmd) : (c.relabel r).pos = r.pos c.pos := by
  cases c <;> simp [Cmd.relabel, Cmd.pos]

section Nodes

variable {r} {P : Node → Prop}

mutual

theorem Expr.all_relabel : ∀ x : Expr, (x.relabel r).All P ↔ x.All fun n => P (n.relabel r)
  | .int .. | .char .. | .name .. | .bad .. => by simp [Expr.relabel, Node.relabel]
  | .unary _ _ _ x => by simp [Expr.relabel, Node.relabel, x.all_relabel]
  | .binary _ _ x _ y => by simp [Expr.relabel, Node.relabel, x.all_relabel, y.all_relabel]
  | .call _ _ _ a => by simp [Expr.relabel, Node.relabel, a.all_relabel]

theorem Arg.all_relabel : ∀ a : Arg, (a.relabel r).All P ↔ a.All fun n => P (n.relabel r)
  | .value _ x => by simp [Arg.relabel, Node.relabel, x.all_relabel]
  | .var .. | .blank _ | .bad _ => by simp [Arg.relabel, Node.relabel]

end

mutual

theorem Decl.all_relabel : ∀ d : Decl, (d.relabel r).All P ↔ d.All fun n => P (n.relabel r)
  | .const _ _ _ _ x => by simp [Decl.relabel, Node.relabel, x.all_relabel]
  | .var .. | .bad _ | .builtin _ => by simp [Decl.relabel, Node.relabel]
  | .seq _ ds => by simp [Decl.relabel, Node.relabel, Decl.forall_relabel ds]

theorem Decl.forall_relabel : ∀ ds : List Decl,
    (∀ d ∈ ds, (d.relabel r).All P) ↔ ∀ d ∈ ds, d.All fun n => P (n.relabel r)
  | [] => by simp
  | d :: ds => by simp [Decl.all_relabel d, Decl.forall_relabel ds]

end

mutual

theorem Cmd.all_relabel : ∀ c : Cmd, (c.relabel r).All P ↔ c.All fun n => P (n.relabel r)
  | .assign _ _ x => by simp [Cmd.relabel, Node.relabel, x.all_relabel]
  | .call _ _ a => by simp [Cmd.relabel, Node.relabel, a.all_relabel]
  | .seq _ cs => by simp [Cmd.relabel, Node.relabel, Cmd.forall_relabel cs]
  | .block _ body _ => by simp [Cmd.relabel, Node.relabel, body.all_relabel]
  | .ifElse _ cond yes no => by
    simp [Cmd.relabel, Node.relabel, cond.all_relabel, yes.all_relabel, no.all_relabel]
  | .ifEither _ cond alt yes no => by
    simp [Cmd.relabel, Node.relabel, cond.all_relabel, alt.all_relabel, yes.all_relabel,
      no.all_relabel]
  | .whileDo _ cond body => by
    simp [Cmd.relabel, Node.relabel, cond.all_relabel, body.all_relabel]
  | .letIn _ d body => by simp [Cmd.relabel, Node.relabel, d.all_relabel, body.all_relabel]
  | .skip .. | .bad _ => by simp [Cmd.relabel, Node.relabel]

theorem Cmd.forall_relabel : ∀ cs : List Cmd,
    (∀ c ∈ cs, (c.relabel r).All P) ↔ ∀ c ∈ cs, c.All fun n => P (n.relabel r)
  | [] => by simp
  | c :: cs => by simp [c.all_relabel, Cmd.forall_relabel cs]

end

/-- The nodes of a relabelled tree are those of the tree, relabelled. -/
theorem Program.all_relabel (p : Program) :
    (p.relabel r).All P ↔ p.All fun n => P (n.relabel r) := by
  rw [Program.all_iff, Program.all_iff]
  exact and_congr Iff.rfl p.body.all_relabel

theorem Program.LiteralsProper.relabel {p : Program} (proper : p.LiteralsProper) :
    (p.relabel r).LiteralsProper := by
  refine p.all_relabel.2 fun n member lit eq => ?_
  cases n with
  | charLit lit' =>
    obtain rfl : lit'.relabel r = lit := Node.charLit.inj eq
    exact proper _ member lit' rfl
  | _ => cases eq

end Nodes

end TriangleTam
