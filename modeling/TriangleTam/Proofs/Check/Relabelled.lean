import TriangleTam.Proofs.Check.Scoped
import TriangleTam.Proofs.Tree.Relabelled

/-!
# Checking a relabelled tree

Checking compares names with each other and with those of the standard environment, and it uses
positions only to say where something is wrong. So a tree with its labels changed, checked where
the names have the same meanings with their labels changed, gets the same annotations with their
labels changed, the same storage and as many reports. Main statement: `Check.program_alike`.
-/

namespace TriangleTam

variable (r : Relabelling)

namespace Meaning

@[simp] theorem isConstant_relabel (m : Meaning) : (m.relabel r).isConstant = m.isConstant := by
  cases m <;> rfl

@[simp] theorem isVariable_relabel (m : Meaning) : (m.relabel r).isVariable = m.isVariable := by
  cases m <;> rfl

@[simp] theorem valueTy?_relabel (m : Meaning) : (m.relabel r).valueTy? = m.valueTy? := by
  cases m <;> rfl

@[simp] theorem storage?_relabel (m : Meaning) : (m.relabel r).storage? = m.storage? := by
  cases m <;> rfl

end Meaning

namespace Frame

/-- The frame with the labels of its names and of what they mean changed. -/
def relabel (f : Frame Meaning) : Frame Meaning :=
  ⟨f.comment, f.bindings.map fun b => (r.name b.1, b.2.map (Meaning.relabel r))⟩

theorem lookup?_relabel (f : Frame Meaning) (name : String) :
    (f.relabel r).lookup? (r.name name) = (f.lookup? name).map (Meaning.relabel r) := by
  obtain ⟨comment, bindings⟩ := f
  simp only [lookup?, relabel]
  induction bindings with
  | nil => rfl
  | cons b bindings ih =>
    obtain ⟨key, m⟩ := b
    by_cases here : name = key
    · subst here
      simp
    · have before : (name == key) = false := by simpa using here
      have after : (r.name name == r.name key) = false := by simpa [r.name_inj] using here
      simpa [List.lookup_cons, before, after] using ih

theorem insert_relabel (f : Frame Meaning) (name : String) (m : Meaning) :
    (f.relabel r).insert (r.name name) (some (m.relabel r)) =
      ((f.insert name (some m)).1.map (Meaning.relabel r),
        (f.insert name (some m)).2.relabel r) := by
  simp only [insert, lookup?_relabel]
  cases f.lookup? name with
  | some old => rfl
  | none =>
    simp [relabel, List.filter_map, Function.comp_def, r.name_inj]

end Frame

namespace Chain

/-- The chain with the labels of its frames changed. -/
def relabel (c : Chain Meaning) : Chain Meaning := c.map (Frame.relabel r)

theorem lookup?_relabel (c : Chain Meaning) (name : String) :
    Chain.lookup? (Chain.relabel r c) (r.name name) =
      (Chain.lookup? c name).map (Meaning.relabel r) := by
  induction c with
  | nil => rfl
  | cons f outer ih =>
    have cons : Chain.relabel r (f :: outer) = f.relabel r :: Chain.relabel r outer := rfl
    rw [cons, Chain.lookup?_cons, Chain.lookup?_cons, Frame.lookup?_relabel, ih]
    cases f.lookup? name <;> rfl

end Chain

/-- Whether the node is anything but an operator whose symbol is changed along with the names. -/
@[simp] def Node.KeepsSymbol : Node → Prop
  | op o => r.name o.symbol = o.symbol
  | _ => True

namespace Check

theorem relabel_rootFrame : rootFrame.relabel r = rootFrame := by
  have same : ∀ b ∈ Builtin.all, ((r.name b.name, some ((Meaning.builtin b).relabel r)) :
      String × Option Meaning) = (b.name, some (.builtin b)) := by
    intro b member
    rw [r.standard b member]
    rfl
  simpa [rootFrame, Environment.root, Environment.frame, Frame.relabel] using same

/-- The second run ends in what `F` makes of what the first ends in, with as many reports and as
many words in use. -/
structure Checked.Alike {α β : Type} (F : α → β) (x : Checked α) (y : Checked β) : Prop where
  value : y.value = F x.value
  reports : y.trace.reports.length = x.trace.reports.length
  peak : y.trace.peak = x.trace.peak

namespace Checked.Alike

variable {α β γ δ : Type} {F : α → β} {G : γ → δ}

theorem pure {a : α} {b : β} (same : b = F a) :
    Alike F (Pure.pure a : Checked α) (Pure.pure b) :=
  ⟨same, rfl, rfl⟩

theorem bind {x : Checked α} {y : Checked β} {f : α → Checked γ} {g : β → Checked δ}
    (first : Alike F x y) (next : ∀ a, Alike G (f a) (g (F a))) : Alike G (x >>= f) (y >>= g) := by
  have later := next x.value
  rw [← first.value] at later
  refine ⟨later.value, ?_, ?_⟩
  · simp [Trace.append, first.reports, later.reports]
  · simp [Trace.append, first.peak, later.peak]

theorem report (pos pos' : Pos) (e e' : Error) :
    Alike id (Checked.report pos e) (Checked.report pos' e') :=
  ⟨rfl, rfl, rfl⟩

theorem reportIf {c d : Bool} (same : d = c) (pos pos' : Pos) (e e' : Error) :
    Alike id (Checked.reportIf c pos e) (Checked.reportIf d pos' e') := by
  subst same
  cases d with
  | false => exact .pure rfl
  | true => exact .report _ _ _ _

theorem reach (words : Nat) : Alike id (Checked.reach words) (Checked.reach words) :=
  ⟨rfl, rfl, rfl⟩

theorem within {x : Checked α} {y : Checked β} (inner : Alike F x y) (pos pos' : Pos)
    (f g : Frame Meaning) : Alike F (x.within pos f) (y.within pos' g) :=
  ⟨inner.value, inner.reports, inner.peak⟩

end Checked.Alike

open Checked (Alike)

/-- The environment with its labels changed. -/
def Env.relabel (env : Env) : Env := ⟨Chain.relabel r env.chain, env.distance⟩

section Env

variable {r} (env : Env)

theorem Env.lookup?_relabel (name : String) :
    (env.relabel r).lookup? (r.name name) = (env.lookup? name).map (Meaning.relabel r) :=
  Chain.lookup?_relabel r env.chain name

theorem resolve_alike (id : Ident) :
    Alike (Prod.map (Ident.relabel r) (Option.map (Meaning.relabel r))) (env.resolve id)
      ((env.relabel r).resolve (id.relabel r)) := by
  simp only [Env.resolve, Ident.name_relabel, r.name_eq_empty, env.lookup?_relabel]
  by_cases missing : id.name = ""
  · simp only [missing, if_true]
    exact .pure rfl
  · simp only [missing, if_false]
    cases env.lookup? id.name with
    | some m => exact .pure rfl
    | none => exact .bind (.report _ _ _ _) fun _ => .pure rfl

theorem routine_alike (callee : Ident) (blank : Bool) :
    Alike (Prod.map (Ident.relabel r) id) (routine env callee blank)
      (routine (env.relabel r) (callee.relabel r) blank) := by
  refine .bind (resolve_alike env callee) ?_
  rintro ⟨i, m⟩
  cases m with
  | none => exact .pure rfl
  | some m =>
    cases m with
    | entity e => exact .bind (.report _ _ _ _) fun _ => .pure rfl
    | builtin b =>
      cases b with
      | func name params result prim =>
        by_cases count : (if blank = true then 0 else 1) = params.length
        · simp only [Prod.map, Option.map, Meaning.relabel, count, if_true]
          exact .pure rfl
        · simp only [Prod.map, Option.map, Meaning.relabel, count, if_false]
          exact .bind (.report _ _ _ _) fun _ => .pure rfl
      | _ => exact .bind (.report _ _ _ _) fun _ => .pure rfl

theorem argType_alike (pos pos' : Pos) (found : Ty) (expected : Option Expected) :
    Alike id (argType pos found expected) (argType pos' found expected) := by
  cases expected with
  | none => exact .pure rfl
  | some e => exact .reportIf rfl _ _ _ _

/-- What is said about a variable that is passed where a value is wanted. -/
theorem wantsValue_alike (expected : Option Expected) (pos : Pos) (id : Ident) :
    Alike (Arg.relabel r)
      (do
        match expected with
        | some e => Checked.reportIf (!e.formal.byRef) pos (.wantsValue e.routine)
        | none => pure ()
        return Arg.var pos id)
      (do
        match expected with
        | some e => Checked.reportIf (!e.formal.byRef) (r.pos pos) (.wantsValue e.routine)
        | none => pure ()
        return Arg.var (r.pos pos) (id.relabel r)) := by
  cases expected with
  | none => exact .pure rfl
  | some e => exact .bind (.reportIf rfl _ _ _ _) fun _ => .pure rfl

theorem varArg_alike (expected : Option Expected) (pos : Pos) (id : Ident) :
    Alike (Arg.relabel r) (varArg env expected pos id)
      (varArg (env.relabel r) expected (r.pos pos) (id.relabel r)) := by
  refine .bind (resolve_alike env id) ?_
  rintro ⟨i, m⟩
  cases m with
  | none => exact wantsValue_alike expected pos i
  | some m =>
    simp only [Prod.map, Option.map, Meaning.isVariable_relabel, Meaning.valueTy?_relabel]
    split
    · exact .bind (argType_alike _ _ _ _) fun _ => wantsValue_alike expected pos i
    · exact .bind (.report _ _ _ _) fun _ => wantsValue_alike expected pos i

omit env in
theorem nameType_alike (pos : Pos) (i : Ident) (m : Option Meaning) :
    Alike id (nameType pos i m)
      (nameType (r.pos pos) (i.relabel r) (m.map (Meaning.relabel r))) := by
  cases m with
  | none => exact .pure rfl
  | some m =>
    simp only [nameType, Option.map, Meaning.valueTy?_relabel]
    cases m.valueTy? with
    | some t => exact .pure rfl
    | none => exact .bind (.report _ _ _ _) fun _ => .pure rfl

omit env in
theorem needValue_alike (x : Expr) : Alike id (needValue x) (needValue (x.relabel r)) := by
  simp only [needValue, Expr.ty_relabel]
  cases x.ty with
  | none => exact .pure rfl
  | some t =>
    cases t with
    | void => exact .bind (.report _ _ _ _) fun _ => .pure rfl
    | _ => exact .pure rfl

variable {op : OpName} (keeps : r.name op.symbol = op.symbol)
include keeps

theorem lookup?_symbol :
    (env.relabel r).lookup? op.symbol = (env.lookup? op.symbol).map (Meaning.relabel r) := by
  have found := env.lookup?_relabel (r := r) op.symbol
  rwa [keeps] at found

theorem applyUnary_alike (pos pos' : Pos) (t : Ty) :
    Alike (Prod.map (OpName.relabel r) id) (applyUnary env op pos t)
      (applyUnary (env.relabel r) (op.relabel r) pos' t) := by
  have found := lookup?_symbol env keeps
  rw [applyUnary, applyUnary, show (op.relabel r).symbol = op.symbol from rfl, found]
  cases env.lookup? op.symbol with
  | none => exact .bind (.report _ _ _ _) fun _ => .pure rfl
  | some m =>
    cases m with
    | entity e => exact .bind (.report _ _ _ _) fun _ => .pure rfl
    | builtin b =>
      cases b with
      | unary symbol operand result prim =>
        exact .bind (.reportIf rfl _ _ _ _) fun _ => .pure rfl
      | _ => exact .bind (.report _ _ _ _) fun _ => .pure rfl

theorem applyBinary_alike (xPos xPos' yPos yPos' : Pos) (s t : Ty) :
    Alike (Prod.map (OpName.relabel r) id) (applyBinary env op xPos yPos s t)
      (applyBinary (env.relabel r) (op.relabel r) xPos' yPos' s t) := by
  have found := lookup?_symbol env keeps
  rw [applyBinary, applyBinary, show (op.relabel r).symbol = op.symbol from rfl, found]
  cases env.lookup? op.symbol with
  | none => exact .bind (.report _ _ _ _) fun _ => .pure rfl
  | some m =>
    cases m with
    | entity e => exact .bind (.report _ _ _ _) fun _ => .pure rfl
    | builtin b =>
      cases b with
      | binary symbol left right result prim =>
        by_cases both : left = .any ∧ right = .any
        · simp only [Option.map, Meaning.relabel, both, and_self, if_true]
          exact .bind (.reportIf rfl _ _ _ _) fun _ => .pure rfl
        · simp only [Option.map, Meaning.relabel, both, if_false]
          exact .bind (.reportIf rfl _ _ _ _) fun _ =>
            .bind (.reportIf rfl _ _ _ _) fun _ => .pure rfl
      | _ => exact .bind (.report _ _ _ _) fun _ => .pure rfl

end Env

section Expressions

variable {r} (env : Env)

theorem isBlank_relabel (a : Arg) : isBlank (a.relabel r) = isBlank a := by
  cases a <;> rfl

mutual

theorem expr_alike : ∀ x : Expr, (x.All (Node.KeepsSymbol r)) →
    Alike (Expr.relabel r) (expr env x) (expr (env.relabel r) (x.relabel r))
  | .int pos ty lit, _ => by
    rw [Expr.relabel, expr, expr]
    exact .bind (.reportIf rfl _ _ _ _) fun _ => .pure rfl
  | .char .., _ | .bad .., _ => by
    rw [Expr.relabel, expr, expr]
    exact .pure rfl
  | .name pos ty id, _ => by
    rw [Expr.relabel, expr, expr]
    refine .bind (resolve_alike env id) ?_
    rintro ⟨i, m⟩
    exact .bind (nameType_alike pos i m) fun t => .pure rfl
  | .unary pos ty op x, keeps => by
    obtain ⟨-, symbol, inner⟩ := Expr.all_unary.1 keeps
    rw [Expr.relabel, expr, expr]
    refine .bind (expr_alike x inner) fun x => ?_
    refine .bind (needValue_alike x) fun t => ?_
    refine .bind (applyUnary_alike env symbol _ _ _) ?_
    rintro ⟨op, result⟩
    exact .pure rfl
  | .binary pos ty x op y, keeps => by
    obtain ⟨-, left, symbol, right⟩ := Expr.all_binary.1 keeps
    rw [Expr.relabel, expr, expr]
    refine .bind (expr_alike x left) fun x => ?_
    refine .bind (needValue_alike x) fun s => ?_
    refine .bind (expr_alike y right) fun y => ?_
    refine .bind (needValue_alike y) fun t => ?_
    refine .bind (applyBinary_alike env symbol _ _ _ _ _ _) ?_
    rintro ⟨op, result⟩
    exact .pure rfl
  | .call pos ty callee a, keeps => by
    obtain ⟨-, -, inner⟩ := Expr.all_call.1 keeps
    rw [Expr.relabel, expr, expr, isBlank_relabel]
    refine .bind (routine_alike env callee _) ?_
    rintro ⟨i, expected, result⟩
    exact .bind (arg_alike expected a inner) fun a => .pure rfl

theorem arg_alike (expected : Option Expected) : ∀ a : Arg, (a.All (Node.KeepsSymbol r)) →
    Alike (Arg.relabel r) (arg env expected a) (arg (env.relabel r) expected (a.relabel r))
  | .value pos x, keeps => by
    rw [Arg.relabel, arg, arg]
    refine .bind (expr_alike x (Arg.all_value.1 keeps).2) fun x => ?_
    refine .bind (needValue_alike x) fun t => ?_
    refine .bind (argType_alike _ _ t expected) fun _ => ?_
    cases expected with
    | none => exact .pure rfl
    | some e => exact .bind (.reportIf rfl _ _ _ _) fun _ => .pure rfl
  | .var pos id, _ => by
    rw [Arg.relabel, arg, arg]
    exact varArg_alike env expected pos id
  | .blank _, _ | .bad _, _ => by
    rw [Arg.relabel, arg, arg]
    exact .pure rfl

end

variable {x : Expr} (keeps : x.All (Node.KeepsSymbol r))
include keeps

theorem value_alike :
    Alike (Prod.map (Expr.relabel r) id) (value env x) (value (env.relabel r) (x.relabel r)) :=
  .bind (expr_alike env x keeps) fun x => .bind (needValue_alike x) fun _ => .pure rfl

theorem condition_alike (command : String) :
    Alike (Expr.relabel r) (condition env command x)
      (condition (env.relabel r) command (x.relabel r)) := by
  refine .bind (value_alike env keeps) ?_
  rintro ⟨x, t⟩
  exact .bind (.reportIf rfl _ _ _ _) fun _ => .pure rfl

theorem assign_alike (target : Ident) :
    Alike (Prod.map (Ident.relabel r) (Expr.relabel r)) (assign env target x)
      (assign (env.relabel r) (target.relabel r) (x.relabel r)) := by
  refine .bind (value_alike env keeps) ?_
  rintro ⟨x, t⟩
  refine .bind (resolve_alike env target) ?_
  rintro ⟨i, m⟩
  cases m with
  | none => exact .pure rfl
  | some m =>
    simp only [Prod.map, Option.map, Meaning.isVariable_relabel, Meaning.valueTy?_relabel]
    split
    · exact .bind (.reportIf rfl _ _ _ _) fun _ => .pure rfl
    · exact .bind (.report _ _ _ _) fun _ => .pure rfl

end Expressions

section Declarations

/-- The declarations of a `let`, as far as they are checked, with their labels changed. -/
def Block.relabel (block : Block) : Block := { block with frame := block.frame.relabel r }

/-- Where declarations stand, with the labels around changed. -/
def Site.relabel (site : Site) : Site := { site with outer := Chain.relabel r site.outer }

variable {r} (site : Site)

theorem typeNamed_alike (env : Env) (i : Ident) :
    Alike (Prod.map (Ident.relabel r) id) (typeNamed env i)
      (typeNamed (env.relabel r) (i.relabel r)) := by
  refine .bind (resolve_alike env i) ?_
  rintro ⟨i, m⟩
  cases m with
  | none => exact .pure rfl
  | some m =>
    cases m with
    | entity e => exact .bind (.report _ _ _ _) fun _ => .pure rfl
    | builtin b =>
      cases b with
      | type t => exact .pure rfl
      | _ => exact .bind (.report _ _ _ _) fun _ => .pure rfl

theorem declare_alike (block : Block) (id : Ident) (e : Entity) :
    Alike (Prod.map (Ident.relabel r) (Block.relabel r)) (declare block id e)
      (declare (block.relabel r) (id.relabel r) (e.relabel r)) := by
  have inserted := block.frame.insert_relabel r id.name (.entity e)
  simp only [declare, Ident.name_relabel, r.name_eq_empty]
  by_cases missing : id.name = ""
  · simp only [missing, if_true]
    exact .pure rfl
  · simp only [missing, if_false, Block.relabel]
    rw [show some (Meaning.entity (e.relabel r)) = some ((Meaning.entity e).relabel r) from rfl,
      inserted]
    generalize block.frame.insert id.name (some (.entity e)) = bound
    obtain ⟨old, frame⟩ := bound
    cases old with
    | some m => exact .bind (.report _ _ _ _) fun _ => .pure rfl
    | none => exact .pure rfl

theorem allocate_alike (block : Block) (kind : Storage.Kind) (size : Nat) :
    Alike (Prod.map id (Block.relabel r)) (allocate site block kind size)
      (allocate (site.relabel r) (block.relabel r) kind size) :=
  .bind (.reach _) fun _ => .pure rfl

theorem knownValue?_relabel (x : Expr) : knownValue? (x.relabel r) = knownValue? x := by
  cases x with
  | name pos ty id =>
    rw [Expr.relabel, knownValue?, knownValue?]
    cases meaning : id.meaning with
    | none => simp [Ident.relabel, meaning]
    | some m => simp [Ident.relabel, meaning]
  | _ => simp [Expr.relabel, knownValue?, Literal.relabel, Literal.intValue?, Literal.charValue?]

theorem constStorage_alike (block : Block) (x : Expr) (t : Ty) :
    Alike (Prod.map id (Block.relabel r)) (constStorage site block x t)
      (constStorage (site.relabel r) (block.relabel r) (x.relabel r) t) := by
  simp only [constStorage, knownValue?_relabel]
  cases knownValue? x with
  | some v => exact .pure rfl
  | none => exact allocate_alike site block _ _

mutual

theorem decl_alike : ∀ (block : Block) (d : Decl), (d.All (Node.KeepsSymbol r)) →
    Alike (Prod.map (Decl.relabel r) (Block.relabel r)) (decl site block d)
      (decl (site.relabel r) (block.relabel r) (d.relabel r))
  | block, .const pos ty storage name x, keeps => by
    rw [Decl.relabel, decl, decl]
    refine .bind (value_alike (site.env block) (Decl.all_const.1 keeps).2.2) ?_
    rintro ⟨x, t⟩
    refine .bind (constStorage_alike site block x t) ?_
    rintro ⟨storage, block⟩
    refine .bind (declare_alike block name ⟨.const, name.name, pos, name.pos, t, storage⟩) ?_
    rintro ⟨id, block⟩
    exact .pure rfl
  | block, .var pos ty storage name typeName, _ => by
    rw [Decl.relabel, decl, decl]
    refine .bind (typeNamed_alike (site.env block) typeName) ?_
    rintro ⟨typeName, t⟩
    refine .bind (allocate_alike site block .knownAddress t.size) ?_
    rintro ⟨storage, block⟩
    refine .bind (declare_alike block name ⟨.var, name.name, pos, name.pos, t, storage⟩) ?_
    rintro ⟨id, block⟩
    exact .pure rfl
  | block, .seq pos ds, keeps => by
    rw [Decl.relabel, decl, decl]
    refine .bind (decls_alike block ds (Decl.all_seq.1 keeps).2) ?_
    rintro ⟨ds, block⟩
    exact .pure (by simp [Decl.relabel])
  | block, .bad _, _ => by
    rw [Decl.relabel, decl, decl]
    exact .pure rfl
  | block, .builtin b, _ => by
    rw [Decl.relabel, decl, decl]
    exact .bind (.report _ _ _ _) fun _ => .pure rfl

theorem decls_alike : ∀ (block : Block) (ds : List Decl),
    (∀ d ∈ ds, d.All (Node.KeepsSymbol r)) →
    Alike (Prod.map (List.map (Decl.relabel r)) (Block.relabel r)) (decls site block ds)
      (decls (site.relabel r) (block.relabel r) (Decl.relabelAll r ds))
  | block, [], _ => by
    rw [Decl.relabelAll, decls, decls]
    exact .pure rfl
  | block, d :: ds, keeps => by
    rw [Decl.relabelAll, decls, decls]
    refine .bind (decl_alike block d (keeps d (by simp))) ?_
    rintro ⟨d, block⟩
    refine .bind (decls_alike block ds fun d h => keeps d (by simp [h])) ?_
    rintro ⟨ds, block⟩
    exact .pure rfl

end

end Declarations

section Commands

/-- Where a command stands, with the labels around changed. -/
def Place.relabel (p : Place) : Place := { p with chain := Chain.relabel r p.chain }

variable {r}

mutual

theorem cmd_alike : ∀ (p : Place) (c : Cmd), (c.All (Node.KeepsSymbol r)) →
    Alike (Cmd.relabel r) (cmd p c) (cmd (p.relabel r) (c.relabel r))
  | p, .skip .., _ | p, .bad _, _ => by
    rw [Cmd.relabel, cmd, cmd]
    exact .pure rfl
  | p, .assign pos target x, keeps => by
    rw [Cmd.relabel, cmd, cmd]
    refine .bind (assign_alike p.env (Cmd.all_assign.1 keeps).2.2 target) ?_
    rintro ⟨target, x⟩
    exact .pure rfl
  | p, .call pos callee a, keeps => by
    rw [Cmd.relabel, cmd, cmd, isBlank_relabel]
    refine .bind (routine_alike p.env callee _) ?_
    rintro ⟨i, expected, result⟩
    exact .bind (arg_alike p.env expected a (Cmd.all_call.1 keeps).2.2) fun a => .pure rfl
  | p, .seq pos cs, keeps => by
    rw [Cmd.relabel, cmd, cmd]
    refine .bind (cmds_alike p cs (Cmd.all_seq.1 keeps).2) fun cs => ?_
    exact .pure (by simp [Cmd.relabel])
  | p, .block pos body close, keeps => by
    rw [Cmd.relabel, cmd, cmd]
    refine .within ?_ _ _ _ _
    exact .bind (cmd_alike p.inBraces body (Cmd.all_block.1 keeps).2) fun body => .pure rfl
  | p, .ifElse pos cond yes no, keeps => by
    obtain ⟨-, test, then_, else_⟩ := Cmd.all_ifElse.1 keeps
    rw [Cmd.relabel, cmd, cmd]
    refine .bind (condition_alike p.env test _) fun cond => ?_
    refine .bind (cmd_alike p yes then_) fun yes => ?_
    exact .bind (cmd_alike p no else_) fun no => .pure rfl
  | p, .ifEither pos cond alt yes no, keeps => by
    obtain ⟨-, test, test', then_, else_⟩ := Cmd.all_ifEither.1 keeps
    rw [Cmd.relabel, cmd, cmd]
    refine .bind (condition_alike p.env test _) fun cond => ?_
    refine .bind (condition_alike p.env test' _) fun alt => ?_
    refine .bind (cmd_alike p yes then_) fun yes => ?_
    exact .bind (cmd_alike p no else_) fun no => .pure rfl
  | p, .whileDo pos cond body, keeps => by
    obtain ⟨-, test, inner⟩ := Cmd.all_whileDo.1 keeps
    rw [Cmd.relabel, cmd, cmd]
    refine .bind (condition_alike p.env test _) fun cond => ?_
    exact .bind (cmd_alike p body inner) fun body => .pure rfl
  | p, .letIn pos d body, keeps => by
    obtain ⟨-, declared, inner⟩ := Cmd.all_letIn.1 keeps
    rw [Cmd.relabel, cmd, cmd]
    refine .bind (decl_alike p.letSite ⟨letFrame, p.offset⟩ d declared) ?_
    rintro ⟨d, block⟩
    refine .within ?_ _ _ _ _
    exact .bind (cmd_alike (p.letBody block) body inner) fun body => .pure rfl

theorem cmds_alike : ∀ (p : Place) (cs : List Cmd), (∀ c ∈ cs, c.All (Node.KeepsSymbol r)) →
    Alike (List.map (Cmd.relabel r)) (cmds p cs) (cmds (p.relabel r) (Cmd.relabelAll r cs))
  | p, [], _ => by
    rw [Cmd.relabelAll, cmds, cmds]
    exact .pure rfl
  | p, c :: cs, keeps => by
    rw [Cmd.relabelAll, cmds, cmds]
    refine .bind (cmd_alike p c (keeps c (by simp))) fun c => ?_
    exact .bind (cmds_alike p cs fun c h => keeps c (by simp [h])) fun cs => .pure rfl

end

/-- Checking a program with its labels changed makes of it the checked program with its labels
changed; as much is reported, and as much storage is in use. -/
theorem program_alike (distance : Int) {t : Program} (keeps : t.All (Node.KeepsSymbol r)) :
    (program distance (t.relabel r)).program = (program distance t).program.relabel r ∧
      (program distance (t.relabel r)).reports.length = (program distance t).reports.length ∧
      (program distance (t.relabel r)).frameSize = (program distance t).frameSize := by
  have alike := cmd_alike ⟨[rootFrame], distance, 0, 0⟩ t.body (Program.all_iff.1 keeps).2
  have place : Place.relabel r ⟨[rootFrame], distance, 0, 0⟩ = ⟨[rootFrame], distance, 0, 0⟩ := by
    simp [Place.relabel, Chain.relabel, relabel_rootFrame]
  rw [place] at alike
  refine ⟨?_, alike.reports, alike.peak⟩
  show (⟨_, _⟩ : Program) = ⟨_, _⟩
  exact congrArg _ alike.value

end Commands

end Check

end TriangleTam
