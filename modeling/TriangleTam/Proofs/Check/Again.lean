import TriangleTam.Proofs.Check.Annotations
import TriangleTam.Proofs.Check.Declarations
import TriangleTam.Proofs.Compilation
import TriangleTam.Proofs.Parser.Bare

/-!
# Checking once more

Checking writes annotations and reads one of them, what the value of a constant means. It reads it
only behind the place where it has looked the name up itself, and a name that it cannot resolve
keeps what it had, which in the tree of a text is nothing. So a tree that was checked before is
checked like the bare tree: `expr_again`, `decl_again` and `cmd_again` say so for the parts of a
program. Main statement: `Program.check_again`, a second run comes to the same result as the first.
-/

namespace TriangleTam

/-- The node without types, storage and meanings. -/
def Node.bare : Node → Node
  | program p => program p.bare
  | cmd c => cmd c.bare
  | decl d => decl d.bare
  | expr e => expr e.bare
  | arg a => arg a.bare
  | ident i => ident i.bare
  | op o => op o.bare
  | intLit l => intLit l
  | charLit l => charLit l

section Walk

attribute [local simp] Expr.walk Arg.walk Decl.walk Decl.walkAll Cmd.walk Cmd.walkAll Expr.bare
  Arg.bare Decl.bare Cmd.bare Node.bare

mutual

theorem Expr.walk_bare : ∀ x : Expr,
    x.bare.walk (fun _ => true) = (x.walk fun _ => true).map Node.bare
  | .int .. | .char .. | .name .. | .bad .. => by simp
  | .unary _ _ _ x => by simp [x.walk_bare]
  | .binary _ _ x _ y => by simp [x.walk_bare, y.walk_bare]
  | .call _ _ _ a => by simp [a.walk_bare]

theorem Arg.walk_bare : ∀ a : Arg,
    a.bare.walk (fun _ => true) = (a.walk fun _ => true).map Node.bare
  | .value _ x => by simp [x.walk_bare]
  | .var .. | .blank _ | .bad _ => by simp

end

mutual

theorem Decl.walk_bare : ∀ d : Decl,
    d.bare.walk (fun _ => true) = (d.walk fun _ => true).map Node.bare
  | .const _ _ _ _ x => by simp [x.walk_bare]
  | .var .. | .bad _ | .builtin _ => by simp
  | .seq _ ds => by simp [Decl.walkAll_bare ds]

theorem Decl.walkAll_bare : ∀ ds : List Decl,
    Decl.walkAll (fun _ => true) (ds.map Decl.bare) =
      (Decl.walkAll (fun _ => true) ds).map Node.bare
  | [] => rfl
  | d :: ds => by simp [d.walk_bare, Decl.walkAll_bare ds]

end

mutual

theorem Cmd.walk_bare : ∀ c : Cmd,
    c.bare.walk (fun _ => true) = (c.walk fun _ => true).map Node.bare
  | .assign _ _ x => by simp [x.walk_bare]
  | .call _ _ a => by simp [a.walk_bare]
  | .seq _ cs => by simp [Cmd.walkAll_bare cs]
  | .block _ body _ => by simp [body.walk_bare]
  | .ifElse _ cond yes no => by simp [cond.walk_bare, yes.walk_bare, no.walk_bare]
  | .ifEither _ cond alt yes no => by
    simp [cond.walk_bare, alt.walk_bare, yes.walk_bare, no.walk_bare]
  | .whileDo _ cond body => by simp [cond.walk_bare, body.walk_bare]
  | .letIn _ d body => by simp [d.walk_bare, body.walk_bare]
  | .skip .. | .bad _ => by simp

theorem Cmd.walkAll_bare : ∀ cs : List Cmd,
    Cmd.walkAll (fun _ => true) (cs.map Cmd.bare) =
      (Cmd.walkAll (fun _ => true) cs).map Node.bare
  | [] => rfl
  | c :: cs => by simp [c.walk_bare, Cmd.walkAll_bare cs]

end

/-- The nodes of the bare tree are the bare nodes of the tree. -/
theorem Program.nodes_bare (p : Program) : p.bare.nodes = p.nodes.map Node.bare := by
  simp [Program.nodes, Program.walk, Program.bare, p.body.walk_bare]

/-- Annotations have nothing to do with character literals. -/
theorem Program.LiteralsProper.of_bare {p : Program} (proper : p.bare.LiteralsProper) :
    p.LiteralsProper := by
  rintro n member lit rfl
  refine proper _ ?_ lit rfl
  rw [Program.nodes_bare]
  exact List.mem_map_of_mem member (f := Node.bare)

end Walk

namespace Check

/-- What follows a part of a check depends only on the result of that part. -/
theorem Checked.bind_congr {α β : Type} {x : Checked α} {f g : α → Checked β}
    (same : f x.value = g x.value) : x >>= f = x >>= g := by
  show (⟨(f x.value).value, x.trace.append (f x.value).trace⟩ : Checked β) = _
  rw [same]
  rfl

section Names

variable (env : Env)

/-- A name that was looked up before is looked up like a bare one: what it means is written over,
and if it means nothing then nothing was written. -/
theorem resolve_again (id : Ident) :
    env.resolve (env.resolve id.bare).value.1 = env.resolve id.bare := by
  by_cases missing : id.name = ""
  · have first : env.resolve id.bare = pure (id.bare, none) := if_pos missing
    rw [first]
    exact first
  · cases found : env.lookup? id.name with
    | some m => simp [Env.resolve, Ident.bare, missing, found]
    | none => simp [Env.resolve, Ident.bare, missing, found]

theorem routine_again (callee : Ident) (blank : Bool) :
    routine env (env.resolve callee.bare).value.1 blank = routine env callee.bare blank := by
  rw [routine, resolve_again, ← routine]

theorem typeNamed_again (id : Ident) :
    typeNamed env (env.resolve id.bare).value.1 = typeNamed env id.bare := by
  rw [typeNamed, resolve_again, ← typeNamed]

theorem varArg_again (expected : Option Expected) (pos : Pos) (id : Ident) :
    varArg env expected pos (env.resolve id.bare).value.1 = varArg env expected pos id.bare := by
  rw [varArg, resolve_again, ← varArg]

theorem applyUnary_again (op : OpName) (pos pos' : Pos) (t t' : Ty) :
    applyUnary env (applyUnary env op.bare pos t).value.1 pos' t' =
      applyUnary env op.bare pos' t' := by
  cases found : env.lookup? op.symbol with
  | none => simp [applyUnary, OpName.bare, found]
  | some m =>
    cases m with
    | entity e => simp [applyUnary, OpName.bare, found]
    | builtin b => cases b <;> simp [applyUnary, OpName.bare, found]

theorem applyBinary_again (op : OpName) (xPos yPos xPos' yPos' : Pos) (s t s' t' : Ty) :
    applyBinary env (applyBinary env op.bare xPos yPos s t).value.1 xPos' yPos' s' t' =
      applyBinary env op.bare xPos' yPos' s' t' := by
  cases found : env.lookup? op.symbol with
  | none => simp [applyBinary, OpName.bare, found]
  | some m =>
    cases m with
    | entity e => simp [applyBinary, OpName.bare, found]
    | builtin b =>
      cases b with
      | binary symbol left right result prim =>
        by_cases either : left = .any ∧ right = .any <;>
          simp [applyBinary, OpName.bare, found, either]
      | _ => simp [applyBinary, OpName.bare, found]

end Names

section Expressions

variable (env : Env)

@[simp] theorem isBlank_bare (a : Arg) : isBlank a.bare = isBlank a := by
  cases a <;> simp [Arg.bare, isBlank]

@[simp] theorem isBlank_arg (expected : Option Expected) (a : Arg) :
    isBlank (arg env expected a).value = isBlank a := by
  rw [← isBlank_bare, bare_arg, isBlank_bare]

mutual

theorem expr_again : ∀ x : Expr, expr env (expr env x.bare).value = expr env x.bare
  | .int .. | .char .. | .bad .. => by simp [expr, Expr.bare]
  | .name pos ty id => by simp [expr, Expr.bare, resolve_again]
  | .unary pos ty op x => by simp [expr, Expr.bare, expr_again x, applyUnary_again]
  | .binary pos ty x op y => by
    simp [expr, Expr.bare, expr_again x, expr_again y, applyBinary_again]
  | .call pos ty callee a => by
    simp [expr, Expr.bare, routine_again, arg_again _ _ a]

/-- What an actual parameter is compared with leaves no trace on it. -/
theorem arg_again (expected expected' : Option Expected) : ∀ a : Arg,
    arg env expected' (arg env expected a.bare).value = arg env expected' a.bare
  | .value pos x => by rw [Arg.bare, value_arg_value, arg, expr_again x, arg]
  | .var pos id => by simp [arg, Arg.bare, varArg_again]
  | .blank _ | .bad _ => by simp [arg, Arg.bare]

end

theorem value_again (x : Expr) : value env (expr env x.bare).value = value env x.bare := by
  rw [value, expr_again, ← value]

theorem condition_again (command : String) (x : Expr) :
    condition env command (expr env x.bare).value = condition env command x.bare := by
  rw [condition, value_again, ← condition]

theorem assign_again (target : Ident) (x : Expr) :
    assign env (env.resolve target.bare).value.1 (expr env x.bare).value =
      assign env target.bare x.bare := by
  rw [assign, value_again, resolve_again, ← assign]

end Expressions

section Declarations

/-- A name that was bound before is bound like a bare one, in the same frame. -/
theorem declare_again (block : Block) (id : Ident) (e : Entity) :
    declare block (declare block id.bare e).value.1 e = declare block id.bare e := by
  by_cases missing : id.name = ""
  · have first : declare block id.bare e = pure (id.bare, block) := if_pos missing
    rw [first]
    exact first
  · cases found : block.frame.lookup? id.name with
    | none =>
      obtain ⟨g, bound, -⟩ := declare_of_fresh (e := e) missing found
      simp [declare, Ident.bare, missing, bound]
    | some old =>
      have taken := Frame.insert_eq_of_lookup?_eq_some (d := some (.entity e)) found
      simp [declare, Ident.bare, missing, taken]

mutual

theorem decl_again (site : Site) : ∀ (d : Decl) (block : Block),
    decl site block (decl site block d.bare).value.1 = decl site block d.bare
  | .const pos ty storage name x, block => by
    simp only [decl, Decl.bare, Checked.value_bind, Checked.value_pure, value_value_fst,
      value_again, name_declare, pos_declare]
    refine Checked.bind_congr (Checked.bind_congr ?_)
    simp only [value_value_fst, declare_again]
  | .var pos ty storage name typeName, block => by
    simp only [decl, Decl.bare, Checked.value_bind, Checked.value_pure, value_resolve_typeNamed,
      typeNamed_again, name_declare, pos_declare]
    refine Checked.bind_congr (Checked.bind_congr ?_)
    simp only [declare_again]
  | .seq pos ds, block => by simp [decl, Decl.bare, decls_again site ds block]
  | .bad _, block | .builtin _, block => by simp [decl, Decl.bare]

theorem decls_again (site : Site) : ∀ (ds : List Decl) (block : Block),
    decls site block (decls site block (ds.map Decl.bare)).value.1 =
      decls site block (ds.map Decl.bare)
  | [], block => by simp [decls]
  | d :: ds, block => by
    simp only [decls, List.map_cons, Checked.value_bind, Checked.value_pure,
      decl_again site d block]
    refine Checked.bind_congr ?_
    simp only [decls_again site ds]

end

end Declarations

section Commands

mutual

theorem cmd_again : ∀ (c : Cmd) (p : Place), cmd p (cmd p c.bare).value = cmd p c.bare
  | .skip .., p | .bad _, p => by simp [cmd, Cmd.bare]
  | .assign pos target x, p => by simp [cmd, Cmd.bare, assign_again]
  | .call pos callee a, p => by simp [cmd, Cmd.bare, routine_again, arg_again]
  | .seq pos cs, p => by simp [cmd, Cmd.bare, cmds_again cs p]
  | .block pos body close, p => by simp [cmd, Cmd.bare, cmd_again body]
  | .ifElse pos cond yes no, p => by
    simp [cmd, Cmd.bare, condition_again, cmd_again yes, cmd_again no]
  | .ifEither pos cond alt yes no, p => by
    simp [cmd, Cmd.bare, condition_again, cmd_again yes, cmd_again no]
  | .whileDo pos cond body, p => by simp [cmd, Cmd.bare, condition_again, cmd_again body]
  | .letIn pos d body, p => by
    simp only [cmd, Cmd.bare, Checked.value_bind, Checked.value_pure, Checked.value_within,
      decl_again]
    refine Checked.bind_congr ?_
    simp only [cmd_again body]

theorem cmds_again : ∀ (cs : List Cmd) (p : Place),
    cmds p (cmds p (cs.map Cmd.bare)).value = cmds p (cs.map Cmd.bare)
  | [], p => by simp [cmds]
  | c :: cs, p => by simp [cmds, cmd_again c, cmds_again cs]

end

end Commands

/-- A program that was checked before is checked like the bare one. -/
theorem program_again (distance : Int) (p : Program) :
    program distance (program distance p.bare).program = program distance p.bare := by
  simp only [program, Program.bare, cmd_again]

end Check

/-- Checking is idempotent. The tree of any text, whatever is wrong with it, is checked once and
then, with all its annotations, once more: the second run reports the same in the same order, comes
to the same frames and the same frame size, and leaves every annotation as it is. -/
theorem Program.check_again (file : String) (bytes : List UInt8) (lenient : Bool)
    (limit distance : Int) :
    ∃ r, (Program.ofText file bytes lenient limit).check distance = .ok r ∧
      r.program.bare = Program.ofText file bytes lenient limit ∧
      r.program.check distance = .ok r := by
  let p := Program.ofText file bytes lenient limit
  have bare : p.bare = p := Program.bare_ofText file bytes lenient limit
  have literals : p.LiteralsProper := Parser.parse_scan_literalsProper _ lenient limit
  have same : (Check.program distance p).program.bare = p := by rw [Check.bare_program, bare]
  have literals' : (Check.program distance p).program.LiteralsProper :=
    .of_bare (by rwa [same])
  have again := Check.program_again distance p
  rw [bare] at again
  refine ⟨_, p.check_eq_ok literals distance, same, ?_⟩
  rw [Program.check_eq_ok literals', again]

end TriangleTam
