import TriangleTam.Generate
import TriangleTam.Proofs.Tree.Relabelled

/-!
# Code of a relabelled tree

Code is made from what names mean and from where entities are kept, and labels only go into what is
said if there is no code. So a tree and the same tree with its labels changed have the same code, or
none of the two has any: `Program.code_relabel`.
-/

namespace TriangleTam

namespace Generate

/-- The two come to the same, or neither comes to anything. -/
def Same {α : Type} (x y : Except Fault α) : Prop := x.toOption = y.toOption

namespace Same

variable {α β : Type} {x y : Except Fault α}

theorem refl (x : Except Fault α) : Same x x := rfl

theorem error (e f : Fault) : Same (.error e : Except Fault α) (.error f) := rfl

theorem bind {f g : α → Except Fault β} (first : Same x y) (next : ∀ a, Same (f a) (g a)) :
    Same (x >>= f) (y >>= g) := by
  cases x with
  | error e =>
    cases y with
    | error e' => rfl
    | ok b => cases first
  | ok a =>
    cases y with
    | error e' => cases first
    | ok b =>
      obtain rfl : a = b := Option.some.inj first
      exact next a

theorem ite {c : Prop} [Decidable c] (x : Except Fault α) (e f : Fault) :
    Same (if c then x else .error e) (if c then x else .error f) := by
  by_cases holds : c
  · rw [if_pos holds, if_pos holds]
    exact .refl x
  · rw [if_neg holds, if_neg holds]
    exact .error e f

theorem eq_ok {a : α} (same : Same x y) (h : y = .ok a) : x = .ok a := by
  subst h
  cases x with
  | error e => cases same
  | ok b => rw [Option.some.inj same]

end Same

variable (r : Relabelling)

section Names

theorem storageOf_relabel (id : Ident) : Same (storageOf (id.relabel r)) (storageOf id) := by
  obtain ⟨pos, name, meaning⟩ := id
  cases meaning with
  | none => exact .error _ _
  | some m =>
    cases m with
    | builtin b =>
      simp only [storageOf, Ident.relabel, Option.map, Meaning.relabel]
      cases b.storage? with
      | none => exact .error _ _
      | some s => exact .refl _
    | entity e =>
      obtain ⟨kind, name, pos, namePos, ty, storage⟩ := e
      cases storage with
      | none => exact .error _ _
      | some s => exact .refl _

theorem load_relabel (id : Ident) : Same (load (id.relabel r)) (load id) := by
  refine .bind (storageOf_relabel r id) fun s => ?_
  cases s.kind with
  | other code => exact .error _ _
  | _ => exact .refl _

theorem store_relabel (id : Ident) : Same (store (id.relabel r)) (store id) :=
  .bind (storageOf_relabel r id) fun _ => .ite _ _ _

theorem address_relabel (id : Ident) : Same (address (id.relabel r)) (address id) :=
  .bind (storageOf_relabel r id) fun _ => .ite _ _ _

theorem routineOf_relabel (callee : Ident) :
    Same (routineOf (callee.relabel r)) (routineOf callee) := by
  obtain ⟨pos, name, meaning⟩ := callee
  rcases meaning with _ | (b | e)
  · exact .error _ _
  · cases b with
    | func name params result prim => exact .refl _
    | _ => exact .error _ _
  · exact .error _ _

theorem unaryOf_relabel (op : OpName) : Same (unaryOf (op.relabel r)) (unaryOf op) := by
  obtain ⟨pos, symbol, meaning⟩ := op
  rcases meaning with _ | (b | e)
  · exact .error _ _
  · cases b with
    | unary symbol operand result prim => exact .refl _
    | _ => exact .error _ _
  · exact .error _ _

theorem binaryOf_relabel (op : OpName) : Same (binaryOf (op.relabel r)) (binaryOf op) := by
  obtain ⟨pos, symbol, meaning⟩ := op
  rcases meaning with _ | (b | e)
  · exact .error _ _
  · cases b with
    | binary symbol left right result prim => exact .refl _
    | _ => exact .error _ _
  · exact .error _ _

theorem typeOf_relabel (x : Expr) : Same (typeOf (x.relabel r)) (typeOf x) := by
  simp only [typeOf, Expr.ty_relabel]
  cases x.ty with
  | none => exact .error _ _
  | some t => exact .refl _

theorem intCode_relabel (pos pos' : Pos) (lit : Literal) :
    Same (intCode pos' (lit.relabel r)) (intCode pos lit) := by
  have value : (lit.relabel r).intValue? = lit.intValue? := rfl
  simp only [intCode, value]
  cases lit.intValue? with
  | none => exact .error _ _
  | some v => exact .refl _

theorem charCode_relabel (lit : Literal) : Same (charCode (lit.relabel r)) (charCode lit) :=
  .refl _

end Names

mutual

theorem expr_relabel : ∀ x : Expr, Same (expr (x.relabel r)) (expr x)
  | .int pos ty lit => by
    rw [Expr.relabel, expr, expr]
    exact .bind (typeOf_relabel r (.int pos ty lit)) fun _ => intCode_relabel r _ _ lit
  | .char pos ty lit => by
    rw [Expr.relabel, expr, expr]
    exact .bind (typeOf_relabel r (.char pos ty lit)) fun _ => charCode_relabel r lit
  | .name pos ty id => by
    rw [Expr.relabel, expr, expr]
    exact .bind (typeOf_relabel r (.name pos ty id)) fun _ => load_relabel r id
  | .unary pos ty op x => by
    have typed := typeOf_relabel r (.unary pos ty op x)
    rw [Expr.relabel] at typed ⊢
    rw [expr, expr]
    refine .bind typed fun _ => ?_
    refine .bind (expr_relabel x) fun _ => ?_
    exact .bind (unaryOf_relabel r op) fun _ => .refl _
  | .binary pos ty x op y => by
    have typed := typeOf_relabel r (.binary pos ty x op y)
    rw [Expr.relabel] at typed ⊢
    rw [expr, expr]
    refine .bind typed fun _ => ?_
    refine .bind (expr_relabel x) fun _ => ?_
    refine .bind (expr_relabel y) fun _ => ?_
    refine .bind (binaryOf_relabel r op) fun _ => ?_
    exact .bind (typeOf_relabel r x) fun _ => .refl _
  | .call pos ty callee a => by
    have typed := typeOf_relabel r (.call pos ty callee a)
    rw [Expr.relabel] at typed ⊢
    rw [expr, expr]
    refine .bind typed fun _ => ?_
    refine .bind (routineOf_relabel r callee) ?_
    rintro ⟨result, prim⟩
    exact .bind (arg_relabel a) fun _ => .refl _
  | .bad pos ty => by
    rw [Expr.relabel, expr, expr]
    exact .bind (typeOf_relabel r (.bad pos ty)) fun _ => .error _ _

theorem arg_relabel : ∀ a : Arg, Same (arg (a.relabel r)) (arg a)
  | .value _ x => by
    rw [Arg.relabel, arg, arg]
    exact expr_relabel x
  | .var _ id => by
    rw [Arg.relabel, arg, arg]
    exact address_relabel r id
  | .blank _ => by
    rw [Arg.relabel, arg, arg]
    exact .refl _
  | .bad _ => by
    rw [Arg.relabel, arg, arg]
    exact .error _ _

end

theorem declStorage_relabel (id : Ident) (storage : Option Storage) :
    Same (declStorage (id.relabel r) storage) (declStorage id storage) := by
  cases storage with
  | none => exact .error _ _
  | some s => exact .refl _

mutual

theorem decl_relabel : ∀ d : Decl, Same (decl (d.relabel r)) (decl d)
  | .seq _ ds => by
    rw [Decl.relabel, decl, decl]
    exact decls_relabel ds
  | .var _ _ storage name _ => by
    rw [Decl.relabel, decl, decl]
    exact .bind (declStorage_relabel r name storage) fun _ => .ite _ _ _
  | .const _ _ storage name x => by
    rw [Decl.relabel, decl, decl]
    refine .bind (declStorage_relabel r name storage) fun s => ?_
    cases s.kind with
    | knownValue => exact .refl _
    | unknownValue => exact .bind (expr_relabel r x) fun _ => .refl _
    | _ => exact .error _ _
  | .bad _ => by
    rw [Decl.relabel, decl, decl]
    exact .error _ _
  | .builtin b => by
    rw [Decl.relabel, decl]
    exact .refl _

theorem decls_relabel : ∀ ds : List Decl, Same (decls (Decl.relabelAll r ds)) (decls ds)
  | [] => by
    rw [Decl.relabelAll, decls]
    exact .refl _
  | d :: ds => by
    rw [Decl.relabelAll, decls, decls]
    refine .bind (decl_relabel d) ?_
    rintro ⟨first, m⟩
    exact .bind (decls_relabel ds) fun _ => .refl _

end

mutual

theorem cmd_relabel : ∀ (base : Nat) (c : Cmd), Same (cmd base (c.relabel r)) (cmd base c)
  | base, .skip .. => by
    rw [Cmd.relabel, cmd, cmd]
    exact .refl _
  | base, .assign _ target x => by
    rw [Cmd.relabel, cmd, cmd]
    refine .bind (expr_relabel r x) fun _ => ?_
    exact .bind (store_relabel r target) fun _ => .refl _
  | base, .call _ callee a => by
    rw [Cmd.relabel, cmd, cmd]
    refine .bind (routineOf_relabel r callee) ?_
    rintro ⟨result, prim⟩
    exact .bind (arg_relabel r a) fun _ => .refl _
  | base, .seq _ cs => by
    rw [Cmd.relabel, cmd, cmd]
    exact cmds_relabel base cs
  | base, .block _ body _ => by
    rw [Cmd.relabel, cmd, cmd]
    exact cmd_relabel base body
  | base, .ifElse _ cond yes no => by
    rw [Cmd.relabel, cmd, cmd]
    refine .bind (expr_relabel r cond) fun _ => ?_
    refine .bind (cmd_relabel _ yes) fun _ => ?_
    exact .bind (cmd_relabel _ no) fun _ => .refl _
  | base, .ifEither _ cond alt yes no => by
    rw [Cmd.relabel, cmd, cmd]
    refine .bind (expr_relabel r cond) fun _ => ?_
    refine .bind (expr_relabel r alt) fun _ => ?_
    refine .bind (cmd_relabel _ yes) fun _ => ?_
    exact .bind (cmd_relabel _ no) fun _ => .refl _
  | base, .whileDo _ cond body => by
    rw [Cmd.relabel, cmd, cmd]
    refine .bind (expr_relabel r cond) fun _ => ?_
    exact .bind (cmd_relabel _ body) fun _ => .refl _
  | base, .letIn _ d body => by
    rw [Cmd.relabel, cmd, cmd]
    refine .bind (decl_relabel r d) ?_
    rintro ⟨entry, words⟩
    exact .bind (cmd_relabel _ body) fun _ => .refl _
  | base, .bad _ => by
    rw [Cmd.relabel, cmd, cmd]
    exact .error _ _

theorem cmds_relabel : ∀ (base : Nat) (cs : List Cmd),
    Same (cmds base (Cmd.relabelAll r cs)) (cmds base cs)
  | base, [] => by
    rw [Cmd.relabelAll, cmds]
    exact .refl _
  | base, c :: cs => by
    rw [Cmd.relabelAll, cmds, cmds]
    refine .bind (cmd_relabel base c) fun _ => ?_
    exact .bind (cmds_relabel _ cs) fun _ => .refl _

end

end Generate

/-- A program with its labels changed has the same code, if it has any. -/
theorem Program.code_relabel (r : Relabelling) (p : Program) :
    Generate.Same (p.relabel r).code p.code :=
  .bind (Generate.cmd_relabel r 0 p.body) fun _ => .refl _

end TriangleTam
