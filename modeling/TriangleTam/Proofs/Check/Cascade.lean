import Mathlib.Data.List.Forall2
import Mathlib.Data.Option.NAry
import TriangleTam.Proofs.Check.Pruning

/-!
# Errors do not cascade

What an expression is cut out of is checked with a vaguer type in its place: `any`, which goes with
everything. Two runs of the checker are compared, one on a tree and one on the tree pruned, in
environments that bind the same names to the same meanings, up to types that are vaguer and to
storage. Main statements: `Check.cmd_fewer`, the pruned tree gets fewer reports in the same order,
and `Program.check_does_not_cascade` on the programs of texts.
-/

namespace TriangleTam

/-- The first type is the second or says nothing. -/
def Ty.Vaguer (s t : Ty) : Prop := s = t ∨ s = .any

theorem Ty.Vaguer.refl (t : Ty) : t.Vaguer t := .inl rfl

theorem Ty.Vaguer.any (t : Ty) : Ty.any.Vaguer t := .inr rfl

/-- Types that do not go together, with vaguer ones in their place: nothing was changed. -/
theorem Ty.Vaguer.eq_of_not_accepts {formal formal' actual actual' : Ty}
    (vaguer : formal'.Vaguer formal) (vaguer' : actual'.Vaguer actual)
    (refused : (!formal'.accepts actual') = true) : formal' = formal ∧ actual' = actual := by
  rcases vaguer with rfl | rfl
  · rcases vaguer' with rfl | rfl
    · exact ⟨rfl, rfl⟩
    · simp [Ty.accepts] at refused
  · simp [Ty.accepts] at refused

/-- The first meaning is the second with a vaguer type and with other storage. -/
inductive Meaning.Vaguer : Meaning → Meaning → Prop where
  | builtin (b : Builtin) : Meaning.Vaguer (.builtin b) (.builtin b)
  | entity {e f : Entity} (kind : e.kind = f.kind) (namePos : e.namePos = f.namePos)
    (ty : (e.ty.getD .any).Vaguer (f.ty.getD .any)) : Meaning.Vaguer (.entity e) (.entity f)

namespace Meaning.Vaguer

variable {m n : Meaning} (vaguer : m.Vaguer n)
include vaguer

theorem namePos_eq : m.namePos = n.namePos := by
  cases vaguer with
  | builtin b => rfl
  | entity kind namePos ty => exact namePos

theorem isVariable_eq : m.isVariable = n.isVariable := by
  cases vaguer with
  | builtin b => rfl
  | entity kind namePos ty => simp [isVariable, kind]

theorem sortOf_eq : Check.sortOf m = Check.sortOf n := by
  cases vaguer with
  | builtin b => rfl
  | @entity e f kind namePos ty =>
    simp only [Check.sortOf, signature, kind]
    cases f.kind <;> rfl

theorem valueTy? : Option.Rel Ty.Vaguer m.valueTy? n.valueTy? := by
  cases vaguer with
  | builtin b =>
    cases b with
    | const name ty value => exact .some (.refl ty)
    | _ => exact .none
  | entity kind namePos ty => exact .some ty

theorem valueTy_getD : (m.valueTy?.getD .any).Vaguer (n.valueTy?.getD .any) := by
  have types := vaguer.valueTy?
  generalize m.valueTy? = s at types ⊢
  generalize n.valueTy? = t at types ⊢
  cases types with
  | none => exact .refl .any
  | some vaguer => exact vaguer

end Meaning.Vaguer

/-- The frames bind the same names in the same order, the first to vaguer meanings. -/
def Frame.Vaguer (f g : Frame Meaning) : Prop :=
  List.Forall₂ (fun b c => b.1 = c.1 ∧ Option.Rel Meaning.Vaguer b.2 c.2) f.bindings g.bindings

namespace Frame.Vaguer

variable {f g : Frame Meaning}

theorem refl (f : Frame Meaning) : f.Vaguer f := by
  refine List.forall₂_same.2 fun b _ => ⟨rfl, ?_⟩
  rcases b with ⟨name, _ | (b | e)⟩
  · exact .none
  · exact .some (.builtin b)
  · exact .some (.entity rfl rfl (.refl _))

theorem names_eq (vaguer : f.Vaguer g) : f.names = g.names := by
  have same : f.bindings.map (·.1) = g.bindings.map (·.1) := by
    rw [← List.forall₂_eq_eq_eq, List.forall₂_map_left_iff, List.forall₂_map_right_iff]
    exact vaguer.imp fun b c h => h.1
  rw [Frame.names, Frame.names, same]

theorem lookup? (vaguer : f.Vaguer g) (name : String) :
    Option.Rel Meaning.Vaguer (f.lookup? name) (g.lookup? name) := by
  obtain ⟨comment, bindings⟩ := f
  obtain ⟨comment', bindings'⟩ := g
  simp only [Frame.Vaguer] at vaguer
  induction vaguer with
  | nil => exact .none
  | cons related rest ih =>
    rename_i b c bs cs
    obtain ⟨key, m⟩ := b
    obtain ⟨_, n⟩ := c
    obtain ⟨rfl, meanings⟩ := related
    simp only [Frame.lookup?, List.lookup_cons] at ih ⊢
    by_cases found : name == key
    · simpa [found] using meanings
    · simpa [found] using ih

/-- A name that is free in one frame is free in the other, and binding it keeps the frames
related. -/
theorem append (vaguer : f.Vaguer g) (name : String) {m n : Meaning} (meaning : m.Vaguer n) :
    Frame.Vaguer { f with bindings := f.bindings.filter (·.1 ≠ name) ++ [(name, some m)] }
      { g with bindings := g.bindings.filter (·.1 ≠ name) ++ [(name, some n)] } := by
  refine List.rel_append ?_ (.cons ⟨rfl, .some meaning⟩ .nil)
  refine List.rel_filter (fun b c related => ?_) vaguer
  simp [related.1]

end Frame.Vaguer

/-- The chains have related frames. -/
def Chain.Vaguer (c d : Chain Meaning) : Prop := List.Forall₂ Frame.Vaguer c d

namespace Chain.Vaguer

variable {c d : Chain Meaning}

theorem visible_eq (vaguer : Chain.Vaguer c d) : Chain.visible c = Chain.visible d := by
  induction vaguer with
  | nil => rfl
  | cons frame outer ih => rw [Chain.visible, Chain.visible, ih, frame.names_eq]

theorem lookup? (vaguer : Chain.Vaguer c d) (name : String) :
    Option.Rel Meaning.Vaguer (Chain.lookup? c name) (Chain.lookup? d name) := by
  induction vaguer with
  | nil => exact .none
  | @cons f g outer outer' frame rest ih =>
    rw [Chain.lookup?_cons, Chain.lookup?_cons]
    have here := frame.lookup? name
    generalize f.lookup? name = m at here ⊢
    generalize g.lookup? name = n at here ⊢
    cases here with
    | none => exact ih
    | some meaning => exact .some meaning

end Chain.Vaguer

namespace Check

/-- The first run ends in something related to what the second one ends in, and some of the reports
of the second are those of the first. -/
structure Checked.Fewer {α β : Type} (R : α → β → Prop) (x : Checked α) (y : Checked β) : Prop where
  value : R x.value y.value
  reports : x.trace.reports.Sublist y.trace.reports

namespace Checked.Fewer

variable {α β γ δ : Type} {R : α → β → Prop} {S : γ → δ → Prop}

theorem pure {a : α} {b : β} (related : R a b) :
    Fewer R (Pure.pure a : Checked α) (Pure.pure b) :=
  ⟨related, .slnil⟩

theorem bind {x : Checked α} {y : Checked β} {f : α → Checked γ} {g : β → Checked δ}
    (first : Fewer R x y) (next : ∀ a b, R a b → Fewer S (f a) (g b)) :
    Fewer S (x >>= f) (y >>= g) :=
  ⟨(next _ _ first.value).value, first.reports.append (next _ _ first.value).reports⟩

/-- What the second run reports and the first does not. -/
theorem skip {a : α} {y : Checked β} (related : R a y.value) :
    Fewer R (Pure.pure a : Checked α) y :=
  ⟨related, List.nil_sublist _⟩

theorem report {pos pos' : Pos} {e e' : Error} (place : pos = pos') (error : e = e') :
    Fewer Eq (Checked.report pos e) (Checked.report pos' e') := by
  subst place error
  exact ⟨rfl, .refl _⟩

/-- A report that is made only where the other run makes the same. -/
theorem reportIf {c d : Bool} {pos : Pos} {e f : Error} (same : c = true → d = true ∧ e = f) :
    Fewer Eq (Checked.reportIf c pos e) (Checked.reportIf d pos f) := by
  cases c with
  | false => exact .skip rfl
  | true =>
    obtain ⟨rfl, rfl⟩ := same rfl
    exact .report rfl rfl

theorem within {x : Checked α} {y : Checked β} (inner : Fewer R x y) (pos : Pos)
    (f g : Frame Meaning) : Fewer R (x.within pos f) (y.within pos g) :=
  ⟨inner.value, inner.reports⟩

end Checked.Fewer

open Checked (Fewer)

/-- The environments give names related meanings. -/
structure Env.Vaguer (env env' : Env) : Prop where
  chain : Chain.Vaguer env.chain env'.chain
  distance : env.distance = env'.distance

/-- The names are the same, whatever they mean. -/
structure SameIdent (i j : Ident) : Prop where
  pos : i.pos = j.pos
  name : i.name = j.name

/-- A checked expression that is like another one from outside: it stands at the same place, and if
something is said about its type, it is the same. -/
structure Like (x y : Expr) : Prop where
  pos : x.pos = y.pos
  ty : x.ty = some .any ∨ x.ty = y.ty ∧ calleeName x = calleeName y

@[simp] theorem pos_expr (env : Env) (x : Expr) : (expr env x).value.pos = x.pos := by
  have pos_bare : ∀ y : Expr, y.bare.pos = y.pos := by
    intro y
    cases y <;> rw [Expr.bare] <;> rfl
  rw [← pos_bare, bare_expr, pos_bare]

theorem needValue_fewer {x y : Expr} (like : Like x y) :
    Fewer Ty.Vaguer (needValue x) (needValue y) := by
  unfold needValue
  rcases like.ty with any | ⟨same, callee⟩
  · rw [any]
    exact .skip (.any _)
  · rw [same, callee, like.pos]
    cases y.ty with
    | none => exact .pure (.refl _)
    | some t =>
      cases t with
      | void => exact .bind (.report rfl rfl) fun _ _ _ => .pure (.refl _)
      | _ => exact .pure (.refl _)

section Env

variable {env env' : Env} (vaguer : env'.Vaguer env)
include vaguer

theorem resolve_fewer (id : Ident) :
    Fewer (fun r s => SameIdent r.1 s.1 ∧ Option.Rel Meaning.Vaguer r.2 s.2)
      (env'.resolve id) (env.resolve id) := by
  have looked := vaguer.chain.lookup? id.name
  have suggestion : suggest env'.distance env'.chain id.name =
      suggest env.distance env.chain id.name := by
    simp only [suggest, vaguer.distance, vaguer.chain.visible_eq]
  simp only [Env.resolve, Env.lookup?, suggestion]
  by_cases missing : id.name = ""
  · simp only [missing, if_true]
    exact .pure ⟨⟨rfl, rfl⟩, .none⟩
  · simp only [missing, if_false]
    generalize Chain.lookup? env'.chain id.name = m at looked ⊢
    generalize Chain.lookup? env.chain id.name = n at looked ⊢
    cases looked with
    | none => exact .bind (.report rfl rfl) fun _ _ _ => .pure ⟨⟨rfl, rfl⟩, .none⟩
    | some meaning => exact .pure ⟨⟨rfl, rfl⟩, .some meaning⟩

theorem routine_fewer (callee : Ident) (blank : Bool) :
    Fewer (fun r s => SameIdent r.1 s.1 ∧ r.2 = s.2) (routine env' callee blank)
      (routine env callee blank) := by
  refine .bind (resolve_fewer vaguer callee) ?_
  rintro ⟨i, m⟩ ⟨j, n⟩ ⟨same, meanings⟩
  cases meanings with
  | none => exact .pure ⟨same, rfl⟩
  | some meaning =>
    have sort := meaning.sortOf_eq
    cases meaning with
    | entity kind namePos ty =>
      exact .bind (.report same.pos (by rw [sort, same.name])) fun _ _ _ => .pure ⟨same, rfl⟩
    | builtin b =>
      cases b with
      | func name params result prim =>
        by_cases count : (if blank = true then 0 else 1) = params.length
        · simp only [count, if_true]
          exact .pure ⟨same, rfl⟩
        · simp only [count, if_false]
          exact .bind (.report same.pos rfl) fun _ _ _ => .pure ⟨same, rfl⟩
      | _ =>
        exact .bind (.report same.pos (by rw [same.name])) fun _ _ _ => .pure ⟨same, rfl⟩

omit vaguer in
theorem argType_fewer (pos : Pos) {s t : Ty} (types : s.Vaguer t) (expected : Option Expected) :
    Fewer Eq (argType pos s expected) (argType pos t expected) := by
  cases expected with
  | none => exact .pure rfl
  | some e =>
    refine .reportIf fun refused => ?_
    obtain ⟨-, rfl⟩ := Ty.Vaguer.eq_of_not_accepts (.refl e.formal.ty) types refused
    exact ⟨refused, rfl⟩

theorem varArg_fewer (expected : Option Expected) (pos : Pos) (id : Ident) :
    Fewer (fun _ _ => True) (varArg env' expected pos id) (varArg env expected pos id) := by
  refine .bind (resolve_fewer vaguer id) ?_
  rintro ⟨i, m⟩ ⟨j, n⟩ ⟨same, meanings⟩
  have passed : ∀ {e : Expected}, Fewer (fun _ _ => True)
      (do Checked.reportIf (!e.formal.byRef) pos (.wantsValue e.routine); return Arg.var pos i)
      (do Checked.reportIf (!e.formal.byRef) pos (.wantsValue e.routine); return Arg.var pos j) :=
    .bind (.reportIf fun h => ⟨h, rfl⟩) fun _ _ _ => .pure trivial
  cases meanings with
  | none =>
    cases expected with
    | none => exact .pure trivial
    | some e => exact passed
  | some meaning =>
    have types := argType_fewer pos meaning.valueTy_getD expected
    simp only [meaning.isVariable_eq, meaning.sortOf_eq]
    split
    · refine .bind types fun _ _ _ => ?_
      cases expected with
      | none => exact .pure trivial
      | some e => exact passed
    · refine .bind (.report same.pos (by rw [same.name])) fun _ _ _ => ?_
      cases expected with
      | none => exact .pure trivial
      | some e => exact passed

omit vaguer in
theorem nameType_fewer (pos : Pos) {i j : Ident} (same : SameIdent i j) {m n : Option Meaning}
    (meanings : Option.Rel Meaning.Vaguer m n) :
    Fewer Ty.Vaguer (nameType pos i m) (nameType pos j n) := by
  cases meanings with
  | none => exact .pure (.refl _)
  | @some m n meaning =>
    have types := meaning.valueTy?
    simp only [nameType, meaning.sortOf_eq, same.name]
    generalize m.valueTy? = s at types ⊢
    generalize n.valueTy? = t at types ⊢
    cases types with
    | none => exact .bind (.report rfl rfl) fun _ _ _ => .pure (.refl _)
    | some type => exact .pure type

theorem applyUnary_fewer (op : OpName) (pos : Pos) {s t : Ty} (types : s.Vaguer t) :
    Fewer (fun r r' => r.2 = r'.2) (applyUnary env' op pos s) (applyUnary env op pos t) := by
  have looked := vaguer.chain.lookup? op.symbol
  simp only [applyUnary, Env.lookup?]
  generalize Chain.lookup? env'.chain op.symbol = m at looked ⊢
  generalize Chain.lookup? env.chain op.symbol = n at looked ⊢
  cases looked with
  | none => exact .bind (.report rfl rfl) fun _ _ _ => .pure rfl
  | some meaning =>
    cases meaning with
    | entity => exact .bind (.report rfl rfl) fun _ _ _ => .pure rfl
    | builtin b =>
      cases b with
      | unary symbol operand result prim =>
        refine .bind (.reportIf fun refused => ?_) fun _ _ _ => .pure rfl
        obtain ⟨-, rfl⟩ := Ty.Vaguer.eq_of_not_accepts (.refl operand) types refused
        exact ⟨refused, rfl⟩
      | _ => exact .bind (.report rfl rfl) fun _ _ _ => .pure rfl

theorem applyBinary_fewer (op : OpName) (xPos yPos : Pos) {s s' t t' : Ty} (left : s'.Vaguer s)
    (right : t'.Vaguer t) :
    Fewer (fun r r' => r.2 = r'.2) (applyBinary env' op xPos yPos s' t')
      (applyBinary env op xPos yPos s t) := by
  have looked := vaguer.chain.lookup? op.symbol
  simp only [applyBinary, Env.lookup?]
  generalize Chain.lookup? env'.chain op.symbol = m at looked ⊢
  generalize Chain.lookup? env.chain op.symbol = n at looked ⊢
  cases looked with
  | none => exact .bind (.report rfl rfl) fun _ _ _ => .pure rfl
  | some meaning =>
    cases meaning with
    | entity => exact .bind (.report rfl rfl) fun _ _ _ => .pure rfl
    | builtin b =>
      cases b with
      | binary symbol first second result prim =>
        by_cases both : first = .any ∧ second = .any
        · simp only [both, and_self, if_true]
          refine .bind (.reportIf fun refused => ?_) fun _ _ _ => .pure rfl
          obtain ⟨rfl, rfl⟩ := Ty.Vaguer.eq_of_not_accepts left right refused
          exact ⟨refused, rfl⟩
        · simp only [both, if_false]
          refine .bind (.reportIf fun refused => ?_) fun _ _ _ =>
            .bind (.reportIf fun refused => ?_) fun _ _ _ => .pure rfl
          · obtain ⟨-, rfl⟩ := Ty.Vaguer.eq_of_not_accepts (.refl first) left refused
            exact ⟨refused, rfl⟩
          · obtain ⟨-, rfl⟩ := Ty.Vaguer.eq_of_not_accepts (.refl second) right refused
            exact ⟨refused, rfl⟩
      | _ => exact .bind (.report rfl rfl) fun _ _ _ => .pure rfl

omit vaguer in
theorem isBlank_eq_of_pruned {b a : Arg} (pruned : b.Pruned a) : isBlank b = isBlank a := by
  cases pruned <;> rfl

mutual

/-- A pruned expression gets fewer reports. -/
theorem expr_fewer : ∀ {y x : Expr}, y.Pruned x → Fewer Like (expr env' y) (expr env x)
  | _, _, .cut x => by
    rw [expr]
    exact .skip ⟨(pos_expr env x).symm, .inl rfl⟩
  | _, _, .int pos ty lit => by
    rw [expr, expr]
    exact .bind (.reportIf fun h => ⟨h, rfl⟩) fun _ _ _ => .pure ⟨rfl, .inr ⟨rfl, rfl⟩⟩
  | _, _, .char .. | _, _, .bad .. => by
    rw [expr, expr]
    exact .pure ⟨rfl, .inr ⟨rfl, rfl⟩⟩
  | _, _, .name pos ty id => by
    rw [expr, expr]
    refine .bind (resolve_fewer vaguer id) ?_
    rintro ⟨i, m⟩ ⟨j, n⟩ ⟨same, meanings⟩
    refine .bind (nameType_fewer pos same meanings) fun s t types => .pure ⟨rfl, ?_⟩
    rcases types with rfl | rfl
    · exact .inr ⟨rfl, rfl⟩
    · exact .inl rfl
  | _, _, .unary pos ty op inner => by
    rw [expr, expr]
    refine .bind (expr_fewer inner) fun y x like => ?_
    refine .bind (needValue_fewer like) fun s t types => ?_
    rw [like.pos]
    refine .bind (applyUnary_fewer vaguer op x.pos types) fun r r' results => ?_
    exact .pure ⟨rfl, .inr ⟨congrArg some results, rfl⟩⟩
  | _, _, .binary pos ty op left right => by
    rw [expr, expr]
    refine .bind (expr_fewer left) fun y x like => ?_
    refine .bind (needValue_fewer like) fun s t types => ?_
    refine .bind (expr_fewer right) fun y' x' like' => ?_
    refine .bind (needValue_fewer like') fun s' t' types' => ?_
    rw [like.pos, like'.pos]
    refine .bind (applyBinary_fewer vaguer op x.pos x'.pos types types') fun r r' results => ?_
    exact .pure ⟨rfl, .inr ⟨congrArg some results, rfl⟩⟩
  | _, _, .call pos ty callee inner => by
    rw [expr, expr, isBlank_eq_of_pruned inner]
    refine .bind (routine_fewer vaguer callee _) ?_
    rintro ⟨i, expected, result⟩ ⟨j, _⟩ ⟨same, rfl⟩
    refine .bind (arg_fewer expected inner) fun b a _ => ?_
    exact .pure ⟨rfl, .inr ⟨rfl, same.name⟩⟩

theorem arg_fewer (expected : Option Expected) : ∀ {b a : Arg}, b.Pruned a →
    Fewer (fun _ _ => True) (arg env' expected b) (arg env expected a)
  | _, _, .value pos inner => by
    rw [arg, arg]
    refine .bind (expr_fewer inner) fun y x like => ?_
    refine .bind (needValue_fewer like) fun s t types => ?_
    refine .bind (argType_fewer pos types expected) fun _ _ _ => ?_
    cases expected with
    | none => exact .pure trivial
    | some e => exact .bind (.reportIf fun h => ⟨h, rfl⟩) fun _ _ _ => .pure trivial
  | _, _, .var pos id => by
    rw [arg, arg]
    exact varArg_fewer vaguer expected pos id
  | _, _, .blank pos | _, _, .bad pos => by
    rw [arg, arg]
    exact .pure trivial

end

theorem value_fewer {y x : Expr} (pruned : y.Pruned x) :
    Fewer (fun r s => r.1.pos = s.1.pos ∧ r.2.Vaguer s.2) (value env' y) (value env x) :=
  .bind (expr_fewer vaguer pruned) fun _ _ like =>
    .bind (needValue_fewer like) fun _ _ types => .pure ⟨like.pos, types⟩

theorem condition_fewer (command : String) {y x : Expr} (pruned : y.Pruned x) :
    Fewer (fun _ _ => True) (condition env' command y) (condition env command x) := by
  refine .bind (value_fewer vaguer pruned) ?_
  rintro ⟨y, s⟩ ⟨x, t⟩ ⟨place, types⟩
  refine .bind (R := Eq) ?_ fun _ _ _ => .pure trivial
  rw [show y.pos = x.pos from place]
  refine .reportIf fun refused => ?_
  obtain ⟨-, rfl⟩ := Ty.Vaguer.eq_of_not_accepts (.refl .boolean) types refused
  exact ⟨refused, rfl⟩

theorem assign_fewer (target : Ident) {y x : Expr} (pruned : y.Pruned x) :
    Fewer (fun _ _ => True) (assign env' target y) (assign env target x) := by
  refine .bind (value_fewer vaguer pruned) ?_
  rintro ⟨y, s⟩ ⟨x, t⟩ ⟨place, types⟩
  refine .bind (resolve_fewer vaguer target) ?_
  rintro ⟨i, m⟩ ⟨j, n⟩ ⟨same, meanings⟩
  cases meanings with
  | none => exact .pure trivial
  | some meaning =>
    simp only [meaning.isVariable_eq, meaning.sortOf_eq]
    split
    · refine .bind (R := Eq) ?_ fun _ _ _ => .pure trivial
      rw [show y.pos = x.pos from place]
      refine .reportIf fun refused => ?_
      obtain ⟨wanted, rfl⟩ :=
        Ty.Vaguer.eq_of_not_accepts meaning.valueTy_getD types refused
      rw [wanted] at refused
      exact ⟨refused, by rw [wanted, same.name]⟩
    · exact .bind (.report same.pos (by rw [same.name])) fun _ _ _ => .pure trivial

theorem typeNamed_fewer (id : Ident) :
    Fewer (fun r s => r.2 = s.2) (typeNamed env' id) (typeNamed env id) := by
  refine .bind (resolve_fewer vaguer id) ?_
  rintro ⟨i, m⟩ ⟨j, n⟩ ⟨same, meanings⟩
  cases meanings with
  | none => exact .pure rfl
  | some meaning =>
    have sort := meaning.sortOf_eq
    cases meaning with
    | entity kind namePos ty =>
      exact .bind (.report same.pos (by rw [sort, same.name])) fun _ _ _ => .pure rfl
    | builtin b =>
      cases b with
      | type t => exact .pure rfl
      | _ => exact .bind (.report same.pos (by rw [same.name])) fun _ _ _ => .pure rfl

end Env

theorem declare_fewer {block block' : Block} (vaguer : block'.frame.Vaguer block.frame)
    (id : Ident) {e e' : Entity} (entity : Meaning.Vaguer (.entity e') (.entity e)) :
    Fewer (fun r s => r.2.frame.Vaguer s.2.frame) (declare block' id e') (declare block id e) := by
  have looked := vaguer.lookup? id.name
  have bound := vaguer.append id.name entity
  simp only [declare, Frame.insert]
  generalize block'.frame.lookup? id.name = m at looked ⊢
  generalize block.frame.lookup? id.name = n at looked ⊢
  by_cases missing : id.name = ""
  · simp only [missing, if_true]
    exact .pure vaguer
  · simp only [missing, if_false]
    cases looked with
    | none => exact .pure bound
    | some meaning =>
      exact .bind (.report rfl (by rw [meaning.namePos_eq])) fun _ _ _ => .pure vaguer

/-- Whatever storage is given, nothing is reported and the names stay bound as they are. -/
theorem constStorage_fewer {site site' : Site} {block block' : Block}
    (vaguer : block'.frame.Vaguer block.frame) (y x : Expr) (s t : Ty) :
    Fewer (fun r s => r.2.frame.Vaguer s.2.frame) (constStorage site' block' y s)
      (constStorage site block x t) := by
  simp only [constStorage]
  split <;> split <;> exact ⟨vaguer, .refl _⟩

/-- Where declarations are checked, names have related meanings. -/
structure Site.Vaguer (site site' : Site) : Prop where
  outer : Chain.Vaguer site.outer site'.outer
  distance : site.distance = site'.distance

theorem Site.Vaguer.env {site site' : Site} (vaguer : site'.Vaguer site) {block block' : Block}
    (frame : block'.frame.Vaguer block.frame) : (site'.env block').Vaguer (site.env block) :=
  ⟨.cons frame vaguer.outer, vaguer.distance⟩

section Declarations

variable {site site' : Site}

mutual

/-- Pruned declarations get fewer reports and bind the same names. -/
theorem decl_fewer (vaguer : site'.Vaguer site) : ∀ {block block' : Block},
    block'.frame.Vaguer block.frame → ∀ {e d : Decl}, e.Pruned d →
      Fewer (fun r s => r.2.frame.Vaguer s.2.frame) (decl site' block' e) (decl site block d)
  | block, block', frame, _, _, .const pos ty storage name inner => by
    rw [decl, decl]
    refine .bind (value_fewer (vaguer.env frame) inner) ?_
    rintro ⟨y, s⟩ ⟨x, t⟩ ⟨place, types⟩
    refine .bind (constStorage_fewer frame y x s t) ?_
    rintro ⟨st, block'⟩ ⟨st', block⟩ frame
    refine .bind (declare_fewer frame name (.entity rfl rfl types)) ?_
    rintro ⟨i, block'⟩ ⟨j, block⟩ frame
    exact .pure frame
  | block, block', frame, _, _, .var pos ty storage name typeName => by
    rw [decl, decl]
    refine .bind (typeNamed_fewer (vaguer.env frame) typeName) ?_
    rintro ⟨i, s⟩ ⟨j, t⟩ rfl
    refine .bind (R := fun r s => r.2.frame.Vaguer s.2.frame) ⟨frame, .refl _⟩ ?_
    rintro ⟨st, block'⟩ ⟨st', block⟩ frame
    refine .bind (declare_fewer frame name (.entity rfl rfl (.refl _))) ?_
    rintro ⟨i, block'⟩ ⟨j, block⟩ frame
    exact .pure frame
  | block, block', frame, _, _, .seq pos inner => by
    rw [decl, decl]
    refine .bind (decls_fewer vaguer frame inner) ?_
    rintro ⟨ds, block'⟩ ⟨es, block⟩ frame
    exact .pure frame
  | block, block', frame, _, _, .bad pos => by
    rw [decl, decl]
    exact .pure frame
  | block, block', frame, _, _, .builtin b => by
    rw [decl, decl]
    exact .bind (.report rfl rfl) fun _ _ _ => .pure frame

theorem decls_fewer (vaguer : site'.Vaguer site) : ∀ {block block' : Block},
    block'.frame.Vaguer block.frame → ∀ {es ds : List Decl}, Decl.AllPruned es ds →
      Fewer (fun r s => r.2.frame.Vaguer s.2.frame) (decls site' block' es) (decls site block ds)
  | block, block', frame, _, _, .nil => by
    rw [decls, decls]
    exact .pure frame
  | block, block', frame, _, _, .cons first rest => by
    rw [decls, decls]
    refine .bind (decl_fewer vaguer frame first) ?_
    rintro ⟨d, block'⟩ ⟨e, block⟩ frame
    refine .bind (decls_fewer vaguer frame rest) ?_
    rintro ⟨ds, block'⟩ ⟨es, block⟩ frame
    exact .pure frame

end

end Declarations

/-- Where commands are checked, names have related meanings. -/
structure Place.Vaguer (p q : Place) : Prop where
  chain : Chain.Vaguer p.chain q.chain
  distance : p.distance = q.distance

namespace Place.Vaguer

variable {p q : Place}

theorem env (vaguer : q.Vaguer p) : q.env.Vaguer p.env :=
  ⟨vaguer.chain, vaguer.distance⟩

theorem inBraces (vaguer : q.Vaguer p) : q.inBraces.Vaguer p.inBraces :=
  ⟨.cons (.refl _) vaguer.chain, vaguer.distance⟩

theorem letSite (vaguer : q.Vaguer p) : q.letSite.Vaguer p.letSite :=
  ⟨vaguer.chain, vaguer.distance⟩

theorem letBody (vaguer : q.Vaguer p) {block block' : Block}
    (frame : block'.frame.Vaguer block.frame) : (q.letBody block').Vaguer (p.letBody block) :=
  ⟨.cons frame vaguer.chain, vaguer.distance⟩

end Place.Vaguer

mutual

/-- A pruned command gets fewer reports, in the same order. -/
theorem cmd_fewer : ∀ {p q : Place}, q.Vaguer p → ∀ {e c : Cmd}, e.Pruned c →
    Fewer (fun _ _ => True) (cmd q e) (cmd p c)
  | p, q, vaguer, _, _, .assign pos target inner => by
    rw [cmd, cmd]
    exact .bind (assign_fewer vaguer.env target inner) fun _ _ _ => .pure trivial
  | p, q, vaguer, _, _, .call pos callee inner => by
    rw [cmd, cmd, isBlank_eq_of_pruned inner]
    refine .bind (routine_fewer vaguer.env callee _) ?_
    rintro ⟨i, expected, result⟩ ⟨j, _⟩ ⟨same, rfl⟩
    exact .bind (arg_fewer vaguer.env expected inner) fun _ _ _ => .pure trivial
  | p, q, vaguer, _, _, .seq pos inner => by
    rw [cmd, cmd]
    exact .bind (cmds_fewer vaguer inner) fun _ _ _ => .pure trivial
  | p, q, vaguer, _, _, .block pos close inner => by
    rw [cmd, cmd]
    refine .within (.bind (cmd_fewer vaguer.inBraces inner) fun _ _ _ => ?_) pos _ _
    exact .pure trivial
  | p, q, vaguer, _, _, .ifElse pos cond yes no => by
    rw [cmd, cmd]
    refine .bind (condition_fewer vaguer.env "if" cond) fun _ _ _ => ?_
    refine .bind (cmd_fewer vaguer yes) fun _ _ _ => ?_
    exact .bind (cmd_fewer vaguer no) fun _ _ _ => .pure trivial
  | p, q, vaguer, _, _, .ifEither pos cond alt yes no => by
    rw [cmd, cmd]
    refine .bind (condition_fewer vaguer.env "ifeither" cond) fun _ _ _ => ?_
    refine .bind (condition_fewer vaguer.env "ifeither" alt) fun _ _ _ => ?_
    refine .bind (cmd_fewer vaguer yes) fun _ _ _ => ?_
    exact .bind (cmd_fewer vaguer no) fun _ _ _ => .pure trivial
  | p, q, vaguer, _, _, .whileDo pos cond body => by
    rw [cmd, cmd]
    refine .bind (condition_fewer vaguer.env "while" cond) fun _ _ _ => ?_
    exact .bind (cmd_fewer vaguer body) fun _ _ _ => .pure trivial
  | p, q, vaguer, _, _, .letIn pos inner body => by
    rw [cmd, cmd]
    refine .bind (decl_fewer vaguer.letSite (.refl letFrame) inner) ?_
    rintro ⟨d, block'⟩ ⟨e, block⟩ frame
    refine .within (.bind (cmd_fewer (vaguer.letBody frame) body) fun _ _ _ => ?_) pos _ _
    exact .pure trivial
  | p, q, vaguer, _, _, .skip pos explicit => by
    rw [cmd, cmd]
    exact .pure trivial
  | p, q, vaguer, _, _, .bad pos => by
    rw [cmd, cmd]
    exact .pure trivial

theorem cmds_fewer : ∀ {p q : Place}, q.Vaguer p → ∀ {es cs : List Cmd}, Cmd.AllPruned es cs →
    Fewer (fun _ _ => True) (cmds q es) (cmds p cs)
  | p, q, vaguer, _, _, .nil => by
    rw [cmds, cmds]
    exact .pure trivial
  | p, q, vaguer, _, _, .cons first rest => by
    rw [cmds, cmds]
    refine .bind (cmd_fewer vaguer first) fun _ _ _ => ?_
    exact .bind (cmds_fewer vaguer rest) fun _ _ _ => .pure trivial

end

theorem Place.Vaguer.refl (p : Place) : p.Vaguer p :=
  ⟨List.forall₂_same.2 fun f _ => .refl f, rfl⟩

/-- A pruned program gets some of the messages of the whole one, in the same order. -/
theorem messages_sublist_of_pruned {q p : Program} (pruned : q.body.Pruned p.body)
    (distance : Int) :
    (program distance q).messages.Sublist (program distance p).messages :=
  (cmd_fewer (.refl _) pruned).reports.map _

end Check

/-- Errors do not cascade. Whatever is wrong with a text, its program is checked to the end. Every
expression in it stands in some hole, and with an error node in that hole instead, the program is
still checked to the end, and what is reported then is among what was reported before, in the same
order. -/
theorem Program.check_does_not_cascade (file : String) (bytes : List UInt8) (lenient : Bool)
    (limit distance : Int) :
    ∃ r, (Program.ofText file bytes lenient limit).check distance = .ok r ∧
      (∀ e, .expr e ∈ (Program.ofText file bytes lenient limit).nodes →
        ∃ S : Program.Slot, S.fill e = Program.ofText file bytes lenient limit) ∧
      ∀ (S : Program.Slot) (e : Expr), S.fill e = Program.ofText file bytes lenient limit →
        ∃ r', (S.fill (.bad e.pos none)).check distance = .ok r' ∧
          r'.messages.Sublist r.messages := by
  let p := Program.ofText file bytes lenient limit
  have literals : p.LiteralsProper := Parser.parse_scan_literalsProper _ lenient limit
  refine ⟨_, p.check_eq_ok literals distance, fun e member => p.exists_slot member, ?_⟩
  intro S e whole
  have pruned := S.pruned e
  rw [whole] at pruned
  have literals' : (S.fill (.bad e.pos none)).LiteralsProper :=
    Program.all_iff.2 ⟨by simp, pruned.isProper (Program.all_iff.1 literals).2⟩
  exact ⟨_, Program.check_eq_ok literals' distance,
    Check.messages_sublist_of_pruned pruned distance⟩

end TriangleTam
