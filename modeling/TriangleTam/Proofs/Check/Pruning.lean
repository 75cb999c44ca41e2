import TriangleTam.Proofs.Check.Places

/-!
# Trees with expressions cut out

A tree is pruned if error nodes stand in the place of some of its expressions. A place for an
expression in a program is a way through commands, declarations and expressions to it. Main
statements: `Program.exists_slot`, every expression of a program stands in such a place, and
`Program.Slot.pruned`, an error node there gives a pruned program.
-/

namespace TriangleTam

mutual

/-- `Pruned y x`: the first expression is the second with some of the expressions in it cut out. -/
inductive Expr.Pruned : Expr → Expr → Prop where
  | cut (x : Expr) : Expr.Pruned (.bad x.pos none) x
  | int (pos : Pos) (ty : Option Ty) (lit : Literal) :
    Expr.Pruned (.int pos ty lit) (.int pos ty lit)
  | char (pos : Pos) (ty : Option Ty) (lit : Literal) :
    Expr.Pruned (.char pos ty lit) (.char pos ty lit)
  | name (pos : Pos) (ty : Option Ty) (id : Ident) :
    Expr.Pruned (.name pos ty id) (.name pos ty id)
  | unary (pos : Pos) (ty : Option Ty) (op : OpName) {y x : Expr} (inner : Expr.Pruned y x) :
    Expr.Pruned (.unary pos ty op y) (.unary pos ty op x)
  | binary (pos : Pos) (ty : Option Ty) (op : OpName) {y x z w : Expr} (left : Expr.Pruned y x)
    (right : Expr.Pruned z w) : Expr.Pruned (.binary pos ty y op z) (.binary pos ty x op w)
  | call (pos : Pos) (ty : Option Ty) (callee : Ident) {b a : Arg} (inner : Arg.Pruned b a) :
    Expr.Pruned (.call pos ty callee b) (.call pos ty callee a)
  | bad (pos : Pos) (ty : Option Ty) : Expr.Pruned (.bad pos ty) (.bad pos ty)

/-- The first parameter is the second with some of the expressions in it cut out. -/
inductive Arg.Pruned : Arg → Arg → Prop where
  | value (pos : Pos) {y x : Expr} (inner : Expr.Pruned y x) :
    Arg.Pruned (.value pos y) (.value pos x)
  | var (pos : Pos) (id : Ident) : Arg.Pruned (.var pos id) (.var pos id)
  | blank (pos : Pos) : Arg.Pruned (.blank pos) (.blank pos)
  | bad (pos : Pos) : Arg.Pruned (.bad pos) (.bad pos)

end

mutual

/-- The first declaration is the second with some of the expressions in it cut out. -/
inductive Decl.Pruned : Decl → Decl → Prop where
  | const (pos : Pos) (ty : Option Ty) (storage : Option Storage) (name : Ident) {y x : Expr}
    (inner : Expr.Pruned y x) :
    Decl.Pruned (.const pos ty storage name y) (.const pos ty storage name x)
  | var (pos : Pos) (ty : Option Ty) (storage : Option Storage) (name typeName : Ident) :
    Decl.Pruned (.var pos ty storage name typeName) (.var pos ty storage name typeName)
  | seq (pos : Pos) {es ds : List Decl} (inner : Decl.AllPruned es ds) :
    Decl.Pruned (.seq pos es) (.seq pos ds)
  | bad (pos : Pos) : Decl.Pruned (.bad pos) (.bad pos)
  | builtin (b : Builtin) : Decl.Pruned (.builtin b) (.builtin b)

/-- Declarations one after the other, each pruned. -/
inductive Decl.AllPruned : List Decl → List Decl → Prop where
  | nil : Decl.AllPruned [] []
  | cons {e d : Decl} {es ds : List Decl} (first : Decl.Pruned e d) (rest : Decl.AllPruned es ds) :
    Decl.AllPruned (e :: es) (d :: ds)

end

mutual

/-- The first command is the second with some of the expressions in it cut out. -/
inductive Cmd.Pruned : Cmd → Cmd → Prop where
  | assign (pos : Pos) (target : Ident) {y x : Expr} (inner : Expr.Pruned y x) :
    Cmd.Pruned (.assign pos target y) (.assign pos target x)
  | call (pos : Pos) (callee : Ident) {b a : Arg} (inner : Arg.Pruned b a) :
    Cmd.Pruned (.call pos callee b) (.call pos callee a)
  | seq (pos : Pos) {es cs : List Cmd} (inner : Cmd.AllPruned es cs) :
    Cmd.Pruned (.seq pos es) (.seq pos cs)
  | block (pos : Pos) (close : Pos) {e c : Cmd} (inner : Cmd.Pruned e c) :
    Cmd.Pruned (.block pos e close) (.block pos c close)
  | ifElse (pos : Pos) {y x : Expr} {yes' yes no' no : Cmd} (cond : Expr.Pruned y x)
    (first : Cmd.Pruned yes' yes) (second : Cmd.Pruned no' no) :
    Cmd.Pruned (.ifElse pos y yes' no') (.ifElse pos x yes no)
  | ifEither (pos : Pos) {y x z w : Expr} {yes' yes no' no : Cmd} (cond : Expr.Pruned y x)
    (alt : Expr.Pruned z w) (first : Cmd.Pruned yes' yes) (second : Cmd.Pruned no' no) :
    Cmd.Pruned (.ifEither pos y z yes' no') (.ifEither pos x w yes no)
  | whileDo (pos : Pos) {y x : Expr} {e c : Cmd} (cond : Expr.Pruned y x) (body : Cmd.Pruned e c) :
    Cmd.Pruned (.whileDo pos y e) (.whileDo pos x c)
  | letIn (pos : Pos) {d' d : Decl} {e c : Cmd} (decl : Decl.Pruned d' d) (body : Cmd.Pruned e c) :
    Cmd.Pruned (.letIn pos d' e) (.letIn pos d c)
  | skip (pos : Pos) (explicit : Bool) : Cmd.Pruned (.skip pos explicit) (.skip pos explicit)
  | bad (pos : Pos) : Cmd.Pruned (.bad pos) (.bad pos)

/-- Commands one after the other, each pruned. -/
inductive Cmd.AllPruned : List Cmd → List Cmd → Prop where
  | nil : Cmd.AllPruned [] []
  | cons {e c : Cmd} {es cs : List Cmd} (first : Cmd.Pruned e c) (rest : Cmd.AllPruned es cs) :
    Cmd.AllPruned (e :: es) (c :: cs)

end

/-! Nothing need be cut out. -/

mutual

theorem Expr.Pruned.refl : ∀ x : Expr, x.Pruned x
  | .int pos ty lit => .int pos ty lit
  | .char pos ty lit => .char pos ty lit
  | .name pos ty id => .name pos ty id
  | .unary pos ty op x => .unary pos ty op (.refl x)
  | .binary pos ty x op y => .binary pos ty op (.refl x) (.refl y)
  | .call pos ty callee a => .call pos ty callee (.refl a)
  | .bad pos ty => .bad pos ty

theorem Arg.Pruned.refl : ∀ a : Arg, a.Pruned a
  | .value pos x => .value pos (.refl x)
  | .var pos id => .var pos id
  | .blank pos => .blank pos
  | .bad pos => .bad pos

end

mutual

theorem Decl.Pruned.refl : ∀ d : Decl, d.Pruned d
  | .const pos ty storage name x => .const pos ty storage name (.refl x)
  | .var pos ty storage name typeName => .var pos ty storage name typeName
  | .seq pos ds => .seq pos (.refl ds)
  | .bad pos => .bad pos
  | .builtin b => .builtin b

theorem Decl.AllPruned.refl : ∀ ds : List Decl, Decl.AllPruned ds ds
  | [] => .nil
  | d :: ds => .cons (.refl d) (.refl ds)

end

mutual

theorem Cmd.Pruned.refl : ∀ c : Cmd, c.Pruned c
  | .assign pos target x => .assign pos target (.refl x)
  | .call pos callee a => .call pos callee (.refl a)
  | .seq pos cs => .seq pos (.refl cs)
  | .block pos body close => .block pos close (.refl body)
  | .ifElse pos cond yes no => .ifElse pos (.refl cond) (.refl yes) (.refl no)
  | .ifEither pos cond alt yes no =>
    .ifEither pos (.refl cond) (.refl alt) (.refl yes) (.refl no)
  | .whileDo pos cond body => .whileDo pos (.refl cond) (.refl body)
  | .letIn pos d body => .letIn pos (.refl d) (.refl body)
  | .skip pos explicit => .skip pos explicit
  | .bad pos => .bad pos

theorem Cmd.AllPruned.refl : ∀ cs : List Cmd, Cmd.AllPruned cs cs
  | [] => .nil
  | c :: cs => .cons (.refl c) (.refl cs)

end

theorem Decl.AllPruned.insert {e d : Decl} (inner : e.Pruned d) (after : List Decl) :
    ∀ before : List Decl, Decl.AllPruned (before ++ e :: after) (before ++ d :: after)
  | [] => .cons inner (.refl after)
  | c :: before => .cons (.refl c) (.insert inner after before)

theorem Cmd.AllPruned.insert {e c : Cmd} (inner : e.Pruned c) (after : List Cmd) :
    ∀ before : List Cmd, Cmd.AllPruned (before ++ e :: after) (before ++ c :: after)
  | [] => .cons inner (.refl after)
  | d :: before => .cons (.refl d) (.insert inner after before)

theorem Cmd.Hole.pruned {e c : Cmd} (inner : e.Pruned c) (K : Cmd.Hole) :
    (K.fill e).Pruned (K.fill c) := by
  induction K with
  | here => exact inner
  | seq pos before K after ih => exact .seq pos (.insert ih after before)
  | block pos K close ih => exact .block pos close ih
  | ifYes pos cond K no ih => exact .ifElse pos (.refl cond) ih (.refl no)
  | ifNo pos cond yes K ih => exact .ifElse pos (.refl cond) (.refl yes) ih
  | eitherYes pos cond alt K no ih =>
    exact .ifEither pos (.refl cond) (.refl alt) ih (.refl no)
  | eitherNo pos cond alt yes K ih =>
    exact .ifEither pos (.refl cond) (.refl alt) (.refl yes) ih
  | whileBody pos cond K ih => exact .whileDo pos (.refl cond) ih
  | letBody pos d K ih => exact .letIn pos (.refl d) ih

section Literals

/-- The node is a character literal only if it is spelled like one. -/
def Node.IsProper (n : Node) : Prop := ∀ lit, n = .charLit lit → lit.charValue?.isSome = true

attribute [local simp] Node.IsProper

mutual

/-- Cutting out adds no character literals. -/
theorem Expr.Pruned.isProper : ∀ {y x : Expr}, y.Pruned x → x.All Node.IsProper →
    y.All Node.IsProper
  | _, _, .cut x, _ => by simp
  | _, _, .int .., h | _, _, .char .., h | _, _, .name .., h | _, _, .bad .., h => h
  | _, _, .unary pos ty op inner, h => by
    have proper := inner.isProper (Expr.all_unary.1 h).2.2
    simpa using proper
  | _, _, .binary pos ty op left right, h => by
    obtain ⟨-, first, -, second⟩ := Expr.all_binary.1 h
    simpa using ⟨left.isProper first, right.isProper second⟩
  | _, _, .call pos ty callee inner, h => by
    have proper := inner.isProper (Expr.all_call.1 h).2.2
    simpa using proper

theorem Arg.Pruned.isProper : ∀ {b a : Arg}, b.Pruned a → a.All Node.IsProper →
    b.All Node.IsProper
  | _, _, .value pos inner, h => by
    have proper := inner.isProper (Arg.all_value.1 h).2
    simpa using proper
  | _, _, .var .., h | _, _, .blank _, h | _, _, .bad _, h => h

end

mutual

theorem Decl.Pruned.isProper : ∀ {e d : Decl}, e.Pruned d → d.All Node.IsProper →
    e.All Node.IsProper
  | _, _, .const pos ty storage name inner, h => by
    have proper := inner.isProper (Decl.all_const.1 h).2.2
    simpa using proper
  | _, _, .seq pos inner, h => by
    have proper := inner.isProper (Decl.all_seq.1 h).2
    simpa using proper
  | _, _, .var .., h | _, _, .bad _, h | _, _, .builtin _, h => h

theorem Decl.AllPruned.isProper : ∀ {es ds : List Decl}, Decl.AllPruned es ds →
    (∀ d ∈ ds, d.All Node.IsProper) → ∀ e ∈ es, e.All Node.IsProper
  | _, _, .nil, h => h
  | _, _, .cons first rest, h => by
    obtain ⟨one, others⟩ := List.forall_mem_cons.1 h
    exact List.forall_mem_cons.2 ⟨first.isProper one, rest.isProper others⟩

end

mutual

theorem Cmd.Pruned.isProper : ∀ {e c : Cmd}, e.Pruned c → c.All Node.IsProper →
    e.All Node.IsProper
  | _, _, .assign pos target inner, h => by
    have proper := inner.isProper (Cmd.all_assign.1 h).2.2
    simpa using proper
  | _, _, .call pos callee inner, h => by
    have proper := inner.isProper (Cmd.all_call.1 h).2.2
    simpa using proper
  | _, _, .seq pos inner, h => by
    have proper := inner.isProper (Cmd.all_seq.1 h).2
    simpa using proper
  | _, _, .block pos close inner, h => by
    have proper := inner.isProper (Cmd.all_block.1 h).2
    simpa using proper
  | _, _, .ifElse pos cond yes no, h => by
    obtain ⟨-, hc, hy, hn⟩ := Cmd.all_ifElse.1 h
    simpa using ⟨cond.isProper hc, yes.isProper hy, no.isProper hn⟩
  | _, _, .ifEither pos cond alt yes no, h => by
    obtain ⟨-, hc, ha, hy, hn⟩ := Cmd.all_ifEither.1 h
    simpa using ⟨cond.isProper hc, alt.isProper ha, yes.isProper hy, no.isProper hn⟩
  | _, _, .whileDo pos cond body, h => by
    obtain ⟨-, hc, hb⟩ := Cmd.all_whileDo.1 h
    simpa using ⟨cond.isProper hc, body.isProper hb⟩
  | _, _, .letIn pos decl body, h => by
    obtain ⟨-, hd, hb⟩ := Cmd.all_letIn.1 h
    simpa using ⟨decl.isProper hd, body.isProper hb⟩
  | _, _, .skip .., h | _, _, .bad _, h => h

theorem Cmd.AllPruned.isProper : ∀ {es cs : List Cmd}, Cmd.AllPruned es cs →
    (∀ c ∈ cs, c.All Node.IsProper) → ∀ e ∈ es, e.All Node.IsProper
  | _, _, .nil, h => h
  | _, _, .cons first rest, h => by
    obtain ⟨one, others⟩ := List.forall_mem_cons.1 h
    exact List.forall_mem_cons.2 ⟨first.isProper one, rest.isProper others⟩

end

end Literals

/-! ## Places for expressions -/

/-- An expression with a hole for another one. -/
inductive Expr.Hole where
  | here
  | unary (pos : Pos) (ty : Option Ty) (op : OpName) (inner : Hole)
  | left (pos : Pos) (ty : Option Ty) (inner : Hole) (op : OpName) (y : Expr)
  | right (pos : Pos) (ty : Option Ty) (x : Expr) (op : OpName) (inner : Hole)
  | arg (pos : Pos) (ty : Option Ty) (callee : Ident) (argPos : Pos) (inner : Hole)

/-- The expression with `e` in the hole. -/
def Expr.Hole.fill (e : Expr) : Expr.Hole → Expr
  | here => e
  | unary pos ty op inner => .unary pos ty op (inner.fill e)
  | left pos ty inner op y => .binary pos ty (inner.fill e) op y
  | right pos ty x op inner => .binary pos ty x op (inner.fill e)
  | arg pos ty callee argPos inner => .call pos ty callee (.value argPos (inner.fill e))

/-- A declaration with a hole for an expression. -/
inductive Decl.Slot where
  | const (pos : Pos) (ty : Option Ty) (storage : Option Storage) (name : Ident)
    (value : Expr.Hole)
  | seq (pos : Pos) (before : List Decl) (inner : Slot) (after : List Decl)

/-- The declaration with `e` in the hole. -/
def Decl.Slot.fill (e : Expr) : Decl.Slot → Decl
  | const pos ty storage name value => .const pos ty storage name (value.fill e)
  | seq pos before inner after => .seq pos (before ++ inner.fill e :: after)

/-- A command with a hole for an expression that is not inside another command. -/
inductive Cmd.Slot where
  | assign (pos : Pos) (target : Ident) (value : Expr.Hole)
  | arg (pos : Pos) (callee : Ident) (argPos : Pos) (value : Expr.Hole)
  | ifElse (pos : Pos) (cond : Expr.Hole) (yes no : Cmd)
  | either (pos : Pos) (cond : Expr.Hole) (alt : Expr) (yes no : Cmd)
  | or (pos : Pos) (cond : Expr) (alt : Expr.Hole) (yes no : Cmd)
  | whileDo (pos : Pos) (cond : Expr.Hole) (body : Cmd)
  | letIn (pos : Pos) (decl : Decl.Slot) (body : Cmd)

/-- The command with `e` in the hole. -/
def Cmd.Slot.fill (e : Expr) : Cmd.Slot → Cmd
  | assign pos target value => .assign pos target (value.fill e)
  | arg pos callee argPos value => .call pos callee (.value argPos (value.fill e))
  | ifElse pos cond yes no => .ifElse pos (cond.fill e) yes no
  | either pos cond alt yes no => .ifEither pos (cond.fill e) alt yes no
  | or pos cond alt yes no => .ifEither pos cond (alt.fill e) yes no
  | whileDo pos cond body => .whileDo pos (cond.fill e) body
  | letIn pos decl body => .letIn pos (decl.fill e) body

/-- A program with a hole for an expression: a command with the hole, and what is around it. -/
structure Program.Slot where
  pos : Pos
  around : Cmd.Hole
  inside : Cmd.Slot

/-- The program with `e` in the hole. -/
def Program.Slot.fill (e : Expr) (S : Program.Slot) : Program :=
  ⟨S.pos, S.around.fill (S.inside.fill e)⟩

section Fill

variable {y x : Expr} (inner : y.Pruned x)
include inner

theorem Expr.Hole.pruned (K : Expr.Hole) : (K.fill y).Pruned (K.fill x) := by
  induction K with
  | here => exact inner
  | unary pos ty op K ih => exact .unary pos ty op ih
  | left pos ty K op z ih => exact .binary pos ty op ih (.refl z)
  | right pos ty z op K ih => exact .binary pos ty op (.refl z) ih
  | arg pos ty callee argPos K ih => exact .call pos ty callee (.value argPos ih)

theorem Decl.Slot.pruned (S : Decl.Slot) : (S.fill y).Pruned (S.fill x) := by
  induction S with
  | const pos ty storage name K => exact .const pos ty storage name (K.pruned inner)
  | seq pos before S after ih => exact .seq pos (.insert ih after before)

theorem Cmd.Slot.pruned : ∀ S : Cmd.Slot, (S.fill y).Pruned (S.fill x)
  | .assign pos target K => .assign pos target (K.pruned inner)
  | .arg pos callee argPos K => .call pos callee (.value argPos (K.pruned inner))
  | .ifElse pos K yes no => .ifElse pos (K.pruned inner) (.refl yes) (.refl no)
  | .either pos K alt yes no =>
    .ifEither pos (K.pruned inner) (.refl alt) (.refl yes) (.refl no)
  | .or pos cond K yes no => .ifEither pos (.refl cond) (K.pruned inner) (.refl yes) (.refl no)
  | .whileDo pos K body => .whileDo pos (K.pruned inner) (.refl body)
  | .letIn pos S body => .letIn pos (S.pruned inner) (.refl body)

end Fill

/-- An error node in a hole, instead of an expression, gives a pruned program. -/
theorem Program.Slot.pruned (S : Program.Slot) (e : Expr) :
    (S.fill (.bad e.pos none)).body.Pruned (S.fill e).body :=
  S.around.pruned (S.inside.pruned (.cut e))

section Occurrences

variable {e : Expr}

attribute [local simp] Expr.walk Arg.walk Decl.walk Decl.walkAll Cmd.walk Cmd.walkAll

mutual

theorem Expr.exists_hole : ∀ x : Expr, .expr e ∈ x.walk (fun _ => true) →
    ∃ K : Expr.Hole, K.fill e = x
  | .int pos ty lit, member | .char pos ty lit, member | .name pos ty lit, member
  | .bad pos ty, member => ⟨.here, by simpa [Expr.Hole.fill] using member⟩
  | .unary pos ty op x, member => by
    obtain rfl | member : e = .unary pos ty op x ∨ .expr e ∈ x.walk fun _ => true := by
      simpa using member
    · exact ⟨.here, rfl⟩
    · obtain ⟨K, rfl⟩ := Expr.exists_hole x member
      exact ⟨.unary pos ty op K, rfl⟩
  | .binary pos ty x op y, member => by
    obtain rfl | member | member : e = .binary pos ty x op y ∨
        .expr e ∈ x.walk (fun _ => true) ∨ .expr e ∈ y.walk fun _ => true := by
      simpa using member
    · exact ⟨.here, rfl⟩
    · obtain ⟨K, rfl⟩ := Expr.exists_hole x member
      exact ⟨.left pos ty K op y, rfl⟩
    · obtain ⟨K, rfl⟩ := Expr.exists_hole y member
      exact ⟨.right pos ty x op K, rfl⟩
  | .call pos ty callee a, member => by
    obtain rfl | member : e = .call pos ty callee a ∨ .expr e ∈ a.walk fun _ => true := by
      simpa using member
    · exact ⟨.here, rfl⟩
    · obtain ⟨argPos, K, rfl⟩ := a.exists_hole member
      exact ⟨.arg pos ty callee argPos K, rfl⟩

theorem Arg.exists_hole : ∀ a : Arg, .expr e ∈ a.walk (fun _ => true) →
    ∃ (pos : Pos) (K : Expr.Hole), .value pos (K.fill e) = a
  | .value pos x, member => by
    obtain ⟨K, rfl⟩ := Expr.exists_hole x (by simpa using member)
    exact ⟨pos, K, rfl⟩
  | .var pos id, member | .blank pos, member | .bad pos, member => by simp at member

end

mutual

theorem Decl.exists_slot : ∀ d : Decl, .expr e ∈ d.walk (fun _ => true) →
    ∃ S : Decl.Slot, S.fill e = d
  | .const pos ty storage name x, member => by
    obtain ⟨K, rfl⟩ := Expr.exists_hole x (by simpa using member)
    exact ⟨.const pos ty storage name K, rfl⟩
  | .seq pos ds, member => by
    obtain ⟨before, S, after, rfl⟩ := Decl.exists_slot_all ds (by simpa using member)
    exact ⟨.seq pos before S after, rfl⟩
  | .var .., member | .bad _, member | .builtin _, member => by simp at member

theorem Decl.exists_slot_all : ∀ ds : List Decl, .expr e ∈ Decl.walkAll (fun _ => true) ds →
    ∃ (before : List Decl) (S : Decl.Slot) (after : List Decl), before ++ S.fill e :: after = ds
  | [], member => by simp at member
  | d :: ds, member => by
    rcases List.mem_append.1 member with member | member
    · obtain ⟨S, rfl⟩ := d.exists_slot member
      exact ⟨[], S, ds, rfl⟩
    · obtain ⟨before, S, after, rfl⟩ := Decl.exists_slot_all ds member
      exact ⟨d :: before, S, after, rfl⟩

end

mutual

theorem Cmd.exists_slot : ∀ c : Cmd, .expr e ∈ c.walk (fun _ => true) →
    ∃ (K : Cmd.Hole) (S : Cmd.Slot), K.fill (S.fill e) = c
  | .assign pos target x, member => by
    obtain ⟨K, rfl⟩ := Expr.exists_hole x (by simpa using member)
    exact ⟨.here, .assign pos target K, rfl⟩
  | .call pos callee a, member => by
    obtain ⟨argPos, K, rfl⟩ := a.exists_hole (by simpa using member)
    exact ⟨.here, .arg pos callee argPos K, rfl⟩
  | .seq pos cs, member => by
    obtain ⟨before, K, S, after, rfl⟩ := Cmd.exists_slot_all cs (by simpa using member)
    exact ⟨.seq pos before K after, S, rfl⟩
  | .block pos body close, member => by
    obtain ⟨K, S, rfl⟩ := body.exists_slot (by simpa using member)
    exact ⟨.block pos K close, S, rfl⟩
  | .ifElse pos cond yes no, member => by
    have member : .expr e ∈ cond.walk (fun _ => true) ∨ .expr e ∈ yes.walk (fun _ => true) ∨
        .expr e ∈ no.walk fun _ => true := by
      simpa [or_assoc] using member
    rcases member with member | member | member
    · obtain ⟨K, rfl⟩ := Expr.exists_hole cond member
      exact ⟨.here, .ifElse pos K yes no, rfl⟩
    · obtain ⟨K, S, rfl⟩ := yes.exists_slot member
      exact ⟨.ifYes pos cond K no, S, rfl⟩
    · obtain ⟨K, S, rfl⟩ := no.exists_slot member
      exact ⟨.ifNo pos cond yes K, S, rfl⟩
  | .ifEither pos cond alt yes no, member => by
    have member : .expr e ∈ cond.walk (fun _ => true) ∨ .expr e ∈ alt.walk (fun _ => true) ∨
        .expr e ∈ yes.walk (fun _ => true) ∨ .expr e ∈ no.walk fun _ => true := by
      simpa [or_assoc] using member
    rcases member with member | member | member | member
    · obtain ⟨K, rfl⟩ := Expr.exists_hole cond member
      exact ⟨.here, .either pos K alt yes no, rfl⟩
    · obtain ⟨K, rfl⟩ := Expr.exists_hole alt member
      exact ⟨.here, .or pos cond K yes no, rfl⟩
    · obtain ⟨K, S, rfl⟩ := yes.exists_slot member
      exact ⟨.eitherYes pos cond alt K no, S, rfl⟩
    · obtain ⟨K, S, rfl⟩ := no.exists_slot member
      exact ⟨.eitherNo pos cond alt yes K, S, rfl⟩
  | .whileDo pos cond body, member => by
    have member : .expr e ∈ cond.walk (fun _ => true) ∨
        .expr e ∈ body.walk fun _ => true := by
      simpa using member
    rcases member with member | member
    · obtain ⟨K, rfl⟩ := Expr.exists_hole cond member
      exact ⟨.here, .whileDo pos K body, rfl⟩
    · obtain ⟨K, S, rfl⟩ := body.exists_slot member
      exact ⟨.whileBody pos cond K, S, rfl⟩
  | .letIn pos d body, member => by
    have member : .expr e ∈ d.walk (fun _ => true) ∨ .expr e ∈ body.walk fun _ => true := by
      simpa using member
    rcases member with member | member
    · obtain ⟨S, rfl⟩ := d.exists_slot member
      exact ⟨.here, .letIn pos S body, rfl⟩
    · obtain ⟨K, S, rfl⟩ := body.exists_slot member
      exact ⟨.letBody pos d K, S, rfl⟩
  | .skip .., member | .bad _, member => by simp at member

theorem Cmd.exists_slot_all : ∀ cs : List Cmd, .expr e ∈ Cmd.walkAll (fun _ => true) cs →
    ∃ (before : List Cmd) (K : Cmd.Hole) (S : Cmd.Slot) (after : List Cmd),
      before ++ K.fill (S.fill e) :: after = cs
  | [], member => by simp at member
  | c :: cs, member => by
    rcases List.mem_append.1 member with member | member
    · obtain ⟨K, S, rfl⟩ := c.exists_slot member
      exact ⟨[], K, S, cs, rfl⟩
    · obtain ⟨before, K, S, after, rfl⟩ := Cmd.exists_slot_all cs member
      exact ⟨c :: before, K, S, after, rfl⟩

end

/-- Every expression of a program stands in a hole of it. -/
theorem Program.exists_slot (p : Program) (member : .expr e ∈ p.nodes) :
    ∃ S : Program.Slot, S.fill e = p := by
  have member : .expr e ∈ p.body.walk fun _ => true := by
    simpa [Program.nodes, Program.walk] using member
  obtain ⟨K, S, whole⟩ := p.body.exists_slot member
  exact ⟨⟨p.pos, K, S⟩, by rw [Program.Slot.fill, whole]⟩

end Occurrences

end TriangleTam
