import TriangleTam.Tree.Value
import TriangleTam.Tree.Walk

/-!
# Properties of all nodes of a tree

What it means that every node of a tree has some property, with one equation for each sort of node.
A tree is complete if nothing in it stands for a part that could not be parsed, and intact if
moreover its character literals are ones.
-/

namespace TriangleTam

variable (P : Node → Prop)

/-- All nodes of an expression have the property `P`. -/
def Expr.All (x : Expr) : Prop := ∀ n ∈ x.walk fun _ => true, P n

/-- All nodes of an actual parameter have the property `P`. -/
def Arg.All (a : Arg) : Prop := ∀ n ∈ a.walk fun _ => true, P n

/-- All nodes of a declaration have the property `P`. -/
def Decl.All (d : Decl) : Prop := ∀ n ∈ d.walk fun _ => true, P n

/-- All nodes of a command have the property `P`. -/
def Cmd.All (c : Cmd) : Prop := ∀ n ∈ c.walk fun _ => true, P n

/-- All nodes of a program have the property `P`. -/
def Program.All (p : Program) : Prop := ∀ n ∈ p.nodes, P n

section Walks

attribute [local simp] Expr.walk Arg.walk Decl.walk Decl.walkAll Cmd.walk Cmd.walkAll

section Equations

variable {P} {pos p q : Pos} {ty : Option Ty} {storage : Option Storage}

@[simp] theorem Expr.all_int {lit : Literal} :
    (Expr.int pos ty lit).All P ↔ P (.expr (.int pos ty lit)) ∧ P (.intLit lit) := by
  simp [Expr.All]

@[simp] theorem Expr.all_char {lit : Literal} :
    (Expr.char pos ty lit).All P ↔ P (.expr (.char pos ty lit)) ∧ P (.charLit lit) := by
  simp [Expr.All]

@[simp] theorem Expr.all_name {id : Ident} :
    (Expr.name pos ty id).All P ↔ P (.expr (.name pos ty id)) ∧ P (.ident id) := by
  simp [Expr.All]

@[simp] theorem Expr.all_unary {op : OpName} {x : Expr} :
    (Expr.unary pos ty op x).All P ↔ P (.expr (.unary pos ty op x)) ∧ P (.op op) ∧ x.All P := by
  simp [Expr.All]

@[simp] theorem Expr.all_binary {op : OpName} {x y : Expr} :
    (Expr.binary pos ty x op y).All P ↔
      P (.expr (.binary pos ty x op y)) ∧ x.All P ∧ P (.op op) ∧ y.All P := by
  simp [Expr.All, or_imp, forall_and]

@[simp] theorem Expr.all_call {callee : Ident} {a : Arg} :
    (Expr.call pos ty callee a).All P ↔
      P (.expr (.call pos ty callee a)) ∧ P (.ident callee) ∧ a.All P := by
  simp [Expr.All, Arg.All]

@[simp] theorem Expr.all_bad : (Expr.bad pos ty).All P ↔ P (.expr (.bad pos ty)) := by
  simp [Expr.All]

@[simp] theorem Arg.all_value {x : Expr} :
    (Arg.value pos x).All P ↔ P (.arg (.value pos x)) ∧ x.All P := by
  simp [Arg.All, Expr.All]

@[simp] theorem Arg.all_var {id : Ident} :
    (Arg.var pos id).All P ↔ P (.arg (.var pos id)) ∧ P (.ident id) := by
  simp [Arg.All]

@[simp] theorem Arg.all_blank : (Arg.blank pos).All P ↔ P (.arg (.blank pos)) := by
  simp [Arg.All]

@[simp] theorem Arg.all_bad : (Arg.bad pos).All P ↔ P (.arg (.bad pos)) := by
  simp [Arg.All]

theorem Decl.forall_walkAll {ds : List Decl} :
    (∀ n ∈ Decl.walkAll (fun _ => true) ds, P n) ↔ ∀ d ∈ ds, d.All P := by
  induction ds with
  | nil => simp
  | cons d ds ih => simp [Decl.All, or_imp, forall_and, ih]

@[simp] theorem Decl.all_const {name : Ident} {x : Expr} :
    (Decl.const pos ty storage name x).All P ↔
      P (.decl (.const pos ty storage name x)) ∧ P (.ident name) ∧ x.All P := by
  simp [Decl.All, Expr.All]

@[simp] theorem Decl.all_var {name typeName : Ident} :
    (Decl.var pos ty storage name typeName).All P ↔
      P (.decl (.var pos ty storage name typeName)) ∧ P (.ident name) ∧ P (.ident typeName) := by
  simp [Decl.All]

@[simp] theorem Decl.all_seq {ds : List Decl} :
    (Decl.seq pos ds).All P ↔ P (.decl (.seq pos ds)) ∧ ∀ d ∈ ds, d.All P := by
  rw [← Decl.forall_walkAll]
  simp [Decl.All]

@[simp] theorem Decl.all_bad : (Decl.bad pos).All P ↔ P (.decl (.bad pos)) := by
  simp [Decl.All]

@[simp] theorem Decl.all_builtin {b : Builtin} :
    (Decl.builtin b).All P ↔ P (.decl (.builtin b)) := by
  simp [Decl.All]

theorem Cmd.forall_walkAll {cs : List Cmd} :
    (∀ n ∈ Cmd.walkAll (fun _ => true) cs, P n) ↔ ∀ c ∈ cs, c.All P := by
  induction cs with
  | nil => simp
  | cons c cs ih => simp [Cmd.All, or_imp, forall_and, ih]

@[simp] theorem Cmd.all_assign {target : Ident} {x : Expr} :
    (Cmd.assign pos target x).All P ↔
      P (.cmd (.assign pos target x)) ∧ P (.ident target) ∧ x.All P := by
  simp [Cmd.All, Expr.All]

@[simp] theorem Cmd.all_call {callee : Ident} {a : Arg} :
    (Cmd.call pos callee a).All P ↔
      P (.cmd (.call pos callee a)) ∧ P (.ident callee) ∧ a.All P := by
  simp [Cmd.All, Arg.All]

@[simp] theorem Cmd.all_seq {cs : List Cmd} :
    (Cmd.seq pos cs).All P ↔ P (.cmd (.seq pos cs)) ∧ ∀ c ∈ cs, c.All P := by
  rw [← Cmd.forall_walkAll]
  simp [Cmd.All]

@[simp] theorem Cmd.all_block {body : Cmd} :
    (Cmd.block p body q).All P ↔ P (.cmd (.block p body q)) ∧ body.All P := by
  simp [Cmd.All]

@[simp] theorem Cmd.all_ifElse {cond : Expr} {yes no : Cmd} :
    (Cmd.ifElse pos cond yes no).All P ↔
      P (.cmd (.ifElse pos cond yes no)) ∧ cond.All P ∧ yes.All P ∧ no.All P := by
  simp [Cmd.All, Expr.All, or_imp, forall_and]

@[simp] theorem Cmd.all_ifEither {cond alt : Expr} {yes no : Cmd} :
    (Cmd.ifEither pos cond alt yes no).All P ↔
      P (.cmd (.ifEither pos cond alt yes no)) ∧ cond.All P ∧ alt.All P ∧ yes.All P ∧
        no.All P := by
  simp [Cmd.All, Expr.All, or_imp, forall_and]

@[simp] theorem Cmd.all_whileDo {cond : Expr} {body : Cmd} :
    (Cmd.whileDo pos cond body).All P ↔
      P (.cmd (.whileDo pos cond body)) ∧ cond.All P ∧ body.All P := by
  simp [Cmd.All, Expr.All, or_imp, forall_and]

@[simp] theorem Cmd.all_letIn {d : Decl} {body : Cmd} :
    (Cmd.letIn pos d body).All P ↔ P (.cmd (.letIn pos d body)) ∧ d.All P ∧ body.All P := by
  simp [Cmd.All, Decl.All, or_imp, forall_and]

@[simp] theorem Cmd.all_skip {explicit : Bool} :
    (Cmd.skip pos explicit).All P ↔ P (.cmd (.skip pos explicit)) := by
  simp [Cmd.All]

@[simp] theorem Cmd.all_bad : (Cmd.bad pos).All P ↔ P (.cmd (.bad pos)) := by
  simp [Cmd.All]

theorem Program.all_iff {t : Program} : t.All P ↔ P (.program t) ∧ t.body.All P := by
  simp [Program.All, Program.nodes, Program.walk, Cmd.All]

end Equations

section Inside

variable {P} {d : Decl}

mutual

theorem Expr.decl_notMem_walk : ∀ x : Expr, .decl d ∉ x.walk fun _ => true
  | .int .. | .char .. | .name .. | .bad .. => by simp
  | .unary _ _ _ x => by simpa using x.decl_notMem_walk
  | .binary _ _ x _ y => by
    simpa using ⟨x.decl_notMem_walk, y.decl_notMem_walk⟩
  | .call _ _ _ a => by simpa using a.decl_notMem_walk

theorem Arg.decl_notMem_walk : ∀ a : Arg, .decl d ∉ a.walk fun _ => true
  | .value _ x => by simpa using x.decl_notMem_walk
  | .var .. | .blank _ | .bad _ => by simp

end

mutual

/-- What holds of all nodes holds of those of a declaration inside. -/
theorem Decl.all_of_mem_walk : ∀ e : Decl, .decl d ∈ e.walk (fun _ => true) → e.All P → d.All P
  | .const pos ty storage name x, member, all => by
    obtain rfl | member : d = .const pos ty storage name x ∨ .decl d ∈ x.walk fun _ => true := by
      simpa using member
    · exact all
    · exact absurd member x.decl_notMem_walk
  | .var pos ty storage name typeName, member, all => by
    obtain rfl : d = .var pos ty storage name typeName := by simpa using member
    exact all
  | .seq pos ds, member, all => by
    obtain rfl | member : d = .seq pos ds ∨ .decl d ∈ Decl.walkAll (fun _ => true) ds := by
      simpa using member
    · exact all
    · exact Decl.all_of_mem_walkAll ds member (Decl.all_seq.1 all).2
  | .bad pos, member, all => by
    obtain rfl : d = .bad pos := by simpa using member
    exact all
  | .builtin b, member, all => by
    obtain rfl : d = .builtin b := by simpa using member
    exact all

theorem Decl.all_of_mem_walkAll : ∀ ds : List Decl, .decl d ∈ Decl.walkAll (fun _ => true) ds →
    (∀ e ∈ ds, e.All P) → d.All P
  | [], member, _ => by simp at member
  | e :: ds, member, all => by
    rcases List.mem_append.1 member with member | member
    · exact Decl.all_of_mem_walk e member (all e (by simp))
    · exact Decl.all_of_mem_walkAll ds member fun e h => all e (by simp [h])

end

mutual

theorem Cmd.all_of_mem_walk : ∀ c : Cmd, .decl d ∈ c.walk (fun _ => true) → c.All P → d.All P
  | .assign _ _ x, member, _ => by
    exact absurd (by simpa using member) x.decl_notMem_walk
  | .call _ _ a, member, _ => by
    exact absurd (by simpa using member) a.decl_notMem_walk
  | .seq _ cs, member, all =>
    Cmd.all_of_mem_walkAll cs (by simpa using member) (Cmd.all_seq.1 all).2
  | .block _ body _, member, all =>
    body.all_of_mem_walk (by simpa using member) (Cmd.all_block.1 all).2
  | .ifElse _ cond yes no, member, all => by
    obtain ⟨-, -, allYes, allNo⟩ := Cmd.all_ifElse.1 all
    have member : .decl d ∈ yes.walk (fun _ => true) ∨ .decl d ∈ no.walk (fun _ => true) := by
      simpa [cond.decl_notMem_walk] using member
    rcases member with member | member
    · exact yes.all_of_mem_walk member allYes
    · exact no.all_of_mem_walk member allNo
  | .ifEither _ cond alt yes no, member, all => by
    obtain ⟨-, -, -, allYes, allNo⟩ := Cmd.all_ifEither.1 all
    have member : .decl d ∈ yes.walk (fun _ => true) ∨ .decl d ∈ no.walk (fun _ => true) := by
      simpa [cond.decl_notMem_walk, alt.decl_notMem_walk] using member
    rcases member with member | member
    · exact yes.all_of_mem_walk member allYes
    · exact no.all_of_mem_walk member allNo
  | .whileDo _ cond body, member, all =>
    body.all_of_mem_walk (by simpa [cond.decl_notMem_walk] using member)
      (Cmd.all_whileDo.1 all).2.2
  | .letIn _ e body, member, all => by
    obtain ⟨-, allDecl, allBody⟩ := Cmd.all_letIn.1 all
    have member : .decl d ∈ e.walk (fun _ => true) ∨ .decl d ∈ body.walk (fun _ => true) := by
      simpa using member
    rcases member with member | member
    · exact Decl.all_of_mem_walk e member allDecl
    · exact body.all_of_mem_walk member allBody
  | .skip .., member, _ | .bad _, member, _ => by simp at member

theorem Cmd.all_of_mem_walkAll : ∀ cs : List Cmd, .decl d ∈ Cmd.walkAll (fun _ => true) cs →
    (∀ c ∈ cs, c.All P) → d.All P
  | [], member, _ => by simp at member
  | c :: cs, member, all => by
    rcases List.mem_append.1 member with member | member
    · exact c.all_of_mem_walk member (all c (by simp))
    · exact Cmd.all_of_mem_walkAll cs member fun c h => all c (by simp [h])

end

end Inside

end Walks

namespace Node

/-- Whether the node stands for something that could not be parsed: it is an error node, or a name
that is missing. -/
@[simp] def isError : Node → Bool
  | cmd (.bad _) | decl (.bad _) | expr (.bad ..) | arg (.bad _) => true
  | ident id => id.name == ""
  | _ => false

/-- Whether the node stands for something that was parsed, and is a character literal only if it is
spelled like one. -/
@[simp] def isIntact : Node → Bool
  | charLit lit => lit.charValue?.isSome
  | n => !n.isError

theorem isError_of_isIntact {n : Node} (h : n.isIntact = true) : n.isError = false := by
  unfold isIntact at h
  split at h
  · rfl
  · simpa using h

end Node

theorem Expr.All.complete {x : Expr} (intact : x.All fun n => n.isIntact = true) :
    x.All fun n => n.isError = false :=
  fun n member => Node.isError_of_isIntact (intact n member)

theorem Decl.All.complete {d : Decl} (intact : d.All fun n => n.isIntact = true) :
    d.All fun n => n.isError = false :=
  fun n member => Node.isError_of_isIntact (intact n member)

/-- The tree has no error nodes and no missing names. -/
def Program.Complete (p : Program) : Prop :=
  p.All fun n => n.isError = false

/-- The tree is complete and its character literals are ones. -/
def Program.Intact (p : Program) : Prop :=
  p.All fun n => n.isIntact = true

/-- The character literals of the tree are ones. -/
def Program.LiteralsProper (p : Program) : Prop :=
  p.All fun n => ∀ lit, n = .charLit lit → lit.charValue?.isSome = true

theorem Program.Intact.literalsProper {p : Program} (intact : p.Intact) : p.LiteralsProper := by
  rintro n member lit rfl
  exact intact _ member

theorem Program.Intact.complete {p : Program} (intact : p.Intact) : p.Complete :=
  fun n member => Node.isError_of_isIntact (intact n member)

end TriangleTam
