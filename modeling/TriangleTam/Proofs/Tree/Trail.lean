import TriangleTam.Proofs.Tree.Nodes

/-!
# The trail of a walk

The positions a walk comes by. A walk that leaves out the inside of some nodes visits the others in
the same order. The trail of a command is made of the positions of its nodes in the order of a walk,
with the position of a closing brace behind the body of its block, so that what is said about the
order of a trail holds of both.
-/

namespace TriangleTam

open List (Sublist)

section Walks

variable {enter : Node → Bool}

/-- If the inside of a node is left out or part of another, the same is so with the node. -/
theorem visited_sublist {n : Node} {inside all : List Node} (part : Sublist inside all) :
    Sublist (n :: if !enter n then [] else inside) (n :: if !true then [] else all) := by
  refine Sublist.cons_cons n ?_
  split
  · exact List.nil_sublist _
  · exact part

mutual

theorem Expr.walk_sublist : ∀ x : Expr, Sublist (x.walk enter) (x.walk fun _ => true)
  | .int .. | .char .. | .name .. | .bad .. => by
    rw [Expr.walk, Expr.walk]
    exact visited_sublist (Sublist.refl _)
  | .unary _ _ _ x => by
    rw [Expr.walk, Expr.walk]
    exact visited_sublist (x.walk_sublist.cons_cons _)
  | .binary _ _ x _ y => by
    rw [Expr.walk, Expr.walk]
    exact visited_sublist (x.walk_sublist.append (y.walk_sublist.cons_cons _))
  | .call _ _ _ a => by
    rw [Expr.walk, Expr.walk]
    exact visited_sublist (a.walk_sublist.cons_cons _)

theorem Arg.walk_sublist : ∀ a : Arg, Sublist (a.walk enter) (a.walk fun _ => true)
  | .value _ x => by
    rw [Arg.walk, Arg.walk]
    exact visited_sublist x.walk_sublist
  | .var .. | .blank _ | .bad _ => by
    rw [Arg.walk, Arg.walk]
    exact visited_sublist (Sublist.refl _)

end

mutual

theorem Decl.walk_sublist : ∀ d : Decl, Sublist (d.walk enter) (d.walk fun _ => true)
  | .const _ _ _ _ x => by
    rw [Decl.walk, Decl.walk]
    exact visited_sublist (x.walk_sublist.cons_cons _)
  | .seq _ ds => by
    rw [Decl.walk, Decl.walk]
    exact visited_sublist (Decl.walkAll_sublist ds)
  | .var .. | .bad _ | .builtin _ => by
    rw [Decl.walk, Decl.walk]
    exact visited_sublist (Sublist.refl _)

theorem Decl.walkAll_sublist : ∀ ds : List Decl,
    Sublist (Decl.walkAll enter ds) (Decl.walkAll (fun _ => true) ds)
  | [] => Sublist.slnil
  | d :: ds => by
    rw [Decl.walkAll, Decl.walkAll]
    exact d.walk_sublist.append (Decl.walkAll_sublist ds)

end

mutual

theorem Cmd.walk_sublist : ∀ c : Cmd, Sublist (c.walk enter) (c.walk fun _ => true)
  | .assign _ _ x => by
    rw [Cmd.walk, Cmd.walk]
    exact visited_sublist (x.walk_sublist.cons_cons _)
  | .call _ _ a => by
    rw [Cmd.walk, Cmd.walk]
    exact visited_sublist (a.walk_sublist.cons_cons _)
  | .seq _ cs => by
    rw [Cmd.walk, Cmd.walk]
    exact visited_sublist (Cmd.walkAll_sublist cs)
  | .block _ body _ => by
    rw [Cmd.walk, Cmd.walk]
    exact visited_sublist body.walk_sublist
  | .ifElse _ cond yes no => by
    rw [Cmd.walk, Cmd.walk]
    exact visited_sublist ((cond.walk_sublist.append yes.walk_sublist).append no.walk_sublist)
  | .ifEither _ cond alt yes no => by
    rw [Cmd.walk, Cmd.walk]
    exact visited_sublist (((cond.walk_sublist.append alt.walk_sublist).append
      yes.walk_sublist).append no.walk_sublist)
  | .whileDo _ cond body => by
    rw [Cmd.walk, Cmd.walk]
    exact visited_sublist (cond.walk_sublist.append body.walk_sublist)
  | .letIn _ d body => by
    rw [Cmd.walk, Cmd.walk]
    exact visited_sublist (d.walk_sublist.append body.walk_sublist)
  | .skip .. | .bad _ => by
    rw [Cmd.walk, Cmd.walk]
    exact visited_sublist (Sublist.refl _)

theorem Cmd.walkAll_sublist : ∀ cs : List Cmd,
    Sublist (Cmd.walkAll enter cs) (Cmd.walkAll (fun _ => true) cs)
  | [] => Sublist.slnil
  | c :: cs => by
    rw [Cmd.walkAll, Cmd.walkAll]
    exact c.walk_sublist.append (Cmd.walkAll_sublist cs)

end

/-- A walk visits nodes of the program in the order in which they come. -/
theorem Program.walk_sublist (p : Program) : Sublist (p.walk enter) p.nodes := by
  refine Sublist.cons_cons _ ?_
  split
  · exact p.body.walk_sublist
  · exact List.nil_sublist _

end Walks

section Trails

/-- The positions of the nodes of an expression, in the order of a walk. -/
def Expr.trail (x : Expr) : List Pos := (x.walk fun _ => true).map Node.pos

/-- The positions of the nodes of an actual parameter, in the order of a walk. -/
def Arg.trail (a : Arg) : List Pos := (a.walk fun _ => true).map Node.pos

/-- The positions of the nodes of a declaration, in the order of a walk. -/
def Decl.trail (d : Decl) : List Pos := (d.walk fun _ => true).map Node.pos

mutual

/-- The positions of the nodes of a command in the order of a walk, and those of closing braces
behind the bodies of their blocks. -/
def Cmd.trail : Cmd → List Pos
  | .assign pos target value => pos :: target.pos :: value.trail
  | .call pos callee arg => pos :: callee.pos :: arg.trail
  | .seq pos cmds => pos :: Cmd.trailAll cmds
  | .block pos body close => pos :: (body.trail ++ [close])
  | .ifElse pos cond yes no => pos :: (cond.trail ++ yes.trail ++ no.trail)
  | .ifEither pos cond alt yes no => pos :: (cond.trail ++ alt.trail ++ yes.trail ++ no.trail)
  | .whileDo pos cond body => pos :: (cond.trail ++ body.trail)
  | .letIn pos decl body => pos :: (decl.trail ++ body.trail)
  | .skip pos _ | .bad pos => [pos]

/-- The trails of commands one after the other. -/
def Cmd.trailAll : List Cmd → List Pos
  | [] => []
  | c :: cs => c.trail ++ Cmd.trailAll cs

end

section Equations

variable {pos : Pos} {ty : Option Ty} {storage : Option Storage} {id : Ident}

@[simp] theorem Expr.trail_int {lit : Literal} : (Expr.int pos ty lit).trail = [pos, lit.pos] := by
  simp [trail, walk, Node.pos, Expr.pos]

@[simp] theorem Expr.trail_char {lit : Literal} :
    (Expr.char pos ty lit).trail = [pos, lit.pos] := by
  simp [trail, walk, Node.pos, Expr.pos]

@[simp] theorem Expr.trail_name : (Expr.name pos ty id).trail = [pos, id.pos] := by
  simp [trail, walk, Node.pos, Expr.pos]

@[simp] theorem Expr.trail_unary {op : OpName} {x : Expr} :
    (Expr.unary pos ty op x).trail = pos :: op.pos :: x.trail := by
  simp [trail, walk, Node.pos, Expr.pos]

@[simp] theorem Expr.trail_binary {op : OpName} {x y : Expr} :
    (Expr.binary pos ty x op y).trail = pos :: (x.trail ++ op.pos :: y.trail) := by
  simp [trail, walk, Node.pos, Expr.pos]

@[simp] theorem Expr.trail_call {a : Arg} :
    (Expr.call pos ty id a).trail = pos :: id.pos :: a.trail := by
  simp [trail, walk, Arg.trail, Node.pos, Expr.pos]

@[simp] theorem Expr.trail_bad : (Expr.bad pos ty).trail = [pos] := by
  simp [trail, walk, Node.pos, Expr.pos]

@[simp] theorem Arg.trail_value {x : Expr} : (Arg.value pos x).trail = pos :: x.trail := by
  simp [trail, walk, Expr.trail, Node.pos, Arg.pos]

@[simp] theorem Arg.trail_var : (Arg.var pos id).trail = [pos, id.pos] := by
  simp [trail, walk, Node.pos, Arg.pos]

@[simp] theorem Arg.trail_blank : (Arg.blank pos).trail = [pos] := by
  simp [trail, walk, Node.pos, Arg.pos]

@[simp] theorem Arg.trail_bad : (Arg.bad pos).trail = [pos] := by
  simp [trail, walk, Node.pos, Arg.pos]

@[simp] theorem Decl.trail_const {x : Expr} :
    (Decl.const pos ty storage id x).trail = pos :: id.pos :: x.trail := by
  simp [trail, walk, Expr.trail, Node.pos, Decl.pos]

@[simp] theorem Decl.trail_var {typeName : Ident} :
    (Decl.var pos ty storage id typeName).trail = [pos, id.pos, typeName.pos] := by
  simp [trail, walk, Node.pos, Decl.pos]

theorem Decl.map_pos_walkAll (ds : List Decl) :
    (Decl.walkAll (fun _ => true) ds).map Node.pos = ds.flatMap Decl.trail := by
  induction ds with
  | nil => rfl
  | cons d ds ih => rw [Decl.walkAll, List.map_append, ih, List.flatMap_cons, Decl.trail]

@[simp] theorem Decl.trail_seq {ds : List Decl} :
    (Decl.seq pos ds).trail = pos :: ds.flatMap Decl.trail := by
  rw [← Decl.map_pos_walkAll]
  simp [trail, walk, Node.pos, Decl.pos]

@[simp] theorem Decl.trail_bad : (Decl.bad pos).trail = [pos] := by
  simp [trail, walk, Node.pos, Decl.pos]

@[simp] theorem Cmd.trailAll_append (cs ds : List Cmd) :
    Cmd.trailAll (cs ++ ds) = Cmd.trailAll cs ++ Cmd.trailAll ds := by
  induction cs with
  | nil => rfl
  | cons c cs ih => rw [List.cons_append, trailAll, trailAll, ih, List.append_assoc]

/-- The trail of an expression starts where the expression does. -/
theorem Expr.exists_trail (x : Expr) : ∃ ps, x.trail = x.pos :: ps := by
  unfold Expr.trail Expr.walk
  exact ⟨_, rfl⟩

/-- The trail of a command starts where the command does. -/
theorem Cmd.exists_trail (c : Cmd) : ∃ ps, c.trail = c.pos :: ps := by
  cases c <;> exact ⟨_, by rw [Cmd.trail, Cmd.pos]⟩

end Equations

mutual

/-- The nodes of a command have their positions in its trail, in the order of a walk. -/
theorem Cmd.map_pos_walk_sublist : ∀ c : Cmd,
    Sublist ((c.walk fun _ => true).map Node.pos) c.trail
  | .assign .. | .call .. | .skip .. | .bad _ => by
    simp [Cmd.walk, Cmd.trail, Expr.trail, Arg.trail, Node.pos, Cmd.pos]
  | .seq _ cs => by
    simpa [Cmd.walk, Cmd.trail, Node.pos, Cmd.pos] using Cmd.map_pos_walkAll_sublist cs
  | .block _ body close => by
    simpa [Cmd.walk, Cmd.trail, Node.pos, Cmd.pos] using
      body.map_pos_walk_sublist.trans (List.sublist_append_left _ [close])
  | .ifElse _ cond yes no => by
    simpa [Cmd.walk, Cmd.trail, Expr.trail, Node.pos, Cmd.pos] using
      yes.map_pos_walk_sublist.append no.map_pos_walk_sublist
  | .ifEither _ cond alt yes no => by
    simpa [Cmd.walk, Cmd.trail, Expr.trail, Node.pos, Cmd.pos] using
      yes.map_pos_walk_sublist.append no.map_pos_walk_sublist
  | .whileDo _ cond body => by
    simpa [Cmd.walk, Cmd.trail, Expr.trail, Node.pos, Cmd.pos] using body.map_pos_walk_sublist
  | .letIn _ d body => by
    simpa [Cmd.walk, Cmd.trail, Decl.trail, Node.pos, Cmd.pos] using body.map_pos_walk_sublist

theorem Cmd.map_pos_walkAll_sublist : ∀ cs : List Cmd,
    Sublist ((Cmd.walkAll (fun _ => true) cs).map Node.pos) (Cmd.trailAll cs)
  | [] => Sublist.slnil
  | c :: cs => by
    rw [Cmd.walkAll, List.map_append, Cmd.trailAll]
    exact c.map_pos_walk_sublist.append (Cmd.map_pos_walkAll_sublist cs)

end

end Trails

section Blocks

variable {c : Cmd}

mutual

theorem Expr.cmd_notMem_walk : ∀ x : Expr, .cmd c ∉ x.walk fun _ => true
  | .int .. | .char .. | .name .. | .bad .. => by simp [Expr.walk]
  | .unary _ _ _ x => by simpa [Expr.walk] using x.cmd_notMem_walk
  | .binary _ _ x _ y => by simpa [Expr.walk] using ⟨x.cmd_notMem_walk, y.cmd_notMem_walk⟩
  | .call _ _ _ a => by simpa [Expr.walk] using a.cmd_notMem_walk

theorem Arg.cmd_notMem_walk : ∀ a : Arg, .cmd c ∉ a.walk fun _ => true
  | .value _ x => by simpa [Arg.walk] using x.cmd_notMem_walk
  | .var .. | .blank _ | .bad _ => by simp [Arg.walk]

end

mutual

theorem Decl.cmd_notMem_walk : ∀ d : Decl, .cmd c ∉ d.walk fun _ => true
  | .const _ _ _ _ x => by simpa [Decl.walk] using x.cmd_notMem_walk
  | .seq _ ds => by simpa [Decl.walk] using Decl.cmd_notMem_walkAll ds
  | .var .. | .bad _ | .builtin _ => by simp [Decl.walk]

theorem Decl.cmd_notMem_walkAll : ∀ ds : List Decl, .cmd c ∉ Decl.walkAll (fun _ => true) ds
  | [] => by simp [Decl.walkAll]
  | d :: ds => by
    simpa [Decl.walkAll] using ⟨d.cmd_notMem_walk, Decl.cmd_notMem_walkAll ds⟩

end

variable {pos close : Pos} {body : Cmd}

mutual

/-- In a trail, the closing brace of a block is behind the trail of its body. -/
theorem Cmd.block_sublist : ∀ c : Cmd, .cmd (.block pos body close) ∈ c.walk (fun _ => true) →
    Sublist (body.trail ++ [close]) c.trail
  | .assign _ _ x, member => by simp [Cmd.walk, x.cmd_notMem_walk] at member
  | .call _ _ a, member => by simp [Cmd.walk, a.cmd_notMem_walk] at member
  | .skip .., member | .bad _, member => by simp [Cmd.walk] at member
  | .seq _ cs, member => by
    have inside := Cmd.block_sublist_trailAll cs (by simpa [Cmd.walk] using member)
    rw [Cmd.trail]
    exact inside.cons _
  | .block _ inner _, member => by
    rw [Cmd.trail]
    refine Sublist.cons _ ?_
    simp only [Cmd.walk, List.mem_cons, Node.cmd.injEq, Cmd.block.injEq] at member
    rcases member with ⟨-, rfl, rfl⟩ | member
    · exact Sublist.refl _
    · exact (inner.block_sublist member).trans (List.sublist_append_left _ _)
  | .ifElse _ cond yes no, member => by
    rw [Cmd.trail]
    refine Sublist.cons _ ?_
    have member : .cmd (.block pos body close) ∈ yes.walk (fun _ => true) ∨
        .cmd (.block pos body close) ∈ no.walk (fun _ => true) := by
      simpa [Cmd.walk, cond.cmd_notMem_walk] using member
    rcases member with member | member
    · have inside := yes.block_sublist member
      exact (inside.trans (List.sublist_append_right _ _)).trans (List.sublist_append_left _ _)
    · exact (no.block_sublist member).trans (List.sublist_append_right _ _)
  | .ifEither _ cond alt yes no, member => by
    rw [Cmd.trail]
    refine Sublist.cons _ ?_
    have member : .cmd (.block pos body close) ∈ yes.walk (fun _ => true) ∨
        .cmd (.block pos body close) ∈ no.walk (fun _ => true) := by
      simpa [Cmd.walk, cond.cmd_notMem_walk, alt.cmd_notMem_walk] using member
    rcases member with member | member
    · have inside := yes.block_sublist member
      exact (inside.trans (List.sublist_append_right _ _)).trans (List.sublist_append_left _ _)
    · exact (no.block_sublist member).trans (List.sublist_append_right _ _)
  | .whileDo _ cond body', member => by
    rw [Cmd.trail]
    have inside := body'.block_sublist (by simpa [Cmd.walk, cond.cmd_notMem_walk] using member)
    exact (inside.trans (List.sublist_append_right _ _)).cons _
  | .letIn _ d body', member => by
    rw [Cmd.trail]
    have inside := body'.block_sublist (by simpa [Cmd.walk, d.cmd_notMem_walk] using member)
    exact (inside.trans (List.sublist_append_right _ _)).cons _

theorem Cmd.block_sublist_trailAll : ∀ cs : List Cmd,
    .cmd (.block pos body close) ∈ Cmd.walkAll (fun _ => true) cs →
      Sublist (body.trail ++ [close]) (Cmd.trailAll cs)
  | [], member => by simp [Cmd.walkAll] at member
  | c :: cs, member => by
    rw [Cmd.walkAll] at member
    rw [Cmd.trailAll]
    rcases List.mem_append.1 member with member | member
    · exact (c.block_sublist member).trans (List.sublist_append_left _ _)
    · exact (Cmd.block_sublist_trailAll cs member).trans (List.sublist_append_right _ _)

end

end Blocks

end TriangleTam
