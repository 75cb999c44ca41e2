import TriangleTam.Tree.Walk

/-!
# Nodes that open frames

The program itself, every block and every `let` open a frame. Such a node has an address: it counts
the nodes that open frames, where those next inside a node are met by a walk that enters none of
them. Main statement: `Node.within_eq`, all nodes of a tree that open frames are those next inside
it and, recursively, the ones inside these.
-/

namespace TriangleTam

namespace Node

/-- What stands in the frame that a node opens, if it opens one. -/
def body? : Node → Option Cmd
  | program p => some p.body
  | cmd (.block _ body _) | cmd (.letIn _ _ body) => some body
  | _ => none

/-- Whether the node opens a frame. -/
def opens (n : Node) : Bool := n.body?.isSome

end Node

/-- The nodes in a command that open frames, without those inside another of them. -/
def Cmd.openers (c : Cmd) : List Node :=
  (c.walk fun n => !n.opens).filter Node.opens

namespace Node

/-- The next nodes inside a node that open frames, in the order of the text. -/
def openers (n : Node) : List Node :=
  (n.body?.map Cmd.openers).getD []

/-- The node with an address inside `n`, if there is one. -/
def at? (n : Node) : List Nat → Option Node
  | [] => some n
  | i :: rest => n.openers[i]?.bind (·.at? rest)

/-- The node and all nodes inside it that open frames, in the order of the text. -/
def within (n : Node) : List Node :=
  n :: (n.body?.map fun c => (c.walk fun _ => true).filter opens).getD []

end Node

/-- The last number of an address counts the nodes next inside the one before. -/
theorem Node.at?_append_one (n : Node) (address : List Nat) (i : Nat) :
    n.at? (address ++ [i]) = (n.at? address).bind (·.openers[i]?) := by
  induction address generalizing n with
  | nil => simp [Node.at?]
  | cons j rest ih =>
    rw [List.cons_append, Node.at?, Node.at?]
    cases n.openers[j]? with
    | none => rfl
    | some m => exact ih m

-- No frame is opened in an expression or a declaration, wherever a walk through it goes.
section Shut

variable {enter : Node → Bool}

theorem Node.filter_opens_cons {n : Node} {left : Bool} {inside : List Node}
    (shut : n.opens = false) (rest : inside.filter opens = []) :
    (n :: if left = true then [] else inside).filter opens = [] := by
  cases left <;> simp [shut, rest]

mutual

@[simp] theorem Expr.filter_opens : ∀ x : Expr, (x.walk enter).filter Node.opens = []
  | .int .. | .char .. | .name .. | .bad .. => by
    rw [Expr.walk]
    exact Node.filter_opens_cons rfl rfl
  | .unary _ _ _ x => by
    rw [Expr.walk]
    exact Node.filter_opens_cons rfl x.filter_opens
  | .binary _ _ x op y => by
    rw [Expr.walk]
    refine Node.filter_opens_cons rfl ?_
    rw [List.filter_append, x.filter_opens]
    exact y.filter_opens
  | .call _ _ _ a => by
    rw [Expr.walk]
    exact Node.filter_opens_cons rfl a.filter_opens

@[simp] theorem Arg.filter_opens : ∀ a : Arg, (a.walk enter).filter Node.opens = []
  | .value _ x => by
    rw [Arg.walk]
    exact Node.filter_opens_cons rfl x.filter_opens
  | .var .. | .blank _ | .bad _ => by
    rw [Arg.walk]
    exact Node.filter_opens_cons rfl rfl

end

mutual

@[simp] theorem Decl.filter_opens : ∀ d : Decl, (d.walk enter).filter Node.opens = []
  | .const _ _ _ _ x => by
    rw [Decl.walk]
    exact Node.filter_opens_cons rfl x.filter_opens
  | .seq _ ds => by
    rw [Decl.walk]
    exact Node.filter_opens_cons rfl (Decl.filter_opens_all ds)
  | .var .. | .bad _ | .builtin _ => by
    rw [Decl.walk]
    exact Node.filter_opens_cons rfl rfl

theorem Decl.filter_opens_all : ∀ ds : List Decl,
    (Decl.walkAll enter ds).filter Node.opens = []
  | [] => rfl
  | d :: ds => by
    rw [Decl.walkAll, List.filter_append, d.filter_opens, Decl.filter_opens_all ds]
    rfl

end

end Shut

section Openers

attribute [local simp] Cmd.openers Cmd.walk Cmd.walkAll Node.opens Node.body?

variable {pos close : Pos}

@[simp] theorem Cmd.openers_skip {explicit : Bool} : (Cmd.skip pos explicit).openers = [] := by
  simp

@[simp] theorem Cmd.openers_bad : (Cmd.bad pos).openers = [] := by simp

@[simp] theorem Cmd.openers_assign {target : Ident} {x : Expr} :
    (Cmd.assign pos target x).openers = [] := by
  simp

@[simp] theorem Cmd.openers_call {callee : Ident} {a : Arg} :
    (Cmd.call pos callee a).openers = [] := by
  simp

@[simp] theorem Cmd.openers_seq {cs : List Cmd} :
    (Cmd.seq pos cs).openers = cs.flatMap Cmd.openers := by
  have all : ∀ cs : List Cmd, (Cmd.walkAll (fun n => !n.opens) cs).filter Node.opens =
      cs.flatMap Cmd.openers := by
    intro cs
    induction cs with
    | nil => rfl
    | cons c cs ih => rw [Cmd.walkAll, List.filter_append, ih]; rfl
  rw [← all]
  rfl

@[simp] theorem Cmd.openers_block {body : Cmd} :
    (Cmd.block pos body close).openers = [.cmd (.block pos body close)] := by
  simp

@[simp] theorem Cmd.openers_letIn {d : Decl} {body : Cmd} :
    (Cmd.letIn pos d body).openers = [.cmd (.letIn pos d body)] := by
  simp

@[simp] theorem Cmd.openers_ifElse {cond : Expr} {yes no : Cmd} :
    (Cmd.ifElse pos cond yes no).openers = yes.openers ++ no.openers := by
  simp

@[simp] theorem Cmd.openers_ifEither {cond alt : Expr} {yes no : Cmd} :
    (Cmd.ifEither pos cond alt yes no).openers = yes.openers ++ no.openers := by
  simp

@[simp] theorem Cmd.openers_whileDo {cond : Expr} {body : Cmd} :
    (Cmd.whileDo pos cond body).openers = body.openers := by
  simp

end Openers

section Within

attribute [local simp] Cmd.walk Cmd.walkAll Node.opens Node.body? Node.within

mutual

/-- All nodes in a command that open frames are those next inside it and the ones inside these. -/
theorem Cmd.filter_opens : ∀ c : Cmd,
    (c.walk fun _ => true).filter Node.opens = c.openers.flatMap Node.within
  | .assign .. | .call .. | .skip .. | .bad _ => by simp
  | .seq _ cs => by simpa using Cmd.filter_opens_all cs
  | .block .. | .letIn .. => by simp [List.filter_cons]
  | .ifElse _ _ yes no => by simp [yes.filter_opens, no.filter_opens]
  | .ifEither _ _ _ yes no => by simp [yes.filter_opens, no.filter_opens]
  | .whileDo _ _ body => by simp [body.filter_opens]

theorem Cmd.filter_opens_all : ∀ cs : List Cmd,
    (Cmd.walkAll (fun _ => true) cs).filter Node.opens =
      (cs.flatMap Cmd.openers).flatMap Node.within
  | [] => rfl
  | c :: cs => by
    rw [Cmd.walkAll, List.filter_append, c.filter_opens, Cmd.filter_opens_all cs,
      List.flatMap_cons, List.flatMap_append]

end

theorem Node.within_eq (n : Node) : n.within = n :: n.openers.flatMap within := by
  unfold within openers
  cases n.body? with
  | none => rfl
  | some c => exact congrArg (n :: ·) c.filter_opens

end Within

end TriangleTam
