import TriangleTam.Check.Decl

/-!
# Checking commands and programs

A block and a `let` open a frame; what a `let` declares is gone, with its storage, where its body
ends.
-/

namespace TriangleTam.Check

open Checked (report reportIf within)

/-- Where a command stands. -/
structure Place where
  chain : Chain Meaning
  distance : Int
  /-- The number of `let`s around. -/
  level : Nat
  /-- The number of words in use. -/
  offset : Nat

/-- What names mean at a place. -/
def Place.env (p : Place) : Env :=
  ⟨p.chain, p.distance⟩

/-- Where the declarations of a `let` at this place stand. -/
def Place.letSite (p : Place) : Site :=
  ⟨p.chain, p.distance, p.level + 1⟩

/-- Where the body of a `let` at this place stands, whose declarations are `block`. -/
def Place.letBody (p : Place) (block : Block) : Place :=
  ⟨block.frame :: p.chain, p.distance, p.level + 1, block.offset⟩

/-- The frame of a command in braces. -/
def blockFrame : Frame Meaning := ⟨"block", []⟩

/-- The frame of a `let` before anything is declared in it. -/
def letFrame : Frame Meaning := ⟨"let", []⟩

/-- Where a command in braces at this place stands. -/
def Place.inBraces (p : Place) : Place :=
  { p with chain := blockFrame :: p.chain }

/-- Checks a condition of a command. -/
def condition (env : Env) (command : String) (x : Expr) : Checked Expr := do
  let (x, t) ← value env x
  reportIf (!Ty.boolean.accepts t) x.pos (.condition command t)
  return x

/-- Checks an assignment; the value comes first. -/
def assign (env : Env) (target : Ident) (x : Expr) : Checked (Ident × Expr) := do
  let (x, t) ← value env x
  let (target, m) ← env.resolve target
  match m with
  | none => pure ()
  | some m =>
    if m.isVariable then
      let wanted := m.valueTy?.getD .any
      reportIf (!wanted.accepts t) x.pos (.assignType target.name t wanted)
    else report target.pos (.notAssignable target.name (sortOf m))
  return (target, x)

mutual

/-- Checks a command. -/
def cmd (p : Place) : Cmd → Checked Cmd
  | .skip pos explicit => pure (.skip pos explicit)
  | .bad pos => pure (.bad pos)
  | .assign pos target x => do
    let (target, x) ← assign p.env target x
    return .assign pos target x
  | .call pos callee a => do
    let (callee, expected, _) ← routine p.env callee (isBlank a)
    let a ← arg p.env expected a
    return .call pos callee a
  | .seq pos cs => do
    let cs ← cmds p cs
    return .seq pos cs
  | .block pos body close => within pos blockFrame do
    let body ← cmd p.inBraces body
    return .block pos body close
  | .ifElse pos cond yes no => do
    let cond ← condition p.env "if" cond
    let yes ← cmd p yes
    let no ← cmd p no
    return .ifElse pos cond yes no
  | .ifEither pos cond alt yes no => do
    let cond ← condition p.env "ifeither" cond
    let alt ← condition p.env "ifeither" alt
    let yes ← cmd p yes
    let no ← cmd p no
    return .ifEither pos cond alt yes no
  | .whileDo pos cond body => do
    let cond ← condition p.env "while" cond
    let body ← cmd p body
    return .whileDo pos cond body
  | .letIn pos d body => do
    let (d, block) ← decl p.letSite ⟨letFrame, p.offset⟩ d
    within pos block.frame do
      let body ← cmd (p.letBody block) body
      return .letIn pos d body

/-- Checks commands one after the other. -/
def cmds (p : Place) : List Cmd → Checked (List Cmd)
  | [] => pure []
  | c :: cs => do
    let c ← cmd p c
    let cs ← cmds p cs
    return c :: cs

end

end TriangleTam.Check
