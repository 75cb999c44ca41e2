import TriangleTam.Generate.Expr

/-!
# Code of programs

The code of a command depends on the address where it starts, since jumps go to fixed addresses. A
`let` reserves the words of its declarations on the stack and drops them behind its body.
-/

namespace TriangleTam

namespace Generate

open Machine

/-- Jumps to an address. -/
def jump (target : Nat) : Instruction :=
  { op := .jump, reg := .codeBase, d := target }

/-- Pops a truth value and jumps to an address if it is the given one. -/
def jumpIf (truth : Bool) (target : Nat) : Instruction :=
  { op := .jumpif, reg := .codeBase, n := if truth then 1 else 0, d := target }

/-- Drops words from the stack, if there are any to drop. -/
def drop (words : Nat) : List Instruction :=
  if words = 0 then [] else [{ op := .pop, d := words }]

/-- The storage noted on a declaration. -/
def declStorage (name : Ident) : Option Storage → Except Fault Storage
  | some s => .ok s
  | none => .error (.noStorage name.name name.pos)

/-- Reserves the words of a variable. -/
def varDecl (name : Ident) (storage : Option Storage) : Except Fault (List Instruction × Nat) := do
  let s ← declStorage name storage
  if s.kind = .knownAddress then return ([{ op := .push, d := s.size }], s.size)
  else throw (.variableStorage name.name s.kind)

/-- Evaluates a constant where it will be kept, unless its value is known. -/
def constDecl (name : Ident) (storage : Option Storage) (value : Expr) :
    Except Fault (List Instruction × Nat) := do
  let s ← declStorage name storage
  match s.kind with
  | .knownValue => return ([], 0)
  | .unknownValue =>
    let code ← expr value
    return (code, s.size)
  | kind => throw (.constantStorage name.name kind)

mutual

/-- The code of a declaration, and the number of words it leaves on the stack. -/
def decl : Decl → Except Fault (List Instruction × Nat)
  | .seq _ ds => decls ds
  | .var _ _ storage name _ => varDecl name storage
  | .const _ _ storage name value => constDecl name storage value
  | .bad pos => .error (.noCode (Decl.bad pos).nodeName pos)
  | .builtin b => .error (.noCode b.nodeName Pos.none)

/-- The code of declarations one after the other. -/
def decls : List Decl → Except Fault (List Instruction × Nat)
  | [] => .ok ([], 0)
  | d :: ds => do
    let (first, m) ← decl d
    let (rest, n) ← decls ds
    return (first ++ rest, m + n)

end

mutual

/-- The code of a command that starts at the address `base`. -/
def cmd (base : Nat) : Cmd → Code
  | .skip .. => .ok []
  | .assign _ target value => do
    let code ← expr value
    let last ← store target
    return code ++ last
  | .call _ callee a => do
    let (result, prim) ← routineOf callee
    let code ← arg a
    return code ++ [callPrimitive prim] ++ drop result.size
  | .seq _ cs => cmds base cs
  | .block _ body _ => cmd base body
  | .ifElse _ cond yes no => do
    let test ← expr cond
    let yesAt := base + test.length + 1
    let yes ← cmd yesAt yes
    let noAt := yesAt + yes.length + 1
    let no ← cmd noAt no
    return test ++ jumpIf false noAt :: yes ++ jump (noAt + no.length) :: no
  | .ifEither _ cond alt yes no => do
    let test ← expr cond
    let test' ← expr alt
    let yesAt := base + test.length + 1 + test'.length + 1
    let yes ← cmd yesAt yes
    let noAt := yesAt + yes.length + 1
    let no ← cmd noAt no
    return test ++ jumpIf true yesAt :: test' ++ jumpIf false noAt :: yes
      ++ jump (noAt + no.length) :: no
  | .whileDo _ cond body => do
    let test ← expr cond
    let bodyAt := base + test.length + 1
    let body ← cmd bodyAt body
    return test ++ jumpIf false (bodyAt + body.length + 1) :: body ++ [jump base]
  | .letIn _ d body => do
    let (entry, words) ← decl d
    let body ← cmd (base + entry.length) body
    return entry ++ body ++ drop words
  | .bad pos => .error (.noCode (Cmd.bad pos).nodeName pos)

/-- The code of commands one after the other. -/
def cmds (base : Nat) : List Cmd → Code
  | [] => .ok []
  | c :: cs => do
    let first ← cmd base c
    let rest ← cmds (base + first.length) cs
    return first ++ rest

end

end Generate

/-- The code of a program: that of its command, and then the machine stops. -/
def Program.code (p : Program) : Generate.Code := do
  let body ← Generate.cmd 0 p.body
  return body ++ [{ op := .halt }]

end TriangleTam
