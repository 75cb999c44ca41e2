import TriangleTam.Proofs.Generate.Translation

/-!
# Code that can be moved

Code is emitted into a growing buffer: a jump forward is emitted without a target, and it gets one
when the instruction it goes to is about to be emitted. `emit` makes the code of a command in this
way, and `emits` says that it comes to what `cmd` gives, whatever is in the buffer before: every
jump gets its target once, and no other instruction is touched. The code of a command at one address
is that at any other with its jumps moved along (`moves`), and its jumps stay inside it
(`closed`).
-/

namespace TriangleTam.Generate

open Machine

section Branches

/-- The code of two branches behind a condition, from the jump over the first one on. -/
def branches (base : Nat) (yes no : Cmd) : Code := do
  let first ← cmd (base + 1) yes
  let noAt := base + 1 + first.length + 1
  let second ← cmd noAt no
  return jumpIf false noAt :: first ++ jump (noAt + second.length) :: second

variable {base : Nat} {pos : Pos} {cond alt : Expr} {yes no : Cmd}

theorem cmd_ifElse_eq : cmd base (.ifElse pos cond yes no) = do
    let test ← expr cond
    let rest ← branches (base + test.length) yes no
    return test ++ rest := by
  rw [cmd]
  cases expr cond with
  | error f => rfl
  | ok is =>
    simp only [ok_bind, branches]
    cases cmd (base + is.length + 1) yes with
    | error f => rfl
    | ok js =>
      simp only [ok_bind]
      cases cmd (base + is.length + 1 + js.length + 1) no with
      | error f => rfl
      | ok ks => simp

theorem cmd_ifEither_eq : cmd base (.ifEither pos cond alt yes no) = do
    let test ← expr cond
    let test' ← expr alt
    let yesAt := base + test.length + 1 + test'.length + 1
    let rest ← branches (base + test.length + 1 + test'.length) yes no
    return test ++ jumpIf true yesAt :: test' ++ rest := by
  rw [cmd]
  cases expr cond with
  | error f => rfl
  | ok is =>
    cases expr alt with
    | error f => rfl
    | ok js =>
      simp only [ok_bind, branches]
      generalize base + is.length + 1 + js.length + 1 = yesAt
      cases cmd yesAt yes with
      | error f => rfl
      | ok ks =>
        simp only [ok_bind]
        cases cmd (yesAt + ks.length + 1) no with
        | error f => rfl
        | ok ls => simp

end Branches

section Emission

/-- Why nothing is emitted. -/
inductive EmitFault where
  /-- The tree has no code. -/
  | tree (fault : Fault)
  /-- A jump is to get a target, and there is no instruction at its address. -/
  | noInstruction (address : Nat)
  /-- An instruction is to get a target that is no jump, or has one. -/
  | notOpen (i : Instruction) (address : Nat)
deriving DecidableEq, Repr

/-- A jump whose target is not known yet. -/
def openJump (op : Op) (n : Int) : Instruction :=
  { op := op, reg := .codeBase, n := n, d := -1 }

/-- Lets the open jump at an address go to the instruction that is emitted next. -/
def patch (address : Nat) (buffer : List Instruction) : Except EmitFault (List Instruction) :=
  match buffer[address]? with
  | none => .error (.noInstruction address)
  | some i =>
    if i.op.info.isJump = true ∧ i.d = -1 then
      .ok (buffer.set address { i with d := buffer.length })
    else .error (.notOpen i address)

/-- Emits code that does not depend on where it stands. -/
def emitCode (buffer : List Instruction) : Code → Except EmitFault (List Instruction)
  | .ok code => .ok (buffer ++ code)
  | .error f => .error (.tree f)

mutual

/-- Emits the code of a command. -/
def emit (buffer : List Instruction) : Cmd → Except EmitFault (List Instruction)
  | .skip .. => .ok buffer
  | .assign _ target value => do
    let buffer ← emitCode buffer (expr value)
    emitCode buffer (store target)
  | .call _ callee a =>
    match routineOf callee with
    | .error f => .error (.tree f)
    | .ok (result, prim) => do
      let buffer ← emitCode buffer (arg a)
      return buffer ++ [callPrimitive prim] ++ drop result.size
  | .seq _ cs => emitAll buffer cs
  | .block _ body _ => emit buffer body
  | .ifElse _ cond yes no => do
    let buffer ← emitCode buffer (expr cond)
    let toElse := buffer.length
    let buffer ← emit (buffer ++ [openJump .jumpif 0]) yes
    let toEnd := buffer.length
    let buffer ← patch toElse (buffer ++ [openJump .jump 0])
    let buffer ← emit buffer no
    patch toEnd buffer
  | .ifEither _ cond alt yes no => do
    let buffer ← emitCode buffer (expr cond)
    let toThen := buffer.length
    let buffer ← emitCode (buffer ++ [openJump .jumpif 1]) (expr alt)
    let toElse := buffer.length
    let buffer ← patch toThen (buffer ++ [openJump .jumpif 0])
    let buffer ← emit buffer yes
    let toEnd := buffer.length
    let buffer ← patch toElse (buffer ++ [openJump .jump 0])
    let buffer ← emit buffer no
    patch toEnd buffer
  | .whileDo _ cond body => do
    let test := buffer.length
    let buffer ← emitCode buffer (expr cond)
    let toEnd := buffer.length
    let buffer ← emit (buffer ++ [openJump .jumpif 0]) body
    patch toEnd (buffer ++ [jump test])
  | .letIn _ d body =>
    match decl d with
    | .error f => .error (.tree f)
    | .ok (entry, words) => do
      let buffer ← emit (buffer ++ entry) body
      return buffer ++ drop words
  | .bad pos => .error (.tree (.noCode (Cmd.bad pos).nodeName pos))

/-- Emits the code of commands one after the other. -/
def emitAll (buffer : List Instruction) : List Cmd → Except EmitFault (List Instruction)
  | [] => .ok buffer
  | c :: cs => do
    let buffer ← emit buffer c
    emitAll buffer cs

end

/-- An open jump gets its target, and nothing else in the buffer changes. -/
theorem patch_append {op : Op} (isJump : op.info.isJump = true) (n : Int)
    (before after : List Instruction) :
    patch before.length (before ++ openJump op n :: after) =
      .ok (before ++ { openJump op n with d := (before.length + 1 + after.length : Nat) } ::
        after) := by
  have here : (before ++ openJump op n :: after)[before.length]? = some (openJump op n) := by
    rw [List.getElem?_append_right (Nat.le_refl _), Nat.sub_self]
    rfl
  have length : (before ++ openJump op n :: after).length = before.length + 1 + after.length := by
    simp only [List.length_append, List.length_cons]
    omega
  have isOpen : (openJump op n).op.info.isJump = true ∧ (openJump op n).d = -1 := ⟨isJump, rfl⟩
  unfold patch
  simp only [here]
  rw [if_pos isOpen, length, List.set_append_right _ _ (Nat.le_refl _), Nat.sub_self]
  rfl

/-- The target that a patched jump gets is the one that code made with known addresses has. -/
theorem patch_jumpIf (truth : Bool) (before after : List Instruction) (target : Nat)
    {buffer : List Instruction}
    (shape : buffer = before ++ openJump .jumpif (if truth then 1 else 0) :: after)
    (here : target = before.length + 1 + after.length) :
    patch before.length buffer = .ok (before ++ jumpIf truth target :: after) := by
  rw [shape, patch_append rfl, ← here]
  rfl

theorem patch_jump (before after : List Instruction) (target : Nat) {buffer : List Instruction}
    (shape : buffer = before ++ openJump .jump 0 :: after)
    (here : target = before.length + 1 + after.length) :
    patch before.length buffer = .ok (before ++ jump target :: after) := by
  rw [shape, patch_append rfl, ← here]
  rfl

/-- Emitting the code of a command leaves the buffer as it is and adds what the code is at the
address where the buffer ends. -/
def Emits (c : Cmd) : Prop :=
  ∀ before : List Instruction, emit before c = emitCode before (cmd before.length c)

/-- Two branches behind a condition: the jump over the first gets its target between the two, and
the jump over the second behind both. -/
theorem emit_branches {yes no : Cmd} (then_ : Emits yes) (else_ : Emits no)
    (before : List Instruction) :
    (do
      let buffer ← emit (before ++ [openJump .jumpif 0]) yes
      let toEnd := buffer.length
      let buffer ← patch before.length (buffer ++ [openJump .jump 0])
      let buffer ← emit buffer no
      patch toEnd buffer) =
    emitCode before (branches before.length yes no) := by
  rw [branches, then_, List.length_append, List.length_singleton]
  cases first : cmd (before.length + 1) yes with
  | error f => rfl
  | ok js =>
    let noAt := before.length + 1 + js.length + 1
    have patched : patch before.length (before ++ [openJump .jumpif 0] ++ js ++ [openJump .jump 0]) =
        .ok (before ++ jumpIf false noAt :: js ++ [openJump .jump 0]) := by
      rw [patch_jumpIf false before (js ++ [openJump .jump 0]) noAt (by simp)]
      · simp
      · simp only [List.length_append, List.length_singleton]
        omega
    have length : (before ++ jumpIf false noAt :: js ++ [openJump .jump 0]).length = noAt := by
      simp only [List.length_append, List.length_cons, List.length_nil]
      omega
    simp only [emitCode, ok_bind]
    rw [patched, ok_bind, else_, length]
    cases second : cmd noAt no with
    | error f => rfl
    | ok ks =>
      have toEnd : (before ++ [openJump .jumpif 0] ++ js).length =
          (before ++ jumpIf false noAt :: js).length := by simp
      simp only [emitCode, ok_bind]
      rw [toEnd, patch_jump (before ++ jumpIf false noAt :: js) ks (noAt + ks.length) (by simp)]
      · simp [noAt]
      · simp only [List.length_append, List.length_cons] at length ⊢
        omega

mutual

theorem emits : ∀ c : Cmd, Emits c
  | .skip .. => fun before => by simp [emit, cmd, emitCode]
  | .bad pos => fun before => by rw [emit, cmd, emitCode]
  | .seq pos cs => fun before => by
    rw [emit, cmd]
    exact emitAll_eq cs before
  | .block pos body close => fun before => by
    rw [emit, cmd]
    exact emits body before
  | .assign pos target value => fun before => by
    rw [emit, cmd]
    cases value : expr value with
    | error f => rfl
    | ok is =>
      cases last : store target with
      | error f => rfl
      | ok js => simp [emitCode]
  | .call pos callee a => fun before => by
    rw [emit, cmd]
    cases found : routineOf callee with
    | error f => rfl
    | ok routine =>
      obtain ⟨result, prim⟩ := routine
      cases passed : arg a with
      | error f => rfl
      | ok is => simp [emitCode]
  | .letIn pos d body => fun before => by
    rw [emit, cmd]
    cases declared : decl d with
    | error f => rfl
    | ok both =>
      obtain ⟨entry, words⟩ := both
      simp only [ok_bind]
      rw [emits body, List.length_append]
      cases inner : cmd (before.length + entry.length) body with
      | error f => rfl
      | ok js => simp [emitCode]
  | .whileDo pos cond body => fun before => by
    rw [emit, cmd]
    cases test : expr cond with
    | error f => rfl
    | ok is =>
      let bodyAt := before.length + is.length + 1
      have length : (before ++ is ++ [openJump .jumpif 0]).length = bodyAt := by
        simp only [List.length_append, List.length_singleton, bodyAt]
      simp only [emitCode, ok_bind]
      rw [emits body, length]
      cases inner : cmd bodyAt body with
      | error f => rfl
      | ok js =>
        simp only [emitCode, ok_bind]
        rw [patch_jumpIf false (before ++ is) (js ++ [jump before.length]) (bodyAt + js.length + 1)
          (by simp)]
        · simp [bodyAt]
        · simp only [List.length_append, List.length_singleton]
          omega
  | .ifElse pos cond yes no => fun before => by
    rw [emit, cmd_ifElse_eq]
    cases test : expr cond with
    | error f => rfl
    | ok is =>
      simp only [emitCode, ok_bind]
      rw [emit_branches (emits yes) (emits no), List.length_append]
      cases rest : branches (before.length + is.length) yes no with
      | error f => rfl
      | ok js => simp [emitCode]
  | .ifEither pos cond alt yes no => fun before => by
    rw [emit, cmd_ifEither_eq]
    cases test : expr cond with
    | error f => rfl
    | ok is =>
      cases test' : expr alt with
      | error f => rfl
      | ok js =>
        simp only [emitCode, ok_bind]
        generalize yesHere : before.length + is.length + 1 + js.length + 1 = yesAt
        have patched : patch (before ++ is).length
            (before ++ is ++ [openJump .jumpif 1] ++ js ++ [openJump .jumpif 0]) =
            .ok (before ++ is ++ jumpIf true yesAt :: js ++ [openJump .jumpif 0]) := by
          rw [patch_jumpIf true (before ++ is) (js ++ [openJump .jumpif 0]) yesAt (by simp)]
          · simp
          · simp only [List.length_append, List.length_singleton]
            omega
        have toElse : (before ++ is ++ [openJump .jumpif 1] ++ js).length =
            (before ++ is ++ jumpIf true yesAt :: js).length := by simp
        have length : (before ++ is ++ jumpIf true yesAt :: js).length =
            before.length + is.length + 1 + js.length := by
          simp only [List.length_append, List.length_cons]
          omega
        rw [patched, ok_bind, toElse, emit_branches (emits yes) (emits no), length]
        cases rest : branches (before.length + is.length + 1 + js.length) yes no with
        | error f => rfl
        | ok ks => simp [emitCode]

theorem emitAll_eq : ∀ (cs : List Cmd) (before : List Instruction),
    emitAll before cs = emitCode before (cmds before.length cs)
  | [], before => by simp [emitAll, cmds, emitCode]
  | c :: cs, before => by
    rw [emitAll, cmds, emits c before]
    cases first : cmd before.length c with
    | error f => rfl
    | ok is =>
      simp only [emitCode, ok_bind]
      rw [emitAll_eq cs, List.length_append]
      cases rest : cmds (before.length + is.length) cs with
      | error f => rfl
      | ok js => simp [emitCode]

end

end Emission

section Moving

/-- The instruction in code that starts `a` addresses later. -/
def shift (a : Nat) (i : Instruction) : Instruction :=
  if i.op.info.isJump = true then { i with d := i.d + a } else i

@[simp] theorem shift_jump (a target : Nat) : shift a (jump target) = jump (target + a) := rfl

@[simp] theorem shift_jumpIf (a : Nat) (truth : Bool) (target : Nat) :
    shift a (jumpIf truth target) = jumpIf truth (target + a) := rfl

/-- There are no jumps in the code. -/
def Straight (is : List Instruction) : Prop := ∀ i ∈ is, i.op.info.isJump = false

@[simp] theorem straight_nil : Straight [] := by simp [Straight]

@[simp] theorem straight_cons {i : Instruction} {is : List Instruction} :
    Straight (i :: is) ↔ i.op.info.isJump = false ∧ Straight is := by
  simp [Straight]

@[simp] theorem straight_append {is js : List Instruction} :
    Straight (is ++ js) ↔ Straight is ∧ Straight js := by
  simp [Straight, or_imp, forall_and]

theorem Straight.map_shift {is : List Instruction} (straight : Straight is) (a : Nat) :
    is.map (shift a) = is := by
  refine (List.map_congr_left ?_).trans is.map_id
  intro i member
  rw [shift, straight i member]
  rfl

@[simp] theorem isJump_loadNumber (d : Int) : (loadNumber d).op.info.isJump = false := rfl

@[simp] theorem isJump_callPrimitive (prim : Primitive) :
    (callPrimitive prim).op.info.isJump = false := rfl

@[simp] theorem straight_sizeOperand (prim : Primitive) (t : Ty) :
    Straight (sizeOperand prim t) := by
  unfold sizeOperand
  split <;> simp

@[simp] theorem straight_drop (words : Nat) : Straight (drop words) := by
  unfold drop
  split
  · exact straight_nil
  · simp [Op.info]

section Expressions

variable {is : List Instruction}

theorem straight_load {id : Ident} (h : load id = .ok is) : Straight is := by
  obtain ⟨s, -, h⟩ := exists_of_bind_eq_ok h
  split at h
  · cases h
    simp
  · cases h
    simp [Op.info]
  · cases h
    simp [Op.info]
  · cases h

theorem straight_store {id : Ident} (h : store id = .ok is) : Straight is := by
  obtain ⟨s, -, h⟩ := exists_of_bind_eq_ok h
  split at h <;> cases h
  simp [Op.info]

theorem straight_address {id : Ident} (h : address id = .ok is) : Straight is := by
  obtain ⟨s, -, h⟩ := exists_of_bind_eq_ok h
  split at h <;> cases h
  simp [Op.info]

theorem straight_intCode {pos : Pos} {lit : Literal} (h : intCode pos lit = .ok is) :
    Straight is := by
  unfold intCode at h
  split at h <;> cases h
  simp

theorem straight_charCode {lit : Literal} (h : charCode lit = .ok is) : Straight is := by
  unfold charCode at h
  split at h <;> cases h
  simp

mutual

/-- There are no jumps in the code of an expression. -/
theorem straight_expr : ∀ (x : Expr) {is : List Instruction}, expr x = .ok is → Straight is
  | .int pos ty lit, is, h => by
    rw [expr] at h
    obtain ⟨t, -, h⟩ := exists_of_bind_eq_ok h
    exact straight_intCode h
  | .char pos ty lit, is, h => by
    rw [expr] at h
    obtain ⟨t, -, h⟩ := exists_of_bind_eq_ok h
    exact straight_charCode h
  | .name pos ty id, is, h => by
    rw [expr] at h
    obtain ⟨t, -, h⟩ := exists_of_bind_eq_ok h
    exact straight_load h
  | .unary pos ty op x, is, h => by
    rw [expr] at h
    obtain ⟨t, -, h⟩ := exists_of_bind_eq_ok h
    obtain ⟨js, inner, h⟩ := exists_of_bind_eq_ok h
    obtain ⟨prim, -, h⟩ := exists_of_bind_eq_ok h
    cases h
    simp [straight_expr x inner]
  | .binary pos ty x op y, is, h => by
    rw [expr] at h
    obtain ⟨t, -, h⟩ := exists_of_bind_eq_ok h
    obtain ⟨js, first, h⟩ := exists_of_bind_eq_ok h
    obtain ⟨ks, second, h⟩ := exists_of_bind_eq_ok h
    obtain ⟨prim, -, h⟩ := exists_of_bind_eq_ok h
    obtain ⟨s, -, h⟩ := exists_of_bind_eq_ok h
    cases h
    simp [straight_expr x first, straight_expr y second]
  | .call pos ty callee a, is, h => by
    rw [expr] at h
    obtain ⟨t, -, h⟩ := exists_of_bind_eq_ok h
    obtain ⟨⟨result, prim⟩, -, h⟩ := exists_of_bind_eq_ok h
    obtain ⟨js, passed, h⟩ := exists_of_bind_eq_ok h
    cases h
    simp [straight_arg a passed]
  | .bad pos ty, is, h => by
    rw [expr] at h
    obtain ⟨t, -, h⟩ := exists_of_bind_eq_ok h
    cases h

theorem straight_arg : ∀ (a : Arg) {is : List Instruction}, arg a = .ok is → Straight is
  | .value pos x, is, h => by
    rw [arg] at h
    exact straight_expr x h
  | .var pos id, is, h => by
    rw [arg] at h
    exact straight_address h
  | .blank pos, is, h => by
    rw [arg] at h
    cases h
    exact straight_nil
  | .bad pos, is, h => by
    rw [arg] at h
    cases h

end

mutual

/-- There are no jumps in the code of a declaration. -/
theorem straight_decl : ∀ (d : Decl) {is : List Instruction} {words : Nat},
    decl d = .ok (is, words) → Straight is
  | .const pos ty storage name value, is, words, h => by
    rw [decl] at h
    obtain ⟨s, -, h⟩ := exists_of_bind_eq_ok h
    split at h
    · cases h
      exact straight_nil
    · obtain ⟨js, inner, h⟩ := exists_of_bind_eq_ok h
      cases h
      exact straight_expr value inner
    · cases h
  | .var pos ty storage name typeName, is, words, h => by
    rw [decl] at h
    obtain ⟨s, -, h⟩ := exists_of_bind_eq_ok h
    split at h <;> cases h
    simp [Op.info]
  | .seq pos ds, is, words, h => by
    rw [decl] at h
    exact straight_decls ds h
  | .bad pos, is, words, h => by
    rw [decl] at h
    cases h
  | .builtin b, is, words, h => by
    rw [decl] at h
    cases h

theorem straight_decls : ∀ (ds : List Decl) {is : List Instruction} {words : Nat},
    decls ds = .ok (is, words) → Straight is
  | [], is, words, h => by
    rw [decls] at h
    cases h
    exact straight_nil
  | d :: ds, is, words, h => by
    rw [decls] at h
    obtain ⟨⟨js, m⟩, first, h⟩ := exists_of_bind_eq_ok h
    obtain ⟨⟨ks, n⟩, rest, h⟩ := exists_of_bind_eq_ok h
    cases h
    exact straight_append.2 ⟨straight_decl d first, straight_decls ds rest⟩

end

end Expressions

/-- The code of a command at another address is the same with its jumps moved along. -/
def Moves (a : Nat) (c : Cmd) : Prop :=
  ∀ base : Nat, cmd (base + a) c = (cmd base c).map (List.map (shift a))

theorem branches_add {a : Nat} {yes no : Cmd} (then_ : Moves a yes) (else_ : Moves a no)
    (base : Nat) : branches (base + a) yes no = (branches base yes no).map (List.map (shift a)) := by
  have moved : base + a + 1 = base + 1 + a := by omega
  rw [branches, branches, moved, then_]
  cases cmd (base + 1) yes with
  | error f => rfl
  | ok js =>
    have moved : base + 1 + a + js.length + 1 = base + 1 + js.length + 1 + a := by omega
    simp only [Except.map, ok_bind, List.length_map, moved]
    generalize base + 1 + js.length + 1 = noAt
    rw [else_]
    cases cmd noAt no with
    | error f => rfl
    | ok ks =>
      have ended : noAt + a + ks.length = noAt + ks.length + a := by omega
      simp [Except.map, ended]

mutual

theorem moves (a : Nat) : ∀ c : Cmd, Moves a c
  | .skip .. => fun base => by
    rw [cmd, cmd]
    rfl
  | .bad pos => fun base => by
    rw [cmd, cmd]
    rfl
  | .seq pos cs => fun base => by
    rw [cmd, cmd]
    exact cmds_add a cs base
  | .block pos body close => fun base => by
    rw [cmd, cmd]
    exact moves a body base
  | .assign pos target value => fun base => by
    rw [cmd, cmd]
    cases test : expr value with
    | error f => rfl
    | ok is =>
      cases last : store target with
      | error f => rfl
      | ok js =>
        have straight := straight_append.2 ⟨straight_expr value test, straight_store last⟩
        exact congrArg Except.ok (straight.map_shift a).symm
  | .call pos callee b => fun base => by
    rw [cmd, cmd]
    cases found : routineOf callee with
    | error f => rfl
    | ok routine =>
      obtain ⟨result, prim⟩ := routine
      cases passed : arg b with
      | error f => rfl
      | ok is =>
        have straight : Straight (is ++ [callPrimitive prim] ++ drop result.size) := by
          simp [straight_arg b passed]
        exact congrArg Except.ok (straight.map_shift a).symm
  | .ifElse pos cond yes no => fun base => by
    rw [cmd_ifElse_eq, cmd_ifElse_eq]
    cases test : expr cond with
    | error f => rfl
    | ok is =>
      have moved : base + a + is.length = base + is.length + a := by omega
      simp only [ok_bind]
      rw [moved, branches_add (moves a yes) (moves a no)]
      cases branches (base + is.length) yes no with
      | error f => rfl
      | ok js => simp [Except.map, (straight_expr cond test).map_shift]
  | .ifEither pos cond alt yes no => fun base => by
    rw [cmd_ifEither_eq, cmd_ifEither_eq]
    cases test : expr cond with
    | error f => rfl
    | ok is =>
      cases test' : expr alt with
      | error f => rfl
      | ok js =>
        have moved : base + a + is.length + 1 + js.length = base + is.length + 1 + js.length + a := by
          omega
        simp only [ok_bind, moved]
        generalize base + is.length + 1 + js.length = elseFrom
        have moved : elseFrom + a + 1 = elseFrom + 1 + a := by omega
        rw [branches_add (moves a yes) (moves a no), moved]
        cases branches elseFrom yes no with
        | error f => rfl
        | ok ks =>
          simp [Except.map, (straight_expr cond test).map_shift, (straight_expr alt test').map_shift]
  | .whileDo pos cond body => fun base => by
    rw [cmd, cmd]
    cases test : expr cond with
    | error f => rfl
    | ok is =>
      have moved : base + a + is.length + 1 = base + is.length + 1 + a := by omega
      simp only [ok_bind, moved]
      generalize base + is.length + 1 = bodyAt
      rw [moves a body]
      cases cmd bodyAt body with
      | error f => rfl
      | ok js =>
        have ended : bodyAt + a + js.length + 1 = bodyAt + js.length + 1 + a := by omega
        simp [Except.map, (straight_expr cond test).map_shift, ended]
  | .letIn pos d body => fun base => by
    rw [cmd, cmd]
    cases declared : decl d with
    | error f => rfl
    | ok both =>
      obtain ⟨entry, words⟩ := both
      have moved : base + a + entry.length = base + entry.length + a := by omega
      simp only [ok_bind]
      rw [moved, moves a body]
      cases cmd (base + entry.length) body with
      | error f => rfl
      | ok js =>
        simp [Except.map, (straight_decl d declared).map_shift, (straight_drop words).map_shift]

theorem cmds_add (a : Nat) : ∀ (cs : List Cmd) (base : Nat),
    cmds (base + a) cs = (cmds base cs).map (List.map (shift a))
  | [], base => by
    rw [cmds, cmds]
    rfl
  | c :: cs, base => by
    rw [cmds, cmds, moves a c]
    cases cmd base c with
    | error f => rfl
    | ok is =>
      have moved : base + a + is.length = base + is.length + a := by omega
      simp only [Except.map, ok_bind, List.length_map]
      rw [moved, cmds_add a cs]
      cases cmds (base + is.length) cs with
      | error f => rfl
      | ok js => simp [Except.map]

end

end Moving

section Closing

/-- The jumps of the code go to addresses from `first` through `last`. -/
def JumpsWithin (first last : Nat) (is : List Instruction) : Prop :=
  ∀ i ∈ is, i.op.info.isJump = true → (first : Int) ≤ i.d ∧ i.d ≤ last

variable {first last : Nat} {is js : List Instruction}

@[simp] theorem jumpsWithin_append :
    JumpsWithin first last (is ++ js) ↔ JumpsWithin first last is ∧ JumpsWithin first last js :=
  List.forall_mem_append

@[simp] theorem jumpsWithin_jump {target : Nat} :
    JumpsWithin first last (jump target :: is) ↔
      (first ≤ target ∧ target ≤ last) ∧ JumpsWithin first last is := by
  simp [JumpsWithin, jump, Op.info]

@[simp] theorem jumpsWithin_jumpIf {truth : Bool} {target : Nat} :
    JumpsWithin first last (jumpIf truth target :: is) ↔
      (first ≤ target ∧ target ≤ last) ∧ JumpsWithin first last is := by
  simp [JumpsWithin, jumpIf, Op.info]

theorem Straight.jumpsWithin (straight : Straight is) : JumpsWithin first last is := by
  intro i member isJump
  rw [straight i member] at isJump
  cases isJump

theorem JumpsWithin.mono (h : JumpsWithin first last is) {first' last' : Nat}
    (below : first' ≤ first) (above : last ≤ last') : JumpsWithin first' last' is := by
  intro i member isJump
  have := h i member isJump
  omega

theorem length_branches_pos {yes no : Cmd} {base : Nat} (h : branches base yes no = .ok is) :
    0 < is.length := by
  obtain ⟨js, -, h⟩ := exists_of_bind_eq_ok h
  obtain ⟨ks, -, h⟩ := exists_of_bind_eq_ok h
  obtain rfl := Except.ok.inj h
  simp

/-- The jumps in the code of a command go to its instructions or right behind them. -/
def Closed (c : Cmd) : Prop :=
  ∀ {base : Nat} {is : List Instruction}, cmd base c = .ok is →
    JumpsWithin base (base + is.length) is

theorem branches_closed {yes no : Cmd} (then_ : Closed yes) (else_ : Closed no) {base : Nat}
    {is : List Instruction} (h : branches base yes no = .ok is) :
    JumpsWithin base (base + is.length) is := by
  obtain ⟨js, first, h⟩ := exists_of_bind_eq_ok h
  obtain ⟨ks, second, h⟩ := exists_of_bind_eq_ok h
  obtain rfl := Except.ok.inj h
  simp only [List.cons_append, jumpsWithin_jumpIf, jumpsWithin_append, jumpsWithin_jump,
    List.length_cons, List.length_append]
  refine ⟨⟨?_, ?_⟩, (then_ first).mono ?_ ?_, ⟨?_, ?_⟩, (else_ second).mono ?_ ?_⟩
  all_goals omega

mutual

theorem closed : ∀ c : Cmd, Closed c
  | .skip .., base, is, h => by
    rw [cmd] at h
    obtain rfl := Except.ok.inj h
    exact straight_nil.jumpsWithin
  | .bad pos, base, is, h => by
    rw [cmd] at h
    cases h
  | .seq pos cs, base, is, h => by
    rw [cmd] at h
    exact cmds_closed cs h
  | .block pos body close, base, is, h => by
    rw [cmd] at h
    exact closed body h
  | .assign pos target value, base, is, h => by
    rw [cmd] at h
    obtain ⟨js, inner, h⟩ := exists_of_bind_eq_ok h
    obtain ⟨ks, last, h⟩ := exists_of_bind_eq_ok h
    obtain rfl := Except.ok.inj h
    have straight := straight_append.2 ⟨straight_expr value inner, straight_store last⟩
    exact straight.jumpsWithin
  | .call pos callee a, base, is, h => by
    rw [cmd] at h
    obtain ⟨⟨result, prim⟩, -, h⟩ := exists_of_bind_eq_ok h
    obtain ⟨js, passed, h⟩ := exists_of_bind_eq_ok h
    obtain rfl := Except.ok.inj h
    have straight : Straight (js ++ [callPrimitive prim] ++ drop result.size) := by
      simp [straight_arg a passed]
    exact straight.jumpsWithin
  | .ifElse pos cond yes no, base, is, h => by
    rw [cmd_ifElse_eq] at h
    obtain ⟨js, test, h⟩ := exists_of_bind_eq_ok h
    obtain ⟨ks, rest, h⟩ := exists_of_bind_eq_ok h
    obtain rfl := Except.ok.inj h
    have inside := branches_closed (closed yes) (closed no) rest
    simp only [jumpsWithin_append, List.length_append]
    refine ⟨(straight_expr cond test).jumpsWithin, inside.mono ?_ ?_⟩
    all_goals omega
  | .ifEither pos cond alt yes no, base, is, h => by
    rw [cmd_ifEither_eq] at h
    obtain ⟨js, test, h⟩ := exists_of_bind_eq_ok h
    obtain ⟨ks, test', h⟩ := exists_of_bind_eq_ok h
    obtain ⟨ls, rest, h⟩ := exists_of_bind_eq_ok h
    obtain rfl := Except.ok.inj h
    have inside := branches_closed (closed yes) (closed no) rest
    have nonempty := length_branches_pos rest
    simp only [jumpsWithin_append, jumpsWithin_jumpIf, List.length_append, List.length_cons]
    refine ⟨⟨(straight_expr cond test).jumpsWithin, ⟨?_, ?_⟩,
      (straight_expr alt test').jumpsWithin⟩, inside.mono ?_ ?_⟩
    all_goals omega
  | .whileDo pos cond body, base, is, h => by
    rw [cmd] at h
    obtain ⟨js, test, h⟩ := exists_of_bind_eq_ok h
    obtain ⟨ks, inner, h⟩ := exists_of_bind_eq_ok h
    obtain rfl := Except.ok.inj h
    simp only [jumpsWithin_append, jumpsWithin_jumpIf, jumpsWithin_jump, List.length_append,
      List.length_cons, List.length_nil]
    refine ⟨⟨(straight_expr cond test).jumpsWithin, ⟨?_, ?_⟩, (closed body inner).mono ?_ ?_⟩,
      ⟨?_, ?_⟩, straight_nil.jumpsWithin⟩
    all_goals omega
  | .letIn pos d body, base, is, h => by
    rw [cmd] at h
    obtain ⟨⟨entry, words⟩, declared, h⟩ := exists_of_bind_eq_ok h
    obtain ⟨js, inner, h⟩ := exists_of_bind_eq_ok h
    obtain rfl := Except.ok.inj h
    simp only [jumpsWithin_append, List.length_append]
    refine ⟨⟨(straight_decl d declared).jumpsWithin, (closed body inner).mono ?_ ?_⟩,
      (straight_drop words).jumpsWithin⟩
    all_goals omega

theorem cmds_closed : ∀ (cs : List Cmd) {base : Nat} {is : List Instruction},
    cmds base cs = .ok is → JumpsWithin base (base + is.length) is
  | [], base, is, h => by
    rw [cmds] at h
    obtain rfl := Except.ok.inj h
    exact straight_nil.jumpsWithin
  | c :: cs, base, is, h => by
    rw [cmds] at h
    obtain ⟨js, first, h⟩ := exists_of_bind_eq_ok h
    obtain ⟨ks, rest, h⟩ := exists_of_bind_eq_ok h
    obtain rfl := Except.ok.inj h
    simp only [jumpsWithin_append, List.length_append]
    refine ⟨(closed c first).mono ?_ ?_, (cmds_closed cs rest).mono ?_ ?_⟩
    all_goals omega

end

/-- Emitted code can be moved, and its jumps stay inside it. Emitting the code of a command fails
only if the tree has no code, and never because of a jump without a target. It leaves the buffer as
it is and adds what is emitted into an empty one, with its jumps moved along. They all have targets,
from the first instruction of the added code to right behind its last; and so in the code of a
program every jump goes to an instruction. -/
theorem emit_relocates (c : Cmd) (before : List Instruction) :
    (∀ f, emit before c = .error f → ∃ g, f = .tree g) ∧
      ∀ code, emit before c = .ok code → ∃ block,
        emit [] c = .ok block ∧ code = before ++ block.map (shift before.length) ∧
        (∀ i ∈ block.map (shift before.length), i.op.info.isJump = true →
          (before.length : Int) ≤ i.d ∧ i.d ≤ before.length + block.length) ∧
        ∀ pos, ∃ whole, (Program.mk pos c).code = .ok whole ∧ whole = block ++ [{ op := .halt }] ∧
          ∀ i ∈ whole, i.op.info.isJump = true → 0 ≤ i.d ∧ i.d < whole.length := by
  have here := emits c before
  have moved := moves before.length c 0
  rw [Nat.zero_add] at moved
  rw [moved] at here
  cases made : cmd 0 c with
  | error g =>
    rw [made] at here
    refine ⟨fun f failed => ⟨g, ?_⟩, fun code emitted => ?_⟩
    · rw [here] at failed
      exact (Except.error.inj failed).symm
    · rw [here] at emitted
      cases emitted
  | ok block =>
    rw [made] at here moved
    refine ⟨fun f failed => ?_, fun code emitted => ⟨block, ?_, ?_, ?_, fun pos => ?_⟩⟩
    · rw [here] at failed
      cases failed
    · rw [emits c [], List.length_nil, made]
      rfl
    · rw [here] at emitted
      exact (Except.ok.inj emitted).symm
    · have inside := closed c moved
      rw [List.length_map] at inside
      intro i member isJump
      exact_mod_cast inside i member isJump
    · refine ⟨_, ?_, rfl, ?_⟩
      · simp [Program.code, made]
      · have inside := closed c made
        intro i member isJump
        rcases List.mem_append.1 member with member | member
        · have := inside i member isJump
          simp only [List.length_append, List.length_singleton]
          omega
        · rw [List.mem_singleton.1 member] at isJump
          cases isJump

/-- The command `while true do if true then pass else pass endif`, as it is checked. -/
def waitCmd : Cmd :=
  let truth : Expr := .name Pos.none (some .boolean)
    ⟨Pos.none, "true", some (.builtin (.const "true" .boolean 1))⟩
  .whileDo Pos.none truth (.ifElse Pos.none truth (.skip Pos.none true) (.skip Pos.none true))

/-- Behind an open jump, which stays open. -/
theorem waitCmd_relocates :
    emit [] waitCmd = .ok [loadNumber 1, jumpIf false 6, loadNumber 1, jumpIf false 5, jump 5,
        jump 0] ∧
      ∃ block, emit [] waitCmd = .ok block ∧
        emit [openJump .jumpif 0] waitCmd = .ok (openJump .jumpif 0 :: block.map (shift 1)) := by
  have made : emit [] waitCmd = .ok [loadNumber 1, jumpIf false 6, loadNumber 1, jumpIf false 5,
    jump 5, jump 0] := by rfl
  obtain ⟨code, emitted⟩ : ∃ code, emit [openJump .jumpif 0] waitCmd = .ok code :=
    ⟨openJump .jumpif 0 :: [loadNumber 1, jumpIf false 7, loadNumber 1, jumpIf false 6, jump 6,
      jump 1], by rfl⟩
  obtain ⟨block, alone, moved, -⟩ := (emit_relocates waitCmd [openJump .jumpif 0]).2 code emitted
  exact ⟨made, block, alone, emitted.trans (congrArg Except.ok moved)⟩

end Closing

end TriangleTam.Generate
