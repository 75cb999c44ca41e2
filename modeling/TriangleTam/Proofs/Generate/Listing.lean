import TriangleTam.Proofs.Generate.Translation
import TriangleTam.Proofs.Machine.Listing
import TriangleTam.Proofs.Parser.Bare

/-!
# The listing of generated code

Code is made of few sorts of instructions, and each of them can be told from its line in a listing.
Main statements: `emitted_cmd`, what the code of a command is made of, and
`Program.listing_determines_code`.
-/

namespace TriangleTam

namespace Generate

open Machine

/-- The instructions that code is made of. -/
inductive Emitted : Instruction → Prop where
  | number (d : Int) : Emitted (loadNumber d)
  | routine (prim : Primitive) : Emitted (callPrimitive prim)
  | load (words offset : Nat) :
      Emitted { op := .load, reg := .stackBase, n := words, d := offset }
  | store (words offset : Nat) :
      Emitted { op := .store, reg := .stackBase, n := words, d := offset }
  | address (offset : Nat) : Emitted { op := .loada, reg := .stackBase, d := offset }
  | jump (target : Nat) : Emitted (jump target)
  | jumpIf (truth : Bool) (target : Nat) : Emitted (jumpIf truth target)
  | push (words : Nat) : Emitted { op := .push, d := words }
  | pop (words : Nat) : Emitted { op := .pop, d := words }
  | halt : Emitted { op := .halt }

/-- A listing shows every instruction that code is made of. -/
theorem Emitted.shown {i : Instruction} (emitted : Emitted i) : i.Shown := by
  cases emitted with
  | routine prim =>
    exact ⟨by simp [callPrimitive, Op.all], by simp [callPrimitive, Register.all],
      fun _ => ⟨⟨.stackBase, by decide, rfl⟩, fun _ _ => rfl⟩, by simp [callPrimitive, Op.info],
      by simp [callPrimitive, Op.info], by simp [callPrimitive, Op.info]⟩
  | _ =>
    constructor <;>
      simp [loadNumber, Generate.jump, Generate.jumpIf, Op.all, Register.all, Op.info]

/-- The code is made of such instructions alone. -/
def AllEmitted (is : List Instruction) : Prop := ∀ i ∈ is, Emitted i

@[simp] theorem allEmitted_nil : AllEmitted [] := by simp [AllEmitted]

@[simp] theorem allEmitted_cons {i : Instruction} {is : List Instruction} :
    AllEmitted (i :: is) ↔ Emitted i ∧ AllEmitted is := by
  simp [AllEmitted]

@[simp] theorem allEmitted_append {is js : List Instruction} :
    AllEmitted (is ++ js) ↔ AllEmitted is ∧ AllEmitted js := by
  simp [AllEmitted, or_imp, forall_and]

section Code

attribute [local simp] Emitted.number Emitted.routine Emitted.load Emitted.store Emitted.address
  Emitted.jump Emitted.jumpIf Emitted.push Emitted.pop Emitted.halt

@[simp] theorem emitted_sizeOperand (prim : Primitive) (t : Ty) :
    AllEmitted (sizeOperand prim t) := by
  unfold sizeOperand
  split <;> simp

@[simp] theorem emitted_drop (words : Nat) : AllEmitted (drop words) := by
  unfold drop
  split <;> simp

variable {is : List Instruction}

theorem emitted_load {id : Ident} (h : load id = .ok is) : AllEmitted is := by
  obtain ⟨s, -, h⟩ := exists_of_bind_eq_ok h
  split at h <;> cases h <;> simp

theorem emitted_store {id : Ident} (h : store id = .ok is) : AllEmitted is := by
  obtain ⟨s, -, h⟩ := exists_of_bind_eq_ok h
  split at h <;> cases h
  simp

theorem emitted_address {id : Ident} (h : address id = .ok is) : AllEmitted is := by
  obtain ⟨s, -, h⟩ := exists_of_bind_eq_ok h
  split at h <;> cases h
  simp

mutual

theorem emitted_expr : ∀ (x : Expr) {is : List Instruction}, expr x = .ok is → AllEmitted is
  | .int pos ty lit, is, h => by
    rw [expr] at h
    obtain ⟨t, -, h⟩ := exists_of_bind_eq_ok h
    simp only [intCode] at h
    split at h <;> cases h
    simp
  | .char pos ty lit, is, h => by
    rw [expr] at h
    obtain ⟨t, -, h⟩ := exists_of_bind_eq_ok h
    simp only [charCode] at h
    split at h <;> cases h
    simp
  | .name pos ty id, is, h => by
    rw [expr] at h
    obtain ⟨t, -, h⟩ := exists_of_bind_eq_ok h
    exact emitted_load h
  | .unary pos ty op x, is, h => by
    rw [expr] at h
    obtain ⟨t, -, h⟩ := exists_of_bind_eq_ok h
    obtain ⟨js, inner, h⟩ := exists_of_bind_eq_ok h
    obtain ⟨prim, -, h⟩ := exists_of_bind_eq_ok h
    cases h
    simp [emitted_expr x inner]
  | .binary pos ty x op y, is, h => by
    rw [expr] at h
    obtain ⟨t, -, h⟩ := exists_of_bind_eq_ok h
    obtain ⟨js, first, h⟩ := exists_of_bind_eq_ok h
    obtain ⟨ks, second, h⟩ := exists_of_bind_eq_ok h
    obtain ⟨prim, -, h⟩ := exists_of_bind_eq_ok h
    obtain ⟨s, -, h⟩ := exists_of_bind_eq_ok h
    cases h
    simp [emitted_expr x first, emitted_expr y second]
  | .call pos ty callee a, is, h => by
    rw [expr] at h
    obtain ⟨t, -, h⟩ := exists_of_bind_eq_ok h
    obtain ⟨⟨result, prim⟩, -, h⟩ := exists_of_bind_eq_ok h
    obtain ⟨js, passed, h⟩ := exists_of_bind_eq_ok h
    cases h
    simp [emitted_arg a passed]
  | .bad pos ty, is, h => by
    rw [expr] at h
    obtain ⟨t, -, h⟩ := exists_of_bind_eq_ok h
    cases h

theorem emitted_arg : ∀ (a : Arg) {is : List Instruction}, arg a = .ok is → AllEmitted is
  | .value pos x, is, h => by
    rw [arg] at h
    exact emitted_expr x h
  | .var pos id, is, h => by
    rw [arg] at h
    exact emitted_address h
  | .blank pos, is, h => by
    rw [arg] at h
    cases h
    exact allEmitted_nil
  | .bad pos, is, h => by
    rw [arg] at h
    cases h

end

mutual

theorem emitted_decl : ∀ (d : Decl) {is : List Instruction} {words : Nat},
    decl d = .ok (is, words) → AllEmitted is
  | .const pos ty storage name value, is, words, h => by
    rw [decl] at h
    obtain ⟨s, -, h⟩ := exists_of_bind_eq_ok h
    split at h
    · cases h
      exact allEmitted_nil
    · obtain ⟨js, inner, h⟩ := exists_of_bind_eq_ok h
      cases h
      exact emitted_expr value inner
    · cases h
  | .var pos ty storage name typeName, is, words, h => by
    rw [decl] at h
    obtain ⟨s, -, h⟩ := exists_of_bind_eq_ok h
    split at h <;> cases h
    simp
  | .seq pos ds, is, words, h => by
    rw [decl] at h
    exact emitted_decls ds h
  | .bad pos, is, words, h => by
    rw [decl] at h
    cases h
  | .builtin b, is, words, h => by
    rw [decl] at h
    cases h

theorem emitted_decls : ∀ (ds : List Decl) {is : List Instruction} {words : Nat},
    decls ds = .ok (is, words) → AllEmitted is
  | [], is, words, h => by
    rw [decls] at h
    cases h
    exact allEmitted_nil
  | d :: ds, is, words, h => by
    rw [decls] at h
    obtain ⟨⟨js, m⟩, first, h⟩ := exists_of_bind_eq_ok h
    obtain ⟨⟨ks, n⟩, rest, h⟩ := exists_of_bind_eq_ok h
    cases h
    exact allEmitted_append.2 ⟨emitted_decl d first, emitted_decls ds rest⟩

end

mutual

/-- What the code of a command is made of. -/
theorem emitted_cmd : ∀ (c : Cmd) {base : Nat} {is : List Instruction},
    cmd base c = .ok is → AllEmitted is
  | .skip .., base, is, h => by
    rw [cmd] at h
    cases h
    exact allEmitted_nil
  | .bad pos, base, is, h => by
    rw [cmd] at h
    cases h
  | .seq pos cs, base, is, h => by
    rw [cmd] at h
    exact emitted_cmds cs h
  | .block pos body close, base, is, h => by
    rw [cmd] at h
    exact emitted_cmd body h
  | .assign pos target value, base, is, h => by
    rw [cmd] at h
    obtain ⟨js, inner, h⟩ := exists_of_bind_eq_ok h
    obtain ⟨ks, last, h⟩ := exists_of_bind_eq_ok h
    cases h
    exact allEmitted_append.2 ⟨emitted_expr value inner, emitted_store last⟩
  | .call pos callee a, base, is, h => by
    rw [cmd] at h
    obtain ⟨⟨result, prim⟩, -, h⟩ := exists_of_bind_eq_ok h
    obtain ⟨js, passed, h⟩ := exists_of_bind_eq_ok h
    cases h
    simp [emitted_arg a passed]
  | .ifElse pos cond yes no, base, is, h => by
    rw [cmd] at h
    obtain ⟨js, test, h⟩ := exists_of_bind_eq_ok h
    obtain ⟨ks, first, h⟩ := exists_of_bind_eq_ok h
    obtain ⟨ls, second, h⟩ := exists_of_bind_eq_ok h
    cases h
    simp [emitted_expr cond test, emitted_cmd yes first, emitted_cmd no second]
  | .ifEither pos cond alt yes no, base, is, h => by
    rw [cmd] at h
    obtain ⟨js, test, h⟩ := exists_of_bind_eq_ok h
    obtain ⟨ks, test', h⟩ := exists_of_bind_eq_ok h
    obtain ⟨ls, first, h⟩ := exists_of_bind_eq_ok h
    obtain ⟨ms, second, h⟩ := exists_of_bind_eq_ok h
    cases h
    simp [emitted_expr cond test, emitted_expr alt test', emitted_cmd yes first,
      emitted_cmd no second]
  | .whileDo pos cond body, base, is, h => by
    rw [cmd] at h
    obtain ⟨js, test, h⟩ := exists_of_bind_eq_ok h
    obtain ⟨ks, inner, h⟩ := exists_of_bind_eq_ok h
    cases h
    simp [emitted_expr cond test, emitted_cmd body inner]
  | .letIn pos d body, base, is, h => by
    rw [cmd] at h
    obtain ⟨⟨entry, words⟩, declared, h⟩ := exists_of_bind_eq_ok h
    obtain ⟨js, inner, h⟩ := exists_of_bind_eq_ok h
    cases h
    simp [emitted_decl d declared, emitted_cmd body inner]

theorem emitted_cmds : ∀ (cs : List Cmd) {base : Nat} {is : List Instruction},
    cmds base cs = .ok is → AllEmitted is
  | [], base, is, h => by
    rw [cmds] at h
    cases h
    exact allEmitted_nil
  | c :: cs, base, is, h => by
    rw [cmds] at h
    obtain ⟨js, first, h⟩ := exists_of_bind_eq_ok h
    obtain ⟨ks, rest, h⟩ := exists_of_bind_eq_ok h
    cases h
    exact allEmitted_append.2 ⟨emitted_cmd c first, emitted_cmds cs rest⟩

end

end Code

theorem emitted_code {p : Program} {code : List Instruction} (made : p.code = .ok code) :
    AllEmitted code := by
  obtain ⟨body, inner, made⟩ := exists_of_bind_eq_ok made
  cases made
  exact allEmitted_append.2 ⟨emitted_cmd p.body inner, by simp [Emitted.halt]⟩

/-- A listing shows all code. -/
theorem shown_code {p : Program} {code : List Instruction} (made : p.code = .ok code) :
    ∀ i ∈ code, i.Shown :=
  fun i member => (emitted_code made i member).shown

end Generate

namespace Program

open Machine

/-- The listing of a program determines its code: the code is read back from it, so no other
program with this listing has other code. On each line of a listing stands the address of an
instruction, filled up with blanks on the left to the width of the last address, and behind a
colon and a blank the instruction. -/
theorem listing_determines_code {p : Program} {code : List Instruction}
    (made : p.code = .ok code) :
    decode (listing code) = some code ∧
    (∀ (q : Program) (code' : List Instruction), q.code = .ok code' →
      listing code' = listing code → code' = code) ∧
    (lines (listing code)).length = code.length ∧
    ∀ (a : Nat) (i : Instruction), code[a]? = some i →
      ∃ line, (lines (listing code))[a]? = some line ∧ ∃ address,
        cutAt ':' line = some (address, ' ' :: i.render.toList) ∧
        (∃ blanks, address = List.replicate blanks ' ' ++ (toString a).toList) ∧
        address.length = (toString (code.length - 1)).length := by
  have shown := Generate.shown_code made
  refine ⟨decode_listing shown, ?_, ?_, fun a i here => lines_listing_getElem? shown here⟩
  · intro q code' made' same
    have read := decode_listing (Generate.shown_code made')
    rw [same, decode_listing shown] at read
    exact (Option.some.inj read).symm
  · simp [lines_listing shown]

/-- The text
`let var n : integer in { getint(var n); while n > 0 do { putint(n); n := n - 1 } }`. -/
def countdownText : List UInt8 :=
  ("let var n : integer in \x7b getint(var n); " ++
    "while n > 0 do \x7b putint(n); n := n - 1 \x7d \x7d").toUTF8.toList

/-- The listing has more than ten lines, so the addresses of the first ones are filled up. -/
theorem countdownText_listing :
    ∃ code, (Check.program 0 (ofText "" countdownText false 10)).program.code = .ok code ∧
      code.length = 16 ∧ (lines (listing code))[2]? = some " 2: CALL getint".toList ∧
      (lines (listing code))[13]? = some "13: JUMP 3[CB]".toList ∧
      decode (listing code) = some code := by
  have known : (Check.program 0 (ofText "" countdownText false 10)).program.code.toOption.map
      (fun code => (code.length, (lines (listing code))[2]?, (lines (listing code))[13]?)) =
      some (16, some " 2: CALL getint".toList, some "13: JUMP 3[CB]".toList) := by
    decide +kernel
  cases made : (Check.program 0 (ofText "" countdownText false 10)).program.code with
  | error f =>
    rw [made] at known
    cases known
  | ok code =>
    rw [made] at known
    simp only [Except.toOption, Option.map_some, Option.some.injEq, Prod.mk.injEq] at known
    exact ⟨code, rfl, known.1, known.2.1, known.2.2, (listing_determines_code made).1⟩

end Program

end TriangleTam
