import TriangleTam.Check
import TriangleTam.Generate
import TriangleTam.Proofs.Text.Decimal

/-!
# Integer literals in checking and in code

A literal made of digits is as large as the number its digits stand for. Checking reports it, a
constant takes its value, and code loads it, all with the same bound. Main statements:
`Check.overflows_program`, the literals that are reported in a program are those that fit no word,
and `integerLiterals_agree`.
-/

namespace TriangleTam

/-- The value of a literal made of digits: the number that they stand for, if it fits a word. -/
theorem Literal.intValue?_of_digits (lit : Literal) (nonempty : lit.spelling ≠ "")
    (digits : ∀ c ∈ lit.spelling.toList, c.isDigit = true) :
    lit.intValue? = if Text.decimalValue lit.spelling ≤ 32767 then
      some (Text.decimalValue lit.spelling : Int) else none := by
  rw [intValue?, Text.int64?_of_digits nonempty digits]
  by_cases small : Text.decimalValue lit.spelling ≤ 32767
  · have fits : (Text.decimalValue lit.spelling : Int) ≤ Text.maxInt64 := by
      unfold Text.maxInt64
      omega
    simp [fits, small, Machine.maxInt, Option.filter]
  · have large : ¬ (Text.decimalValue lit.spelling : Int) ≤ Machine.maxInt := by
      unfold Machine.maxInt
      omega
    split <;> simp [large, Option.filter]

namespace Check

/-- Whether the report is about a literal that fits no word. -/
def Error.isOverflow : Error → Bool
  | .literalRange _ => true
  | _ => false

/-- What is reported about an integer literal that fits no word. -/
def overflow? : Node → Option (Report Error)
  | .expr (.int pos _ lit) =>
    if lit.intValue?.isNone then some ⟨pos, .literalRange lit.spelling⟩ else none
  | _ => none

namespace Checked

variable {α β : Type}

/-- The reports about literals that fit no word. -/
def overflows (x : Checked α) : List (Report Error) :=
  x.trace.reports.filter (·.cause.isOverflow)

@[simp] theorem overflows_pure (a : α) : (pure a : Checked α).overflows = [] := rfl

@[simp] theorem overflows_bind (x : Checked α) (f : α → Checked β) :
    (x >>= f).overflows = x.overflows ++ (f x.value).overflows := by
  simp [overflows, Trace.append]

@[simp] theorem overflows_report (pos : Pos) (e : Error) :
    (report pos e).overflows = if e.isOverflow then [⟨pos, e⟩] else [] := by
  simp [overflows, report, List.filter_cons]

@[simp] theorem overflows_reportIf (c : Bool) (pos : Pos) (e : Error) :
    (reportIf c pos e).overflows = if c && e.isOverflow then [⟨pos, e⟩] else [] := by
  cases c <;> simp [reportIf]

@[simp] theorem overflows_reach (words : Nat) : (reach words).overflows = [] := rfl

@[simp] theorem overflows_within (site : Pos) (frame : Frame Meaning) (x : Checked α) :
    (within site frame x).overflows = x.overflows := rfl

end Checked

section Parts

-- No report about names and types is one about literals.
attribute [local simp] Error.isOverflow

variable (env : Env)

@[simp] theorem overflows_resolve (id : Ident) : (env.resolve id).overflows = [] := by
  unfold Env.resolve
  split
  · simp
  · split <;> simp

@[simp] theorem overflows_needValue (x : Expr) : (needValue x).overflows = [] := by
  unfold needValue
  split <;> simp

@[simp] theorem overflows_argType (pos : Pos) (found : Ty) (expected : Option Expected) :
    (argType pos found expected).overflows = [] := by
  unfold argType
  split <;> simp

@[simp] theorem overflows_nameType (pos : Pos) (id : Ident) (m : Option Meaning) :
    (nameType pos id m).overflows = [] := by
  unfold nameType
  split
  · simp
  · split <;> simp

@[simp] theorem overflows_applyUnary (op : OpName) (pos : Pos) (t : Ty) :
    (applyUnary env op pos t).overflows = [] := by
  unfold applyUnary
  split <;> simp

@[simp] theorem overflows_applyBinary (op : OpName) (xPos yPos : Pos) (s t : Ty) :
    (applyBinary env op xPos yPos s t).overflows = [] := by
  simp only [applyBinary]
  split
  · split <;> simp
  · simp

@[simp] theorem overflows_routine (callee : Ident) (blank : Bool) :
    (routine env callee blank).overflows = [] := by
  simp only [routine, Checked.overflows_bind, overflows_resolve, List.nil_append]
  split
  · simp
  · by_cases count : (if blank = true then 0 else 1) = ‹List Formal›.length <;> simp [count]
  · simp

@[simp] theorem overflows_typeNamed (id : Ident) : (typeNamed env id).overflows = [] := by
  simp only [typeNamed, Checked.overflows_bind, overflows_resolve, List.nil_append]
  split <;> simp

@[simp] theorem overflows_varArg (expected : Option Expected) (pos : Pos) (id : Ident) :
    (varArg env expected pos id).overflows = [] := by
  simp only [varArg, Checked.overflows_bind, overflows_resolve, List.nil_append]
  cases expected <;> (split <;> try split) <;> simp

@[simp] theorem overflows_declare (block : Block) (id : Ident) (e : Entity) :
    (declare block id e).overflows = [] := by
  unfold declare
  split
  · simp
  · split <;> simp

@[simp] theorem overflows_constStorage (site : Site) (block : Block) (x : Expr) (t : Ty) :
    (constStorage site block x t).overflows = [] := by
  unfold constStorage allocate
  split <;> simp

end Parts

section Trees

attribute [local simp] Error.isOverflow overflow? Expr.walk Arg.walk Decl.walk Decl.walkAll
  Cmd.walk Cmd.walkAll List.filterMap_cons

mutual

theorem overflows_expr (env : Env) : ∀ x : Expr,
    (expr env x).overflows = (x.walk fun _ => true).filterMap overflow?
  | .int _ _ lit => by cases value : lit.intValue? <;> simp [expr, value]
  | .char .. | .name .. | .bad .. => by simp [expr]
  | .unary _ _ _ x => by simp [expr, overflows_expr env x]
  | .binary _ _ x _ y => by simp [expr, overflows_expr env x, overflows_expr env y]
  | .call _ _ _ a => by simp [expr, overflows_arg env _ a]

theorem overflows_arg (env : Env) (expected : Option Expected) : ∀ a : Arg,
    (arg env expected a).overflows = (a.walk fun _ => true).filterMap overflow?
  | .value _ x => by cases expected <;> simp [arg, overflows_expr env x]
  | .var .. | .blank _ | .bad _ => by simp [arg]

end

theorem overflows_value (env : Env) (x : Expr) :
    (value env x).overflows = (x.walk fun _ => true).filterMap overflow? := by
  simp [value, overflows_expr]

theorem overflows_condition (env : Env) (command : String) (x : Expr) :
    (condition env command x).overflows = (x.walk fun _ => true).filterMap overflow? := by
  simp [condition, overflows_value]

theorem overflows_assign (env : Env) (target : Ident) (x : Expr) :
    (assign env target x).overflows = (x.walk fun _ => true).filterMap overflow? := by
  simp only [assign, Checked.overflows_bind, overflows_value, overflows_resolve, List.nil_append]
  split
  · simp
  · split <;> simp

mutual

theorem overflows_decl (site : Site) : ∀ (d : Decl) (block : Block),
    (decl site block d).overflows = (d.walk fun _ => true).filterMap overflow?
  | .const .., block => by simp [decl, overflows_value]
  | .var .., block => by simp [decl, allocate]
  | .bad _, block | .builtin _, block => by simp [decl]
  | .seq _ ds, block => by simp [decl, overflows_decls site ds]

theorem overflows_decls (site : Site) : ∀ (ds : List Decl) (block : Block),
    (decls site block ds).overflows = (Decl.walkAll (fun _ => true) ds).filterMap overflow?
  | [], block => rfl
  | d :: ds, block => by simp [decls, overflows_decl site d, overflows_decls site ds]

end

mutual

theorem overflows_cmd : ∀ (c : Cmd) (p : Place),
    (cmd p c).overflows = (c.walk fun _ => true).filterMap overflow?
  | .skip .., p | .bad _, p => by simp [cmd]
  | .assign .., p => by simp [cmd, overflows_assign]
  | .call .., p => by simp [cmd, overflows_arg]
  | .seq _ cs, p => by simp [cmd, overflows_cmds cs]
  | .block _ body _, p => by simp [cmd, overflows_cmd body]
  | .ifElse _ _ yes no, p => by
    simp [cmd, overflows_condition, overflows_cmd yes, overflows_cmd no]
  | .ifEither _ _ _ yes no, p => by
    simp [cmd, overflows_condition, overflows_cmd yes, overflows_cmd no]
  | .whileDo _ _ body, p => by simp [cmd, overflows_condition, overflows_cmd body]
  | .letIn _ d body, p => by simp [cmd, overflows_decl, overflows_cmd body]

theorem overflows_cmds : ∀ (cs : List Cmd) (p : Place),
    (cmds p cs).overflows = (Cmd.walkAll (fun _ => true) cs).filterMap overflow?
  | [], p => rfl
  | c :: cs, p => by simp [cmds, overflows_cmd c, overflows_cmds cs]

end

/-- The literals that are reported in a program are those that fit no word, each once and in the
order of the text. -/
theorem overflows_program (distance : Int) (p : Program) :
    (program distance p).reports.filter (·.cause.isOverflow) = p.nodes.filterMap overflow? := by
  have nodes : p.nodes.filterMap overflow? =
      (p.body.walk fun _ => true).filterMap overflow? := by
    simp [Program.nodes, Program.walk]
  rw [nodes]
  exact overflows_cmd p.body _

end Trees

theorem overflow?_eq_some_iff {n : Node} {pos : Pos} {s : String} :
    overflow? n = some ⟨pos, .literalRange s⟩ ↔
      ∃ ty place, n = .expr (.int pos ty ⟨place, s⟩) ∧ (Literal.mk place s).intValue? = none := by
  constructor
  · intro reported
    unfold overflow? at reported
    split at reported
    · next pos' ty lit =>
      split at reported
      · next missing =>
        cases reported
        exact ⟨ty, lit.pos, rfl, Option.isNone_iff_eq_none.1 missing⟩
      · cases reported
    · cases reported
  · rintro ⟨ty, place, rfl, missing⟩
    simp [overflow?, missing]

theorem reports_int {env : Env} {pos : Pos} {ty : Option Ty} {lit : Literal} :
    (expr env (.int pos ty lit)).trace.reports =
      if lit.intValue?.isNone then [⟨pos, .literalRange lit.spelling⟩] else [] := by
  cases value : lit.intValue? <;>
    simp [expr, value, Checked.reportIf, Checked.report, Trace.append]

/-- A literal is reported where it stands in the program, if it fits no word. -/
theorem mem_reports_program_iff {distance : Int} {p : Program} {pos : Pos} {s : String} :
    ⟨pos, .literalRange s⟩ ∈ (program distance p).reports ↔ ∃ ty place,
      .expr (.int pos ty ⟨place, s⟩) ∈ p.nodes ∧ (Literal.mk place s).intValue? = none := by
  have reported : ⟨pos, .literalRange s⟩ ∈ (program distance p).reports ↔
      ⟨pos, .literalRange s⟩ ∈ p.nodes.filterMap overflow? := by
    rw [← overflows_program distance p, List.mem_filter]
    exact (and_iff_left rfl).symm
  rw [reported, List.mem_filterMap]
  constructor
  · rintro ⟨n, member, reported⟩
    obtain ⟨ty, place, rfl, missing⟩ := overflow?_eq_some_iff.1 reported
    exact ⟨ty, place, member, missing⟩
  · rintro ⟨ty, place, member, missing⟩
    exact ⟨_, member, overflow?_eq_some_iff.2 ⟨ty, place, rfl, missing⟩⟩

end Check

theorem Generate.expr_int {pos : Pos} {t : Ty} {lit : Literal} :
    Generate.expr (.int pos (some t) lit) = Generate.intCode pos lit := by
  rw [Generate.expr]
  rfl

/-- Checking, constants and code agree on a literal made of digits. It is reported, wherever it
stands in a program, exactly if the number that its digits stand for is larger than 32767;
otherwise, and only then, its value is known and code loads it, and both are that number. -/
theorem integerLiterals_agree {s : String} (nonempty : s ≠ "")
    (digits : ∀ c ∈ s.toList, c.isDigit = true) :
    (∀ (distance : Int) (p : Program) (pos : Pos),
      ⟨pos, .literalRange s⟩ ∈ (Check.program distance p).reports ↔
        (∃ ty place, .expr (.int pos ty ⟨place, s⟩) ∈ p.nodes) ∧ 32767 < Text.decimalValue s) ∧
    ∀ pos place : Pos,
      (∀ (env : Check.Env) (ty : Option Ty),
        (Check.expr env (.int pos ty ⟨place, s⟩)).trace.reports =
          if Text.decimalValue s ≤ 32767 then [] else [⟨pos, .literalRange s⟩]) ∧
      (∀ ty : Option Ty, Check.knownValue? (.int pos ty ⟨place, s⟩) =
          if Text.decimalValue s ≤ 32767 then some (Text.decimalValue s : Int) else none) ∧
      ∀ ty : Ty, Generate.expr (.int pos (some ty) ⟨place, s⟩) =
          if Text.decimalValue s ≤ 32767 then
            .ok [{ op := .loadl, d := (Text.decimalValue s : Int) }]
          else .error (.literalRange s pos) := by
  have value (place : Pos) := Literal.intValue?_of_digits ⟨place, s⟩ nonempty digits
  refine ⟨fun distance p pos => ?_, fun pos place => ⟨fun env ty => ?_, fun ty => ?_, fun ty => ?_⟩⟩
  · rw [Check.mem_reports_program_iff]
    simp only [value, ← exists_and_right]
    refine exists₂_congr fun ty place => and_congr_right fun _ => ?_
    split <;> simp <;> omega
  · rw [Check.reports_int, value]
    split <;> rfl
  · rw [Check.knownValue?, value]
  · rw [Generate.expr_int, Generate.intCode, value]
    by_cases small : Text.decimalValue s ≤ 32767
    · simp [small, Generate.loadNumber]
    · simp [small]

/-- The digits of 2^64 + 1 stand for a large number, though the last 64 bits of that number are
those of 1, and zeros in front of digits count for nothing. -/
theorem integerLiterals_agree_wrapped :
    (∀ c ∈ "18446744073709551617".toList, c.isDigit = true) ∧
    (∀ c ∈ "000000000000000000000032767".toList, c.isDigit = true) ∧
    Check.knownValue? (.int Pos.none none ⟨Pos.none, "18446744073709551617"⟩) = none ∧
    Generate.expr (.int Pos.none (some .integer) ⟨Pos.none, "18446744073709551617"⟩) =
      .error (.literalRange "18446744073709551617" Pos.none) ∧
    Check.knownValue? (.int Pos.none none ⟨Pos.none, "000000000000000000000032767"⟩) =
      some 32767 ∧
    Generate.expr (.int Pos.none (some .integer) ⟨Pos.none, "000000000000000000000032767"⟩) =
      .ok [{ op := .loadl, d := 32767 }] := by
  have large : ∀ c ∈ "18446744073709551617".toList, c.isDigit = true :=
    List.all_eq_true.1 (by decide)
  have small : ∀ c ∈ "000000000000000000000032767".toList, c.isDigit = true :=
    List.all_eq_true.1 (by decide)
  have above : Text.decimalValue "18446744073709551617" = 18446744073709551617 := by decide +kernel
  have within : Text.decimalValue "000000000000000000000032767" = 32767 := by decide +kernel
  obtain ⟨-, folded, loaded⟩ := (integerLiterals_agree (by decide) large).2 Pos.none Pos.none
  obtain ⟨-, folded', loaded'⟩ := (integerLiterals_agree (by decide) small).2 Pos.none Pos.none
  refine ⟨large, small, ?_, ?_, ?_, ?_⟩
  · rw [folded, above]
    rfl
  · rw [loaded, above]
    rfl
  · rw [folded', within]
    rfl
  · rw [loaded', within]
    rfl

end TriangleTam
