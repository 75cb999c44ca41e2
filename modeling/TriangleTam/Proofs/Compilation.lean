import TriangleTam.Compilation
import TriangleTam.Proofs.Generate.Translation
import TriangleTam.Proofs.Parser.Intact

/-!
# Compilations come to a result

Checking and generating code go wrong only on trees that no program text has, or that something was
reported about. So a text that can be read is always compiled to the end: something is reported
about it, or it has code, and that code stops the machine with its last instruction and no other.
-/

namespace TriangleTam

namespace Generate

open Machine

section Halting

/-- No instruction stops the machine. -/
def GoesOn (is : List Instruction) : Prop := ∀ i ∈ is, i.op ≠ .halt

@[simp] theorem goesOn_nil : GoesOn [] := by simp [GoesOn]

@[simp] theorem goesOn_cons {i : Instruction} {is : List Instruction} :
    GoesOn (i :: is) ↔ i.op ≠ .halt ∧ GoesOn is := by
  simp [GoesOn]

@[simp] theorem goesOn_append {is js : List Instruction} :
    GoesOn (is ++ js) ↔ GoesOn is ∧ GoesOn js := by
  simp [GoesOn, or_imp, forall_and]

@[simp] theorem goesOn_sizeOperand (prim : Primitive) (t : Ty) : GoesOn (sizeOperand prim t) := by
  unfold sizeOperand
  split <;> simp [loadNumber]

@[simp] theorem goesOn_drop (words : Nat) : GoesOn (drop words) := by
  unfold drop
  split <;> simp

mutual

theorem ExprCode.goesOn {L : List Entity} : ∀ {x : Expr} {t : Ty} {is : List Instruction},
    ExprCode L x t is → GoesOn is
  | _, _, _, .int _ | _, _, _, .char _ | _, _, _, .known _ _ _ | _, _, _, .constant _ => by
    simp [loadNumber]
  | _, _, _, .held _ _ _ => by simp [loadWord]
  | _, _, _, .unary _ inner => by simp [inner.goesOn, callPrimitive]
  | _, _, _, .binary _ _ first second => by
    simp [first.goesOn, second.goesOn, callPrimitive]
  | _, _, _, .call _ _ passed => by simp [passed.goesOn, callPrimitive]

theorem ArgCode.goesOn {L : List Entity} : ∀ {a : Arg} {fs : List Formal} {is : List Instruction},
    ArgCode L a fs is → GoesOn is
  | _, _, _, .blank => goesOn_nil
  | _, _, _, .value inner => inner.goesOn
  | _, _, _, .var _ _ _ _ => by simp [loadAddress]

end

theorem DeclCode.goesOn {L M : List Entity} {l m : Nat} {d : Decl} {is : List Instruction}
    (h : DeclCode L l d M m is) : GoesOn is := by
  induction h with
  | known | nil => exact goesOn_nil
  | const value => exact value.goesOn
  | var => simp [reserveWord]
  | cons first rest ih ih' => exact goesOn_append.2 ⟨ih, ih'⟩

/-- No part of a program stops the machine. -/
theorem CmdCode.goesOn {L : List Entity} {n base : Nat} {c : Cmd} {is : List Instruction}
    (h : CmdCode L n base c is) : GoesOn is := by
  induction h with
  | skip | seqNil => exact goesOn_nil
  | assign found typed kind held value => simp [value.goesOn, storeWord]
  | call found passed => simp [passed.goesOn, callPrimitive]
  | seqCons first rest ih ih' => exact goesOn_append.2 ⟨ih, ih'⟩
  | block inner ih => exact ih
  | ifElse test yesHere then_ noHere else_ ih ih' => simp [test.goesOn, ih, ih', jump, jumpIf]
  | ifEither test test' yesHere then_ noHere else_ ih ih' =>
    simp [test.goesOn, test'.goesOn, ih, ih', jump, jumpIf]
  | whileDo test bodyHere inner ih => simp [test.goesOn, ih, jump, jumpIf]
  | letIn declared inner ih => simp [declared.goesOn, ih]

end Halting

end Generate

theorem Scanner.messages_eq_nil_iff (found : List Scanner.Scanned) :
    Scanner.messages found = [] ↔ Scanner.reports found = [] := by
  simp [Scanner.messages]

namespace Parser

/-- The tree of a text has no character literals but proper ones. -/
theorem parse_scan_literalsProper (cursor : Cursor) (lenient : Bool) (limit : Int) :
    (parse (Scanner.tokens (Scanner.scan cursor).1) lenient limit).program.LiteralsProper := by
  have fine := parse_fine (Scanner.tokens_proper cursor) lenient limit (.inr trivial)
  rintro n member lit rfl
  exact fine _ member

/-- The tree of a text about which nothing is reported is intact. -/
theorem parse_scan_intact {cursor : Cursor} {lenient : Bool} {limit : Int}
    (lexical : Scanner.reports (Scanner.scan cursor).1 = [])
    (syntactic : (parse (Scanner.tokens (Scanner.scan cursor).1) lenient limit).findings = []) :
    (parse (Scanner.tokens (Scanner.scan cursor).1) lenient limit).program.Intact := by
  have fine := parse_fine (Scanner.tokens_proper_of_reports lexical) lenient limit
    (.inl syntactic)
  exact fun n member => Node.isIntact_of_fine (fine n member)

end Parser

/-- Checking a program that is intact and making its code: there is code if nothing is reported. -/
theorem Program.exists_code_of_quiet {p : Program} (intact : p.Intact) {distance : Int}
    (quiet : (Check.program distance p).reports = []) :
    ∃ is, (Check.program distance p).program.code = .ok (is ++ [{ op := .halt }]) ∧
      Generate.GoesOn is := by
  rw [Check.reports_program_eq_nil_iff intact.complete] at quiet
  obtain ⟨is, code, rule⟩ := Program.exists_code_of_wellTyped intact quiet distance
  exact ⟨is, code, rule.goesOn⟩

namespace Compilation

variable {file : String} {input : Input} {settings : Settings}

/-- The compilation `c` after checking came to `r`. -/
def withChecked (c : Compilation) (r : Check.Result) : Compilation :=
  { c with
    diagnostics := c.diagnostics ++ r.messages.map (·.render)
    program := some r.program
    frameSize := some r.frameSize }

theorem run_generate_eq (read : input.readFault = none) {c : Compilation} {p : Program}
    (parses : parsed settings (scanned file (Cursor.ofBytes file input.bytes)) = (c, p))
    {r : Check.Result} (checks : p.check 0 = .ok r) :
    run file input settings .generate =
      if (c.withChecked r).ok then generated r.program (c.withChecked r)
      else .ok (c.withChecked r) := by
  have reads : Source.ofInput file input =
      .ok ⟨Cursor.ofBytes file input.bytes, input.closeFault⟩ := by
    rw [Source.ofInput, read]
  have checks : checked p c = .ok (c.withChecked r, r.program) := by
    rw [checked, checks]
    rfl
  simp [run, reads, parses, checks]

theorem generated_eq_ok {p : Program} {code : List Machine.Instruction} (made : p.code = .ok code)
    (c : Compilation) : generated p c = .ok { c with code := some code } := by
  rw [generated, made]

/-- A text that can be read is compiled to the end, whatever is wrong with it. It has code exactly
if nothing is reported, and only the last instruction of that code stops the machine. -/
theorem exists_run_generate (file : String) (input : Input) (settings : Settings)
    (read : input.readFault = none) :
    ∃ c, run file input settings .generate = .ok c ∧
      (c.code.isSome = true ↔ c.diagnostics = []) ∧
      ∀ code, c.code = some code → ∃ body last, code = body ++ [last] ∧ last.op = .halt ∧
        ∀ i ∈ body, i.op ≠ .halt := by
  let cursor := Cursor.ofBytes file input.bytes
  let found := (Scanner.scan cursor).1
  let o := Parser.parse (Scanner.tokens found) settings.lenient settings.maxErrors
  obtain ⟨c, parses, diagnostics, noCode⟩ :
      ∃ c, parsed settings (scanned file cursor) = (c, o.program) ∧
        c.diagnostics = (Scanner.messages found).map (·.render) ++ o.reports.map (·.render) ∧
        c.code = none :=
    ⟨_, rfl, rfl, rfl⟩
  have literals : o.program.LiteralsProper := Parser.parse_scan_literalsProper cursor _ _
  rw [run_generate_eq read parses (o.program.check_eq_ok literals 0)]
  split
  · next ok =>
    have quiet : c.diagnostics ++ (Check.program 0 o.program).messages.map (·.render) = [] :=
      List.isEmpty_iff.1 ok
    rw [diagnostics, List.append_eq_nil_iff, List.append_eq_nil_iff, List.map_eq_nil_iff,
      List.map_eq_nil_iff, List.map_eq_nil_iff, Scanner.messages_eq_nil_iff,
      Parser.Outcome.reports_eq_nil_iff, Check.Result.messages_eq_nil_iff] at quiet
    obtain ⟨⟨lexical, syntactic⟩, silent⟩ := quiet
    have intact := Parser.parse_scan_intact lexical syntactic
    obtain ⟨body, made, goesOn⟩ := Program.exists_code_of_quiet intact silent
    refine ⟨_, generated_eq_ok made _, ?_, ?_⟩
    · exact iff_of_true rfl (List.isEmpty_iff.1 ok)
    · intro code eq
      exact ⟨body, _, (Option.some.inj eq).symm, rfl, goesOn⟩
  · next reported =>
    have none : (c.withChecked (Check.program 0 o.program)).code = none := noCode
    refine ⟨_, rfl, ?_, ?_⟩
    · rw [none]
      exact iff_of_false nofun fun quiet => reported (List.isEmpty_iff.2 quiet)
    · intro code eq
      rw [none] at eq
      cases eq

/-- Nothing was found wrong with a text, whose program is `p`, and the code is that of the program
as checked. -/
structure Quiet (file : String) (input : Input) (settings : Settings) (c : Compilation)
    (p : Program) : Prop where
  tokens : c.tokens = Scanner.tokens (Scanner.scan (Cursor.ofBytes file input.bytes)).1
  lexical : Scanner.reports (Scanner.scan (Cursor.ofBytes file input.bytes)).1 = []
  syntactic : (Parser.parse c.tokens settings.lenient settings.maxErrors).findings = []
  parsed : p = (Parser.parse c.tokens settings.lenient settings.maxErrors).program
  semantic : (Check.program 0 p).reports = []
  checked : c.program = some (Check.program 0 p).program
  generated : ∃ code, c.code = some code ∧ (Check.program 0 p).program.code = .ok code

theorem Quiet.intact {c : Compilation} {p : Program} (quiet : Quiet file input settings c p) :
    p.Intact := by
  have syntactic := quiet.syntactic
  rw [quiet.tokens] at syntactic
  rw [quiet.parsed, quiet.tokens]
  exact Parser.parse_scan_intact quiet.lexical syntactic

/-- A compilation without diagnostics. -/
theorem exists_quiet {c : Compilation} (ran : run file input settings .generate = .ok c)
    (silent : c.diagnostics = []) : ∃ p, Quiet file input settings c p := by
  have read : input.readFault = none := by
    cases read : input.readFault with
    | none => rfl
    | some e =>
      simp only [run, Source.ofInput, read] at ran
      cases ran
  let found := (Scanner.scan (Cursor.ofBytes file input.bytes)).1
  let o := Parser.parse (Scanner.tokens found) settings.lenient settings.maxErrors
  obtain ⟨b, parses, tokens, diagnostics⟩ :
      ∃ b, parsed settings (scanned file (Cursor.ofBytes file input.bytes)) = (b, o.program) ∧
        b.tokens = Scanner.tokens found ∧
        b.diagnostics = (Scanner.messages found).map (·.render) ++ o.reports.map (·.render) :=
    ⟨_, rfl, rfl, rfl⟩
  have literals : o.program.LiteralsProper := Parser.parse_scan_literalsProper _ _ _
  rw [run_generate_eq read parses (o.program.check_eq_ok literals 0)] at ran
  split at ran
  · next ok =>
    have nothing : b.diagnostics ++ (Check.program 0 o.program).messages.map (·.render) = [] :=
      List.isEmpty_iff.1 ok
    rw [diagnostics, List.append_eq_nil_iff, List.append_eq_nil_iff, List.map_eq_nil_iff,
      List.map_eq_nil_iff, List.map_eq_nil_iff, Scanner.messages_eq_nil_iff,
      Parser.Outcome.reports_eq_nil_iff, Check.Result.messages_eq_nil_iff] at nothing
    obtain ⟨⟨lexical, syntactic⟩, semantic⟩ := nothing
    obtain ⟨body, made, -⟩ :=
      Program.exists_code_of_quiet (Parser.parse_scan_intact lexical syntactic) semantic
    rw [generated_eq_ok made] at ran
    obtain rfl := Except.ok.inj ran
    have tokens : (b.withChecked (Check.program 0 o.program)).tokens = Scanner.tokens found :=
      tokens
    refine ⟨o.program, tokens, lexical, ?_, ?_, semantic, rfl, _, rfl, made⟩
    · rw [tokens]
      exact syntactic
    · rw [tokens]
  · next reported =>
    obtain rfl := Except.ok.inj ran
    exact absurd (List.isEmpty_iff.2 silent) reported

/-- A compilation of which a part is known comes to a result. -/
theorem exists_run_of_map {α : Type} {part : Compilation → α} {a : α} {last : Stage}
    (known : (run file input settings last).toOption.map part = some a) :
    ∃ c, run file input settings last = .ok c ∧ part c = a := by
  cases ran : run file input settings last with
  | error f =>
    rw [ran] at known
    cases known
  | ok c =>
    rw [ran] at known
    exact ⟨c, rfl, Option.some.inj known⟩

/-- An open quote with a byte that is part of no character behind it, read without reports of
missing tokens and with a limit that is out of range. -/
theorem exists_run_generate_openQuote :
    (Input.mk [0x27, 0xFF] none none).readFault = none ∧
      ∃ c, run "quote.tri" ⟨[0x27, 0xFF], none, none⟩ { lenient := true, maxErrors := -1 }
          .generate = .ok c ∧
        (c.code.isSome = true ↔ c.diagnostics = []) ∧
        ∀ code, c.code = some code → ∃ body last, code = body ++ [last] ∧ last.op = .halt ∧
          ∀ i ∈ body, i.op ≠ .halt :=
  ⟨rfl, exists_run_generate _ _ _ rfl⟩

end Compilation

end TriangleTam
