import TriangleTam.Proofs.Check.Relabelled
import TriangleTam.Proofs.Compilation
import TriangleTam.Proofs.Generate.Relabelled
import TriangleTam.Proofs.Parser.Moved
import TriangleTam.Proofs.Token.Respaced

/-!
# Layout does not matter

What stands between the tokens of a text changes where they are and nothing else. The trees of two
texts with the same tokens differ in positions only, so as much is reported about the one as about
the other, and if that is nothing, both have the same code: `Compilation.run_respaced`.
-/

namespace TriangleTam

/-- The same names, and nothing at any position. -/
def Relabelling.nowhere : Relabelling := .ofPositions fun _ => Pos.none

theorem Program.keepsSymbol_nowhere (p : Program) : p.All (Node.KeepsSymbol .nowhere) := by
  intro n _
  cases n with
  | op o => rfl
  | _ => trivial

namespace Parser

/-- Of tokens that are the same but for their positions, the parser makes the same but for
positions. -/
theorem parse_eq_nowhere {tokens tokens' : List Token}
    (same : Scanner.labels tokens' = Scanner.labels tokens) (lenient : Bool) (limit : Int) :
    (parse tokens' lenient limit).moved (fun _ => Pos.none) =
      (parse tokens lenient limit).moved (fun _ => Pos.none) := by
  have moved : ∀ ts : List Token, ts.map (Token.moved fun _ => Pos.none) =
      (Scanner.labels ts).map fun label => ⟨label.1, label.2, Pos.none⟩ := by
    intro ts
    rw [Scanner.labels, List.map_map]
    rfl
  rw [← parse_moved rfl, ← parse_moved rfl, moved, moved, same]

theorem Outcome.length_reports_moved (f : Pos → Pos) (o : Outcome) :
    (o.moved f).reports.length = o.reports.length := by
  simp only [Outcome.reports, Outcome.moved, List.getLast?_map]
  cases o.findings.getLast? with
  | none => simp
  | some last => by_cases aborted : o.aborted = true <;> simp [aborted]

end Parser

section Programs

variable {p p' : Program} (same : p'.relabel .nowhere = p.relabel .nowhere)
include same

/-- As much is wrong with a program as with one that differs in positions only. -/
theorem Check.length_reports_eq (distance : Int) :
    (program distance p').reports.length = (program distance p).reports.length := by
  obtain ⟨-, reports, -⟩ := program_alike distance p.keepsSymbol_nowhere
  obtain ⟨-, reports', -⟩ := program_alike distance p'.keepsSymbol_nowhere
  rw [← reports, ← reports', same]

/-- A program has the code of one that differs in positions only. -/
theorem Check.code_eq (distance : Int) {code code' : List Machine.Instruction}
    (made : (program distance p).program.code = .ok code)
    (made' : (program distance p').program.code = .ok code') : code' = code := by
  obtain ⟨checked, -, -⟩ := program_alike distance p.keepsSymbol_nowhere
  obtain ⟨checked', -, -⟩ := program_alike distance p'.keepsSymbol_nowhere
  have first := (Program.code_relabel .nowhere _).eq_ok made
  have second := (Program.code_relabel .nowhere _).eq_ok made'
  rw [← checked', same, checked, first] at second
  exact (Except.ok.inj second).symm

end Programs

namespace Compilation

variable {file : String} {input input' : Input} {settings : Settings} {c c' : Compilation}

theorem generated_keeps {p : Program} (made : generated p c = .ok c') :
    c'.tokens = c.tokens ∧ c'.diagnostics = c.diagnostics := by
  unfold generated at made
  split at made
  · obtain rfl := Except.ok.inj made
    exact ⟨rfl, rfl⟩
  · split at made
    · cases made
    · cases made

/-- What a whole compilation reports is what each of its stages finds. -/
theorem run_generate_counts (read : input.readFault = none)
    (ran : run file input settings .generate = .ok c) :
    let found := (Scanner.scan (Cursor.ofBytes file input.bytes)).1
    let o := Parser.parse (Scanner.tokens found) settings.lenient settings.maxErrors
    c.tokens = Scanner.tokens found ∧
      c.diagnostics.length = (Scanner.reports found).length + o.reports.length +
        (Check.program 0 o.program).reports.length := by
  intro found o
  have literals : o.program.LiteralsProper := Parser.parse_scan_literalsProper _ _ _
  rw [run_generate_eq read rfl (o.program.check_eq_ok literals 0)] at ran
  have kept : c.tokens = Scanner.tokens found ∧ c.diagnostics =
      (Scanner.messages found).map (·.render) ++ o.reports.map (·.render) ++
        (Check.program 0 o.program).messages.map (·.render) := by
    split at ran
    · exact generated_keeps ran
    · obtain rfl := Except.ok.inj ran
      exact ⟨rfl, rfl⟩
  refine ⟨kept.1, ?_⟩
  rw [kept.2]
  simp [Scanner.messages, Check.Result.messages, Nat.add_assoc]

/-- Layout does not matter. If a text has no malformed tokens, and their spellings are written with
blanks and comments between them, then the new text is scanned to the same tokens and nothing is
reported about them; compiling it reports as much as compiling the text itself, and makes the same
code if that is nothing. -/
theorem run_respaced (file' : String) (settings : Settings) (read : input.readFault = none)
    (read' : input'.readFault = none)
    (formed : ∀ t ∈ Scanner.tokens (Scanner.scan (Cursor.ofBytes file input.bytes)).1,
      t.kind ≠ .malformed)
    (spaced : Scanner.Spaced (Scanner.spellings
      (Scanner.tokens (Scanner.scan (Cursor.ofBytes file input.bytes)).1)) input'.bytes) :
    Scanner.reports (Scanner.scan (Cursor.ofBytes file' input'.bytes)).1 = [] ∧
      ∃ c c', run file input settings .generate = .ok c ∧
        run file' input' settings .generate = .ok c' ∧
        Scanner.labels c'.tokens = Scanner.labels c.tokens ∧
        c'.diagnostics.length = c.diagnostics.length ∧
        (c.diagnostics = [] → ∃ code, c.code = some code ∧ c'.code = some code) := by
  obtain ⟨labels, lexical'⟩ := Scanner.tokens_spaced formed spaced file'
  have lexical := Scanner.reports_eq_nil_of_formed formed
  have outcomes := Parser.parse_eq_nowhere labels settings.lenient settings.maxErrors
  have programs := congrArg Parser.Outcome.program outcomes
  obtain ⟨c, ran, -⟩ := exists_run_generate file input settings read
  obtain ⟨c', ran', -⟩ := exists_run_generate file' input' settings read'
  obtain ⟨tokens, count⟩ := run_generate_counts read ran
  obtain ⟨tokens', count'⟩ := run_generate_counts read' ran'
  have length : c'.diagnostics.length = c.diagnostics.length := by
    rw [count, count', lexical, lexical', Check.length_reports_eq programs,
      ← Parser.Outcome.length_reports_moved _, outcomes, Parser.Outcome.length_reports_moved]
  refine ⟨lexical', c, c', ran, ran', by rw [tokens, tokens', labels], length, fun silent => ?_⟩
  have silent' : c'.diagnostics = [] := by
    rw [← List.length_eq_zero_iff, length, silent, List.length_nil]
  obtain ⟨p, quiet⟩ := exists_quiet ran silent
  obtain ⟨p', quiet'⟩ := exists_quiet ran' silent'
  obtain ⟨code, made, generated⟩ := quiet.generated
  obtain ⟨code', made', generated'⟩ := quiet'.generated
  rw [quiet.parsed, quiet.tokens] at generated
  rw [quiet'.parsed, quiet'.tokens] at generated'
  exact ⟨code, made, by rw [made', Check.code_eq programs 0 generated generated']⟩

/-- The text `let var c:char in c:='!'`, with no blanks but where they are needed. -/
def tightText : Input := ⟨"let var c:char in c:='!'".toUTF8.toList, none, none⟩

/-- The same tokens with other blanks between them, and a comment with a byte in it that is part of
no character. -/
def looseText : Input :=
  ⟨"let !".toUTF8.toList ++ 0xFF :: "\nvar\tc : char in\rc := \n'!'".toUTF8.toList, none, none⟩

theorem looseText_spaced :
    Scanner.Spaced ["let", "var", "c", ":", "char", "in", "c", ":=", "'!'"] looseText.bytes := by
  have space : Scanner.Gap [0x20] := .blank (by decide)
  have comment : Scanner.Gap (0x21 :: [0xFF] ++ [0x0A]) := .comment (by decide)
  have tab : Scanner.Gap [0x09] := .blank (by decide)
  have return_ : Scanner.Gap [0x0D] := .blank (by decide)
  have newline : Scanner.Gap [0x0A] := .blank (by decide)
  have value := Scanner.Spaced.cons (s := ":=") (space.append newline) (.last "'!'")
  have body := Scanner.Spaced.cons (s := "in") return_ (.cons (s := "c") space value)
  have type := Scanner.Spaced.cons (s := ":") space (.cons (s := "char") space body)
  have var := Scanner.Spaced.cons (s := "var") tab (.cons (s := "c") space type)
  convert Scanner.Spaced.cons (s := "let") (space.append comment) var using 1
  decide +kernel

/-- A text written with other blanks and a comment has the same code. -/
theorem tightText_respaced :
    tightText.readFault = none ∧ looseText.readFault = none ∧
      (∀ t ∈ Scanner.tokens (Scanner.scan (Cursor.ofBytes "" tightText.bytes)).1,
        t.kind ≠ .malformed) ∧
      Scanner.Spaced (Scanner.spellings
        (Scanner.tokens (Scanner.scan (Cursor.ofBytes "" tightText.bytes)).1)) looseText.bytes ∧
      Scanner.reports (Scanner.scan (Cursor.ofBytes "" looseText.bytes)).1 = [] ∧
      ∃ c c', run "" tightText {} .generate = .ok c ∧ run "" looseText {} .generate = .ok c' ∧
        Scanner.labels c'.tokens = Scanner.labels c.tokens ∧ c.diagnostics = [] ∧
        c'.diagnostics = [] ∧ ∃ code, c.code = some code ∧ c'.code = some code := by
  have formed : ∀ t ∈ Scanner.tokens (Scanner.scan (Cursor.ofBytes "" tightText.bytes)).1,
      t.kind ≠ .malformed := by
    decide +kernel
  have spellings : Scanner.spellings
      (Scanner.tokens (Scanner.scan (Cursor.ofBytes "" tightText.bytes)).1) =
        ["let", "var", "c", ":", "char", "in", "c", ":=", "'!'"] := by
    decide +kernel
  have spaced := looseText_spaced
  rw [← spellings] at spaced
  obtain ⟨quiet, c, c', ran, ran', labels, length, code⟩ :=
    run_respaced "" {} rfl rfl formed spaced
  have silent : c.diagnostics = [] := by
    have known : (run "" tightText {} .generate).toOption.map (·.diagnostics) = some [] := by
      decide +kernel
    rw [ran] at known
    exact Option.some.inj known
  have silent' : c'.diagnostics = [] := by
    rw [← List.length_eq_zero_iff, length, silent, List.length_nil]
  exact ⟨rfl, rfl, formed, spaced, quiet, c, c', ran, ran', labels, silent, silent', code silent⟩

end Compilation

end TriangleTam
