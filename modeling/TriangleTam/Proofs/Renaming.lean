import Mathlib.Logic.Equiv.Basic
import TriangleTam.Proofs.Check.Relabelled
import TriangleTam.Proofs.Compilation
import TriangleTam.Proofs.Generate.Relabelled
import TriangleTam.Proofs.Parser.Terminals

/-!
# Names do not matter

A program with other names for its identifiers is as right as the program itself, needs as much
storage and has the same code: `Program.check_renamed`. An operator of a text is one of the standard
environment, so that renaming leaves it alone.
-/

namespace TriangleTam

theorem Builtin.exists_operator {c : Char} (operator : Scanner.isOperator c = true) :
    ∃ b ∈ Builtin.all, b.name = String.singleton c := by
  rcases Scanner.isOperator_cases operator with
    rfl | rfl | rfl | rfl | rfl | rfl | rfl | rfl <;> decide

/-- No operator of a text about which nothing is reported is changed along with the names. -/
theorem Parser.parse_scan_keepsSymbol (r : Relabelling) {cursor : Cursor} {lenient : Bool}
    {limit : Int} (lexical : Scanner.reports (Scanner.scan cursor).1 = [])
    (syntactic : (parse (Scanner.tokens (Scanner.scan cursor).1) lenient limit).findings = []) :
    (parse (Scanner.tokens (Scanner.scan cursor).1) lenient limit).program.All
      (Node.KeepsSymbol r) := by
  intro n member
  cases n with
  | op o =>
    have found := mem_tokens_of_mem_nodes lexical syntactic member (t := ⟨.operator, o.symbol, o.pos⟩)
      rfl
    obtain ⟨s, scanned, token⟩ := List.mem_map.1 found
    obtain ⟨c, operator, spelling⟩ := Scanner.scan_operator cursor s scanned (by rw [token])
    obtain ⟨b, standard, name⟩ := Builtin.exists_operator operator
    have symbol : o.symbol = b.name := by
      rw [name, ← spelling, token]
    show r.name o.symbol = o.symbol
    rw [symbol]
    exact r.standard b standard
  | _ => trivial

namespace Program

/-- Renaming does not matter. If nothing is reported when a text is scanned and parsed, and the
identifiers of its program get other names, where different names stay different and those of the
standard environment and missing ones stay as they are, then checking finds something wrong with the
program exactly if it does so with the renamed one, both need as much storage, and if nothing is
wrong both have the same code. -/
theorem check_renamed {file : String} {input : Input} {lenient : Bool} {limit : Int}
    {reading : Parser.Reading} (read : Parser.readText file input lenient limit = .ok reading)
    (quiet : reading.reports = []) (distance : Int) {ρ : String → String}
    (injective : Function.Injective ρ) (missing : ρ "" = "")
    (standard : ∀ b ∈ Builtin.all, ρ b.name = b.name) :
    let renamed := reading.program.relabel (.ofNames ρ injective missing standard)
    ∃ result result', reading.program.check distance = .ok result ∧
      renamed.check distance = .ok result' ∧
      (result'.messages = [] ↔ result.messages = []) ∧ result'.frameSize = result.frameSize ∧
      (result.messages = [] →
        ∃ code, result.program.code = .ok code ∧ result'.program.code = .ok code) := by
  obtain rfl := Parser.readText_eq_ok read
  obtain ⟨lexical, syntactic⟩ := List.append_eq_nil_iff.1 quiet
  rw [Scanner.messages_eq_nil_iff] at lexical
  rw [Parser.Outcome.reports_eq_nil_iff] at syntactic
  let r : Relabelling := .ofNames ρ injective missing standard
  have intact := Parser.parse_scan_intact lexical syntactic
  have keeps := Parser.parse_scan_keepsSymbol r lexical syntactic
  obtain ⟨program, reports, frameSize⟩ := Check.program_alike distance keeps
  refine ⟨_, _, Program.check_eq_ok intact.literalsProper distance,
    Program.check_eq_ok intact.literalsProper.relabel distance, ?_, frameSize, ?_⟩
  · rw [Check.Result.messages_eq_nil_iff, Check.Result.messages_eq_nil_iff,
      ← List.length_eq_zero_iff, reports, List.length_eq_zero_iff]
  · intro silent
    rw [Check.Result.messages_eq_nil_iff] at silent
    obtain ⟨body, code, -⟩ := Program.exists_code_of_quiet intact silent
    refine ⟨_, code, ?_⟩
    rw [program]
    exact (Program.code_relabel r _).eq_ok code

/-- The text `let const x ~ 3; var y : integer in let var x : char in get(var x)`, in which a name is
declared twice. -/
def shadowText : Input :=
  ⟨"let const x ~ 3; var y : integer in let var x : char in get(var x)".toUTF8.toList, none, none⟩

/-- The names `x` and `y` change places in a text. -/
theorem shadowText_renamed :
    ∃ reading, Parser.readText "" shadowText false 10 = .ok reading ∧ reading.reports = [] ∧
      ∃ (injective : Function.Injective (Equiv.swap "x" "y"))
        (missing : Equiv.swap "x" "y" "" = "")
        (standard : ∀ b ∈ Builtin.all, Equiv.swap "x" "y" b.name = b.name)
        (result result' : Check.Result),
      reading.program.check 0 = .ok result ∧
        (reading.program.relabel (.ofNames _ injective missing standard)).check 0 = .ok result' ∧
        result.messages = [] ∧ result'.messages = [] ∧ result'.frameSize = result.frameSize ∧
        ∃ code, result.program.code = .ok code ∧ result'.program.code = .ok code := by
  obtain ⟨reading, read⟩ : ∃ reading, Parser.readText "" shadowText false 10 = .ok reading :=
    ⟨_, rfl⟩
  have quiet : reading.reports = [] := by
    have known : (Parser.readText "" shadowText false 10).toOption.map (·.reports) = some [] := by
      decide +kernel
    rw [read] at known
    exact Option.some.inj known
  have injective := (Equiv.swap "x" "y").injective
  have missing : Equiv.swap "x" "y" "" = "" := by decide
  have standard : ∀ b ∈ Builtin.all, Equiv.swap "x" "y" b.name = b.name := by decide
  obtain ⟨result, result', checked, checked', verdict, size, code⟩ :=
    check_renamed read quiet 0 injective missing standard
  have silent : result.messages = [] := by
    have known : (Parser.readText "" shadowText false 10).toOption.bind
        (fun reading => (reading.program.check 0).toOption.map (·.messages)) = some [] := by
      decide +kernel
    rw [read] at known
    have known : (reading.program.check 0).toOption.map (·.messages) = some [] := known
    rw [checked] at known
    exact Option.some.inj known
  exact ⟨reading, read, quiet, injective, missing, standard, result, result', checked, checked',
    silent, verdict.2 silent, size, code silent⟩

end Program

end TriangleTam
