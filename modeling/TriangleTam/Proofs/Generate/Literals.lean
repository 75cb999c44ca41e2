import TriangleTam.Proofs.Compilation
import TriangleTam.Proofs.Generate.Stack
import TriangleTam.Proofs.Parser.Terminals

/-!
# The numbers in generated code

Code loads numbers that literals, constants and sizes stand for. All of them fit a word but the
codes of characters, which nothing limits. Main statements: `CmdCode.loads`, and
`Compilation.loads_fit` on compiled texts.
-/

namespace TriangleTam

section Values

/-- What is spelled with digits alone has no sign. -/
theorem Text.int64?_nonneg {s : String} {n : Int}
    (digits : ∀ d ∈ s.toList, Scanner.isDigit d = true) (value : Text.int64? s = some n) :
    0 ≤ n := by
  obtain ⟨value, -⟩ := Option.filter_eq_some_iff.1 value
  unfold Text.signed? at value
  split at value
  · obtain ⟨m, -, rfl⟩ := Option.map_eq_some_iff.1 value
    exact Int.natCast_nonneg m
  · next cs spelled =>
    rw [spelled] at digits
    exact absurd (digits '-' (by simp)) (by decide)
  · obtain ⟨m, -, rfl⟩ := Option.map_eq_some_iff.1 value
    exact Int.natCast_nonneg m

/-- The code of a character is a code point. -/
theorem Literal.charValue?_le {lit : Literal} {c : Nat} (value : lit.charValue? = some c) :
    c ≤ 0x10FFFF := by
  unfold Literal.charValue? at value
  split at value
  · next d _ _ =>
    cases value
    have valid := d.valid
    unfold UInt32.isValidChar Nat.isValidChar at valid
    rw [Char.toNat]
    omega
  · cases value

/-- Whether an integer literal fits a word. -/
@[simp] def Node.fitsWord : Node → Bool
  | intLit lit => lit.intValue?.isSome
  | _ => true

/-- The node is one of `R` if it is a literal. -/
@[simp] def Node.LiteralIn (R : Node → Prop) : Node → Prop
  | intLit lit => R (intLit lit)
  | charLit lit => R (charLit lit)
  | _ => True

theorem Node.literalIn {R : Node → Prop} {n : Node} (h : R n) : n.LiteralIn R := by
  cases n <;> simp_all

namespace Typing

mutual

theorem HasType.fitsWord {Γ : Context} : ∀ {x : Expr} {t : Ty}, HasType Γ x t →
    x.All fun n => n.fitsWord = true
  | _, _, .int value le => by simp [Check.intValue?_eq_some_iff.2 ⟨value, le⟩]
  | _, _, .char => by simp
  | _, _, .entity _ | _, _, .constant _ => by simp
  | _, _, .unary _ typed => by simpa using typed.fitsWord
  | _, _, .binary _ typed typed' | _, _, .same _ typed typed' _ => by
    simpa using ⟨typed.fitsWord, typed'.fitsWord⟩
  | _, _, .call _ passed => by simpa using passed.fitsWord

theorem Passed.fitsWord {Γ : Context} : ∀ {a : Arg} {params : List Formal}, Passed Γ a params →
    a.All fun n => n.fitsWord = true
  | _, _, .blank => by simp
  | _, _, .value typed => by simpa using typed.fitsWord
  | _, _, .var _ => by simp

end

theorem Declares.fitsWord {Γ Δ : Context} {d : Decl} (h : Declares Γ d Δ) :
    d.All fun n => n.fitsWord = true := by
  induction h with
  | const typed => simpa using typed.fitsWord
  | var | nil => simp
  | cons first rest ih ih' =>
    rw [Decl.all_seq] at ih' ⊢
    exact ⟨rfl, List.forall_mem_cons.2 ⟨ih, ih'.2⟩⟩

/-- The integer literals of a well-typed command fit a word. -/
theorem WellTyped.fitsWord {Γ : Context} {c : Cmd} (h : WellTyped Γ c) :
    c.All fun n => n.fitsWord = true := by
  induction h with
  | skip => simp
  | assign found typed => simpa using typed.fitsWord
  | call found passed => simpa using passed.fitsWord
  | seq all ih => exact Cmd.all_seq.2 ⟨rfl, ih⟩
  | block typed ih => simpa using ih
  | ifElse typed then_ else_ ih ih' => simpa using ⟨typed.fitsWord, ih, ih'⟩
  | ifEither typed typed' then_ else_ ih ih' =>
    simpa using ⟨typed.fitsWord, typed'.fitsWord, ih, ih'⟩
  | whileDo typed body ih => simpa using ⟨typed.fitsWord, ih⟩
  | letIn declared distinct typed ih => simpa using ⟨declared.fitsWord, ih⟩

end Typing

end Values

namespace Generate

open Machine
open Check (meaningIn)

section Loads

variable {R : Node → Prop}

/-- The number fits a word, or it is the code of a character that is written in the program. -/
def Written (R : Node → Prop) (d : Int) : Prop :=
  0 ≤ d ∧ (d ≤ maxInt ∨ ∃ (lit : Literal) (c : Nat), R (.charLit lit) ∧
    lit.charValue? = some c ∧ d = c)

theorem written_of_le {d : Int} (nonneg : 0 ≤ d) (le : d ≤ maxInt) : Written R d :=
  ⟨nonneg, .inl le⟩

/-- All numbers that the code loads are written in the program or fit a word. -/
def Loads (R : Node → Prop) (is : List Instruction) : Prop :=
  ∀ i ∈ is, i.op = .loadl → Written R i.d

@[simp] theorem loads_nil : Loads R [] := by simp [Loads]

@[simp] theorem loads_cons {i : Instruction} {is : List Instruction} :
    Loads R (i :: is) ↔ (i.op = .loadl → Written R i.d) ∧ Loads R is := by
  simp [Loads]

@[simp] theorem loads_append {is js : List Instruction} :
    Loads R (is ++ js) ↔ Loads R is ∧ Loads R js := by
  simp [Loads, or_imp, forall_and]

@[simp] theorem loads_loadNumber {d : Int} : Loads R [loadNumber d] ↔ Written R d := by
  simp [loadNumber]

@[simp] theorem loads_sizeOperand (prim : Primitive) (t : Ty) : Loads R (sizeOperand prim t) := by
  unfold sizeOperand
  split
  · cases t <;> exact loads_loadNumber.2 (written_of_le (by decide) (by decide))
  · exact loads_nil

@[simp] theorem loads_drop (words : Nat) : Loads R (drop words) := by
  unfold drop
  split <;> simp

theorem written_of_constant {L : List Entity} {id name : String} {t : Ty} {d : Int}
    (found : meaningIn L id = some (.builtin (.const name t d))) : Written R d := by
  obtain ⟨member, -⟩ := Builtin.mem_of_named? (Check.named?_of_meaningIn found)
  simp only [Builtin.all, List.mem_cons, List.not_mem_nil, reduceCtorEq, Builtin.const.injEq,
    false_or, or_false] at member
  rcases member with ⟨-, -, rfl⟩ | ⟨-, -, rfl⟩
  · exact written_of_le (by decide) (by decide)
  · exact written_of_le (by decide) (by decide)

/-- Where the numbers of code come from: the integer literals among the nodes fit a word, and the
values of entities that are known while compiling do so too, or are written there. -/
structure Sources (R : Node → Prop) (L : List Entity) : Prop where
  ints : ∀ lit d, R (.intLit lit) → Text.int64? lit.spelling = some d → 0 ≤ d ∧ d ≤ maxInt
  known : ∀ e ∈ L, ∀ d, e.IsKnown d → Written R d

theorem Sources.cons {L : List Entity} (sources : Sources R L) {e : Entity}
    (known : ∀ d, e.IsKnown d → Written R d) : Sources R (e :: L) :=
  ⟨sources.ints, List.forall_mem_cons.2 ⟨known, sources.known⟩⟩

variable {L M : List Entity} {is : List Instruction}

mutual

theorem ExprCode.loads (sources : Sources R L) : ∀ {x : Expr} {t : Ty}
    {is : List Instruction}, ExprCode L x t is → x.All (Node.LiteralIn R) → Loads R is
  | _, _, _, .int value, all => by
    obtain ⟨nonneg, le⟩ := sources.ints _ _ (Expr.all_int.1 all).2 value
    exact loads_loadNumber.2 (written_of_le nonneg le)
  | _, _, _, .char value, all =>
    loads_loadNumber.2 ⟨Int.natCast_nonneg _, .inr ⟨_, _, (Expr.all_char.1 all).2, value, rfl⟩⟩
  | _, _, _, .known found _ value, _ =>
    loads_loadNumber.2 (sources.known _ (Check.mem_of_meaningIn found).1 _ value)
  | _, _, _, .constant found, _ => loads_loadNumber.2 (written_of_constant found)
  | _, _, _, .held _ _ _, _ => by simp [loadWord]
  | _, _, _, .unary _ inner, all => by
    simp [inner.loads sources (Expr.all_unary.1 all).2.2, callPrimitive]
  | _, _, _, .binary _ _ first second, all => by
    obtain ⟨-, left, -, right⟩ := Expr.all_binary.1 all
    simp [first.loads sources left, second.loads sources right, callPrimitive]
  | _, _, _, .call _ _ passed, all => by
    simp [passed.loads sources (Expr.all_call.1 all).2.2, callPrimitive]

theorem ArgCode.loads (sources : Sources R L) : ∀ {a : Arg} {params : List Formal}
    {is : List Instruction}, ArgCode L a params is → a.All (Node.LiteralIn R) → Loads R is
  | _, _, _, .blank, _ => loads_nil
  | _, _, _, .value inner, all => inner.loads sources (Arg.all_value.1 all).2
  | _, _, _, .var _ _ _ _, _ => by simp [loadAddress]

end

/-- A constant whose value is known keeps what code would have loaded. -/
theorem DeclCode.loads {n m : Nat} {d : Decl} (h : DeclCode L n d M m is) (sources : Sources R L)
    (all : d.All (Node.LiteralIn R)) : Loads R is ∧ Sources R M := by
  induction h with
  | known value name kind typed known =>
    refine ⟨loads_nil, sources.cons fun d known' => ?_⟩
    obtain rfl := known.unique known'
    exact loads_loadNumber.1 (value.loads sources (Decl.all_const.1 all).2.2)
  | const value name kind typed held =>
    exact ⟨value.loads sources (Decl.all_const.1 all).2.2,
      sources.cons fun d known => absurd held known.not_isHeld⟩
  | var type name kind typed held =>
    exact ⟨by simp [reserveWord], sources.cons fun d known => absurd held known.not_isHeld⟩
  | nil => exact ⟨loads_nil, sources⟩
  | cons first rest ih ih' =>
    obtain ⟨here, behind⟩ := List.forall_mem_cons.1 (Decl.all_seq.1 all).2
    obtain ⟨loads, sources⟩ := ih sources here
    obtain ⟨loads', sources⟩ := ih' sources (Decl.all_seq.2 ⟨trivial, behind⟩)
    exact ⟨loads_append.2 ⟨loads, loads'⟩, sources⟩

/-- The numbers that the code of a command loads. -/
theorem CmdCode.loads {n base : Nat} {c : Cmd} (h : CmdCode L n base c is)
    (sources : Sources R L) (all : c.All (Node.LiteralIn R)) : Loads R is := by
  induction h with
  | skip | seqNil => exact loads_nil
  | assign found typed kind held value =>
    simp [value.loads sources (Cmd.all_assign.1 all).2.2, storeWord]
  | call found passed => simp [passed.loads sources (Cmd.all_call.1 all).2.2, callPrimitive]
  | seqCons first rest ih ih' =>
    obtain ⟨here, behind⟩ := List.forall_mem_cons.1 (Cmd.all_seq.1 all).2
    exact loads_append.2 ⟨ih sources here, ih' sources (Cmd.all_seq.2 ⟨trivial, behind⟩)⟩
  | block inner ih => exact ih sources (Cmd.all_block.1 all).2
  | ifElse test yesHere then_ noHere else_ ih ih' =>
    obtain ⟨-, cond, yes, no⟩ := Cmd.all_ifElse.1 all
    simp [test.loads sources cond, ih sources yes, ih' sources no, jump, jumpIf]
  | ifEither test test' yesHere then_ noHere else_ ih ih' =>
    obtain ⟨-, cond, alt, yes, no⟩ := Cmd.all_ifEither.1 all
    simp [test.loads sources cond, test'.loads sources alt, ih sources yes, ih' sources no, jump,
      jumpIf]
  | whileDo test bodyHere inner ih =>
    obtain ⟨-, cond, body⟩ := Cmd.all_whileDo.1 all
    simp [test.loads sources cond, ih sources body, jump, jumpIf]
  | letIn declared inner ih =>
    obtain ⟨-, decl, body⟩ := Cmd.all_letIn.1 all
    obtain ⟨entry, sources⟩ := declared.loads sources decl
    simp [entry, ih sources body]

end Loads

end Generate

namespace Compilation

variable {file : String} {input : Input} {settings : Settings} {c : Compilation}

/-- What a node of the program of a text stands for is a token of the text. -/
theorem Quiet.mem_tokens {p : Program} (quiet : Quiet file input settings c p) {n : Node}
    {t : Token} (member : n ∈ p.nodes) (stands : n.terminal? = some t) : t ∈ c.tokens := by
  have syntactic := quiet.syntactic
  rw [quiet.parsed] at member
  rw [quiet.tokens] at syntactic member ⊢
  exact Parser.mem_tokens_of_mem_nodes quiet.lexical syntactic member stands

/-- The integer literals of a text with which nothing is wrong fit a word. -/
theorem Quiet.sources {p : Program} (quiet : Quiet file input settings c p) :
    Generate.Sources (fun n => n ∈ p.nodes) [] := by
  refine ⟨?_, by simp⟩
  intro lit d member value
  refine ⟨?_, ?_⟩
  · have found := quiet.mem_tokens member rfl
    rw [quiet.tokens] at found
    obtain ⟨s, scanned, token⟩ := List.mem_map.1 found
    have digits := Scanner.scan_digits _ s scanned (by rw [token])
    rw [token] at digits
    exact Text.int64?_nonneg digits value
  · have typed := (Check.reports_program_eq_nil_iff quiet.intact.complete 0).1 quiet.semantic
    have fits : p.All fun n => n.fitsWord = true := Program.all_iff.2 ⟨rfl, typed.fitsWord⟩
    obtain ⟨v, small⟩ := Option.isSome_iff_exists.1 (fits _ member)
    obtain ⟨value', le⟩ := Check.intValue?_eq_some_iff.1 small
    rw [value] at value'
    cases value'
    exact le

/-- The numbers in the code of a text that is compiled without diagnostics. What is loaded fits a
word or is the code of a character literal of the text, and that may be any code point. -/
theorem loads_fit (ran : run file input settings .generate = .ok c) (silent : c.diagnostics = []) :
    ∃ code, c.code = some code ∧ ∀ i ∈ code, i.op = .loadl →
      0 ≤ i.d ∧ i.d ≤ 0x10FFFF ∧
      (i.d ≤ Machine.maxInt ∨ ∃ t ∈ c.tokens, t.kind = .character ∧
        ∃ n : Nat, (Literal.mk t.pos t.spelling).charValue? = some n ∧ i.d = n) := by
  obtain ⟨p, quiet⟩ := exists_quiet ran silent
  obtain ⟨code, compiled, made⟩ := quiet.generated
  have typed := (Check.reports_program_eq_nil_iff quiet.intact.complete 0).1 quiet.semantic
  obtain ⟨is, made', rule⟩ := Program.exists_code_of_wellTyped quiet.intact typed 0
  rw [made] at made'
  cases made'
  refine ⟨_, compiled, ?_⟩
  have literals : p.All (Node.LiteralIn fun n => n ∈ p.nodes) := fun n member =>
    Node.literalIn member
  have loads := rule.loads quiet.sources (Program.all_iff.1 literals).2
  intro i member load
  obtain ⟨nonneg, small | ⟨lit, n, node, value, code⟩⟩ :=
    (Generate.loads_append.2 ⟨loads, by simp⟩ : Generate.Loads _ (is ++ [{ op := .halt }])) i
      member load
  · refine ⟨nonneg, Int.le_trans small (by decide), .inl small⟩
  · have le := Literal.charValue?_le value
    exact ⟨nonneg, by omega, .inr ⟨_, quiet.mem_tokens node rfl, rfl, n, value, code⟩⟩

/-- The text `let const n ~ 32767 in { putint(n); put('😀') }`. -/
def faceText : Input :=
  ⟨"let const n ~ 32767 in \x7b putint(n); put('😀') \x7d".toUTF8.toList, none, none⟩

/-- The value of the constant is the largest that fits a word, and the code of the character is
larger. -/
theorem faceText_loads : ∃ c code, run "" faceText {} .generate = .ok c ∧ c.diagnostics = [] ∧
    c.code = some code ∧ (code.filter (·.op == .loadl)).map (·.d) = [32767, 128512] ∧
    ∀ i ∈ code, i.op = .loadl → 0 ≤ i.d ∧ i.d ≤ 0x10FFFF ∧
      (i.d ≤ Machine.maxInt ∨ ∃ t ∈ c.tokens, t.kind = .character ∧
        ∃ n : Nat, (Literal.mk t.pos t.spelling).charValue? = some n ∧ i.d = n) := by
  have known : ((run "" faceText {} .generate).toOption.map fun c =>
      (c.diagnostics, c.code.map fun code => (code.filter (·.op == .loadl)).map (·.d))) =
      some ([], some [32767, 128512]) := by decide +kernel
  obtain ⟨c, ran, known⟩ := exists_run_of_map known
  simp only [Prod.mk.injEq] at known
  obtain ⟨silent, numbers⟩ := known
  obtain ⟨code, made, fit⟩ := loads_fit ran silent
  rw [made, Option.map_some, Option.some.injEq] at numbers
  exact ⟨c, code, ran, silent, made, numbers, fit⟩

/-- The code of the text `put('😀')`, about which nothing is reported, loads a number that fits no
word. -/
theorem exists_load_above_maxInt : ∃ c code, run "" ⟨"put('😀')".toUTF8.toList, none, none⟩ {}
      .generate = .ok c ∧ c.diagnostics = [] ∧ c.code = some code ∧
    ∃ i ∈ code, i.op = .loadl ∧ Machine.maxInt < i.d := by
  have known : ((run "" ⟨"put('😀')".toUTF8.toList, none, none⟩ {} .generate).toOption.map
      fun c => (c.diagnostics, c.code.bind (·[0]?))) =
      some ([], some (Generate.loadNumber 128512)) := by decide +kernel
  obtain ⟨c, ran, known⟩ := exists_run_of_map known
  simp only [Prod.mk.injEq] at known
  obtain ⟨silent, first⟩ := known
  obtain ⟨code, made, first⟩ := Option.bind_eq_some_iff.1 first
  exact ⟨c, code, ran, silent, made, _, List.mem_of_getElem? first, rfl, by decide⟩

end Compilation

end TriangleTam
