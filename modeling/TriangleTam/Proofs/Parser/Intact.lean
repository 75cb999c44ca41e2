import TriangleTam.Proofs.Parser.Step
import TriangleTam.Proofs.Token.Scanner
import TriangleTam.Proofs.Tree.Nodes

/-!
# Trees of parsed programs

Error nodes and missing names come only from places where something was reported, and character
literals only from tokens that are ones. So the tree of a program about which nothing was reported
is intact, and the character literals of every tree are ones. Both are cases of one statement, in
which `E` stands for error nodes being allowed.
-/

namespace TriangleTam

/-- An error node only if such nodes are allowed, and a character literal only if it is one. -/
@[simp] def Node.Fine (E : Prop) : Node → Prop
  | charLit lit => lit.charValue?.isSome = true
  | n => n.isError = true → E

theorem Node.isIntact_of_fine {n : Node} (fine : n.Fine False) : n.isIntact = true := by
  unfold Node.Fine at fine
  split at fine
  · exact fine
  · unfold Node.isIntact
    split
    · next h => exact absurd rfl (h _)
    · simpa using fine

namespace Parser

variable {cfg : Config} {E : Prop}

section Combine

variable {α β : Type} {Q : α → Prop} {R : β → Prop} {ts ts₁ ts₂ : List Token}
  {log log₁ log₂ : Log} {a : α} {b : β} {t : Token}

theorem yields_of_suffix (suffix : ts₁ <:+ ts) (quiet : log₁ = [] → log = [])
    (fine : log₁ = [] ∨ E → Q a) : Yields E (fun _ v => Q v) ts log a ts₁ log₁ := by
  refine ⟨suffix, quiet, fun allowed => ?_⟩
  obtain ⟨used, rfl⟩ := suffix
  exact ⟨used, rfl, fine allowed⟩

theorem Yields.value (h : Yields E (fun _ v => Q v) ts log a ts₁ log₁) (allowed : log₁ = [] ∨ E) :
    Q a := by
  obtain ⟨-, -, fine⟩ := h.fine allowed
  exact fine

theorem Yields.and (first : Yields E (fun _ v => Q v) ts log a ts₁ log₁)
    (second : Yields E (fun _ v => R v) ts₁ log₁ b ts₂ log₂) :
    Yields E (fun _ v => Q v.1 ∧ R v.2) ts log (a, b) ts₂ log₂ := by
  refine (first.trans second).imp ?_
  rintro _ ⟨-, -, -, fine⟩
  exact fine

theorem Yields.behind (h : Yields E (fun _ v => Q v) ts log a ts₁ log₁) :
    Yields E (fun _ v => Q v) (t :: ts) log a ts₁ log₁ := by
  refine h.cons.imp ?_
  rintro _ ⟨-, -, fine⟩
  exact fine

end Combine

section Tokens

variable {ts : List Token}

theorem report_yields_of_proper (limit : 0 < cfg.limit) (proper : ∀ t ∈ ts, t.Proper E)
    (e : ParseError) (log : Log) :
    Yields E (fun _ _ => E) ts log () (report cfg e ts log).rest (report cfg e ts log).log :=
  report_yields limit (fun t member => (proper t member).wellFormed) e log

theorem accept_yields (limit : 0 < cfg.limit) (kind : Kind) (proper : ∀ t ∈ ts, t.Proper E)
    (log : Log) :
    Yields E (fun _ _ => True) ts log () (accept cfg kind ts log).rest
      (accept cfg kind ts log).log := by
  have missing : ∀ ts : List Token, (∀ t ∈ ts, t.Proper E) →
      Yields E (fun _ _ => True) ts log () (reportMissing cfg kind ts log).rest
        (reportMissing cfg kind ts log).log := by
    intro ts proper
    unfold reportMissing
    split
    · exact yields_here trivial
    · exact (report_yields_of_proper limit proper _ log).imp fun _ _ => trivial
  cases ts with
  | nil => exact missing [] proper
  | cons t ts =>
    rw [accept]
    split
    · exact (yields_here trivial).behind
    · exact missing (t :: ts) proper

theorem ident_fine {t : Token} (proper : t.Proper E) (kind : t.kind = .identifier) :
    (Node.ident ⟨t.pos, t.spelling, none⟩).Fine E := by
  have named := proper.named kind
  simpa using fun h => absurd h named

theorem ident_yields (limit : 0 < cfg.limit) (proper : ∀ t ∈ ts, t.Proper E) (log : Log) :
    Yields E (fun _ id => (Node.ident id).Fine E) ts log (ident cfg ts log).value
      (ident cfg ts log).rest (ident cfg ts log).log := by
  have missing : ∀ ts : List Token, (∀ t ∈ ts, t.Proper E) →
      Yields E (fun _ id => (Node.ident id).Fine E) ts log (missingIdent cfg ts log).value
        (missingIdent cfg ts log).rest (missingIdent cfg ts log).log := by
    intro ts proper
    exact (report_yields_of_proper limit proper _ log).imp fun _ allowed _ => allowed
  cases ts with
  | nil => exact missing [] proper
  | cons t ts =>
    rw [ident]
    split
    · next kind =>
      refine (yields_here ?_).behind
      exact ident_fine (proper t (by simp)) kind
    · exact missing (t :: ts) proper

end Tokens

section Expressions

theorem missingExpr_yields (limit : 0 < cfg.limit) {ts : List Token}
    (proper : ∀ t ∈ ts, t.Proper E) (log : Log) :
    Yields E (fun _ => Expr.All (Node.Fine E)) ts log (missingExpr cfg ts log).value
      (missingExpr cfg ts log).rest (missingExpr cfg ts log).log :=
  (report_yields_of_proper limit proper _ log).imp fun _ allowed => by
    simpa [missingExpr] using allowed

theorem missingArg_yields (limit : 0 < cfg.limit) {ts : List Token}
    (proper : ∀ t ∈ ts, t.Proper E) (log : Log) :
    Yields E (fun _ => Arg.All (Node.Fine E)) ts log (missingArg cfg ts log).value
      (missingArg cfg ts log).rest (missingArg cfg ts log).log :=
  (report_yields_of_proper limit proper _ log).imp fun _ allowed => by
    simpa [missingArg] using allowed

theorem varArg_yields (limit : 0 < cfg.limit) {ts : List Token} (pos : Pos)
    (proper : ∀ t ∈ ts, t.Proper E) (log : Log) :
    Yields E (fun _ => Arg.All (Node.Fine E)) ts log (varArg cfg pos ts log).value
      (varArg cfg pos ts log).rest (varArg cfg pos ts log).log :=
  (ident_yields limit proper log).imp fun _ fine => by simpa [varArg] using fine

-- The recursion is that of the parser, with the same measures.
mutual

theorem expr_yields (limit : 0 < cfg.limit) (ts : List Token) (log : Log)
    (proper : ∀ t ∈ ts, t.Proper E) :
    Yields E (fun _ => Expr.All (Node.Fine E)) ts log (expr cfg ts log).value (expr cfg ts log).rest
      (expr cfg ts log).log := by
  have le := (primary cfg ts log).le
  have first := primary_yields limit ts log proper
  have rest := exprTail_yields limit (primary cfg ts log).value (primary cfg ts log).rest
    (primary cfg ts log).log (first.forall_mem proper)
  rw [expr]
  exact (first.and rest).imp fun _ fine => fine.2 fine.1
termination_by 5 * ts.length + 2
decreasing_by all_goals omega

theorem exprTail_yields (limit : 0 < cfg.limit) (x : Expr) : ∀ (ts : List Token) (log : Log),
    (∀ t ∈ ts, t.Proper E) →
      Yields E (fun _ r => x.All (Node.Fine E) → r.All (Node.Fine E)) ts log
        (exprTail cfg x ts log).value (exprTail cfg x ts log).rest (exprTail cfg x ts log).log
  | [], log, _ => by
    rw [exprTail]
    exact yields_here fun fine => fine
  | t :: ts, log, proper => by
    rw [exprTail]
    split
    · have le := (primary cfg ts log).le
      have proper : ∀ t ∈ ts, t.Proper E := fun t member => proper t (by simp [member])
      have first := primary_yields limit ts log proper
      have rest := exprTail_yields limit
        (.binary x.pos none x ⟨t.pos, t.spelling, none⟩ (primary cfg ts log).value)
        (primary cfg ts log).rest (primary cfg ts log).log (first.forall_mem proper)
      refine ((first.and rest).imp fun _ fine fineX => fine.2 ?_).behind
      simpa using ⟨fineX, fine.1⟩
    · exact yields_here fun fine => fine
termination_by ts => 5 * ts.length + 1
decreasing_by
  all_goals
    simp only [List.length_cons]
    omega

theorem primary_yields (limit : 0 < cfg.limit) : ∀ (ts : List Token) (log : Log),
    (∀ t ∈ ts, t.Proper E) →
      Yields E (fun _ => Expr.All (Node.Fine E)) ts log (primary cfg ts log).value
        (primary cfg ts log).rest (primary cfg ts log).log
  | [], log, proper => by
    rw [primary]
    exact missingExpr_yields limit proper log
  | t :: ts, log, proper => by
    have here := proper t (by simp)
    have later : ∀ t ∈ ts, t.Proper E := fun t member => proper t (by simp [member])
    rw [primary]
    split
    · exact (yields_here (by simp)).behind
    · next kind => exact (yields_here (by simpa using here.character kind)).behind
    · next kind => exact (nameOrCall_yields limit t ts log (ident_fine here kind) later).behind
    · exact ((primary_yields limit ts log later).imp fun _ fine => by simpa using fine).behind
    · have inner := expr_yields limit ts log later
      have close := accept_yields limit (.mark .rparen) (inner.forall_mem later)
        (expr cfg ts log).log
      exact ((inner.and close).imp fun _ fine => fine.1).behind
    · next kind => exact (yields_here (by simpa using here.wellFormed kind)).behind
    · exact missingExpr_yields limit proper log
termination_by ts => 5 * ts.length
decreasing_by
  all_goals
    simp only [List.length_cons]
    omega

theorem nameOrCall_yields (limit : 0 < cfg.limit) (t : Token) : ∀ (ts : List Token) (log : Log),
    (Node.ident ⟨t.pos, t.spelling, none⟩).Fine E → (∀ t ∈ ts, t.Proper E) →
      Yields E (fun _ => Expr.All (Node.Fine E)) ts log (nameOrCall cfg t ts log).value
        (nameOrCall cfg t ts log).rest (nameOrCall cfg t ts log).log
  | [], log, name, _ => by
    rw [nameOrCall]
    exact yields_here (by simpa using name)
  | p :: ts, log, name, proper => by
    rw [nameOrCall]
    split
    · have param := argument_yields limit ts log fun t member => proper t (by simp [member])
      exact (param.imp fun _ fine => by simpa using ⟨by simpa using name, fine⟩).behind
    · exact yields_here (by simpa using name)
termination_by ts => 5 * ts.length + 1
decreasing_by
  all_goals
    simp only [List.length_cons]
    omega

theorem argument_yields (limit : 0 < cfg.limit) (ts : List Token) (log : Log)
    (proper : ∀ t ∈ ts, t.Proper E) :
    Yields E (fun _ => Arg.All (Node.Fine E)) ts log (argument cfg ts log).value
      (argument cfg ts log).rest (argument cfg ts log).log := by
  have first := param_yields limit ts log proper
  have close := accept_yields limit (.mark .rparen) (first.forall_mem proper) (param cfg ts log).log
  rw [argument]
  exact (first.and close).imp fun _ fine => fine.1
termination_by 5 * ts.length + 4
decreasing_by all_goals omega

theorem param_yields (limit : 0 < cfg.limit) : ∀ (ts : List Token) (log : Log),
    (∀ t ∈ ts, t.Proper E) →
      Yields E (fun _ => Arg.All (Node.Fine E)) ts log (param cfg ts log).value
        (param cfg ts log).rest (param cfg ts log).log
  | [], log, proper => by
    rw [param]
    exact missingArg_yields limit proper log
  | t :: ts, log, proper => by
    have later : ∀ t ∈ ts, t.Proper E := fun t member => proper t (by simp [member])
    rw [param]
    split
    · exact (expr_yields limit (t :: ts) log proper).imp fun _ fine => by simpa using fine
    · split
      · exact (varArg_yields limit t.pos later log).behind
      · split
        · exact yields_here (by simp)
        · exact missingArg_yields limit proper log
termination_by ts => 5 * ts.length + 3
decreasing_by all_goals omega

end

end Expressions

section Declarations

theorem missingDecl_yields (limit : 0 < cfg.limit) {ts : List Token}
    (proper : ∀ t ∈ ts, t.Proper E) (log : Log) :
    Yields E (fun _ => Decl.All (Node.Fine E)) ts log (missingDecl cfg ts log).value
      (missingDecl cfg ts log).rest (missingDecl cfg ts log).log :=
  (report_yields_of_proper limit proper _ log).imp fun _ allowed => by
    simpa [missingDecl] using allowed

theorem constDecl_yields (limit : 0 < cfg.limit) {ts : List Token} (pos : Pos)
    (proper : ∀ t ∈ ts, t.Proper E) (log : Log) :
    Yields E (fun _ => Decl.All (Node.Fine E)) ts log (constDecl cfg pos ts log).value
      (constDecl cfg pos ts log).rest (constDecl cfg pos ts log).log := by
  have name := ident_yields limit proper log
  have is := name.and (accept_yields limit (.mark .is) (name.forall_mem proper) _)
  have value := is.and (expr_yields limit _ _ (is.forall_mem proper))
  refine value.imp fun _ fine => ?_
  simpa [constDecl] using ⟨by simpa using fine.1.1, fine.2⟩

theorem varDecl_yields (limit : 0 < cfg.limit) {ts : List Token} (pos : Pos)
    (proper : ∀ t ∈ ts, t.Proper E) (log : Log) :
    Yields E (fun _ => Decl.All (Node.Fine E)) ts log (varDecl cfg pos ts log).value
      (varDecl cfg pos ts log).rest (varDecl cfg pos ts log).log := by
  have name := ident_yields limit proper log
  have colon := name.and (accept_yields limit (.mark .colon) (name.forall_mem proper) _)
  have typeName := colon.and (ident_yields limit (colon.forall_mem proper) _)
  refine typeName.imp fun _ fine => ?_
  simpa [varDecl] using ⟨by simpa using fine.1.1, by simpa using fine.2⟩

theorem singleDecl_yields (limit : 0 < cfg.limit) {ts : List Token}
    (proper : ∀ t ∈ ts, t.Proper E) (log : Log) :
    Yields E (fun _ => Decl.All (Node.Fine E)) ts log (singleDecl cfg ts log).value
      (singleDecl cfg ts log).rest (singleDecl cfg ts log).log := by
  cases ts with
  | nil => exact missingDecl_yields limit proper log
  | cons t ts =>
    have later : ∀ t ∈ ts, t.Proper E := fun t member => proper t (by simp [member])
    rw [singleDecl]
    split
    · exact (constDecl_yields limit t.pos later log).behind
    · split
      · exact (varDecl_yields limit t.pos later log).behind
      · exact missingDecl_yields limit proper log

theorem declTail_yields (limit : 0 < cfg.limit) : ∀ (ts : List Token) (log : Log),
    (∀ t ∈ ts, t.Proper E) →
      Yields E (fun _ ds => ∀ d ∈ ds, d.All (Node.Fine E)) ts log (declTail cfg ts log).value
        (declTail cfg ts log).rest (declTail cfg ts log).log
  | [], log, _ => by
    rw [declTail]
    exact yields_here (by simp)
  | t :: ts, log, proper => by
    rw [declTail]
    split
    · have le := (singleDecl cfg ts log).le
      have later : ∀ t ∈ ts, t.Proper E := fun t member => proper t (by simp [member])
      have first := singleDecl_yields limit later log
      have rest := declTail_yields limit (singleDecl cfg ts log).rest (singleDecl cfg ts log).log
        (first.forall_mem later)
      exact ((first.and rest).imp fun _ fine => by simpa using fine).behind
    · exact yields_here (by simp)
termination_by ts => ts.length
decreasing_by
  all_goals
    simp only [List.length_cons]
    omega

theorem joinDecls_fine (pos : Pos) {d : Decl} {ds : List Decl} (first : d.All (Node.Fine E))
    (rest : ∀ d ∈ ds, d.All (Node.Fine E)) : (joinDecls pos d ds).All (Node.Fine E) := by
  cases ds with
  | nil => exact first
  | cons e ds => simpa [joinDecls] using ⟨first, by simpa using rest⟩

theorem declaration_yields (limit : 0 < cfg.limit) {ts : List Token}
    (proper : ∀ t ∈ ts, t.Proper E) (log : Log) :
    Yields E (fun _ => Decl.All (Node.Fine E)) ts log (declaration cfg ts log).value
      (declaration cfg ts log).rest (declaration cfg ts log).log := by
  have first := singleDecl_yields limit proper log
  have rest := declTail_yields limit _ (singleDecl cfg ts log).log (first.forall_mem proper)
  exact (first.and rest).imp fun _ fine => joinDecls_fine _ fine.1 fine.2

end Declarations

section Commands

theorem badCmd_yields (limit : 0 < cfg.limit) {ts : List Token} (e : ParseError)
    (proper : ∀ t ∈ ts, t.Proper E) (log : Log) :
    Yields E (fun _ => Cmd.All (Node.Fine E)) ts log (badCmd cfg e ts log).value
      (badCmd cfg e ts log).rest (badCmd cfg e ts log).log := by
  have reported := report_yields_of_proper limit proper e log
  refine yields_of_suffix ((List.dropWhile_suffix _).trans reported.suffix) reported.quiet ?_
  intro allowed
  simpa [badCmd] using reported.value allowed

theorem assignOrCall_yields (limit : 0 < cfg.limit) {t : Token} {ts : List Token}
    (name : (Node.ident ⟨t.pos, t.spelling, none⟩).Fine E) (proper : ∀ t ∈ ts, t.Proper E)
    (log : Log) :
    Yields E (fun _ => Cmd.All (Node.Fine E)) ts log (assignOrCall cfg t ts log).value
      (assignOrCall cfg t ts log).rest (assignOrCall cfg t ts log).log := by
  cases ts with
  | nil => exact badCmd_yields limit _ proper log
  | cons p ts =>
    have later : ∀ t ∈ ts, t.Proper E := fun t member => proper t (by simp [member])
    rw [assignOrCall]
    split
    · refine ((expr_yields limit ts log later).imp fun _ fine => ?_).behind
      simpa using ⟨by simpa using name, fine⟩
    · split
      · refine ((argument_yields limit ts log later).imp fun _ fine => ?_).behind
        simpa using ⟨by simpa using name, fine⟩
      · exact badCmd_yields limit _ proper log

theorem joinCmds_fine (pos : Pos) {c : Cmd} {cs : List Cmd} (first : c.All (Node.Fine E))
    (rest : ∀ c ∈ cs, c.All (Node.Fine E)) : (joinCmds pos c cs).All (Node.Fine E) := by
  cases cs with
  | nil => exact first
  | cons d cs => simpa [joinCmds] using ⟨first, by simpa using rest⟩

mutual

theorem command_yields (limit : 0 < cfg.limit) (ts : List Token) (log : Log)
    (proper : ∀ t ∈ ts, t.Proper E) :
    Yields E (fun _ => Cmd.All (Node.Fine E)) ts log (command cfg ts log).value
      (command cfg ts log).rest (command cfg ts log).log := by
  have le := (single cfg ts log).le
  have first := single_yields limit ts log proper
  have rest := cmdTail_yields limit (single cfg ts log).rest (single cfg ts log).log
    (first.forall_mem proper)
  rw [command]
  exact (first.and rest).imp fun _ fine => joinCmds_fine _ fine.1 fine.2
termination_by 4 * ts.length + 2
decreasing_by all_goals omega

theorem cmdTail_yields (limit : 0 < cfg.limit) : ∀ (ts : List Token) (log : Log),
    (∀ t ∈ ts, t.Proper E) →
      Yields E (fun _ cs => ∀ c ∈ cs, c.All (Node.Fine E)) ts log (cmdTail cfg ts log).value
        (cmdTail cfg ts log).rest (cmdTail cfg ts log).log
  | [], log, _ => by
    rw [cmdTail]
    exact yields_here (by simp)
  | t :: ts, log, proper => by
    rw [cmdTail]
    split
    · have le := (single cfg ts log).le
      have later : ∀ t ∈ ts, t.Proper E := fun t member => proper t (by simp [member])
      have first := single_yields limit ts log later
      have rest := cmdTail_yields limit (single cfg ts log).rest (single cfg ts log).log
        (first.forall_mem later)
      exact ((first.and rest).imp fun _ fine => by simpa using fine).behind
    · exact yields_here (by simp)
termination_by ts => 4 * ts.length + 1
decreasing_by
  all_goals
    simp only [List.length_cons]
    omega

theorem single_yields (limit : 0 < cfg.limit) : ∀ (ts : List Token) (log : Log),
    (∀ t ∈ ts, t.Proper E) →
      Yields E (fun _ => Cmd.All (Node.Fine E)) ts log (single cfg ts log).value
        (single cfg ts log).rest (single cfg ts log).log
  | [], log, _ => by
    rw [single]
    exact yields_here (by simp)
  | t :: ts, log, proper => by
    rw [single_cons]
    split
    · exact (started_yields limit t ts log (proper t (by simp))
        fun t member => proper t (by simp [member])).behind
    · split
      · exact yields_here (by simp)
      · exact badCmd_yields limit _ proper log
termination_by ts => 4 * ts.length
decreasing_by
  all_goals
    simp only [List.length_cons]
    omega

theorem started_yields (limit : 0 < cfg.limit) (t : Token) (ts : List Token) (log : Log)
    (here : t.Proper E) (proper : ∀ t ∈ ts, t.Proper E) :
    Yields E (fun _ => Cmd.All (Node.Fine E)) ts log (started cfg t ts log).value
      (started cfg t ts log).rest (started cfg t ts log).log := by
  rw [started]
  split
  · next kind => exact assignOrCall_yields limit (ident_fine here kind) proper log
  · rw [blockCmd]
    have body := command_yields limit ts log proper
    have close := accept_yields limit (.mark .rbrace) (body.forall_mem proper)
      (command cfg ts log).log
    exact (body.and close).imp fun _ fine => by simpa using fine.1
  · rw [letCmd]
    have decl := declaration_yields limit proper log
    have word := decl.and (accept_yields limit (.keyword .in_) (decl.forall_mem proper) _)
    have le := word.length_le
    have body := word.and (single_yields limit _ _ (word.forall_mem proper))
    exact body.imp fun _ fine => by simpa using ⟨fine.1.1, fine.2⟩
  · rw [ifCmd]
    have cond := expr_yields limit ts log proper
    have le := cond.length_le
    have arms := cond.and (branches_yields limit _ _ (cond.forall_mem proper))
    exact arms.imp fun _ fine => by simpa using fine
  · rw [ifEitherCmd]
    have cond := expr_yields limit ts log proper
    have word := cond.and (accept_yields limit (.keyword .or) (cond.forall_mem proper) _)
    have alt := word.and (expr_yields limit _ _ (word.forall_mem proper))
    have le := alt.length_le
    have arms := alt.and (branches_yields limit _ _ (alt.forall_mem proper))
    exact arms.imp fun _ fine => by simpa using ⟨fine.1.1.1, fine.1.2, fine.2⟩
  · rw [whileCmd]
    have cond := expr_yields limit ts log proper
    have word := cond.and (accept_yields limit (.keyword .do_) (cond.forall_mem proper) _)
    have le := word.length_le
    have body := word.and (single_yields limit _ _ (word.forall_mem proper))
    exact body.imp fun _ fine => by simpa using ⟨fine.1.1, fine.2⟩
  · exact yields_here (by simp)
termination_by 4 * ts.length + 3
decreasing_by all_goals omega

theorem branches_yields (limit : 0 < cfg.limit) (ts : List Token) (log : Log)
    (proper : ∀ t ∈ ts, t.Proper E) :
    Yields E (fun _ v => v.1.All (Node.Fine E) ∧ v.2.All (Node.Fine E)) ts log
      (branches cfg ts log).value (branches cfg ts log).rest (branches cfg ts log).log := by
  have start := accept_yields limit (.keyword .then_) proper log
  have le₁ := start.length_le
  have yes := start.and (single_yields limit _ _ (start.forall_mem proper))
  have middle := yes.and (accept_yields limit (.keyword .else_) (yes.forall_mem proper) _)
  have le₂ := middle.length_le
  have no := middle.and (single_yields limit _ _ (middle.forall_mem proper))
  have close := no.and (accept_yields limit (.keyword .endif) (no.forall_mem proper) _)
  rw [branches]
  exact close.imp fun _ fine => ⟨fine.1.1.1.2, fine.1.2⟩
termination_by 4 * ts.length + 1
decreasing_by all_goals omega

end

end Commands

section Programs

/-- The commands of two commands, one after the other. -/
theorem exists_appendCmd (c next : Cmd) :
    ∃ pos cs ds, appendCmd c next = .seq pos (cs ++ ds) ∧ (c = .seq pos cs ∨ cs = [c]) ∧
      ((∃ q, next = .seq q ds) ∨ ds = [next]) := by
  cases next with
  | seq q ds =>
    cases c with
    | seq pos cs => exact ⟨pos, cs, ds, rfl, .inl rfl, .inl ⟨q, rfl⟩⟩
    | _ => exact ⟨_, [_], ds, rfl, .inr rfl, .inl ⟨q, rfl⟩⟩
  | _ =>
    cases c with
    | seq pos cs => exact ⟨pos, cs, [_], rfl, .inl rfl, .inr rfl⟩
    | _ => exact ⟨_, [_], [_], rfl, .inr rfl, .inr rfl⟩

theorem appendCmd_fine {c next : Cmd} (first : c.All (Node.Fine E))
    (rest : next.All (Node.Fine E)) : (appendCmd c next).All (Node.Fine E) := by
  obtain ⟨pos, cs, ds, eq, before, after⟩ := exists_appendCmd c next
  rw [eq]
  refine Cmd.all_seq.2 ⟨by simp, fun d member => ?_⟩
  rcases List.mem_append.1 member with member | member
  · rcases before with rfl | rfl
    · exact (Cmd.all_seq.1 first).2 d member
    · rw [List.mem_singleton.1 member]
      exact first
  · rcases after with ⟨q, rfl⟩ | rfl
    · exact (Cmd.all_seq.1 rest).2 d member
    · rw [List.mem_singleton.1 member]
      exact rest

theorem leftover_yields (limit : 0 < cfg.limit) (c : Cmd) : ∀ (ts : List Token) (log : Log),
    (∀ t ∈ ts, t.Proper E) →
      Yields E (fun _ d => c.All (Node.Fine E) → d.All (Node.Fine E)) ts log
        (leftover cfg c ts log).value (leftover cfg c ts log).rest (leftover cfg c ts log).log
  | [], log, _ => by
    rw [leftover]
    exact yields_here fun fine => fine
  | t :: ts, log, proper => by
    rw [leftover]
    split
    · exact yields_here fun fine => fine
    · dsimp only
      have stop := accept_yields limit .endOfText proper log
      split
      · exact yields_of_suffix List.nil_suffix stop.quiet fun _ fine => fine
      · next u us skipped =>
        have behind : u :: us <:+ t :: ts := by
          rw [← skipped]
          exact (List.dropWhile_suffix _).trans stop.suffix
        have le : us.length + 1 ≤ ts.length + 1 := behind.length_le
        have later : ∀ v ∈ u :: us, v.Proper E := fun v member => proper v (behind.subset member)
        have here : Yields E (fun _ _ => True) (t :: ts) log () (u :: us)
            (accept cfg .endOfText (t :: ts) log).log :=
          yields_of_suffix behind stop.quiet fun _ => trivial
        generalize (accept cfg .endOfText (t :: ts) log).log = found at here
        split
        · have later := (List.forall_mem_cons.1 later).2
          have next := command_yields limit us found later
          have shorter := next.length_le
          have rest := next.and (leftover_yields limit (appendCmd c (command cfg us found).value)
            _ _ (next.forall_mem later))
          have taken : Yields E (fun _ _ => True) (t :: ts) log () us found :=
            yields_of_suffix ((List.suffix_cons u us).trans behind) here.quiet fun _ => trivial
          exact (taken.and rest).imp
            fun _ fine fineC => fine.2.2 (appendCmd_fine fineC fine.2.1)
        · split
          · next starts =>
            have next := command_yields limit (u :: us) found later
            have shorter := Nat.lt_of_lt_of_le (command_length_lt cfg starts us found) le
            have rest := next.and (leftover_yields limit
              (appendCmd c (command cfg (u :: us) found).value) _ _ (next.forall_mem later))
            exact (here.and rest).imp
              fun _ fine fineC => fine.2.2 (appendCmd_fine fineC fine.2.1)
          · exact yields_of_suffix behind here.quiet fun _ fine => fine
termination_by ts => ts.length
decreasing_by
  all_goals
    simp only [List.length_cons]
    omega

theorem split_subset (tokens : List Token) : (split tokens).1 ⊆ tokens := by
  unfold split
  split
  · exact List.nil_subset _
  · split
    · exact List.dropLast_subset _
    · exact List.Subset.refl _

/-- In the tree of a program about which nothing is reported nothing is missing. -/
theorem parse_fine {tokens : List Token} (proper : ∀ t ∈ tokens, t.Proper E) (lenient : Bool)
    (wanted : Int) (allowed : (parse tokens lenient wanted).findings = [] ∨ E) :
    (parse tokens lenient wanted).program.All (Node.Fine E) := by
  have proper : ∀ t ∈ (split tokens).1, t.Proper E :=
    fun t member => proper t (split_subset tokens member)
  let cfg : Config := ⟨(split tokens).2, lenient, limitOf wanted⟩
  have limit : 0 < cfg.limit := limitOf_pos wanted
  have first := command_yields limit (split tokens).1 [] proper
  have all := first.and (leftover_yields limit (command cfg (split tokens).1 []).value _ _
    (first.forall_mem proper))
  have fine := all.value allowed
  exact Program.all_iff.2 ⟨by simp, fine.2 fine.1⟩

end Programs

end Parser

end TriangleTam
