import TriangleTam.Proofs.Grammar
import TriangleTam.Proofs.Parser.Step

/-!
# What the parser accepts

If a parser that reports missing tokens reports nothing, then the tokens it used are derived by the
grammar with the tree it made of them. Each part of the parser has such a statement, and they follow
the recursion of the parser.
-/

namespace TriangleTam.Parser

open Grammar

/-- Missing tokens are reported, and the parser goes on at least up to the first problem. -/
structure Config.Strict (cfg : Config) : Prop where
  lenient : cfg.lenient = false
  limit : 0 < cfg.limit

variable {cfg : Config}

section Tokens

variable {ts : List Token}

/-- A token alone. -/
theorem token_sound {α : Type} {Q : List Token → α → Prop} {t : Token} {a : α} (h : Q [t] a)
    (log : Log) : Yields False Q (t :: ts) log a ts log := by
  have here : Yields False (fun us _ => us = []) ts log () ts log := yields_here rfl
  refine here.cons.imp ?_
  rintro _ ⟨_, rfl, rfl⟩
  exact h

/-- Where a problem is reported, there is a report. -/
theorem report_sound (strict : cfg.Strict) (wellFormed : ∀ t ∈ ts, t.kind ≠ .malformed)
    (e : ParseError) (log : Log) :
    Yields False (fun _ _ => False) ts log () (report cfg e ts log).rest
      (report cfg e ts log).log :=
  report_yields strict.limit wellFormed e log

theorem accept_sound (strict : cfg.Strict) (kind : Kind)
    (wellFormed : ∀ t ∈ ts, t.kind ≠ .malformed) (log : Log) :
    Yields False (fun us _ => ∃ t, us = [t] ∧ t.kind = kind) ts log ()
      (accept cfg kind ts log).rest (accept cfg kind ts log).log := by
  have missing : ∀ ts : List Token, (∀ t ∈ ts, t.kind ≠ .malformed) →
      Yields False (fun us _ => ∃ t, us = [t] ∧ t.kind = kind) ts log ()
        (reportMissing cfg kind ts log).rest (reportMissing cfg kind ts log).log := by
    intro ts wellFormed
    rw [reportMissing, if_neg (by simp [strict.lenient])]
    exact (report_sound strict wellFormed _ log).imp fun _ h => h.elim
  cases ts with
  | nil => exact missing [] wellFormed
  | cons t ts =>
    rw [accept]
    split
    · next found => exact token_sound ⟨t, rfl, found⟩ log
    · exact missing (t :: ts) wellFormed

theorem ident_sound (strict : cfg.Strict) (wellFormed : ∀ t ∈ ts, t.kind ≠ .malformed)
    (log : Log) :
    Yields False (fun us id => ∃ t, us = [t] ∧ t.kind = .identifier ∧ id.unplaced = name t) ts log
      (ident cfg ts log).value (ident cfg ts log).rest (ident cfg ts log).log := by
  have missing : ∀ ts : List Token, (∀ t ∈ ts, t.kind ≠ .malformed) →
      Yields False (fun us id => ∃ t, us = [t] ∧ t.kind = .identifier ∧ id.unplaced = name t) ts
        log (missingIdent cfg ts log).value (missingIdent cfg ts log).rest
        (missingIdent cfg ts log).log := by
    intro ts wellFormed
    exact (report_sound strict wellFormed _ log).imp fun _ h => h.elim
  cases ts with
  | nil => exact missing [] wellFormed
  | cons t ts =>
    rw [ident]
    split
    · next found => exact token_sound ⟨t, rfl, found, rfl⟩ log
    · exact missing (t :: ts) wellFormed

end Tokens

section Expressions

theorem missingExpr_sound (strict : cfg.Strict) {ts : List Token}
    (wellFormed : ∀ t ∈ ts, t.kind ≠ .malformed) (Q : List Token → Expr → Prop) (log : Log) :
    Yields False Q ts log (missingExpr cfg ts log).value (missingExpr cfg ts log).rest
      (missingExpr cfg ts log).log :=
  (report_sound strict wellFormed _ log).imp fun _ h => h.elim

theorem missingArg_sound (strict : cfg.Strict) {ts : List Token}
    (wellFormed : ∀ t ∈ ts, t.kind ≠ .malformed) (Q : List Token → Arg → Prop) (log : Log) :
    Yields False Q ts log (missingArg cfg ts log).value (missingArg cfg ts log).rest
      (missingArg cfg ts log).log :=
  (report_sound strict wellFormed _ log).imp fun _ h => h.elim

theorem varArg_sound (strict : cfg.Strict) {ts : List Token} (pos : Pos)
    (wellFormed : ∀ t ∈ ts, t.kind ≠ .malformed) (log : Log) :
    Yields False
      (fun us a => ∃ t, us = [t] ∧ t.kind = .identifier ∧ a.unplaced = .var Pos.none (name t))
      ts log (varArg cfg pos ts log).value (varArg cfg pos ts log).rest
      (varArg cfg pos ts log).log := by
  refine (ident_sound strict wellFormed log).imp ?_
  rintro _ ⟨t, rfl, kind, same⟩
  exact ⟨t, rfl, kind, congrArg (Arg.var Pos.none) same⟩

mutual

theorem expr_sound (strict : cfg.Strict) (ts : List Token) (log : Log)
    (wellFormed : ∀ t ∈ ts, t.kind ≠ .malformed) :
    Yields False (fun us x => Expression us x.unplaced) ts log (expr cfg ts log).value
      (expr cfg ts log).rest (expr cfg ts log).log := by
  have first := primary_sound strict ts log wellFormed
  have le := first.length_le
  have rest := exprTail_sound strict (primary cfg ts log).value (primary cfg ts log).rest
    (primary cfg ts log).log (first.forall_mem wellFormed)
  rw [expr]
  refine (first.trans rest).imp ?_
  rintro _ ⟨us, vs, rfl, derived, more⟩
  exact more us (.primary derived)
termination_by 5 * ts.length + 2
decreasing_by all_goals omega

/-- What follows in a chain is derived behind everything that can stand before it. -/
theorem exprTail_sound (strict : cfg.Strict) (x : Expr) : ∀ (ts : List Token) (log : Log),
    (∀ t ∈ ts, t.kind ≠ .malformed) →
      Yields False
        (fun us r => ∀ vs, Expression vs x.unplaced → Expression (vs ++ us) r.unplaced) ts log
        (exprTail cfg x ts log).value (exprTail cfg x ts log).rest (exprTail cfg x ts log).log
  | [], log, _ => by
    rw [exprTail]
    exact yields_here fun vs derived => by simpa using derived
  | t :: ts, log, wellFormed => by
    rw [exprTail]
    split
    · next operator =>
      have later : ∀ t ∈ ts, t.kind ≠ .malformed := fun t member => wellFormed t (by simp [member])
      have first := primary_sound strict ts log later
      have le := first.length_le
      have rest := exprTail_sound strict
        (.binary x.pos none x ⟨t.pos, t.spelling, none⟩ (primary cfg ts log).value)
        (primary cfg ts log).rest (primary cfg ts log).log (first.forall_mem later)
      refine (first.trans rest).cons.imp ?_
      rintro _ ⟨_, rfl, us, ws, rfl, right, more⟩ vs left
      have chain := more _ (Expression.binary left operator right)
      simpa using chain
    · exact yields_here fun vs derived => by simpa using derived
termination_by ts => 5 * ts.length + 1
decreasing_by
  all_goals
    simp only [List.length_cons]
    omega

theorem primary_sound (strict : cfg.Strict) : ∀ (ts : List Token) (log : Log),
    (∀ t ∈ ts, t.kind ≠ .malformed) →
      Yields False (fun us x => PrimaryExpression us x.unplaced) ts log
        (primary cfg ts log).value (primary cfg ts log).rest (primary cfg ts log).log
  | [], log, wellFormed => by
    rw [primary]
    exact missingExpr_sound strict wellFormed _ log
  | t :: ts, log, wellFormed => by
    have later : ∀ t ∈ ts, t.kind ≠ .malformed := fun t member => wellFormed t (by simp [member])
    rw [primary]
    split
    · next kind => exact token_sound (.int kind) log
    · next kind => exact token_sound (.char kind) log
    · next kind =>
      refine (nameOrCall_sound strict t ts log later).cons.imp ?_
      rintro _ ⟨us, rfl, derived⟩
      exact derived kind
    · next kind =>
      refine (primary_sound strict ts log later).cons.imp ?_
      rintro _ ⟨us, rfl, operand⟩
      exact .unary kind operand
    · next kind =>
      have inner := expr_sound strict ts log later
      have close := inner.trans
        (accept_sound strict (.mark .rparen) (inner.forall_mem later) (expr cfg ts log).log)
      refine close.cons.imp ?_
      rintro _ ⟨_, rfl, us, _, rfl, derived, r, rfl, closes⟩
      exact .parens kind derived closes
    · next kind => exact absurd kind (wellFormed t (by simp))
    · exact missingExpr_sound strict wellFormed _ log
termination_by ts => 5 * ts.length
decreasing_by
  all_goals
    simp only [List.length_cons]
    omega

theorem nameOrCall_sound (strict : cfg.Strict) (t : Token) : ∀ (ts : List Token) (log : Log),
    (∀ t ∈ ts, t.kind ≠ .malformed) →
      Yields False
        (fun us x => t.kind = .identifier → PrimaryExpression (t :: us) x.unplaced) ts log
        (nameOrCall cfg t ts log).value (nameOrCall cfg t ts log).rest
        (nameOrCall cfg t ts log).log
  | [], log, _ => by
    rw [nameOrCall]
    exact yields_here fun kind => .name kind
  | p :: ts, log, wellFormed => by
    rw [nameOrCall]
    split
    · next opens =>
      refine (argument_sound strict ts log fun t member => wellFormed t (by simp [member])).cons.imp
        ?_
      rintro _ ⟨_, rfl, us, r, rfl, passed, closes⟩ kind
      exact .call kind opens passed closes
    · exact yields_here fun kind => .name kind
termination_by ts => 5 * ts.length + 1
decreasing_by
  all_goals
    simp only [List.length_cons]
    omega

theorem argument_sound (strict : cfg.Strict) (ts : List Token) (log : Log)
    (wellFormed : ∀ t ∈ ts, t.kind ≠ .malformed) :
    Yields False
      (fun us a => ∃ vs r, us = vs ++ [r] ∧ Parameter vs a.unplaced ∧ r.kind = .mark .rparen) ts log
      (argument cfg ts log).value (argument cfg ts log).rest (argument cfg ts log).log := by
  have first := param_sound strict ts log wellFormed
  have close := first.trans
    (accept_sound strict (.mark .rparen) (first.forall_mem wellFormed) (param cfg ts log).log)
  rw [argument]
  refine close.imp ?_
  rintro _ ⟨us, _, rfl, passed, r, rfl, closes⟩
  exact ⟨us, r, rfl, passed, closes⟩
termination_by 5 * ts.length + 4
decreasing_by all_goals omega

theorem param_sound (strict : cfg.Strict) : ∀ (ts : List Token) (log : Log),
    (∀ t ∈ ts, t.kind ≠ .malformed) →
      Yields False (fun us a => Parameter us a.unplaced) ts log (param cfg ts log).value
        (param cfg ts log).rest (param cfg ts log).log
  | [], log, wellFormed => by
    rw [param]
    exact missingArg_sound strict wellFormed _ log
  | t :: ts, log, wellFormed => by
    have later : ∀ t ∈ ts, t.kind ≠ .malformed := fun t member => wellFormed t (by simp [member])
    rw [param]
    split
    · exact (expr_sound strict (t :: ts) log wellFormed).imp fun _ derived => .value derived
    · split
      · next word =>
        refine (varArg_sound strict t.pos later log).cons.imp ?_
        rintro _ ⟨_, rfl, u, rfl, kind, same⟩
        rw [same]
        exact .var word kind
      · split
        · exact yields_here .blank
        · exact missingArg_sound strict wellFormed _ log
termination_by ts => 5 * ts.length + 3
decreasing_by all_goals omega

end

end Expressions

section Declarations

theorem missingDecl_sound (strict : cfg.Strict) {ts : List Token}
    (wellFormed : ∀ t ∈ ts, t.kind ≠ .malformed) (Q : List Token → Decl → Prop) (log : Log) :
    Yields False Q ts log (missingDecl cfg ts log).value (missingDecl cfg ts log).rest
      (missingDecl cfg ts log).log :=
  (report_sound strict wellFormed _ log).imp fun _ h => h.elim

theorem constDecl_sound (strict : cfg.Strict) {w : Token} (word : w.kind = .keyword .const)
    {ts : List Token} (wellFormed : ∀ t ∈ ts, t.kind ≠ .malformed) (log : Log) :
    Yields False (fun us d => SingleDeclaration (w :: us) d.unplaced) ts log
      (constDecl cfg w.pos ts log).value (constDecl cfg w.pos ts log).rest
      (constDecl cfg w.pos ts log).log := by
  have id := ident_sound strict wellFormed log
  have is := id.trans (accept_sound strict (.mark .is) (id.forall_mem wellFormed) _)
  have value := is.trans (expr_sound strict _ _ (is.forall_mem wellFormed))
  refine value.imp ?_
  rintro _ ⟨_, us, rfl, ⟨_, _, rfl, ⟨t, rfl, kind, same⟩, s, rfl, is⟩, derived⟩
  have whole := SingleDeclaration.const word kind is derived
  rw [← same] at whole
  exact whole

theorem varDecl_sound (strict : cfg.Strict) {w : Token} (word : w.kind = .keyword .var)
    {ts : List Token} (wellFormed : ∀ t ∈ ts, t.kind ≠ .malformed) (log : Log) :
    Yields False (fun us d => SingleDeclaration (w :: us) d.unplaced) ts log
      (varDecl cfg w.pos ts log).value (varDecl cfg w.pos ts log).rest
      (varDecl cfg w.pos ts log).log := by
  have id := ident_sound strict wellFormed log
  have colon := id.trans (accept_sound strict (.mark .colon) (id.forall_mem wellFormed) _)
  have type := colon.trans (ident_sound strict (colon.forall_mem wellFormed) _)
  refine type.imp ?_
  rintro _ ⟨_, _, rfl, ⟨_, _, rfl, ⟨t, rfl, kind, same⟩, s, rfl, colon⟩, u, rfl, kind', same'⟩
  have whole := SingleDeclaration.var word kind colon kind'
  rw [← same, ← same'] at whole
  exact whole

theorem singleDecl_sound (strict : cfg.Strict) {ts : List Token}
    (wellFormed : ∀ t ∈ ts, t.kind ≠ .malformed) (log : Log) :
    Yields False (fun us d => SingleDeclaration us d.unplaced) ts log
      (singleDecl cfg ts log).value (singleDecl cfg ts log).rest (singleDecl cfg ts log).log := by
  cases ts with
  | nil => exact missingDecl_sound strict wellFormed _ log
  | cons t ts =>
    have later : ∀ t ∈ ts, t.kind ≠ .malformed := fun t member => wellFormed t (by simp [member])
    rw [singleDecl]
    split
    · next word =>
      refine (constDecl_sound strict word later log).cons.imp ?_
      rintro _ ⟨us, rfl, derived⟩
      exact derived
    · split
      · next word =>
        refine (varDecl_sound strict word later log).cons.imp ?_
        rintro _ ⟨us, rfl, derived⟩
        exact derived
      · exact missingDecl_sound strict wellFormed _ log

/-- Declarations with semicolons before them are derived behind a declaration. -/
theorem declTail_sound (strict : cfg.Strict) : ∀ (ts : List Token) (log : Log),
    (∀ t ∈ ts, t.kind ≠ .malformed) →
      Yields False
        (fun us ds => ∀ vs d, SingleDeclaration vs d →
          Declarations (vs ++ us) (d :: ds.map Decl.unplaced)) ts log
        (declTail cfg ts log).value (declTail cfg ts log).rest (declTail cfg ts log).log
  | [], log, _ => by
    rw [declTail]
    exact yields_here fun vs d derived => by simpa using Declarations.one derived
  | t :: ts, log, wellFormed => by
    rw [declTail]
    split
    · next semicolon =>
      have later : ∀ t ∈ ts, t.kind ≠ .malformed := fun t member => wellFormed t (by simp [member])
      have first := singleDecl_sound strict later log
      have le := first.length_le
      have rest := first.trans (declTail_sound strict (singleDecl cfg ts log).rest
        (singleDecl cfg ts log).log (first.forall_mem later))
      refine rest.cons.imp ?_
      rintro _ ⟨_, rfl, us, ws, rfl, derived, more⟩ vs d before
      exact .more before semicolon (more us _ derived)
    · exact yields_here fun vs d derived => by simpa using Declarations.one derived
termination_by ts => ts.length
decreasing_by
  all_goals
    simp only [List.length_cons]
    omega

theorem unplaced_joinDecls (pos : Pos) (d : Decl) (ds : List Decl) :
    (joinDecls pos d ds).unplaced = declSequence (d.unplaced :: ds.map Decl.unplaced) := by
  cases ds with
  | nil => rfl
  | cons e ds =>
    simp only [joinDecls, Decl.unplaced, Decl.unplacedAll_eq_map]
    rfl

theorem declaration_sound (strict : cfg.Strict) {ts : List Token}
    (wellFormed : ∀ t ∈ ts, t.kind ≠ .malformed) (log : Log) :
    Yields False (fun us d => ∃ ds, Declarations us ds ∧ d.unplaced = declSequence ds) ts log
      (declaration cfg ts log).value (declaration cfg ts log).rest
      (declaration cfg ts log).log := by
  have first := singleDecl_sound strict wellFormed log
  have rest := first.trans (declTail_sound strict _ _ (first.forall_mem wellFormed))
  refine rest.imp ?_
  rintro _ ⟨us, vs, rfl, derived, more⟩
  exact ⟨_, more us _ derived, unplaced_joinDecls _ _ _⟩

end Declarations

section Commands

theorem badCmd_sound (strict : cfg.Strict) {ts : List Token} (e : ParseError)
    (wellFormed : ∀ t ∈ ts, t.kind ≠ .malformed) (Q : List Token → Cmd → Prop) (log : Log) :
    Yields False Q ts log (badCmd cfg e ts log).value (badCmd cfg e ts log).rest
      (badCmd cfg e ts log).log := by
  have reported := report_sound strict wellFormed e log
  refine ⟨(List.dropWhile_suffix _).trans reported.suffix, reported.quiet, fun allowed => ?_⟩
  obtain ⟨-, -, impossible⟩ := reported.fine allowed
  exact impossible.elim

theorem assignOrCall_sound (strict : cfg.Strict) {t : Token} (kind : t.kind = .identifier)
    {ts : List Token} (wellFormed : ∀ t ∈ ts, t.kind ≠ .malformed) (log : Log) :
    Yields False (fun us c => SingleCommand (t :: us) c.unplaced) ts log
      (assignOrCall cfg t ts log).value (assignOrCall cfg t ts log).rest
      (assignOrCall cfg t ts log).log := by
  cases ts with
  | nil => exact badCmd_sound strict _ wellFormed _ log
  | cons p ts =>
    have later : ∀ t ∈ ts, t.kind ≠ .malformed := fun t member => wellFormed t (by simp [member])
    rw [assignOrCall]
    split
    · next becomes =>
      refine (expr_sound strict ts log later).cons.imp ?_
      rintro _ ⟨us, rfl, derived⟩
      exact .assign kind becomes derived
    · split
      · next opens =>
        refine (argument_sound strict ts log later).cons.imp ?_
        rintro _ ⟨_, rfl, us, r, rfl, passed, closes⟩
        exact .call kind opens passed closes
      · exact badCmd_sound strict _ wellFormed _ log

theorem unplaced_joinCmds (pos : Pos) (c : Cmd) (cs : List Cmd) :
    (joinCmds pos c cs).unplaced = sequence (c.unplaced :: cs.map Cmd.unplaced) := by
  cases cs with
  | nil => rfl
  | cons d cs =>
    simp only [joinCmds, Cmd.unplaced, Cmd.unplacedAll_eq_map]
    rfl

/-- The last of the categories that start a command is that of the word `pass`. -/
theorem eq_pass_of_startsCmd {k : Kind} (starts : k.startsCmd = true) (h₁ : k ≠ .identifier)
    (h₂ : k ≠ .mark .lbrace) (h₃ : k ≠ .keyword .let_) (h₄ : k ≠ .keyword .if_)
    (h₅ : k ≠ .keyword .ifeither) (h₆ : k ≠ .keyword .while_) : k = .keyword .pass := by
  revert starts h₁ h₂ h₃ h₄ h₅ h₆
  cases k with
  | keyword w => cases w <;> simp [Kind.startsCmd]
  | mark m => cases m <;> simp [Kind.startsCmd]
  | _ => simp [Kind.startsCmd]

/-- The branches of a conditional command, from the word `then` to the word `endif`. -/
def Branches (us : List Token) (yes no : Cmd) : Prop :=
  ∃ v vs s ws e, us = v :: vs ++ s :: ws ++ [e] ∧ v.kind = .keyword .then_ ∧
    SingleCommand vs yes ∧ s.kind = .keyword .else_ ∧ SingleCommand ws no ∧
      e.kind = .keyword .endif

mutual

theorem command_sound (strict : cfg.Strict) (ts : List Token) (log : Log)
    (wellFormed : ∀ t ∈ ts, t.kind ≠ .malformed) :
    Yields False (fun us c => ∃ cs, Commands us cs ∧ c.unplaced = sequence cs) ts log
      (command cfg ts log).value (command cfg ts log).rest (command cfg ts log).log := by
  have first := single_sound strict ts log wellFormed
  have le := first.length_le
  have rest := first.trans (cmdTail_sound strict (single cfg ts log).rest (single cfg ts log).log
    (first.forall_mem wellFormed))
  rw [command]
  refine rest.imp ?_
  rintro _ ⟨us, vs, rfl, derived, more⟩
  exact ⟨_, more us _ derived, unplaced_joinCmds _ _ _⟩
termination_by 4 * ts.length + 2
decreasing_by all_goals omega

/-- Commands with semicolons before them are derived behind a command. -/
theorem cmdTail_sound (strict : cfg.Strict) : ∀ (ts : List Token) (log : Log),
    (∀ t ∈ ts, t.kind ≠ .malformed) →
      Yields False
        (fun us cs => ∀ vs c, SingleCommand vs c → Commands (vs ++ us) (c :: cs.map Cmd.unplaced))
        ts log (cmdTail cfg ts log).value (cmdTail cfg ts log).rest (cmdTail cfg ts log).log
  | [], log, _ => by
    rw [cmdTail]
    exact yields_here fun vs c derived => by simpa using Commands.one derived
  | t :: ts, log, wellFormed => by
    rw [cmdTail]
    split
    · next semicolon =>
      have later : ∀ t ∈ ts, t.kind ≠ .malformed := fun t member => wellFormed t (by simp [member])
      have first := single_sound strict ts log later
      have le := first.length_le
      have rest := first.trans (cmdTail_sound strict (single cfg ts log).rest
        (single cfg ts log).log (first.forall_mem later))
      refine rest.cons.imp ?_
      rintro _ ⟨_, rfl, us, ws, rfl, derived, more⟩ vs c before
      exact .more before semicolon (more us _ derived)
    · exact yields_here fun vs c derived => by simpa using Commands.one derived
termination_by ts => 4 * ts.length + 1
decreasing_by
  all_goals
    simp only [List.length_cons]
    omega

theorem single_sound (strict : cfg.Strict) : ∀ (ts : List Token) (log : Log),
    (∀ t ∈ ts, t.kind ≠ .malformed) →
      Yields False (fun us c => SingleCommand us c.unplaced) ts log (single cfg ts log).value
        (single cfg ts log).rest (single cfg ts log).log
  | [], log, _ => by
    rw [single]
    exact yields_here .empty
  | t :: ts, log, wellFormed => by
    rw [single_cons]
    split
    · next starts =>
      refine (started_sound strict t ts log starts
        fun t member => wellFormed t (by simp [member])).cons.imp ?_
      rintro _ ⟨us, rfl, derived⟩
      exact derived
    · split
      · exact yields_here .empty
      · exact badCmd_sound strict _ wellFormed _ log
termination_by ts => 4 * ts.length
decreasing_by
  all_goals
    simp only [List.length_cons]
    omega

theorem started_sound (strict : cfg.Strict) (t : Token) (ts : List Token) (log : Log)
    (starts : t.kind.startsCmd = true) (wellFormed : ∀ t ∈ ts, t.kind ≠ .malformed) :
    Yields False (fun us c => SingleCommand (t :: us) c.unplaced) ts log
      (started cfg t ts log).value (started cfg t ts log).rest (started cfg t ts log).log := by
  rw [started]
  split
  · next kind => exact assignOrCall_sound strict kind wellFormed log
  · next opens =>
    rw [blockCmd]
    have body := command_sound strict ts log wellFormed
    have close := body.trans
      (accept_sound strict (.mark .rbrace) (body.forall_mem wellFormed) (command cfg ts log).log)
    refine close.imp ?_
    rintro _ ⟨us, _, rfl, ⟨cs, derived, same⟩, r, rfl, closes⟩
    have whole := SingleCommand.block opens derived closes
    rw [← same] at whole
    exact whole
  · next word =>
    rw [letCmd]
    have decl := declaration_sound strict wellFormed log
    have in_ := decl.trans (accept_sound strict (.keyword .in_) (decl.forall_mem wellFormed) _)
    have le := in_.length_le
    have body := in_.trans (single_sound strict _ _ (in_.forall_mem wellFormed))
    refine body.imp ?_
    rintro _ ⟨_, us, rfl, ⟨vs, _, rfl, ⟨ds, decls, same⟩, v, rfl, in_⟩, derived⟩
    have whole := SingleCommand.letIn word decls in_ derived
    rw [← same] at whole
    simpa [Cmd.unplaced] using whole
  · next word =>
    rw [ifCmd]
    have cond := expr_sound strict ts log wellFormed
    have le := cond.length_le
    have arms := cond.trans (branches_sound strict _ _ (cond.forall_mem wellFormed))
    refine arms.imp ?_
    rintro _ ⟨us, _, rfl, cond, v, vs, s, ws, e, rfl, then_, yes, else_, no, endif⟩
    have whole := SingleCommand.ifElse word cond then_ yes else_ no endif
    simpa [Cmd.unplaced] using whole
  · next word =>
    rw [ifEitherCmd]
    have cond := expr_sound strict ts log wellFormed
    have or_ := cond.trans (accept_sound strict (.keyword .or) (cond.forall_mem wellFormed) _)
    have alt := or_.trans (expr_sound strict _ _ (or_.forall_mem wellFormed))
    have le := alt.length_le
    have arms := alt.trans (branches_sound strict _ _ (alt.forall_mem wellFormed))
    refine arms.imp ?_
    rintro _ ⟨_, _, rfl, ⟨_, ks, rfl, ⟨us, _, rfl, cond, o, rfl, or_⟩, alt⟩,
      v, vs, s, ws, e, rfl, then_, yes, else_, no, endif⟩
    have whole := SingleCommand.ifEither word cond or_ alt then_ yes else_ no endif
    simpa [Cmd.unplaced] using whole
  · next word =>
    rw [whileCmd]
    have cond := expr_sound strict ts log wellFormed
    have do_ := cond.trans (accept_sound strict (.keyword .do_) (cond.forall_mem wellFormed) _)
    have le := do_.length_le
    have body := do_.trans (single_sound strict _ _ (do_.forall_mem wellFormed))
    refine body.imp ?_
    rintro _ ⟨_, us, rfl, ⟨vs, _, rfl, cond, v, rfl, do_⟩, derived⟩
    have whole := SingleCommand.whileDo word cond do_ derived
    simpa [Cmd.unplaced] using whole
  · next h₁ h₂ h₃ h₄ h₅ h₆ =>
    exact yields_here (.pass (eq_pass_of_startsCmd starts h₁ h₂ h₃ h₄ h₅ h₆))
termination_by 4 * ts.length + 3
decreasing_by all_goals omega

theorem branches_sound (strict : cfg.Strict) (ts : List Token) (log : Log)
    (wellFormed : ∀ t ∈ ts, t.kind ≠ .malformed) :
    Yields False (fun us v => Branches us v.1.unplaced v.2.unplaced) ts log
      (branches cfg ts log).value (branches cfg ts log).rest (branches cfg ts log).log := by
  have then_ := accept_sound strict (.keyword .then_) wellFormed log
  have le₁ := then_.length_le
  have yes := then_.trans (single_sound strict _ _ (then_.forall_mem wellFormed))
  have else_ := yes.trans (accept_sound strict (.keyword .else_) (yes.forall_mem wellFormed) _)
  have le₂ := else_.length_le
  have no := else_.trans (single_sound strict _ _ (else_.forall_mem wellFormed))
  have endif := no.trans (accept_sound strict (.keyword .endif) (no.forall_mem wellFormed) _)
  rw [branches]
  refine endif.imp ?_
  rintro _ ⟨_, _, rfl, ⟨_, ws, rfl, ⟨_, _, rfl, ⟨_, vs, rfl, ⟨v, rfl, then_⟩, yes⟩, s, rfl, else_⟩,
    no⟩, e, rfl, endif⟩
  exact ⟨v, vs, s, ws, e, by simp, then_, yes, else_, no, endif⟩
termination_by 4 * ts.length + 1
decreasing_by all_goals omega

end

end Commands

section Programs

/-- What is left over after a command is reported. -/
theorem leftover_quiet (strict : cfg.Strict) (c : Cmd) : ∀ (ts : List Token) (log : Log),
    (∀ t ∈ ts, t.kind ≠ .malformed) → (∀ t ∈ ts, t.kind ≠ .endOfText) →
      (leftover cfg c ts log).log = [] → ts = [] ∧ log = []
  | [], log, _, _, quiet => by
    rw [leftover] at quiet
    exact ⟨rfl, quiet⟩
  | t :: ts, log, wellFormed, open_, quiet => by
    have here : t.kind ≠ .endOfText := open_ t (by simp)
    have stop := accept_sound strict .endOfText wellFormed log
    -- The end of the text is missing here, so it is enough that nothing was reported about that.
    have reported : (accept cfg .endOfText (t :: ts) log).log = [] → False := by
      intro none
      obtain ⟨_, split, e, rfl, kind⟩ := stop.fine (.inl none)
      obtain ⟨rfl, -⟩ := List.cons.inj split
      exact here kind
    rw [leftover, if_neg (by simpa [Token.isEnd] using here)] at quiet
    dsimp only at quiet
    split at quiet
    · exact (reported quiet).elim
    · next u us skipped =>
      have behind : u :: us <:+ t :: ts := by
        rw [← skipped]
        exact (List.dropWhile_suffix _).trans stop.suffix
      have le : us.length + 1 ≤ ts.length + 1 := behind.length_le
      have wellFormed' : ∀ v ∈ u :: us, v.kind ≠ .malformed :=
        fun v member => wellFormed v (behind.subset member)
      have open' : ∀ v ∈ u :: us, v.kind ≠ .endOfText :=
        fun v member => open_ v (behind.subset member)
      split at quiet
      · have next := command_sound strict us (accept cfg .endOfText (t :: ts) log).log
          (List.forall_mem_cons.1 wellFormed').2
        have shorter := next.length_le
        obtain ⟨-, quiet⟩ := leftover_quiet strict _ _ _
          (next.forall_mem (List.forall_mem_cons.1 wellFormed').2)
          (next.forall_mem (List.forall_mem_cons.1 open').2) quiet
        exact (reported (next.quiet quiet)).elim
      · split at quiet
        · next starts =>
          have next := command_sound strict (u :: us) (accept cfg .endOfText (t :: ts) log).log
            wellFormed'
          have shorter := Nat.lt_of_lt_of_le
            (command_length_lt cfg starts us (accept cfg .endOfText (t :: ts) log).log) le
          obtain ⟨-, quiet⟩ := leftover_quiet strict _ _ _ (next.forall_mem wellFormed')
            (next.forall_mem open') quiet
          exact (reported (next.quiet quiet)).elim
        · exact (reported quiet).elim
termination_by ts => ts.length
decreasing_by
  all_goals
    simp only [List.length_cons]
    omega

/-- If nothing is reported about tokens with an end of the text behind them, they are derived. -/
theorem parse_sound {ts : List Token} {e : Token} (limit : Int)
    (wellFormed : ∀ t ∈ ts, t.kind ≠ .malformed) (open_ : ∀ t ∈ ts, t.kind ≠ .endOfText)
    (last : e.kind = .endOfText) (quiet : (parse (ts ++ [e]) false limit).findings = []) :
    Grammar.Program (ts ++ [e]) (parse (ts ++ [e]) false limit).program.unplaced := by
  let cfg : Config := ⟨e.pos, false, limitOf limit⟩
  have strict : cfg.Strict := ⟨rfl, limitOf_pos limit⟩
  rw [parse_append_end last] at quiet ⊢
  have first := command_sound strict ts [] wellFormed
  obtain ⟨all, silent⟩ := leftover_quiet strict _ _ _ (first.forall_mem wellFormed)
    (first.forall_mem open_) quiet
  obtain ⟨us, used, cs, derived, same⟩ := first.fine (.inl silent)
  rw [all, List.append_nil] at used
  have value : (leftover cfg (command cfg ts []).value (command cfg ts []).rest
      (command cfg ts []).log).value = (command cfg ts []).value := by
    rw [all, leftover]
  subst used
  have whole := Grammar.Program.ends derived last
  rw [← same, ← value] at whole
  exact whole

end Programs

end TriangleTam.Parser
