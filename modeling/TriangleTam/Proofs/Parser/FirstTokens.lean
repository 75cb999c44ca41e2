import TriangleTam.Proofs.Parser.Terminals
import TriangleTam.Proofs.Spans

/-!
# Where nodes start

If nothing is reported about a text, the nodes that a strict parser makes of it have the positions
of their first tokens, and those without tokens that of the token at which they were recognised. The
one exception are operations between two operands. They have the position of the left operand,
although the span of the operation starts with the parentheses that stand before that operand.
-/

namespace TriangleTam

/-- The node has the position of its first token, or of the first one behind it if it has none. -/
def Node.StartsFirst (n : Node) (ts _rest : List Token) : Prop :=
  ts.head?.map (·.pos) = some n.pos

/-- The tokens without the opening parentheses at the front. -/
def pastParens (ts : List Token) : List Token :=
  ts.dropWhile (·.kind == .mark .lparen)

/-- The node has the position of its first token, or of the first one behind it if it has none. An
operation between two operands has that of its first token that is no opening parenthesis. -/
def Node.Starts (n : Node) (ts rest : List Token) : Prop :=
  match n with
  | .expr (.binary pos ..) => (pastParens ts).head?.map (·.pos) = some pos
  | n => n.StartsFirst ts rest

theorem pastParens_of_ne {t : Token} (other : t.kind ≠ .mark .lparen) (ts : List Token) :
    pastParens (t :: ts) = t :: ts :=
  List.dropWhile_cons_of_neg (by simpa using other)

theorem pastParens_of_eq {t : Token} (paren : t.kind = .mark .lparen) (ts : List Token) :
    pastParens (t :: ts) = pastParens ts :=
  List.dropWhile_cons_of_pos (by simpa using paren)

namespace Spanned

mutual

/-- An expression has the position of its first token that is no opening parenthesis. -/
theorem Expression.pos_pastParens : ∀ {ts x rest}, Expression Node.Starts ts x rest →
    (pastParens ts).head?.map (·.pos) = some x.pos
  | _, _, _, .primary inner => inner.pos_pastParens
  | _, _, _, .binary _ _ _ here => here

theorem PrimaryExpression.pos_pastParens : ∀ {ts x rest}, PrimaryExpression Node.Starts ts x rest →
    (pastParens ts).head?.map (·.pos) = some x.pos
  | _, _, _, .int kind _ _ here | _, _, _, .char kind _ _ here => by
    rw [pastParens_of_ne (by simp [kind])]
    exact here
  | _, _, _, .name inner here => by
    obtain ⟨t, rfl, kind, -⟩ := inner.token
    rw [pastParens_of_ne (by simp [kind])]
    exact here
  | _, _, _, .call callee _ _ _ here => by
    obtain ⟨t, rfl, kind, -⟩ := callee.token
    rw [pastParens_of_ne (by simp [kind])]
    exact here
  | _, _, _, .unary operator _ here => by
    obtain ⟨t, rfl, kind, -⟩ := operator.token
    rw [pastParens_of_ne (by simp [kind])]
    exact here
  | _, _, _, .parens opens inner _ => by
    rw [pastParens_of_eq opens]
    exact inner.pos_pastParens

end

end Spanned

namespace Parser

open Spanned

/-- Missing tokens are reported, and the text ends with the token `e`. -/
structure Config.Closed (cfg : Config) (e : Token) : Prop extends Config.Strict cfg where
  endPos : cfg.endPos = e.pos

/-- Unless something is reported, `J` holds of the value, the tokens from which it was made and the
tokens that are left, all with the token `e` behind them. -/
abbrev Covers {α : Type} (e : Token) (J : List Token → α → List Token → Prop) {ts : List Token}
    (log : Log) (r : Parsed α ts) : Prop :=
  Yields False (fun _ v => J (ts ++ [e]) v (r.rest ++ [e])) ts log r.value r.rest r.log

variable {cfg : Config} {e : Token}

section Tokens

variable {ts : List Token}

theorem Config.Closed.head_append (closed : cfg.Closed e) (ts : List Token) :
    (ts ++ [e]).head?.map (·.pos) = some (cfg.current ts).pos := by
  cases ts with
  | nil => exact congrArg some closed.endPos.symm
  | cons t ts => rfl

/-- Where a problem is reported, anything holds unless something is reported. -/
theorem report_covers {α : Type} (closed : cfg.Closed e)
    (wellFormed : ∀ t ∈ ts, t.kind ≠ .malformed) (error : ParseError) (log : Log) (Q : α → Prop)
    (a : α) :
    Yields False (fun _ v => Q v) ts log a (report cfg error ts log).rest
      (report cfg error ts log).log :=
  (report_sound closed.toStrict wellFormed error log).imp fun _ impossible => impossible.elim

theorem accept_covers (closed : cfg.Closed e) (kind : Kind)
    (wellFormed : ∀ t ∈ ts, t.kind ≠ .malformed) (log : Log) :
    Yields False (fun _ (_ : Unit) => ∃ t, ts = t :: (accept cfg kind ts log).rest ∧ t.kind = kind)
      ts log () (accept cfg kind ts log).rest (accept cfg kind ts log).log := by
  have sound := accept_sound closed.toStrict kind wellFormed log
  refine yields_of_suffix sound.suffix sound.quiet fun allowed => ?_
  obtain ⟨_, split, t, rfl, found⟩ := sound.fine allowed
  exact ⟨t, split, found⟩

theorem name_starts {t : Token} (kind : t.kind = .identifier) (rest : List Token) :
    Name Node.Starts (t :: rest) ⟨t.pos, t.spelling, none⟩ rest :=
  ⟨⟨t, rfl, kind, rfl⟩, rfl⟩

theorem operator_starts {t : Token} (kind : t.kind = .operator) (rest : List Token) :
    Operator Node.Starts (t :: rest) ⟨t.pos, t.spelling, none⟩ rest :=
  ⟨⟨t, rfl, kind, rfl⟩, rfl⟩

theorem ident_covers (closed : cfg.Closed e) (wellFormed : ∀ t ∈ ts, t.kind ≠ .malformed)
    (log : Log) : Covers e (Name Node.Starts) log (ident cfg ts log) := by
  cases ts with
  | nil => exact report_covers closed wellFormed _ log _ _
  | cons t ts =>
    rw [ident]
    split
    · next kind =>
      exact yields_of_suffix (List.suffix_cons _ _) (fun h => h) fun _ => name_starts kind _
    · exact report_covers closed wellFormed _ log _ _

end Tokens

section Expressions

theorem varArg_covers (closed : cfg.Closed e) {w : Token} (word : w.kind = .keyword .var)
    {ts : List Token} (wellFormed : ∀ t ∈ ts, t.kind ≠ .malformed) (log : Log) :
    Covers e (fun us => Parameter Node.Starts (w :: us)) log (varArg cfg w.pos ts log) :=
  (ident_covers closed wellFormed log).imp fun _ name => .var word name rfl

mutual

theorem expr_covers (closed : cfg.Closed e) (ts : List Token) (log : Log)
    (wellFormed : ∀ t ∈ ts, t.kind ≠ .malformed) :
    Covers e (Expression Node.Starts) log (expr cfg ts log) := by
  have first := primary_covers closed ts log wellFormed
  have le := first.length_le
  have rest := exprTail_covers closed (primary cfg ts log).value (primary cfg ts log).rest
    (primary cfg ts log).log (first.forall_mem wellFormed)
  rw [expr]
  exact (first.and rest).imp fun _ ⟨left, more⟩ => more _ (.primary left)
termination_by 5 * ts.length + 2
decreasing_by all_goals omega

/-- What follows in a chain goes on behind any expression that stands before it. -/
theorem exprTail_covers (closed : cfg.Closed e) (x : Expr) : ∀ (ts : List Token) (log : Log),
    (∀ t ∈ ts, t.kind ≠ .malformed) →
      Covers e (fun us r ws => ∀ vs, Expression Node.Starts vs x us →
        Expression Node.Starts vs r ws) log (exprTail cfg x ts log)
  | [], log, _ => by
    rw [exprTail]
    exact yields_here fun _ left => left
  | t :: ts, log, wellFormed => by
    rw [exprTail]
    split
    · next kind =>
      have later : ∀ t ∈ ts, t.kind ≠ .malformed := (List.forall_mem_cons.1 wellFormed).2
      have first := primary_covers closed ts log later
      have le := first.length_le
      have rest := exprTail_covers closed
        (.binary x.pos none x ⟨t.pos, t.spelling, none⟩ (primary cfg ts log).value)
        (primary cfg ts log).rest (primary cfg ts log).log (first.forall_mem later)
      refine (first.and rest).behind.imp ?_
      rintro _ ⟨right, more⟩ vs left
      -- The operation starts where its left operand does, behind the parentheses around that.
      exact more vs (.binary left (operator_starts kind _) right left.pos_pastParens)
    · exact yields_here fun _ left => left
termination_by ts => 5 * ts.length + 1
decreasing_by
  all_goals
    simp only [List.length_cons]
    omega

theorem primary_covers (closed : cfg.Closed e) : ∀ (ts : List Token) (log : Log),
    (∀ t ∈ ts, t.kind ≠ .malformed) →
      Covers e (PrimaryExpression Node.Starts) log (primary cfg ts log)
  | [], log, wellFormed => by
    rw [primary]
    exact report_covers closed wellFormed _ log _ _
  | t :: ts, log, wellFormed => by
    have later : ∀ t ∈ ts, t.kind ≠ .malformed := (List.forall_mem_cons.1 wellFormed).2
    rw [primary]
    split
    · next kind =>
      exact yields_of_suffix (List.suffix_cons _ _) (fun h => h) fun _ => .int kind rfl rfl rfl
    · next kind =>
      exact yields_of_suffix (List.suffix_cons _ _) (fun h => h) fun _ => .char kind rfl rfl rfl
    · next kind =>
      exact (nameOrCall_covers closed t ts log later).behind.imp fun _ whole => whole kind
    · next kind =>
      exact (primary_covers closed ts log later).behind.imp fun _ operand =>
        .unary (operator_starts kind _) operand rfl
    · next opens =>
      have inner := expr_covers closed ts log later
      have close := accept_covers closed (.mark .rparen) (inner.forall_mem later)
        (expr cfg ts log).log
      refine (inner.and close).behind.imp ?_
      rintro _ ⟨inner, r, split, closes⟩
      rw [split] at inner
      exact .parens opens inner closes
    · next kind => exact absurd kind (wellFormed t (by simp))
    · exact report_covers closed wellFormed _ log _ _
termination_by ts => 5 * ts.length
decreasing_by
  all_goals
    simp only [List.length_cons]
    omega

theorem nameOrCall_covers (closed : cfg.Closed e) (t : Token) : ∀ (ts : List Token) (log : Log),
    (∀ t ∈ ts, t.kind ≠ .malformed) →
      Covers e (fun us x ws => t.kind = .identifier →
        PrimaryExpression Node.Starts (t :: us) x ws) log (nameOrCall cfg t ts log)
  | [], log, _ => by
    rw [nameOrCall]
    exact yields_here fun kind => .name (name_starts kind _) rfl
  | p :: ts, log, wellFormed => by
    rw [nameOrCall]
    split
    · next opens =>
      have inner := argument_covers closed ts log (List.forall_mem_cons.1 wellFormed).2
      refine inner.behind.imp ?_
      rintro _ ⟨r, passed, closes⟩ kind
      exact .call (name_starts kind _) opens passed closes rfl
    · exact yields_here fun kind => .name (name_starts kind _) rfl
termination_by ts => 5 * ts.length + 1
decreasing_by
  all_goals
    simp only [List.length_cons]
    omega

theorem argument_covers (closed : cfg.Closed e) (ts : List Token) (log : Log)
    (wellFormed : ∀ t ∈ ts, t.kind ≠ .malformed) :
    Covers e (fun us a ws => ∃ r, Parameter Node.Starts us a (r :: ws) ∧ r.kind = .mark .rparen) log
      (argument cfg ts log) := by
  have inner := param_covers closed ts log wellFormed
  have close := accept_covers closed (.mark .rparen) (inner.forall_mem wellFormed)
    (param cfg ts log).log
  rw [argument]
  refine (inner.and close).imp ?_
  rintro _ ⟨passed, r, split, closes⟩
  rw [split] at passed
  exact ⟨r, passed, closes⟩
termination_by 5 * ts.length + 4
decreasing_by all_goals omega

theorem param_covers (closed : cfg.Closed e) : ∀ (ts : List Token) (log : Log),
    (∀ t ∈ ts, t.kind ≠ .malformed) → Covers e (Parameter Node.Starts) log (param cfg ts log)
  | [], log, wellFormed => by
    rw [param]
    exact report_covers closed wellFormed _ log _ _
  | t :: ts, log, wellFormed => by
    have later : ∀ t ∈ ts, t.kind ≠ .malformed := (List.forall_mem_cons.1 wellFormed).2
    rw [param]
    split
    · exact (expr_covers closed (t :: ts) log wellFormed).imp fun _ inner => .value inner rfl
    · split
      · next word => exact (varArg_covers closed word later log).behind
      · split
        · exact yields_here (.blank rfl)
        · exact report_covers closed wellFormed _ log _ _
termination_by ts => 5 * ts.length + 3
decreasing_by all_goals omega

end

end Expressions

section Declarations

theorem constDecl_covers (closed : cfg.Closed e) {w : Token} (word : w.kind = .keyword .const)
    {ts : List Token} (wellFormed : ∀ t ∈ ts, t.kind ≠ .malformed) (log : Log) :
    Covers e (fun us => SingleDeclaration Node.Starts (w :: us)) log
      (constDecl cfg w.pos ts log) := by
  have name := ident_covers closed wellFormed log
  have is := name.and (accept_covers closed (.mark .is) (name.forall_mem wellFormed) _)
  have value := is.and (expr_covers closed _ _ (is.forall_mem wellFormed))
  refine value.imp ?_
  rintro _ ⟨⟨name, s, split, is⟩, value⟩
  rw [split] at name
  exact .const word name is value rfl

theorem varDecl_covers (closed : cfg.Closed e) {w : Token} (word : w.kind = .keyword .var)
    {ts : List Token} (wellFormed : ∀ t ∈ ts, t.kind ≠ .malformed) (log : Log) :
    Covers e (fun us => SingleDeclaration Node.Starts (w :: us)) log
      (varDecl cfg w.pos ts log) := by
  have name := ident_covers closed wellFormed log
  have colon := name.and (accept_covers closed (.mark .colon) (name.forall_mem wellFormed) _)
  have type := colon.and (ident_covers closed (colon.forall_mem wellFormed) _)
  refine type.imp ?_
  rintro _ ⟨⟨name, s, split, colon⟩, type⟩
  rw [split] at name
  exact .var word name colon type rfl

theorem singleDecl_covers (closed : cfg.Closed e) {ts : List Token}
    (wellFormed : ∀ t ∈ ts, t.kind ≠ .malformed) (log : Log) :
    Covers e (SingleDeclaration Node.Starts) log (singleDecl cfg ts log) := by
  cases ts with
  | nil => exact report_covers closed wellFormed _ log _ _
  | cons t ts =>
    have later : ∀ t ∈ ts, t.kind ≠ .malformed := (List.forall_mem_cons.1 wellFormed).2
    rw [singleDecl]
    split
    · next word => exact (constDecl_covers closed word later log).behind
    · split
      · next word => exact (varDecl_covers closed word later log).behind
      · exact report_covers closed wellFormed _ log _ _

/-- Declarations with semicolons before them go on behind a declaration. -/
theorem declTail_covers (closed : cfg.Closed e) : ∀ (ts : List Token) (log : Log),
    (∀ t ∈ ts, t.kind ≠ .malformed) →
      Covers e (fun us ds ws => ∀ vs d, SingleDeclaration Node.Starts vs d us →
        Declarations Node.Starts vs (d :: ds) ws) log (declTail cfg ts log)
  | [], log, _ => by
    rw [declTail]
    exact yields_here fun _ _ only => .one only
  | t :: ts, log, wellFormed => by
    rw [declTail]
    split
    · next semicolon =>
      have later : ∀ t ∈ ts, t.kind ≠ .malformed := (List.forall_mem_cons.1 wellFormed).2
      have first := singleDecl_covers closed later log
      have le := first.length_le
      have rest := declTail_covers closed (singleDecl cfg ts log).rest (singleDecl cfg ts log).log
        (first.forall_mem later)
      refine (first.and rest).behind.imp ?_
      rintro _ ⟨second, more⟩ vs d before
      exact .more before semicolon (more _ _ second)
    · exact yields_here fun _ _ only => .one only
termination_by ts => ts.length
decreasing_by
  all_goals
    simp only [List.length_cons]
    omega

theorem joinDecls_starts {ts rest : List Token} {d : Decl} {ds : List Decl} {pos : Pos}
    (all : Declarations Node.Starts ts (d :: ds) rest) (first : ts.head?.map (·.pos) = some pos) :
    Declaration Node.Starts ts (joinDecls pos d ds) rest := by
  cases ds with
  | nil =>
    cases all with
    | one only => exact .one only
    | more _ _ later => cases later
  | cons d' ds => exact .seq all first

theorem declaration_covers (closed : cfg.Closed e) {ts : List Token}
    (wellFormed : ∀ t ∈ ts, t.kind ≠ .malformed) (log : Log) :
    Covers e (Declaration Node.Starts) log (declaration cfg ts log) := by
  have first := singleDecl_covers closed wellFormed log
  have rest := declTail_covers closed _ (singleDecl cfg ts log).log (first.forall_mem wellFormed)
  refine (first.and rest).imp ?_
  rintro _ ⟨one, more⟩
  exact joinDecls_starts (more _ _ one) (closed.head_append ts)

end Declarations

section Commands

theorem badCmd_covers {α : Type} (closed : cfg.Closed e) {ts : List Token} (error : ParseError)
    (wellFormed : ∀ t ∈ ts, t.kind ≠ .malformed) (log : Log) (Q : α → Prop) (a : α) :
    Yields False (fun _ v => Q v) ts log a (badCmd cfg error ts log).rest
      (badCmd cfg error ts log).log := by
  have reported := report_covers closed wellFormed error log Q a
  exact yields_of_suffix ((List.dropWhile_suffix _).trans reported.suffix) reported.quiet
    reported.value

theorem assignOrCall_covers (closed : cfg.Closed e) {t : Token} (kind : t.kind = .identifier)
    {ts : List Token} (wellFormed : ∀ t ∈ ts, t.kind ≠ .malformed) (log : Log) :
    Covers e (fun us => SingleCommand Node.Starts (t :: us)) log (assignOrCall cfg t ts log) := by
  cases ts with
  | nil => exact badCmd_covers closed _ wellFormed log _ _
  | cons p ts =>
    have later : ∀ t ∈ ts, t.kind ≠ .malformed := (List.forall_mem_cons.1 wellFormed).2
    rw [assignOrCall]
    split
    · next becomes =>
      exact (expr_covers closed ts log later).behind.imp fun _ value =>
        .assign (name_starts kind _) becomes value rfl
    · split
      · next opens =>
        refine (argument_covers closed ts log later).behind.imp ?_
        rintro _ ⟨r, passed, closes⟩
        exact .call (name_starts kind _) opens passed closes rfl
      · exact badCmd_covers closed _ wellFormed log _ _

theorem joinCmds_starts {ts rest : List Token} {c : Cmd} {cs : List Cmd} {pos : Pos}
    (all : Commands Node.Starts ts (c :: cs) rest) (first : ts.head?.map (·.pos) = some pos) :
    Command Node.Starts ts (joinCmds pos c cs) rest := by
  cases cs with
  | nil =>
    cases all with
    | one only => exact .one only
    | more _ _ later => cases later
  | cons d cs => exact .seq all first

mutual

theorem command_covers (closed : cfg.Closed e) (ts : List Token) (log : Log)
    (wellFormed : ∀ t ∈ ts, t.kind ≠ .malformed) :
    Covers e (Command Node.Starts) log (command cfg ts log) := by
  have first := single_covers closed ts log wellFormed
  have le := first.length_le
  have rest := cmdTail_covers closed _ (single cfg ts log).log (first.forall_mem wellFormed)
  rw [command]
  refine (first.and rest).imp ?_
  rintro _ ⟨one, more⟩
  exact joinCmds_starts (more _ _ one) (closed.head_append ts)
termination_by 4 * ts.length + 2
decreasing_by all_goals omega

/-- Commands with semicolons before them go on behind a command. -/
theorem cmdTail_covers (closed : cfg.Closed e) : ∀ (ts : List Token) (log : Log),
    (∀ t ∈ ts, t.kind ≠ .malformed) →
      Covers e (fun us cs ws => ∀ vs c, SingleCommand Node.Starts vs c us →
        Commands Node.Starts vs (c :: cs) ws) log (cmdTail cfg ts log)
  | [], log, _ => by
    rw [cmdTail]
    exact yields_here fun _ _ only => .one only
  | t :: ts, log, wellFormed => by
    rw [cmdTail]
    split
    · next semicolon =>
      have later : ∀ t ∈ ts, t.kind ≠ .malformed := (List.forall_mem_cons.1 wellFormed).2
      have first := single_covers closed ts log later
      have le := first.length_le
      have rest := cmdTail_covers closed (single cfg ts log).rest (single cfg ts log).log
        (first.forall_mem later)
      refine (first.and rest).behind.imp ?_
      rintro _ ⟨second, more⟩ vs c before
      exact .more before semicolon (more _ _ second)
    · exact yields_here fun _ _ only => .one only
termination_by ts => 4 * ts.length + 1
decreasing_by
  all_goals
    simp only [List.length_cons]
    omega

theorem single_covers (closed : cfg.Closed e) : ∀ (ts : List Token) (log : Log),
    (∀ t ∈ ts, t.kind ≠ .malformed) → Covers e (SingleCommand Node.Starts) log (single cfg ts log)
  | [], log, _ => by
    rw [single]
    exact yields_here (.empty (closed.head_append []))
  | t :: ts, log, wellFormed => by
    rw [single_cons]
    split
    · next starts =>
      exact (started_covers closed t ts log starts (List.forall_mem_cons.1 wellFormed).2).behind
    · split
      · exact yields_here (.empty rfl)
      · exact badCmd_covers closed _ wellFormed log _ _
termination_by ts => 4 * ts.length
decreasing_by
  all_goals
    simp only [List.length_cons]
    omega

theorem started_covers (closed : cfg.Closed e) (t : Token) (ts : List Token) (log : Log)
    (starts : t.kind.startsCmd = true) (wellFormed : ∀ t ∈ ts, t.kind ≠ .malformed) :
    Covers e (fun us => SingleCommand Node.Starts (t :: us)) log (started cfg t ts log) := by
  rw [started]
  split
  · next kind => exact assignOrCall_covers closed kind wellFormed log
  · next opens =>
    rw [blockCmd]
    have body := command_covers closed ts log wellFormed
    have close := body.and
      (accept_covers closed (.mark .rbrace) (body.forall_mem wellFormed) (command cfg ts log).log)
    refine close.imp ?_
    rintro _ ⟨body, r, split, closes⟩
    have brace : cfg.current (command cfg ts log).rest = r := by rw [split, Config.current]
    rw [split] at body
    exact .block opens body closes (congrArg Token.pos brace) rfl
  · next word =>
    rw [letCmd]
    have decl := declaration_covers closed wellFormed log
    have in_ := decl.and (accept_covers closed (.keyword .in_) (decl.forall_mem wellFormed) _)
    have le := in_.length_le
    have body := in_.and (single_covers closed _ _ (in_.forall_mem wellFormed))
    refine body.imp ?_
    rintro _ ⟨⟨decl, v, split, in_⟩, body⟩
    rw [split] at decl
    exact .letIn word decl in_ body rfl
  · next word =>
    rw [ifCmd]
    have cond := expr_covers closed ts log wellFormed
    have le := cond.length_le
    have arms := cond.and (branches_covers closed _ _ (cond.forall_mem wellFormed))
    refine arms.imp ?_
    rintro _ ⟨cond, arms⟩
    exact .ifElse word cond arms rfl
  · next word =>
    rw [ifEitherCmd]
    have cond := expr_covers closed ts log wellFormed
    have or_ := cond.and (accept_covers closed (.keyword .or) (cond.forall_mem wellFormed) _)
    have alt := or_.and (expr_covers closed _ _ (or_.forall_mem wellFormed))
    have le := alt.length_le
    have arms := alt.and (branches_covers closed _ _ (alt.forall_mem wellFormed))
    refine arms.imp ?_
    rintro _ ⟨⟨⟨cond, o, split, or_⟩, alt⟩, arms⟩
    rw [split] at cond
    exact .ifEither word cond or_ alt arms rfl
  · next word =>
    rw [whileCmd]
    have cond := expr_covers closed ts log wellFormed
    have do_ := cond.and (accept_covers closed (.keyword .do_) (cond.forall_mem wellFormed) _)
    have le := do_.length_le
    have body := do_.and (single_covers closed _ _ (do_.forall_mem wellFormed))
    refine body.imp ?_
    rintro _ ⟨⟨cond, v, split, do_⟩, body⟩
    rw [split] at cond
    exact .whileDo word cond do_ body rfl
  · next h₁ h₂ h₃ h₄ h₅ h₆ =>
    exact yields_here (.pass (eq_pass_of_startsCmd starts h₁ h₂ h₃ h₄ h₅ h₆) rfl)
termination_by 4 * ts.length + 3
decreasing_by all_goals omega

theorem branches_covers (closed : cfg.Closed e) (ts : List Token) (log : Log)
    (wellFormed : ∀ t ∈ ts, t.kind ≠ .malformed) :
    Covers e (fun us v => Spanned.Branches Node.Starts us v.1 v.2) log (branches cfg ts log) := by
  have then_ := accept_covers closed (.keyword .then_) wellFormed log
  have le₁ := then_.length_le
  have yes := then_.and (single_covers closed _ _ (then_.forall_mem wellFormed))
  have else_ := yes.and (accept_covers closed (.keyword .else_) (yes.forall_mem wellFormed) _)
  have le₂ := else_.length_le
  have no := else_.and (single_covers closed _ _ (else_.forall_mem wellFormed))
  have endif := no.and (accept_covers closed (.keyword .endif) (no.forall_mem wellFormed) _)
  rw [branches]
  refine endif.imp ?_
  rintro _ ⟨⟨⟨⟨⟨v, split₁, then_⟩, yes⟩, s, split₂, else_⟩, no⟩, w, split₃, endif⟩
  rw [split₂] at yes
  rw [split₃] at no
  have arms := Spanned.Branches.arms then_ yes else_ no endif
  rw [← List.cons_append, ← split₁] at arms
  exact arms
termination_by 4 * ts.length + 1
decreasing_by all_goals omega

end

end Commands

section Texts

/-- If nothing is reported about tokens with an end of the text behind them, the nodes of the
program start where they should. -/
theorem parse_starts {ts : List Token} (limit : Int) (wellFormed : ∀ t ∈ ts, t.kind ≠ .malformed)
    (open_ : ∀ t ∈ ts, t.kind ≠ .endOfText) (last : e.kind = .endOfText)
    (quiet : (parse (ts ++ [e]) false limit).findings = []) :
    Spanned.Program Node.Starts (ts ++ [e]) (parse (ts ++ [e]) false limit).program := by
  let cfg : Config := ⟨e.pos, false, limitOf limit⟩
  have closed : cfg.Closed e := ⟨⟨rfl, limitOf_pos limit⟩, rfl⟩
  rw [parse_append_end last] at quiet ⊢
  have first := command_covers closed ts [] wellFormed
  obtain ⟨all, silent⟩ := leftover_quiet closed.toStrict _ _ _ (first.forall_mem wellFormed)
    (first.forall_mem open_) quiet
  have value : (leftover cfg (command cfg ts []).value (command cfg ts []).rest
      (command cfg ts []).log).value = (command cfg ts []).value := by
    rw [all, leftover]
  have body := first.value (.inl silent)
  rw [all] at body
  have whole := Spanned.Program.ends body last (closed.head_append ts)
  rw [← value] at whole
  exact whole

/-- If nothing is reported about a text, a strict parser derives its tree as the grammar does, and
every node has the position of the first token that its rule takes, or if that takes none, of the
token at which it was recognised; only an operation between two operands starts behind the
parentheses at the front of it. -/
theorem readText_starts {file : String} {input : Input} {limit : Int} {reading : Reading}
    (read : readText file input false limit = .ok reading) (quiet : reading.reports = []) :
    Spanned.Program Node.Starts reading.tokens reading.program ∧
      Grammar.Program reading.tokens reading.program.unplaced := by
  obtain rfl := readText_eq_ok read
  obtain ⟨lexical, syntactic⟩ := List.append_eq_nil_iff.1 quiet
  have lexical : Scanner.reports (Scanner.scan (Cursor.ofBytes file input.bytes)).1 = [] := by
    simpa [Scanner.messages] using lexical
  have proper := Scanner.tokens_proper_of_reports lexical
  obtain ⟨ts, e, tokens, last, open_⟩ := exists_tokens_scan (Cursor.ofBytes file input.bytes)
  rw [tokens] at proper
  have formed : ∀ t ∈ ts, t.kind ≠ .malformed :=
    fun t member => (proper t (List.mem_append_left _ member)).wellFormed
  dsimp only [Reading.program] at syntactic ⊢
  rw [tokens, Outcome.reports_eq_nil_iff] at syntactic
  rw [tokens]
  have spanned := parse_starts limit formed open_ last syntactic
  exact ⟨spanned, spanned.derived⟩

/-- The text `x := (1) + 2`. -/
def parenText : Input := ⟨"x := (1) + 2".toUTF8.toList, none, none⟩

theorem parenText_starts :
    ∃ reading, readText "" parenText false 10 = .ok reading ∧ reading.reports = [] ∧
      reading.program.nodes.map (fun n => (n.name, n.pos.col)) =
        [("Program", 1), ("AssignCmd", 1), ("Ident", 1), ("BinaryExpr", 7), ("IntExpr", 7),
          ("IntLit", 7), ("OpName", 10), ("IntExpr", 12), ("IntLit", 12)] ∧
      Spanned.Program Node.Starts reading.tokens reading.program ∧
      Grammar.Program reading.tokens reading.program.unplaced := by
  have read : readText "" parenText false 10 = .ok _ := rfl
  refine ⟨_, read, ?quiet, ?columns, readText_starts read ?quiet⟩
  case quiet => decide +kernel
  case columns => decide +kernel

section Operations

variable {P : Node → List Token → List Token → Prop} {ts rest : List Token}

/-- An operation has the property of its span, or is in parentheses altogether. -/
theorem operation_cases {pos : Pos} {ty : Option Ty} {x y : Expr} {op : OpName}
    (spanned : Expression P ts (.binary pos ty x op y) rest) :
    P (.expr (.binary pos ty x op y)) ts rest ∨
      ∃ us r, ts = us ++ r :: rest ∧ r.kind = .mark .rparen := by
  cases spanned with
  | primary inner =>
    cases inner with
    | parens opens inner closes =>
      obtain ⟨span, rfl, -⟩ := inner.derived
      exact .inr ⟨_ :: span, _, rfl, closes⟩
  | binary _ _ _ here => exact .inl here

/-- Where the operation starts that is assigned, if the command is such an assignment. -/
def assignedOperation? : Cmd → Option Pos
  | .assign _ _ (.binary pos ..) => some pos
  | _ => none

/-- What is assigned to a name is derived from the third token on. -/
theorem assignedOperation_spanned {p : TriangleTam.Program} {pos : Pos}
    (spanned : Spanned.Program P ts p) (assigned : assignedOperation? p.body = some pos) :
    ∃ ty x op y e, Expression P (ts.drop 2) (.binary pos ty x op y) [e] := by
  cases spanned with
  | ends whole _ _ =>
    unfold assignedOperation? at assigned
    split at assigned
    · next body =>
      obtain rfl := Option.some.inj assigned
      subst body
      cases whole with
      | one only =>
        cases only with
        | assign target _ value _ =>
          obtain ⟨t, rfl, -⟩ := target.token
          exact ⟨_, _, _, _, _, value⟩
    · cases assigned

end Operations

/-- Not every node has the position of its first token: the sum in `x := (1) + 2` does not. -/
theorem parenText_not_startsFirst :
    ∃ reading, readText "" parenText false 10 = .ok reading ∧ reading.reports = [] ∧
      ¬ Spanned.Program Node.StartsFirst reading.tokens reading.program := by
  let ts := Scanner.tokens (Scanner.scan (Cursor.ofBytes "" parenText.bytes)).1
  have paren : (ts.drop 2).head?.map (·.pos) = some ⟨"", 1, 6⟩ := by decide +kernel
  have two : (ts.drop 2).dropLast.getLast?.map (·.kind) = some .integer := by decide +kernel
  have sum : assignedOperation? (parse ts false 10).program.body = some ⟨"", 1, 7⟩ := by
    decide +kernel
  refine ⟨_, rfl, by decide +kernel, fun spanned => ?_⟩
  obtain ⟨ty, x, op, y, e, value⟩ := assignedOperation_spanned spanned sum
  rcases operation_cases value with first | ⟨us, r, split, closes⟩
  · have first : (ts.drop 2).head?.map (·.pos) = some ⟨"", 1, 7⟩ := first
    rw [paren] at first
    exact absurd first (by decide)
  · -- What is in parentheses altogether ends with one, but this ends with a literal.
    have split : ts.drop 2 = us ++ [r, e] := split
    rw [split, List.dropLast_append_of_ne_nil (by simp)] at two
    simp [closes] at two

end Texts

end Parser

end TriangleTam
