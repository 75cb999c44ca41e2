import TriangleTam.Proofs.Parser.Soundness

/-!
# What the parser does not refuse

About tokens that are derived by the grammar the parser reports nothing, and it makes the tree of
the derivation of them. What follows a part decides where that part ends, so each statement says
what may follow: no operator and no parenthesis behind an expression, and only what ends a command
behind a command.
-/

namespace TriangleTam.Parser

open Grammar

variable {cfg : Config}

/-- A step left the tokens `rest`, reported nothing, and made a value that is `v` without
positions. -/
structure Reads {α β : Type} (f : α → β) {ts : List Token} (r : Parsed α ts) (v : β)
    (rest : List Token) : Prop where
  value : f r.value = v
  rest : r.rest = rest
  log : r.log = []

/-- The first of the tokens, if there is one, is of a category with the property `P`. -/
def Follows (P : Kind → Prop) : List Token → Prop
  | [] => True
  | t :: _ => P t.kind

theorem Follows.imp {P Q : Kind → Prop} {rest : List Token} (h : Follows P rest)
    (f : ∀ k, P k → Q k) : Follows Q rest := by
  cases rest with
  | nil => trivial
  | cons t rest => exact f t.kind h

/-- What does not go on with an expression. -/
def EndsExpr (k : Kind) : Prop := k ≠ .operator ∧ k ≠ .mark .lparen

theorem accept_of_kind {t : Token} {kind : Kind} (found : t.kind = kind) (ts : List Token)
    (log : Log) : accept cfg kind (t :: ts) log = ⟨(), ts, log, Nat.le_succ _⟩ := by
  rw [accept, if_pos found]

theorem ident_of_kind {t : Token} (found : t.kind = .identifier) (ts : List Token) (log : Log) :
    ident cfg (t :: ts) log = ⟨⟨t.pos, t.spelling, none⟩, ts, log, Nat.le_succ _⟩ := by
  rw [ident, if_pos found]

/-- Everything a step came to. -/
def Parsed.all {α : Type} {ts : List Token} (r : Parsed α ts) : α × List Token × Log :=
  (r.value, r.rest, r.log)

theorem Parsed.all_eq_iff {α : Type} {ts rest : List Token} {r : Parsed α ts} {a : α} {log : Log} :
    r.all = (a, rest, log) ↔ r.value = a ∧ r.rest = rest ∧ r.log = log := by
  simp [Parsed.all]

theorem reads_of_all {α β : Type} {f : α → β} {ts rest : List Token} {r : Parsed α ts} {a : α}
    {v : β} (all : r.all = (a, rest, [])) (value : f a = v) : Reads f r v rest := by
  obtain ⟨same, left, quiet⟩ := Parsed.all_eq_iff.1 all
  exact ⟨by rw [same, value], left, quiet⟩

section Expressions

theorem expr_all (ts : List Token) (log : Log) :
    (expr cfg ts log).all = (exprTail cfg (primary cfg ts log).value (primary cfg ts log).rest
      (primary cfg ts log).log).all := by
  rw [expr]
  rfl

theorem exprTail_of_operator {t : Token} (operator : t.kind = .operator) (x : Expr)
    (ts : List Token) (log : Log) :
    (exprTail cfg x (t :: ts) log).all =
      (exprTail cfg (.binary x.pos none x ⟨t.pos, t.spelling, none⟩ (primary cfg ts log).value)
        (primary cfg ts log).rest (primary cfg ts log).log).all := by
  rw [exprTail, if_pos operator]
  rfl

theorem exprTail_of_follows (x : Expr) {rest : List Token} (ends : Follows EndsExpr rest)
    (log : Log) : (exprTail cfg x rest log).all = (x, rest, log) := by
  cases rest with
  | nil =>
    rw [exprTail]
    rfl
  | cons t rest =>
    rw [exprTail, if_neg ends.1]
    rfl

theorem nameOrCall_of_follows (t : Token) {rest : List Token}
    (follows : Follows (· ≠ .mark .lparen) rest) (log : Log) :
    (nameOrCall cfg t rest log).all = (.name t.pos none ⟨t.pos, t.spelling, none⟩, rest, log) := by
  cases rest with
  | nil =>
    rw [nameOrCall]
    rfl
  | cons p rest =>
    rw [nameOrCall, if_neg follows]
    rfl

theorem nameOrCall_of_lparen (t : Token) {p : Token} (opens : p.kind = .mark .lparen)
    (ts : List Token) (log : Log) :
    (nameOrCall cfg t (p :: ts) log).all =
      (.call t.pos none ⟨t.pos, t.spelling, none⟩ (argument cfg ts log).value,
        (argument cfg ts log).rest, (argument cfg ts log).log) := by
  rw [nameOrCall, if_pos opens]
  rfl

theorem primary_of_identifier {t : Token} (kind : t.kind = .identifier) (ts : List Token)
    (log : Log) : (primary cfg (t :: ts) log).all = (nameOrCall cfg t ts log).all := by
  rw [primary]
  simp only [kind]
  rfl

theorem primary_of_operator {t : Token} (kind : t.kind = .operator) (ts : List Token)
    (log : Log) :
    (primary cfg (t :: ts) log).all =
      (.unary t.pos none ⟨t.pos, t.spelling, none⟩ (primary cfg ts log).value,
        (primary cfg ts log).rest, (primary cfg ts log).log) := by
  rw [primary]
  simp only [kind]
  rfl

theorem primary_of_lparen {t : Token} (kind : t.kind = .mark .lparen) (ts : List Token)
    (log : Log) :
    (primary cfg (t :: ts) log).all =
      ((expr cfg ts log).value,
        (accept cfg (.mark .rparen) (expr cfg ts log).rest (expr cfg ts log).log).rest,
        (accept cfg (.mark .rparen) (expr cfg ts log).rest (expr cfg ts log).log).log) := by
  rw [primary]
  simp only [kind]
  rfl

theorem param_of_var {w : Token} (word : w.kind = .keyword .var) (ts : List Token) (log : Log) :
    (param cfg (w :: ts) log).all =
      ((varArg cfg w.pos ts log).value, (varArg cfg w.pos ts log).rest,
        (varArg cfg w.pos ts log).log) := by
  rw [param, if_neg (by rw [word]; exact nofun), if_pos word]
  rfl

theorem argument_all (ts : List Token) (log : Log) :
    (argument cfg ts log).all =
      ((param cfg ts log).value,
        (accept cfg (.mark .rparen) (param cfg ts log).rest (param cfg ts log).log).rest,
        (accept cfg (.mark .rparen) (param cfg ts log).rest (param cfg ts log).log).log) := by
  rw [argument]
  rfl

/-- A parameter is read if what stands before the closing parenthesis is. -/
theorem argument_reads {ts rest : List Token} {r : Token} {a : Arg}
    (passed : Reads Arg.unplaced (param cfg ts []) a (r :: rest))
    (closes : r.kind = .mark .rparen) : Reads Arg.unplaced (argument cfg ts []) a rest := by
  refine reads_of_all ?_ passed.value
  rw [argument_all, passed.rest, passed.log, accept_of_kind closes]

/-- An expression is read to its end if what follows ends it. -/
theorem expr_reads {ts rest : List Token} {x y : Expr} (ends : Follows EndsExpr rest)
    (same : y.unplaced = x) (read : (expr cfg ts []).all = (exprTail cfg y rest []).all) :
    Reads Expr.unplaced (expr cfg ts []) x rest := by
  rw [exprTail_of_follows y ends] at read
  exact reads_of_all read same

/-- A token that ends an expression, in front of others. -/
theorem endsExpr_cons {t : Token} {k : Kind} (kind : t.kind = k) (ends : EndsExpr k)
    (rest : List Token) : Follows EndsExpr (t :: rest) := by
  rw [Follows, kind]
  exact ends

theorem Follows.notCall {rest : List Token} (h : Follows EndsExpr rest) :
    Follows (· ≠ .mark .lparen) rest :=
  h.imp fun _ ends => ends.2

mutual

/-- The tokens of an expression are read up to where the chain may go on. -/
theorem expression_complete (cfg : Config) : ∀ {ts : List Token} {x : Expr}, Expression ts x →
    ∀ rest, Follows (· ≠ .mark .lparen) rest →
      ∃ y : Expr, y.unplaced = x ∧ (expr cfg (ts ++ rest) []).all = (exprTail cfg y rest []).all
  | _, _, .primary inner, rest, follows => by
    have read := primary_complete cfg inner rest follows
    refine ⟨_, read.value, ?_⟩
    rw [expr_all, read.rest, read.log]
  | _, _, @Expression.binary ts x t us y left operator right, rest, follows => by
    have before : Follows (· ≠ .mark .lparen) (t :: (us ++ rest)) := by
      rw [Follows, operator]
      exact nofun
    obtain ⟨z, same, read⟩ := expression_complete cfg left (t :: (us ++ rest)) before
    have last := primary_complete cfg right rest follows
    refine ⟨.binary z.pos none z ⟨t.pos, t.spelling, none⟩ (primary cfg (us ++ rest) []).value,
      ?_, ?_⟩
    · rw [Expr.unplaced, same, last.value]
      rfl
    · rw [List.append_assoc, List.cons_append, read, exprTail_of_operator operator, last.rest,
        last.log]

theorem primary_complete (cfg : Config) : ∀ {ts : List Token} {x : Expr},
    PrimaryExpression ts x →
    ∀ rest, Follows (· ≠ .mark .lparen) rest →
      Reads Expr.unplaced (primary cfg (ts ++ rest) []) x rest
  | _, _, @PrimaryExpression.int t kind, rest, _ => by
    rw [List.singleton_append, primary]
    simp only [kind]
    exact ⟨rfl, rfl, rfl⟩
  | _, _, @PrimaryExpression.char t kind, rest, _ => by
    rw [List.singleton_append, primary]
    simp only [kind]
    exact ⟨rfl, rfl, rfl⟩
  | _, _, @PrimaryExpression.name t kind, rest, follows => by
    refine reads_of_all (a := .name t.pos none ⟨t.pos, t.spelling, none⟩) ?_ rfl
    rw [List.singleton_append, primary_of_identifier kind, nameOrCall_of_follows t follows]
  | _, _, @PrimaryExpression.call t p ts a r kind opens passed closes, rest, _ => by
    have read := argument_reads (param_complete cfg passed closes rest) closes
    refine reads_of_all (a := .call t.pos none ⟨t.pos, t.spelling, none⟩
      (argument cfg (ts ++ r :: rest) []).value) ?_ ?_
    · rw [List.append_assoc, List.cons_append, List.cons_append, List.singleton_append,
        primary_of_identifier kind, nameOrCall_of_lparen t opens, read.rest, read.log]
    · rw [Expr.unplaced, read.value]
      rfl
  | _, _, @PrimaryExpression.unary t ts x operator operand, rest, follows => by
    have read := primary_complete cfg operand rest follows
    refine reads_of_all (a := .unary t.pos none ⟨t.pos, t.spelling, none⟩
      (primary cfg (ts ++ rest) []).value) ?_ ?_
    · rw [List.cons_append, primary_of_operator operator, read.rest, read.log]
    · rw [Expr.unplaced, read.value]
      rfl
  | _, _, @PrimaryExpression.parens p ts x r opens inner closes, rest, _ => by
    have ends := endsExpr_cons closes ⟨nofun, nofun⟩ rest
    obtain ⟨y, same, read⟩ := expression_complete cfg inner (r :: rest) ends.notCall
    have read := expr_reads ends same read
    refine reads_of_all ?_ read.value
    rw [List.append_assoc, List.cons_append, List.singleton_append, primary_of_lparen opens,
      read.rest, read.log, accept_of_kind closes]

theorem param_complete (cfg : Config) : ∀ {ts : List Token} {a : Arg}, Parameter ts a →
    ∀ {r : Token}, r.kind = .mark .rparen → ∀ rest,
      Reads Arg.unplaced (param cfg (ts ++ r :: rest) []) a (r :: rest)
  | _, _, .value inner, r, closes, rest => by
    have ends := endsExpr_cons closes ⟨nofun, nofun⟩ rest
    obtain ⟨y, same, read⟩ := expression_complete cfg inner (r :: rest) ends.notCall
    have read := expr_reads ends same read
    obtain ⟨t, us, rfl, starts⟩ := inner.starts
    rw [List.cons_append] at read ⊢
    rw [param, if_pos starts]
    exact ⟨congrArg (Arg.value Pos.none) read.value, read.rest, read.log⟩
  | _, _, @Parameter.var w t word id, r, closes, rest => by
    refine reads_of_all (a := .var w.pos ⟨t.pos, t.spelling, none⟩) ?_ rfl
    rw [List.cons_append, List.singleton_append, param_of_var word, varArg, ident_of_kind id]
  | _, _, .blank, r, closes, rest => by
    rw [List.nil_append, param, if_neg (by rw [closes]; exact nofun),
      if_neg (by rw [closes]; exact nofun), if_pos closes]
    exact ⟨rfl, rfl, rfl⟩

end

theorem expr_complete (cfg : Config) {ts rest : List Token} {x : Expr} (h : Expression ts x)
    (ends : Follows EndsExpr rest) : Reads Expr.unplaced (expr cfg (ts ++ rest) []) x rest := by
  obtain ⟨y, same, read⟩ := expression_complete cfg h rest ends.notCall
  exact expr_reads ends same read

end Expressions

section Declarations

theorem constDecl_all (pos : Pos) (ts : List Token) (log : Log) :
    (constDecl cfg pos ts log).all =
      let name := ident cfg ts log
      let is := accept cfg (.mark .is) name.rest name.log
      let value := expr cfg is.rest is.log
      (.const pos none none name.value value.value, value.rest, value.log) :=
  rfl

theorem varDecl_all (pos : Pos) (ts : List Token) (log : Log) :
    (varDecl cfg pos ts log).all =
      let name := ident cfg ts log
      let colon := accept cfg (.mark .colon) name.rest name.log
      let typeName := ident cfg colon.rest colon.log
      (.var pos none none name.value typeName.value, typeName.rest, typeName.log) :=
  rfl

theorem singleDecl_of_const {w : Token} (word : w.kind = .keyword .const) (ts : List Token)
    (log : Log) : (singleDecl cfg (w :: ts) log).all = (constDecl cfg w.pos ts log).all := by
  rw [singleDecl, if_pos word]
  rfl

theorem singleDecl_of_var {w : Token} (word : w.kind = .keyword .var) (ts : List Token)
    (log : Log) : (singleDecl cfg (w :: ts) log).all = (varDecl cfg w.pos ts log).all := by
  rw [singleDecl, if_neg (by simp [word]), if_pos word]
  rfl

theorem singleDecl_complete (cfg : Config) {ts rest : List Token} {d : Decl}
    (h : SingleDeclaration ts d) (ends : Follows EndsExpr rest) :
    Reads Decl.unplaced (singleDecl cfg (ts ++ rest) []) d rest := by
  cases h with
  | @const w t s ts x word id is value =>
    have read := expr_complete cfg value ends
    refine reads_of_all (a := .const w.pos none none ⟨t.pos, t.spelling, none⟩
      (expr cfg (ts ++ rest) []).value) ?_ ?_
    · rw [List.cons_append, List.cons_append, List.cons_append, singleDecl_of_const word,
        constDecl_all]
      dsimp only
      rw [ident_of_kind id, accept_of_kind is, read.rest, read.log]
    · rw [Decl.unplaced, read.value]
      rfl
  | @var w t s u word id colon type =>
    refine reads_of_all (a := .var w.pos none none ⟨t.pos, t.spelling, none⟩
      ⟨u.pos, u.spelling, none⟩) ?_ rfl
    rw [List.cons_append, List.cons_append, List.cons_append, List.singleton_append,
      singleDecl_of_var word, varDecl_all]
    dsimp only
    rw [ident_of_kind id, accept_of_kind colon, ident_of_kind type]

/-- What ends a list with semicolons in it. -/
def EndsList (P : Kind → Prop) (k : Kind) : Prop := P k ∧ k ≠ .mark .semicolon

theorem declTail_of_follows {rest : List Token} (ends : Follows (EndsList EndsExpr) rest)
    (log : Log) : (declTail cfg rest log).all = ([], rest, log) := by
  cases rest with
  | nil =>
    rw [declTail]
    rfl
  | cons t rest =>
    rw [declTail, if_neg ends.2]
    rfl

/-- The first declaration is read, and then the others. -/
theorem declarations_complete (cfg : Config) {ts rest : List Token} {ds : List Decl}
    (h : Declarations ts ds) (ends : Follows (EndsList EndsExpr) rest) :
    Reads (fun es => (singleDecl cfg (ts ++ rest) []).value.unplaced :: es.map Decl.unplaced)
      (declTail cfg (singleDecl cfg (ts ++ rest) []).rest (singleDecl cfg (ts ++ rest) []).log)
      ds rest := by
  induction h with
  | @one ts d only =>
    have read := singleDecl_complete cfg only (ends.imp fun _ h => h.1)
    rw [read.rest, read.log, read.value]
    exact reads_of_all (declTail_of_follows ends []) rfl
  | @more ts d s us ds first semicolon others ih =>
    have before : Follows EndsExpr (s :: (us ++ rest)) :=
      endsExpr_cons semicolon ⟨nofun, nofun⟩ _
    have read := singleDecl_complete cfg first before
    rw [List.append_assoc, List.cons_append, read.rest, read.log, read.value]
    rw [declTail, if_pos semicolon]
    exact ⟨congrArg (d :: ·) ih.value, ih.rest, ih.log⟩

theorem declaration_complete (cfg : Config) {ts rest : List Token} {ds : List Decl}
    (h : Declarations ts ds) (ends : Follows (EndsList EndsExpr) rest) :
    Reads Decl.unplaced (declaration cfg (ts ++ rest) []) (declSequence ds) rest := by
  have read := declarations_complete cfg h ends
  refine ⟨?_, read.rest, read.log⟩
  rw [← read.value]
  exact unplaced_joinDecls _ _ _

end Declarations

section Commands

theorem endsExpr_of_endsCmd {k : Kind} (ends : k.endsCmd = true) : EndsExpr k := by
  constructor
  · rintro rfl
    cases ends
  · rintro rfl
    cases ends

/-- A token that ends a command, in front of others. -/
theorem endsCmd_cons {t : Token} {k : Kind} (kind : t.kind = k) (ends : k.endsCmd = true)
    (rest : List Token) : Follows (·.endsCmd = true) (t :: rest) := by
  rw [Follows, kind]
  exact ends

theorem assignOrCall_of_becomes (t : Token) {p : Token} (becomes : p.kind = .mark .becomes)
    (ts : List Token) (log : Log) :
    (assignOrCall cfg t (p :: ts) log).all =
      (.assign t.pos ⟨t.pos, t.spelling, none⟩ (expr cfg ts log).value, (expr cfg ts log).rest,
        (expr cfg ts log).log) := by
  rw [assignOrCall, if_pos becomes]
  rfl

theorem assignOrCall_of_lparen (t : Token) {p : Token} (opens : p.kind = .mark .lparen)
    (ts : List Token) (log : Log) :
    (assignOrCall cfg t (p :: ts) log).all =
      (.call t.pos ⟨t.pos, t.spelling, none⟩ (argument cfg ts log).value,
        (argument cfg ts log).rest, (argument cfg ts log).log) := by
  rw [assignOrCall, if_neg (by simp [opens]), if_pos opens]
  rfl

theorem single_of_starts {t : Token} {k : Kind} (kind : t.kind = k) (starts : k.startsCmd = true)
    (ts : List Token) (log : Log) :
    (single cfg (t :: ts) log).all = (started cfg t ts log).all := by
  rw [single_cons, if_pos (by rw [kind]; exact starts)]
  rfl

theorem not_startsCmd_of_endsCmd {k : Kind} (ends : k.endsCmd = true) : ¬ k.startsCmd = true := by
  revert ends
  cases k with
  | keyword w => cases w <;> simp [Kind.startsCmd, Kind.endsCmd]
  | mark m => cases m <;> simp [Kind.startsCmd, Kind.endsCmd]
  | _ => simp [Kind.startsCmd, Kind.endsCmd]

theorem single_of_follows {rest : List Token} (ends : Follows (·.endsCmd = true) rest) :
    Reads Cmd.unplaced (single cfg rest []) (.skip Pos.none false) rest := by
  cases rest with
  | nil =>
    rw [single]
    exact ⟨rfl, rfl, rfl⟩
  | cons t rest =>
    have ends : t.kind.endsCmd = true := ends
    rw [single_cons, if_neg (not_startsCmd_of_endsCmd ends), if_pos ends]
    exact ⟨rfl, rfl, rfl⟩

section Started

variable {w : Token} (ts : List Token) (log : Log)

theorem started_of_identifier (kind : w.kind = .identifier) :
    (started cfg w ts log).all = (assignOrCall cfg w ts log).all := by
  rw [started]
  simp only [kind]

theorem started_of_lbrace (kind : w.kind = .mark .lbrace) :
    (started cfg w ts log).all =
      let body := command cfg ts log
      let close := accept cfg (.mark .rbrace) body.rest body.log
      (.block w.pos body.value (cfg.current body.rest).pos, close.rest, close.log) := by
  rw [started]
  simp only [kind]
  rw [blockCmd]
  rfl

theorem started_of_let (word : w.kind = .keyword .let_) :
    (started cfg w ts log).all =
      let decl := declaration cfg ts log
      let in_ := accept cfg (.keyword .in_) decl.rest decl.log
      let body := single cfg in_.rest in_.log
      (.letIn w.pos decl.value body.value, body.rest, body.log) := by
  rw [started]
  simp only [word]
  rw [letCmd]
  rfl

theorem started_of_if (word : w.kind = .keyword .if_) :
    (started cfg w ts log).all =
      let cond := expr cfg ts log
      let arms := branches cfg cond.rest cond.log
      (.ifElse w.pos cond.value arms.value.1 arms.value.2, arms.rest, arms.log) := by
  rw [started]
  simp only [word]
  rw [ifCmd]
  rfl

theorem started_of_ifeither (word : w.kind = .keyword .ifeither) :
    (started cfg w ts log).all =
      let cond := expr cfg ts log
      let or_ := accept cfg (.keyword .or) cond.rest cond.log
      let alt := expr cfg or_.rest or_.log
      let arms := branches cfg alt.rest alt.log
      (.ifEither w.pos cond.value alt.value arms.value.1 arms.value.2, arms.rest, arms.log) := by
  rw [started]
  simp only [word]
  rw [ifEitherCmd]
  rfl

theorem started_of_while (word : w.kind = .keyword .while_) :
    (started cfg w ts log).all =
      let cond := expr cfg ts log
      let do_ := accept cfg (.keyword .do_) cond.rest cond.log
      let body := single cfg do_.rest do_.log
      (.whileDo w.pos cond.value body.value, body.rest, body.log) := by
  rw [started]
  simp only [word]
  rw [whileCmd]
  rfl

theorem started_of_pass (word : w.kind = .keyword .pass) :
    (started cfg w ts log).all = (.skip w.pos true, ts, log) := by
  rw [started]
  simp only [word]
  rfl

theorem branches_all :
    (branches cfg ts log).all =
      let then_ := accept cfg (.keyword .then_) ts log
      let yes := single cfg then_.rest then_.log
      let else_ := accept cfg (.keyword .else_) yes.rest yes.log
      let no := single cfg else_.rest else_.log
      let endif := accept cfg (.keyword .endif) no.rest no.log
      ((yes.value, no.value), endif.rest, endif.log) := by
  rw [branches]
  rfl

end Started

theorem branches_reads {v s e : Token} {us vs rest : List Token} {c d : Cmd}
    (then_ : v.kind = .keyword .then_)
    (yes : Reads Cmd.unplaced (single cfg (us ++ s :: (vs ++ e :: rest)) []) c
      (s :: (vs ++ e :: rest)))
    (else_ : s.kind = .keyword .else_)
    (no : Reads Cmd.unplaced (single cfg (vs ++ e :: rest) []) d (e :: rest))
    (endif : e.kind = .keyword .endif) :
    Reads (Prod.map Cmd.unplaced Cmd.unplaced)
      (branches cfg (v :: (us ++ s :: (vs ++ e :: rest))) []) (c, d) rest := by
  refine reads_of_all (a := ((single cfg (us ++ s :: (vs ++ e :: rest)) []).value,
    (single cfg (vs ++ e :: rest) []).value)) ?_ ?_
  · rw [branches_all]
    dsimp only
    rw [accept_of_kind then_, yes.rest, yes.log, accept_of_kind else_, no.rest, no.log,
      accept_of_kind endif]
  · rw [Prod.map_apply, yes.value, no.value]

theorem cmdTail_of_follows {rest : List Token} (ends : Follows (EndsList (·.endsCmd = true)) rest)
    (log : Log) : (cmdTail cfg rest log).all = ([], rest, log) := by
  cases rest with
  | nil =>
    rw [cmdTail]
    rfl
  | cons t rest =>
    rw [cmdTail, if_neg ends.2]
    rfl

/-- Commands are read if the first is read, and then the others. -/
theorem command_reads {ts rest : List Token} {cs : List Cmd}
    (read : Reads (fun ds => (single cfg ts []).value.unplaced :: ds.map Cmd.unplaced)
      (cmdTail cfg (single cfg ts []).rest (single cfg ts []).log) cs rest) :
    Reads Cmd.unplaced (command cfg ts []) (sequence cs) rest := by
  rw [command]
  refine ⟨?_, read.rest, read.log⟩
  rw [← read.value]
  exact unplaced_joinCmds _ _ _

mutual

theorem single_complete (cfg : Config) : ∀ {ts : List Token} {c : Cmd}, SingleCommand ts c →
    ∀ rest, Follows (·.endsCmd = true) rest →
      Reads Cmd.unplaced (single cfg (ts ++ rest) []) c rest
  | _, _, @SingleCommand.call t p ts a r kind opens passed closes, rest, _ => by
    have read := argument_reads (param_complete cfg passed closes rest) closes
    refine reads_of_all (a := .call t.pos ⟨t.pos, t.spelling, none⟩
      (argument cfg (ts ++ r :: rest) []).value) ?_ ?_
    · rw [List.append_assoc, List.cons_append, List.cons_append, List.singleton_append,
        single_of_starts kind rfl, started_of_identifier _ _ kind, assignOrCall_of_lparen t opens,
        read.rest, read.log]
    · rw [Cmd.unplaced, read.value]
      rfl
  | _, _, @SingleCommand.assign t p ts x kind becomes value, rest, ends => by
    have read := expr_complete cfg value (ends.imp fun _ h => endsExpr_of_endsCmd h)
    refine reads_of_all (a := .assign t.pos ⟨t.pos, t.spelling, none⟩
      (expr cfg (ts ++ rest) []).value) ?_ ?_
    · rw [List.cons_append, List.cons_append, single_of_starts kind rfl,
        started_of_identifier _ _ kind, assignOrCall_of_becomes t becomes, read.rest, read.log]
    · rw [Cmd.unplaced, read.value]
      rfl
  | _, _, @SingleCommand.block p ts cs r opens body closes, rest, _ => by
    have ends : Follows (EndsList (·.endsCmd = true)) (r :: rest) := by
      rw [Follows, closes]
      exact ⟨rfl, nofun⟩
    have read := command_reads (commands_complete cfg body (r :: rest) ends)
    refine reads_of_all (a := .block p.pos (command cfg (ts ++ r :: rest) []).value r.pos) ?_ ?_
    · rw [List.append_assoc, List.cons_append, List.singleton_append, single_of_starts opens rfl,
        started_of_lbrace _ _ opens]
      dsimp only
      rw [read.rest, read.log, accept_of_kind closes]
      rfl
    · rw [Cmd.unplaced, read.value]
  | _, _, @SingleCommand.letIn w ts ds v us c word decls in_ body, rest, ends => by
    have before : Follows (EndsList EndsExpr) (v :: (us ++ rest)) := by
      rw [Follows, in_]
      exact ⟨⟨nofun, nofun⟩, nofun⟩
    have decl := declaration_complete cfg decls before
    have read := single_complete cfg body rest ends
    refine reads_of_all (a := .letIn w.pos (declaration cfg (ts ++ v :: (us ++ rest)) []).value
      (single cfg (us ++ rest) []).value) ?_ ?_
    · rw [List.append_assoc, List.cons_append, List.cons_append, single_of_starts word rfl,
        started_of_let _ _ word]
      dsimp only
      rw [decl.rest, decl.log, accept_of_kind in_, read.rest, read.log]
    · rw [Cmd.unplaced, decl.value, read.value]
  | _, _, @SingleCommand.ifElse w ts x v us c s vs d e word cond then_ yes else_ no endif,
      rest, _ => by
    have shape : w :: ts ++ v :: us ++ s :: vs ++ [e] ++ rest =
        w :: (ts ++ v :: (us ++ s :: (vs ++ e :: rest))) := by simp
    have first := expr_complete cfg cond (endsExpr_cons then_ ⟨nofun, nofun⟩
      (us ++ s :: (vs ++ e :: rest)))
    have second := branches_reads then_
      (single_complete cfg yes _ (endsCmd_cons else_ rfl (vs ++ e :: rest))) else_
      (single_complete cfg no _ (endsCmd_cons endif rfl rest)) endif
    obtain ⟨same, same'⟩ := Prod.mk.inj second.value
    refine reads_of_all (a := .ifElse w.pos
      (expr cfg (ts ++ v :: (us ++ s :: (vs ++ e :: rest))) []).value
      (branches cfg (v :: (us ++ s :: (vs ++ e :: rest))) []).value.1
      (branches cfg (v :: (us ++ s :: (vs ++ e :: rest))) []).value.2) ?_ ?_
    · rw [shape, single_of_starts word rfl, started_of_if _ _ word]
      dsimp only
      rw [first.rest, first.log, second.rest, second.log]
    · rw [Cmd.unplaced, first.value, same, same']
  | _, _, @SingleCommand.ifEither w ts x o ks y v us c s vs d e word cond or_ alt then_ yes else_ no
      endif, rest, _ => by
    have shape : w :: ts ++ o :: ks ++ v :: us ++ s :: vs ++ [e] ++ rest =
        w :: (ts ++ o :: (ks ++ v :: (us ++ s :: (vs ++ e :: rest)))) := by simp
    have first := expr_complete cfg cond (endsExpr_cons or_ ⟨nofun, nofun⟩
      (ks ++ v :: (us ++ s :: (vs ++ e :: rest))))
    have second := expr_complete cfg alt (endsExpr_cons then_ ⟨nofun, nofun⟩
      (us ++ s :: (vs ++ e :: rest)))
    have third := branches_reads then_
      (single_complete cfg yes _ (endsCmd_cons else_ rfl (vs ++ e :: rest))) else_
      (single_complete cfg no _ (endsCmd_cons endif rfl rest)) endif
    obtain ⟨same, same'⟩ := Prod.mk.inj third.value
    refine reads_of_all (a := .ifEither w.pos
      (expr cfg (ts ++ o :: (ks ++ v :: (us ++ s :: (vs ++ e :: rest)))) []).value
      (expr cfg (ks ++ v :: (us ++ s :: (vs ++ e :: rest))) []).value
      (branches cfg (v :: (us ++ s :: (vs ++ e :: rest))) []).value.1
      (branches cfg (v :: (us ++ s :: (vs ++ e :: rest))) []).value.2) ?_ ?_
    · rw [shape, single_of_starts word rfl, started_of_ifeither _ _ word]
      dsimp only
      rw [first.rest, first.log, accept_of_kind or_, second.rest, second.log, third.rest,
        third.log]
    · rw [Cmd.unplaced, first.value, second.value, same, same']
  | _, _, @SingleCommand.whileDo w ts x v us c word cond do_ body, rest, ends => by
    have first := expr_complete cfg cond (endsExpr_cons do_ ⟨nofun, nofun⟩ (us ++ rest))
    have read := single_complete cfg body rest ends
    refine reads_of_all (a := .whileDo w.pos (expr cfg (ts ++ v :: (us ++ rest)) []).value
      (single cfg (us ++ rest) []).value) ?_ ?_
    · rw [List.append_assoc, List.cons_append, List.cons_append, single_of_starts word rfl,
        started_of_while _ _ word]
      dsimp only
      rw [first.rest, first.log, accept_of_kind do_, read.rest, read.log]
    · rw [Cmd.unplaced, first.value, read.value]
  | _, _, @SingleCommand.pass w word, rest, _ => by
    refine reads_of_all (a := .skip w.pos true) ?_ rfl
    rw [List.singleton_append, single_of_starts word rfl, started_of_pass _ _ word]
  | _, _, .empty, rest, ends => single_of_follows ends

/-- The first command is read, and then the others. -/
theorem commands_complete (cfg : Config) : ∀ {ts : List Token} {cs : List Cmd}, Commands ts cs →
    ∀ rest, Follows (EndsList (·.endsCmd = true)) rest →
      Reads (fun ds => (single cfg (ts ++ rest) []).value.unplaced :: ds.map Cmd.unplaced)
        (cmdTail cfg (single cfg (ts ++ rest) []).rest (single cfg (ts ++ rest) []).log) cs rest
  | _, _, .one only, rest, ends => by
    have read := single_complete cfg only rest (ends.imp fun _ h => h.1)
    rw [read.rest, read.log, read.value]
    exact reads_of_all (cmdTail_of_follows ends []) rfl
  | _, _, @Commands.more ts c s us cs first semicolon others, rest, ends => by
    have read := single_complete cfg first (s :: (us ++ rest)) (endsCmd_cons semicolon rfl _)
    have tail := commands_complete cfg others rest ends
    rw [List.append_assoc, List.cons_append, read.rest, read.log, read.value, cmdTail,
      if_pos semicolon]
    exact ⟨congrArg (c :: ·) tail.value, tail.rest, tail.log⟩

end

end Commands

section Programs

/-- About the tokens of a program nothing is reported. -/
theorem parse_complete {tokens : List Token} {p : TriangleTam.Program}
    (h : Grammar.Program tokens p) (limit : Int) :
    (parse tokens false limit).findings = [] ∧
      (parse tokens false limit).program.unplaced = p := by
  cases h with
  | @ends ts cs e body last =>
    let cfg : Config := ⟨e.pos, false, limitOf limit⟩
    have read := command_reads (commands_complete cfg body [] trivial)
    rw [List.append_nil] at read
    have all : (leftover cfg (command cfg ts []).value (command cfg ts []).rest
        (command cfg ts []).log).all = ((command cfg ts []).value, [], []) := by
      rw [read.rest, read.log, leftover]
      rfl
    obtain ⟨same, -, quiet⟩ := Parsed.all_eq_iff.1 all
    rw [parse_append_end last]
    refine ⟨quiet, ?_⟩
    rw [Program.unplaced, ← read.value, ← same]

/-- The parser accepts exactly the grammar: about tokens of which none is malformed and only the
last is the end of the text nothing is reported exactly if they are a program, and then the tree is
that of the derivation, apart from positions. -/
theorem reports_parse_eq_nil_iff_derived (tokens : List Token) (limit : Int)
    (wellFormed : ∀ t ∈ tokens, t.kind ≠ .malformed)
    (closed : ∃ ts e, tokens = ts ++ [e] ∧ e.kind = .endOfText ∧ ∀ t ∈ ts, t.kind ≠ .endOfText) :
    ((parse tokens false limit).reports = [] ↔ ∃ p, Grammar.Program tokens p) ∧
      ∀ p, Grammar.Program tokens p → (parse tokens false limit).program.unplaced = p := by
  rw [Outcome.reports_eq_nil_iff]
  refine ⟨⟨fun quiet => ?_, fun ⟨p, derived⟩ => (parse_complete derived limit).1⟩,
    fun p derived => (parse_complete derived limit).2⟩
  obtain ⟨ts, e, rfl, last, open_⟩ := closed
  exact ⟨_, parse_sound limit (fun t member => wellFormed t (by simp [member])) open_ last quiet⟩

/-- The tokens of `a := - b + c ; pass`. -/
def signTokens : List Token :=
  [⟨.identifier, "a", ⟨"", 1, 1⟩⟩, ⟨.mark .becomes, ":=", ⟨"", 1, 3⟩⟩,
    ⟨.operator, "-", ⟨"", 1, 6⟩⟩, ⟨.identifier, "b", ⟨"", 1, 8⟩⟩, ⟨.operator, "+", ⟨"", 1, 10⟩⟩,
    ⟨.identifier, "c", ⟨"", 1, 12⟩⟩, ⟨.mark .semicolon, ";", ⟨"", 1, 14⟩⟩,
    ⟨.keyword .pass, "pass", ⟨"", 1, 16⟩⟩, ⟨.endOfText, "", ⟨"", 1, 20⟩⟩]

theorem signTokens_parsed :
    (∀ t ∈ signTokens, t.kind ≠ .malformed) ∧
      (∃ ts e, signTokens = ts ++ [e] ∧ e.kind = .endOfText ∧ ∀ t ∈ ts, t.kind ≠ .endOfText) ∧
        (parse signTokens false 10).reports = [] ∧
          (parse signTokens false 10).program.unplaced =
            ⟨Pos.none, .seq Pos.none
              [.assign Pos.none ⟨Pos.none, "a", none⟩
                (.binary Pos.none none
                  (.unary Pos.none none ⟨Pos.none, "-", none⟩
                    (.name Pos.none none ⟨Pos.none, "b", none⟩))
                  ⟨Pos.none, "+", none⟩ (.name Pos.none none ⟨Pos.none, "c", none⟩)),
                .skip Pos.none true]⟩ := by
  have wellFormed : ∀ t ∈ signTokens, t.kind ≠ .malformed := by decide
  have closed : ∃ ts e, signTokens = ts ++ [e] ∧ e.kind = .endOfText ∧
      ∀ t ∈ ts, t.kind ≠ .endOfText :=
    ⟨signTokens.dropLast, ⟨.endOfText, "", ⟨"", 1, 20⟩⟩, rfl, rfl, by decide⟩
  have derived := Grammar.Program.ends (e := ⟨.endOfText, "", ⟨"", 1, 20⟩⟩)
    (.more (.assign (t := ⟨.identifier, "a", ⟨"", 1, 1⟩⟩) (p := ⟨.mark .becomes, ":=", ⟨"", 1, 3⟩⟩)
      rfl rfl (.binary (t := ⟨.operator, "+", ⟨"", 1, 10⟩⟩)
        (.primary (.unary (t := ⟨.operator, "-", ⟨"", 1, 6⟩⟩) rfl
          (.name (t := ⟨.identifier, "b", ⟨"", 1, 8⟩⟩) rfl))) rfl
        (.name (t := ⟨.identifier, "c", ⟨"", 1, 12⟩⟩) rfl)))
      (s := ⟨.mark .semicolon, ";", ⟨"", 1, 14⟩⟩) rfl
      (.one (.pass (w := ⟨.keyword .pass, "pass", ⟨"", 1, 16⟩⟩) rfl))) rfl
  have accepted := reports_parse_eq_nil_iff_derived signTokens 10 wellFormed closed
  exact ⟨wellFormed, closed, accepted.1.2 ⟨_, derived⟩, accepted.2 _ derived⟩

end Programs

end TriangleTam.Parser
