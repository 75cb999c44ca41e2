import TriangleTam.Proofs.Parser.Simulation
import TriangleTam.Proofs.Tree.Relabelled

/-!
# Parsing moved tokens

What the parser does depends on the categories of the tokens, and never on where they stand. If all
tokens are moved, the tree is that of the tokens before, moved with them, and the same problems are
found at the same tokens.
-/

namespace TriangleTam

/-- The token at another position. -/
def Token.moved (f : Pos → Pos) (t : Token) : Token := { t with pos := f t.pos }

@[simp] theorem Token.kind_moved (f : Pos → Pos) (t : Token) : (t.moved f).kind = t.kind := rfl

/-- The problem, with the token that was found at another position. -/
def ParseError.moved (f : Pos → Pos) : ParseError → ParseError
  | expected kind found => expected kind (found.moved f)
  | noIdentifier found => noIdentifier (found.moved f)
  | e => e

namespace Parser

/-- The problem at another position. -/
def Finding.moved (f : Pos → Pos) (p : Finding) : Finding := ⟨p.left, f p.pos, p.error.moved f⟩

/-- The settings for a text that ends at another position. -/
def Config.moved (f : Pos → Pos) (cfg : Config) : Config := { cfg with endPos := f cfg.endPos }

/-- The tokens that are left and the problems found so far, at other positions. -/
def State.moved (f : Pos → Pos) (s : State) : State :=
  (s.1.map (Token.moved f), s.2.map (Finding.moved f))

/-- Of two results, the second is the first after a move, which changes values by `F`. -/
structure Carried (f : Pos → Pos) {α : Type} (F : α → α) (r r' : α × State) : Prop where
  value : r'.1 = F r.1
  state : r'.2 = r.2.moved f

section Combine

variable {f : Pos → Pos} {α β : Type} {F : α → α} {G : β → β} {r r' : α × State} {q q' : β × State}

/-- One step after another, with both values. -/
theorem Carried.and (first : Carried f F r r') (second : r'.2 = r.2.moved f → Carried f G q q') :
    Carried f (Prod.map F G) ((r.1, q.1), q.2) ((r'.1, q'.1), q'.2) where
  value := by rw [Prod.map_apply, first.value, (second first.state).value]
  state := (second first.state).state

/-- The values are put to use, in the same way before the move and after it. -/
theorem Carried.map (h : Carried f F r r') (k k' : α → β) (natural : ∀ a, k' (F a) = G (k a)) :
    Carried f G (k r.1, r.2) (k' r'.1, r'.2) where
  value := by rw [h.value, natural]
  state := h.state

end Combine

section Tokens

variable {f : Pos → Pos} {cfg : Config} {ts ts' : List Token} {log log' : Log}

@[simp] theorem current_moved (ts : List Token) :
    (cfg.moved f).current (ts.map (Token.moved f)) = (cfg.current ts).moved f := by
  cases ts with
  | nil => rfl
  | cons t ts => rfl

@[simp] theorem isFull_moved (log : Log) :
    (cfg.moved f).isFull (log.map (Finding.moved f)) = cfg.isFull log := by
  simp [Config.isFull, Config.moved]

/-- Moved tokens are used up together with the others, and otherwise the first is the first of them,
moved. -/
theorem front_moved (same : (ts', log') = State.moved f (ts, log)) :
    (ts = [] ∧ ts' = []) ∨ ∃ t us us', ts = t :: us ∧ ts' = t.moved f :: us' ∧
      (us', log') = State.moved f (us, log) := by
  obtain ⟨rfl, rfl⟩ := Prod.mk.inj same
  cases ts with
  | nil => exact .inl ⟨rfl, rfl⟩
  | cons t us => exact .inr ⟨t, us, _, rfl, rfl, rfl⟩

variable (cfg)

theorem pos_moved (same : (ts', log') = State.moved f (ts, log)) :
    ((cfg.moved f).current ts').pos = f (cfg.current ts).pos := by
  obtain ⟨rfl, rfl⟩ := Prod.mk.inj same
  rw [current_moved]
  rfl

theorem report_moved (e : ParseError) (same : (ts', log') = State.moved f (ts, log)) :
    (report (cfg.moved f) (e.moved f) ts' log').state = (report cfg e ts log).state.moved f := by
  obtain ⟨rfl, rfl⟩ := Prod.mk.inj same
  have last : (log.map (Finding.moved f)).getLast?.any (·.left == ts.length) =
      log.getLast?.any (·.left == ts.length) := by
    rw [List.getLast?_map, Option.any_map]
    rfl
  have longer : log.map (Finding.moved f) ++
      [Finding.mk ts.length ((cfg.current ts).moved f).pos (e.moved f)] =
      (log ++ [Finding.mk ts.length (cfg.current ts).pos e]).map (Finding.moved f) := by
    rw [List.map_append]
    rfl
  rw [report, report]
  simp only [current_moved, isFull_moved, List.length_map, last, Token.kind_moved, longer]
  split
  · rfl
  · split
    · rfl
    · rfl

/-- A report, and a node where the parser is after it. -/
theorem report_carried (e : ParseError) (same : (ts', log') = State.moved f (ts, log)) {α : Type}
    {F : α → α} (node : Pos → α) (natural : ∀ pos, node (f pos) = F (node pos)) :
    let r := report cfg e ts log
    let r' := report (cfg.moved f) (e.moved f) ts' log'
    Carried f F (node (cfg.current r.rest).pos, r.state)
      (node ((cfg.moved f).current r'.rest).pos, r'.state) where
  value := by
    dsimp only
    rw [pos_moved cfg (report_moved cfg e same), natural]
  state := report_moved cfg e same

/-- A report, and a node where the parser was before it. -/
theorem report_carried_before (e : ParseError) (same : (ts', log') = State.moved f (ts, log))
    {α : Type} {F : α → α} (node : Pos → α) (natural : ∀ pos, node (f pos) = F (node pos)) :
    Carried f F (node (cfg.current ts).pos, (report cfg e ts log).state)
      (node ((cfg.moved f).current ts').pos,
        (report (cfg.moved f) (e.moved f) ts' log').state) where
  value := by rw [pos_moved cfg same, natural]
  state := report_moved cfg e same

theorem reportMissing_carried (kind : Kind) (same : (ts', log') = State.moved f (ts, log)) :
    Carried f id (reportMissing cfg kind ts log).all
      (reportMissing (cfg.moved f) kind ts' log').all := by
  have found : (ParseError.expected kind (cfg.current ts)).moved f =
      .expected kind ((cfg.moved f).current ts') := by
    obtain ⟨rfl, rfl⟩ := Prod.mk.inj same
    rw [current_moved]
    rfl
  have lenient : (cfg.moved f).lenient = cfg.lenient := rfl
  rw [reportMissing, reportMissing, lenient, ← found]
  split
  · exact ⟨rfl, same⟩
  · exact ⟨rfl, report_moved cfg _ same⟩

theorem accept_carried (kind : Kind) (same : (ts', log') = State.moved f (ts, log)) :
    Carried f id (accept cfg kind ts log).all (accept (cfg.moved f) kind ts' log').all := by
  have missing := reportMissing_carried cfg kind same
  obtain ⟨rfl, rfl⟩ | ⟨t, us, us', rfl, rfl, later⟩ := front_moved same
  · exact missing
  · rw [accept, accept, Token.kind_moved]
    by_cases found : t.kind = kind
    · rw [if_pos found, if_pos found]
      exact ⟨rfl, later⟩
    · rw [if_neg found, if_neg found]
      exact missing

theorem missingIdent_carried (same : (ts', log') = State.moved f (ts, log)) :
    Carried f (Ident.relabel (.ofPositions f)) (missingIdent cfg ts log).all
      (missingIdent (cfg.moved f) ts' log').all := by
  obtain ⟨rfl, rfl⟩ := Prod.mk.inj same
  have carried := report_carried_before cfg (.noIdentifier (cfg.current ts)) same
    (F := Ident.relabel (.ofPositions f)) (⟨·, "", none⟩) fun _ => rfl
  rw [missingIdent, missingIdent]
  simp only [current_moved] at carried ⊢
  exact carried

theorem ident_carried (same : (ts', log') = State.moved f (ts, log)) :
    Carried f (Ident.relabel (.ofPositions f)) (ident cfg ts log).all
      (ident (cfg.moved f) ts' log').all := by
  have missing := missingIdent_carried cfg same
  obtain ⟨rfl, rfl⟩ | ⟨t, us, us', rfl, rfl, later⟩ := front_moved same
  · exact missing
  · rw [ident, ident, Token.kind_moved]
    by_cases found : t.kind = .identifier
    · rw [if_pos found, if_pos found]
      exact ⟨rfl, later⟩
    · rw [if_neg found, if_neg found]
      exact missing

theorem skipWhile_moved (p : Kind → Bool) (same : (ts', log') = State.moved f (ts, log)) :
    (skipWhile p ts', log') = State.moved f (skipWhile p ts, log) := by
  obtain ⟨rfl, rfl⟩ := Prod.mk.inj same
  rw [skipWhile, List.dropWhile_map]
  rfl

end Tokens

section Expressions

variable {f : Pos → Pos} (cfg : Config) {ts ts' : List Token} {log log' : Log}

theorem missingExpr_carried (same : (ts', log') = State.moved f (ts, log)) :
    Carried f (Expr.relabel (.ofPositions f)) (missingExpr cfg ts log).all
      (missingExpr (cfg.moved f) ts' log').all :=
  report_carried cfg .noExpression same (Expr.bad · none) fun _ => rfl

theorem missingArg_carried (same : (ts', log') = State.moved f (ts, log)) :
    Carried f (Arg.relabel (.ofPositions f)) (missingArg cfg ts log).all
      (missingArg (cfg.moved f) ts' log').all :=
  report_carried_before cfg .noParameter same Arg.bad fun _ => rfl

-- The recursion is that of the parser, with the same measures.
mutual

theorem expr_carried (ts : List Token) (log : Log) {ts' : List Token} {log' : Log}
    (same : (ts', log') = State.moved f (ts, log)) :
    Carried f (Expr.relabel (.ofPositions f)) (expr cfg ts log).all
      (expr (cfg.moved f) ts' log').all := by
  have le := (primary cfg ts log).le
  have first := primary_carried ts log same
  rw [expr_all, expr_all]
  exact exprTail_carried _ first.value _ _ first.state
termination_by 5 * ts.length + 2
decreasing_by all_goals omega

theorem exprTail_carried (x : Expr) {x' : Expr} (moved : x' = x.relabel (.ofPositions f))
    (ts : List Token) (log : Log) {ts' : List Token} {log' : Log}
    (same : (ts', log') = State.moved f (ts, log)) :
    Carried f (Expr.relabel (.ofPositions f)) (exprTail cfg x ts log).all
      (exprTail (cfg.moved f) x' ts' log').all := by
  obtain ⟨none, none'⟩ | ⟨t, us, us', first, first', later⟩ := front_moved same
  · rw [none, none'] at same ⊢
    rw [exprTail, exprTail]
    exact ⟨moved, same⟩
  · have shorter : us.length < ts.length := by simp [first]
    rw [first, first'] at same ⊢
    by_cases operator : t.kind = .operator
    · have le := (primary cfg us log).le
      have next := primary_carried us log later
      rw [exprTail_of_operator operator, exprTail_of_operator (t := t.moved f) operator]
      refine exprTail_carried _ ?_ _ _ next.state
      rw [moved, Expr.pos_relabel, show (primary _ us' _).value = _ from next.value]
      rfl
    · rw [exprTail, exprTail, Token.kind_moved, if_neg operator, if_neg operator]
      exact ⟨moved, same⟩
termination_by 5 * ts.length + 1
decreasing_by all_goals omega

theorem primary_carried (ts : List Token) (log : Log) {ts' : List Token} {log' : Log}
    (same : (ts', log') = State.moved f (ts, log)) :
    Carried f (Expr.relabel (.ofPositions f)) (primary cfg ts log).all
      (primary (cfg.moved f) ts' log').all := by
  have missing := missingExpr_carried cfg same
  obtain ⟨none, none'⟩ | ⟨t, us, us', first, first', later⟩ := front_moved same
  · rw [none, none'] at missing ⊢
    rw [primary, primary]
    exact missing
  · have shorter : us.length < ts.length := by simp [first]
    rw [first, first'] at missing ⊢
    by_cases starts : t.kind.startsExpr = true
    · rcases startsExpr_cases starts with kind | kind | kind | kind | kind
      · rw [primary, primary]
        simp only [Token.kind_moved, kind]
        exact ⟨rfl, later⟩
      · rw [primary, primary]
        simp only [Token.kind_moved, kind]
        exact ⟨rfl, later⟩
      · rw [primary_of_identifier kind, primary_of_identifier (t := t.moved f) kind]
        exact nameOrCall_carried t us log later
      · rw [primary_of_operator kind, primary_of_operator (t := t.moved f) kind]
        exact (primary_carried us log later).map _ _ fun _ => rfl
      · rw [primary_of_lparen kind, primary_of_lparen (t := t.moved f) kind]
        have both := (expr_carried us log later).and
          fun same => accept_carried cfg (.mark .rparen) same
        exact both.map Prod.fst Prod.fst fun _ => rfl
    · by_cases malformed : t.kind = .malformed
      · rw [primary, primary]
        simp only [Token.kind_moved, malformed]
        exact ⟨rfl, later⟩
      · rw [primary_of_not_startsExpr starts malformed,
          primary_of_not_startsExpr (t := t.moved f) starts malformed]
        exact missing
termination_by 5 * ts.length
decreasing_by all_goals omega

theorem nameOrCall_carried (t : Token) (ts : List Token) (log : Log) {ts' : List Token}
    {log' : Log} (same : (ts', log') = State.moved f (ts, log)) :
    Carried f (Expr.relabel (.ofPositions f)) (nameOrCall cfg t ts log).all
      (nameOrCall (cfg.moved f) (t.moved f) ts' log').all := by
  obtain ⟨none, none'⟩ | ⟨p, us, us', first, first', later⟩ := front_moved same
  · rw [none, none'] at same ⊢
    rw [nameOrCall, nameOrCall]
    exact ⟨rfl, same⟩
  · have shorter : us.length < ts.length := by simp [first]
    rw [first, first'] at same ⊢
    by_cases opens : p.kind = .mark .lparen
    · rw [nameOrCall_of_lparen t opens, nameOrCall_of_lparen (t.moved f) (p := p.moved f) opens]
      exact (argument_carried us log later).map _ _ fun _ => rfl
    · rw [nameOrCall, nameOrCall, Token.kind_moved, if_neg opens, if_neg opens]
      exact ⟨rfl, same⟩
termination_by 5 * ts.length + 1
decreasing_by all_goals omega

theorem argument_carried (ts : List Token) (log : Log) {ts' : List Token} {log' : Log}
    (same : (ts', log') = State.moved f (ts, log)) :
    Carried f (Arg.relabel (.ofPositions f)) (argument cfg ts log).all
      (argument (cfg.moved f) ts' log').all := by
  have both := (param_carried ts log same).and fun same => accept_carried cfg (.mark .rparen) same
  rw [argument_all, argument_all]
  exact both.map Prod.fst Prod.fst fun _ => rfl
termination_by 5 * ts.length + 4
decreasing_by all_goals omega

theorem param_carried (ts : List Token) (log : Log) {ts' : List Token} {log' : Log}
    (same : (ts', log') = State.moved f (ts, log)) :
    Carried f (Arg.relabel (.ofPositions f)) (param cfg ts log).all
      (param (cfg.moved f) ts' log').all := by
  have missing := missingArg_carried cfg same
  obtain ⟨none, none'⟩ | ⟨t, us, us', first, first', later⟩ := front_moved same
  · rw [none, none'] at missing ⊢
    rw [param, param]
    exact missing
  · have shorter : us.length < ts.length := by simp [first]
    have value := expr_carried ts log same
    rw [first, first'] at same missing value ⊢
    by_cases starts : t.kind.startsExpr = true
    · rw [param, param, Token.kind_moved, if_pos starts, if_pos starts]
      exact value.map (Arg.value t.pos) _ fun _ => rfl
    · by_cases word : t.kind = .keyword .var
      · rw [param_of_var word, param_of_var (w := t.moved f) word]
        exact (ident_carried cfg later).map (Arg.var t.pos) _ fun _ => rfl
      · rw [param, param, Token.kind_moved, if_neg starts, if_neg starts, if_neg word, if_neg word]
        by_cases closes : t.kind = .mark .rparen
        · rw [if_pos closes, if_pos closes]
          exact ⟨rfl, same⟩
        · rw [if_neg closes, if_neg closes]
          exact missing
termination_by 5 * ts.length + 3
decreasing_by all_goals omega

end

end Expressions

section Declarations

variable {f : Pos → Pos} (cfg : Config) {ts ts' : List Token} {log log' : Log}

theorem missingDecl_carried (same : (ts', log') = State.moved f (ts, log)) :
    Carried f (Decl.relabel (.ofPositions f)) (missingDecl cfg ts log).all
      (missingDecl (cfg.moved f) ts' log').all :=
  report_carried cfg .noDeclaration same Decl.bad fun _ => rfl

theorem constDecl_carried (pos : Pos) (same : (ts', log') = State.moved f (ts, log)) :
    Carried f (Decl.relabel (.ofPositions f)) (constDecl cfg pos ts log).all
      (constDecl (cfg.moved f) (f pos) ts' log').all := by
  have is := (ident_carried cfg same).and fun same => accept_carried cfg (.mark .is) same
  have value := is.and fun same => expr_carried cfg _ _ same
  exact value.map (fun v => Decl.const pos none none v.1.1 v.2)
    (fun v => Decl.const (f pos) none none v.1.1 v.2) fun _ => rfl

theorem varDecl_carried (pos : Pos) (same : (ts', log') = State.moved f (ts, log)) :
    Carried f (Decl.relabel (.ofPositions f)) (varDecl cfg pos ts log).all
      (varDecl (cfg.moved f) (f pos) ts' log').all := by
  have colon := (ident_carried cfg same).and fun same => accept_carried cfg (.mark .colon) same
  have typeName := colon.and fun same => ident_carried cfg same
  exact typeName.map (fun v => Decl.var pos none none v.1.1 v.2)
    (fun v => Decl.var (f pos) none none v.1.1 v.2) fun _ => rfl

theorem singleDecl_carried (same : (ts', log') = State.moved f (ts, log)) :
    Carried f (Decl.relabel (.ofPositions f)) (singleDecl cfg ts log).all
      (singleDecl (cfg.moved f) ts' log').all := by
  have missing := missingDecl_carried cfg same
  obtain ⟨rfl, rfl⟩ | ⟨t, us, us', rfl, rfl, later⟩ := front_moved same
  · exact missing
  · by_cases const : t.kind = .keyword .const
    · rw [singleDecl_of_const const, singleDecl_of_const (w := t.moved f) const]
      exact constDecl_carried cfg t.pos later
    · by_cases var : t.kind = .keyword .var
      · rw [singleDecl_of_var var, singleDecl_of_var (w := t.moved f) var]
        exact varDecl_carried cfg t.pos later
      · rw [singleDecl, singleDecl, Token.kind_moved, if_neg const, if_neg const, if_neg var,
          if_neg var]
        exact missing

theorem declTail_carried (ts : List Token) (log : Log) {ts' : List Token} {log' : Log}
    (same : (ts', log') = State.moved f (ts, log)) :
    Carried f (List.map (Decl.relabel (.ofPositions f))) (declTail cfg ts log).all
      (declTail (cfg.moved f) ts' log').all := by
  obtain ⟨none, none'⟩ | ⟨t, us, us', first, first', later⟩ := front_moved same
  · rw [none, none'] at same ⊢
    rw [declTail, declTail]
    exact ⟨rfl, same⟩
  · have le := (singleDecl cfg us log).le
    have shorter : us.length < ts.length := by simp [first]
    rw [first, first'] at same ⊢
    by_cases semicolon : t.kind = .mark .semicolon
    · rw [declTail_of_semicolon semicolon, declTail_of_semicolon (s := t.moved f) semicolon]
      have both := (singleDecl_carried cfg later).and fun same => declTail_carried _ _ same
      exact both.map (fun v => v.1 :: v.2) (fun v => v.1 :: v.2) fun _ => rfl
    · rw [declTail, declTail, Token.kind_moved, if_neg semicolon, if_neg semicolon]
      exact ⟨rfl, same⟩
termination_by ts.length
decreasing_by all_goals omega

theorem joinDecls_relabel (r : Relabelling) (pos : Pos) (d : Decl) (ds : List Decl) :
    joinDecls (r.pos pos) (d.relabel r) (ds.map (Decl.relabel r)) =
      (joinDecls pos d ds).relabel r := by
  cases ds with
  | nil => rfl
  | cons e ds => simp [joinDecls, Decl.relabel]

theorem declaration_carried (same : (ts', log') = State.moved f (ts, log)) :
    Carried f (Decl.relabel (.ofPositions f)) (declaration cfg ts log).all
      (declaration (cfg.moved f) ts' log').all := by
  have both := (singleDecl_carried cfg same).and fun same => declTail_carried cfg _ _ same
  rw [declaration, declaration, pos_moved cfg same]
  exact both.map (fun v => joinDecls (cfg.current ts).pos v.1 v.2)
    (fun v => joinDecls (f (cfg.current ts).pos) v.1 v.2)
    fun v => joinDecls_relabel (.ofPositions f) _ v.1 v.2

end Declarations

section Commands

variable {f : Pos → Pos} (cfg : Config) {ts ts' : List Token} {log log' : Log}

theorem badCmd_carried (e : ParseError) (same : (ts', log') = State.moved f (ts, log)) :
    Carried f (Cmd.relabel (.ofPositions f)) (badCmd cfg e ts log).all
      (badCmd (cfg.moved f) (e.moved f) ts' log').all := by
  have reported := report_carried cfg e same Cmd.bad
    (F := Cmd.relabel (.ofPositions f)) fun _ => rfl
  exact ⟨reported.value, skipWhile_moved (!·.endsCmd) reported.state⟩

theorem assignOrCall_carried (t : Token) (same : (ts', log') = State.moved f (ts, log)) :
    Carried f (Cmd.relabel (.ofPositions f)) (assignOrCall cfg t ts log).all
      (assignOrCall (cfg.moved f) (t.moved f) ts' log').all := by
  have bad := badCmd_carried cfg .noAssignOrCall same
  obtain ⟨rfl, rfl⟩ | ⟨p, us, us', rfl, rfl, later⟩ := front_moved same
  · exact bad
  · by_cases becomes : p.kind = .mark .becomes
    · rw [assignOrCall_of_becomes t becomes,
        assignOrCall_of_becomes (t.moved f) (p := p.moved f) becomes]
      exact (expr_carried cfg us log later).map _ _ fun _ => rfl
    · by_cases opens : p.kind = .mark .lparen
      · rw [assignOrCall_of_lparen t opens,
          assignOrCall_of_lparen (t.moved f) (p := p.moved f) opens]
        exact (argument_carried cfg us log later).map _ _ fun _ => rfl
      · rw [assignOrCall, assignOrCall, Token.kind_moved, if_neg becomes, if_neg becomes,
          if_neg opens, if_neg opens]
        exact bad

theorem joinCmds_relabel (r : Relabelling) (pos : Pos) (c : Cmd) (cs : List Cmd) :
    joinCmds (r.pos pos) (c.relabel r) (cs.map (Cmd.relabel r)) =
      (joinCmds pos c cs).relabel r := by
  cases cs with
  | nil => rfl
  | cons d cs => simp [joinCmds, Cmd.relabel]

mutual

theorem command_carried (ts : List Token) (log : Log) {ts' : List Token} {log' : Log}
    (same : (ts', log') = State.moved f (ts, log)) :
    Carried f (Cmd.relabel (.ofPositions f)) (command cfg ts log).all
      (command (cfg.moved f) ts' log').all := by
  have le := (single cfg ts log).le
  have both := (single_carried ts log same).and fun same => cmdTail_carried _ _ same
  rw [command_all, command_all, pos_moved cfg same]
  exact both.map (fun v => joinCmds (cfg.current ts).pos v.1 v.2)
    (fun v => joinCmds (f (cfg.current ts).pos) v.1 v.2)
    fun v => joinCmds_relabel (.ofPositions f) _ v.1 v.2
termination_by 4 * ts.length + 2
decreasing_by all_goals omega

theorem cmdTail_carried (ts : List Token) (log : Log) {ts' : List Token} {log' : Log}
    (same : (ts', log') = State.moved f (ts, log)) :
    Carried f (List.map (Cmd.relabel (.ofPositions f))) (cmdTail cfg ts log).all
      (cmdTail (cfg.moved f) ts' log').all := by
  obtain ⟨none, none'⟩ | ⟨t, us, us', first, first', later⟩ := front_moved same
  · rw [none, none'] at same ⊢
    rw [cmdTail, cmdTail]
    exact ⟨rfl, same⟩
  · have le := (single cfg us log).le
    have shorter : us.length < ts.length := by simp [first]
    rw [first, first'] at same ⊢
    by_cases semicolon : t.kind = .mark .semicolon
    · rw [cmdTail_of_semicolon semicolon, cmdTail_of_semicolon (s := t.moved f) semicolon]
      have both := (single_carried us log later).and fun same => cmdTail_carried _ _ same
      exact both.map (fun v => v.1 :: v.2) (fun v => v.1 :: v.2) fun _ => rfl
    · rw [cmdTail, cmdTail, Token.kind_moved, if_neg semicolon, if_neg semicolon]
      exact ⟨rfl, same⟩
termination_by 4 * ts.length + 1
decreasing_by all_goals omega

theorem single_carried (ts : List Token) (log : Log) {ts' : List Token} {log' : Log}
    (same : (ts', log') = State.moved f (ts, log)) :
    Carried f (Cmd.relabel (.ofPositions f)) (single cfg ts log).all
      (single (cfg.moved f) ts' log').all := by
  have bad := badCmd_carried cfg .noCommand same
  obtain ⟨none, none'⟩ | ⟨t, us, us', first, first', later⟩ := front_moved same
  · rw [none, none'] at same ⊢
    rw [single, single]
    exact ⟨rfl, same⟩
  · have shorter : us.length < ts.length := by simp [first]
    rw [first, first'] at same bad ⊢
    by_cases starts : t.kind.startsCmd = true
    · rw [single_of_starts rfl starts, single_of_starts (t := t.moved f) rfl starts]
      exact started_carried t us log starts later
    · rw [single_cons, single_cons, Token.kind_moved, if_neg starts, if_neg starts]
      by_cases ends : t.kind.endsCmd = true
      · rw [if_pos ends, if_pos ends]
        exact ⟨rfl, same⟩
      · rw [if_neg ends, if_neg ends]
        exact bad
termination_by 4 * ts.length
decreasing_by all_goals omega

theorem started_carried (t : Token) (ts : List Token) (log : Log) {ts' : List Token} {log' : Log}
    (starts : t.kind.startsCmd = true) (same : (ts', log') = State.moved f (ts, log)) :
    Carried f (Cmd.relabel (.ofPositions f)) (started cfg t ts log).all
      (started (cfg.moved f) (t.moved f) ts' log').all := by
  have afterExpr := (expr cfg ts log).le
  rcases startsCmd_cases starts with kind | kind | kind | kind | kind | kind | kind
  · rw [started_of_identifier _ _ kind, started_of_identifier _ _ (w := t.moved f) kind]
    exact assignOrCall_carried cfg t same
  · rw [started_of_lbrace _ _ kind, started_of_lbrace _ _ (w := t.moved f) kind]
    have body := command_carried ts log same
    have close := body.and fun same => accept_carried cfg (.mark .rbrace) same
    dsimp only
    rw [pos_moved cfg body.state]
    exact close.map
      (fun v => Cmd.block t.pos v.1 (cfg.current (command cfg ts log).rest).pos)
      (fun v => Cmd.block (f t.pos) v.1 (f (cfg.current (command cfg ts log).rest).pos))
      fun _ => rfl
  · rw [started_of_let _ _ kind, started_of_let _ _ (w := t.moved f) kind]
    have moves : Moves cfg (fun _ => True) (ts, log) _ :=
      (declaration_moves ts log).trans (accept_moves_any (.keyword .in_) _ _)
    have le := moves.length_le
    have word := (declaration_carried cfg same).and
      fun same => accept_carried cfg (.keyword .in_) same
    have body := word.and fun same => single_carried _ _ same
    exact body.map (fun v => Cmd.letIn t.pos v.1.1 v.2) (fun v => Cmd.letIn (f t.pos) v.1.1 v.2)
      fun _ => rfl
  · rw [started_of_if _ _ kind, started_of_if _ _ (w := t.moved f) kind]
    have arms := (expr_carried cfg ts log same).and fun same => branches_carried _ _ same
    exact arms.map (fun v => Cmd.ifElse t.pos v.1 v.2.1 v.2.2)
      (fun v => Cmd.ifElse (f t.pos) v.1 v.2.1 v.2.2) fun _ => rfl
  · rw [started_of_ifeither _ _ kind, started_of_ifeither _ _ (w := t.moved f) kind]
    have inner : Inner (.keyword .or) := by decide
    have moves : Moves cfg Inner (ts, log) _ :=
      ((expr_moves ts log).trans (accept_moves inner _ _)).trans (expr_moves _ _)
    have le := moves.length_le
    have word := (expr_carried cfg ts log same).and
      fun same => accept_carried cfg (.keyword .or) same
    have alt := word.and fun same => expr_carried cfg _ _ same
    have arms := alt.and fun same => branches_carried _ _ same
    exact arms.map (fun v => Cmd.ifEither t.pos v.1.1.1 v.1.2 v.2.1 v.2.2)
      (fun v => Cmd.ifEither (f t.pos) v.1.1.1 v.1.2 v.2.1 v.2.2) fun _ => rfl
  · rw [started_of_while _ _ kind, started_of_while _ _ (w := t.moved f) kind]
    have inner : Inner (.keyword .do_) := by decide
    have moves : Moves cfg Inner (ts, log) _ := (expr_moves ts log).trans (accept_moves inner _ _)
    have le := moves.length_le
    have word := (expr_carried cfg ts log same).and
      fun same => accept_carried cfg (.keyword .do_) same
    have body := word.and fun same => single_carried _ _ same
    exact body.map (fun v => Cmd.whileDo t.pos v.1.1 v.2)
      (fun v => Cmd.whileDo (f t.pos) v.1.1 v.2) fun _ => rfl
  · rw [started_of_pass _ _ kind, started_of_pass _ _ (w := t.moved f) kind]
    exact ⟨rfl, same⟩
termination_by 4 * ts.length + 3
decreasing_by all_goals omega

theorem branches_carried (ts : List Token) (log : Log) {ts' : List Token} {log' : Log}
    (same : (ts', log') = State.moved f (ts, log)) :
    Carried f (Prod.map (Cmd.relabel (.ofPositions f)) (Cmd.relabel (.ofPositions f)))
      (branches cfg ts log).all (branches (cfg.moved f) ts' log').all := by
  have moves₁ : Moves cfg (fun _ => True) (ts, log) _ := accept_moves_any (.keyword .then_) ts log
  have le₁ := moves₁.length_le
  have moves₂ := (moves₁.trans (single_moves _ _)).trans (accept_moves_any (.keyword .else_) _ _)
  have le₂ := moves₂.length_le
  have yes := (accept_carried cfg (.keyword .then_) same).and fun same => single_carried _ _ same
  have middle := yes.and fun same => accept_carried cfg (.keyword .else_) same
  have no := middle.and fun same => single_carried _ _ same
  have close := no.and fun same => accept_carried cfg (.keyword .endif) same
  rw [branches_all, branches_all]
  exact close.map (fun v => (v.1.1.1.2, v.1.2)) (fun v => (v.1.1.1.2, v.1.2)) fun _ => rfl
termination_by 4 * ts.length + 1
decreasing_by all_goals omega

end

end Commands

section Programs

variable {f : Pos → Pos} (cfg : Config) {ts ts' : List Token} {log log' : Log}

theorem appendCmd_relabel (r : Relabelling) (c next : Cmd) :
    appendCmd (c.relabel r) (next.relabel r) = (appendCmd c next).relabel r := by
  cases c <;> cases next <;> simp [appendCmd, Cmd.relabel, Cmd.pos]

theorem leftover_carried (c : Cmd) {c' : Cmd} (moved : c' = c.relabel (.ofPositions f))
    (ts : List Token) (log : Log) {ts' : List Token} {log' : Log}
    (same : (ts', log') = State.moved f (ts, log)) :
    Carried f (Cmd.relabel (.ofPositions f)) (leftover cfg c ts log).all
      (leftover (cfg.moved f) c' ts' log').all := by
  obtain ⟨none, none'⟩ | ⟨t, us, us', first, first', later⟩ := front_moved same
  · rw [none, none'] at same ⊢
    rw [leftover, leftover]
    exact ⟨moved, same⟩
  · have length : ts.length = us.length + 1 := by simp [first]
    rw [first, first'] at same ⊢
    by_cases end_ : t.isEnd = true
    · rw [leftover_of_isEnd end_, leftover_of_isEnd (t := t.moved f) end_]
      exact ⟨moved, same⟩
    · rw [leftover_of_not_isEnd end_, leftover_of_not_isEnd (t := t.moved f) end_]
      have skip : Moves cfg (fun _ => True) (t :: us, log) _ :=
        (accept_moves_any .endOfText (t :: us) log).trans
          (moves_skipWhile (p := isStray) (fun _ _ => trivial) _ _)
      have le := skip.length_le
      have skipped : (_, _) = State.moved f (_, (accept cfg .endOfText (t :: us) log).log) :=
        skipWhile_moved isStray (accept_carried cfg .endOfText same).state
      -- Both parsers skip the same tokens, and then each is at the end or at the same token.
      dsimp only
      generalize (accept cfg .endOfText (t :: us) log).log = found at skipped ⊢
      obtain ⟨none, none'⟩ | ⟨u, vs, vs', next, next', later⟩ := front_moved skipped
      · rw [none, none'] at skipped ⊢
        exact ⟨moved, skipped⟩
      · have bound : vs.length < ts.length := by
          rw [next, List.length_cons] at le
          rw [length]
          exact le
        rw [next, next'] at skipped ⊢
        rw [resume, resume, Token.kind_moved]
        by_cases semicolon : u.kind = .mark .semicolon
        · have shorter := Nat.lt_of_le_of_lt (command cfg vs found).le bound
          have carried := command_carried cfg vs _ later
          rw [if_pos semicolon, if_pos semicolon]
          refine leftover_carried _ ?_ _ _ carried.state
          rw [moved, ← appendCmd_relabel]
          exact congrArg _ carried.value
        · rw [if_neg semicolon, if_neg semicolon]
          by_cases starts : u.kind.startsCmd = true
          · have shorter :=
              Nat.lt_of_lt_of_le (command_length_lt cfg starts vs found) (Nat.succ_le_of_lt bound)
            have carried := command_carried cfg (u :: vs) found skipped
            rw [if_pos starts, if_pos starts]
            refine leftover_carried _ ?_ _ _ carried.state
            rw [moved, ← appendCmd_relabel]
            exact congrArg _ carried.value
          · rw [if_neg starts, if_neg starts]
            exact ⟨moved, skipped⟩
termination_by ts.length
decreasing_by all_goals omega

theorem split_moved (nowhere : f Pos.none = Pos.none) (tokens : List Token) :
    split (tokens.map (Token.moved f)) =
      ((split tokens).1.map (Token.moved f), f (split tokens).2) := by
  rw [split, split, List.getLast?_map]
  cases tokens.getLast? with
  | none => rw [Option.map_none, nowhere]; rfl
  | some t =>
    rw [Option.map_some]
    dsimp only
    have end_ : (t.moved f).isEnd = t.isEnd := rfl
    rw [end_]
    split
    · rw [List.map_dropLast]
      rfl
    · rfl

/-- The outcome, with the program and the problems at other positions. -/
def Outcome.moved (f : Pos → Pos) (o : Outcome) : Outcome :=
  ⟨o.program.relabel (.ofPositions f), o.findings.map (Finding.moved f), o.aborted⟩

/-- Moved tokens are parsed to the moved program. -/
theorem parse_moved (nowhere : f Pos.none = Pos.none) (tokens : List Token) (lenient : Bool)
    (limit : Int) :
    parse (tokens.map (Token.moved f)) lenient limit = (parse tokens lenient limit).moved f := by
  let cfg : Config := ⟨(split tokens).2, lenient, limitOf limit⟩
  have first := command_carried (f := f) cfg (split tokens).1 [] rfl
  have all := leftover_carried cfg _ first.value _ _ first.state
  have found := congrArg Prod.snd all.state
  have place : ((cfg.moved f).current ((split tokens).1.map (Token.moved f))).pos =
      f (cfg.current (split tokens).1).pos := congrArg Token.pos (current_moved _)
  rw [parse, split_moved nowhere]
  refine congr (congr (congrArg Outcome.mk ?_) found) ?_
  · exact congr (congrArg Program.mk place) all.value
  · exact (congrArg (cfg.moved f).isFull found).trans (isFull_moved _)

end Programs

end Parser

end TriangleTam
