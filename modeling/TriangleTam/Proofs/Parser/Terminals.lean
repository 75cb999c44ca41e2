import TriangleTam.Parser.Text
import TriangleTam.Proofs.Parser.Intact
import TriangleTam.Proofs.Parser.Simulation
import TriangleTam.Proofs.Token.Lossless
import TriangleTam.Tree.Walk

/-!
# What silence says about the tree

If nothing is reported about a text, the names, operators and literals of its tree are those of the
text, in the same order and at the same places. A strict parser leaves out none. A lenient parser
does not report what is left over behind a command, so it may leave that out, up to the next
semicolon, start of a command or end of the text, and this is all it leaves out.
-/

namespace TriangleTam

section Terminals

/-- Whether tokens of the category are names, operators or literals. -/
def Kind.isTerminal : Kind → Bool
  | integer | character | identifier | operator => true
  | _ => false

/-- The names, operators and literals among the tokens. -/
def Token.terminals (ts : List Token) : List Token := ts.filter (·.kind.isTerminal)

/-- The token of a node that stands for one. -/
def Node.terminal? : Node → Option Token
  | .ident i => some ⟨.identifier, i.name, i.pos⟩
  | .op o => some ⟨.operator, o.symbol, o.pos⟩
  | .intLit l => some ⟨.integer, l.spelling, l.pos⟩
  | .charLit l => some ⟨.character, l.spelling, l.pos⟩
  | _ => none

/-- The tokens that the nodes of an expression stand for. -/
def Expr.terminals (x : Expr) : List Token := (x.walk fun _ => true).filterMap Node.terminal?

/-- The tokens that the nodes of an actual parameter stand for. -/
def Arg.terminals (a : Arg) : List Token := (a.walk fun _ => true).filterMap Node.terminal?

/-- The tokens that the nodes of a declaration stand for. -/
def Decl.terminals (d : Decl) : List Token := (d.walk fun _ => true).filterMap Node.terminal?

/-- The tokens that the nodes of a command stand for. -/
def Cmd.terminals (c : Cmd) : List Token := (c.walk fun _ => true).filterMap Node.terminal?

/-- The tokens that the nodes of a program stand for. -/
def Program.terminals (p : Program) : List Token := p.nodes.filterMap Node.terminal?

section Equations

attribute [local simp] Expr.terminals Arg.terminals Decl.terminals Cmd.terminals Expr.walk Arg.walk
  Decl.walk Decl.walkAll Cmd.walk Cmd.walkAll Node.terminal? List.filterMap_cons

variable (pos p q : Pos) (ty : Option Ty) (storage : Option Storage)

@[simp] theorem Expr.terminals_int (l : Literal) :
    (Expr.int pos ty l).terminals = [⟨.integer, l.spelling, l.pos⟩] := by simp

@[simp] theorem Expr.terminals_char (l : Literal) :
    (Expr.char pos ty l).terminals = [⟨.character, l.spelling, l.pos⟩] := by simp

@[simp] theorem Expr.terminals_name (i : Ident) :
    (Expr.name pos ty i).terminals = [⟨.identifier, i.name, i.pos⟩] := by simp

@[simp] theorem Expr.terminals_unary (o : OpName) (x : Expr) :
    (Expr.unary pos ty o x).terminals = ⟨.operator, o.symbol, o.pos⟩ :: x.terminals := by simp

@[simp] theorem Expr.terminals_binary (x y : Expr) (o : OpName) :
    (Expr.binary pos ty x o y).terminals =
      x.terminals ++ ⟨.operator, o.symbol, o.pos⟩ :: y.terminals := by simp

@[simp] theorem Expr.terminals_call (i : Ident) (a : Arg) :
    (Expr.call pos ty i a).terminals = ⟨.identifier, i.name, i.pos⟩ :: a.terminals := by simp

@[simp] theorem Arg.terminals_value (x : Expr) : (Arg.value pos x).terminals = x.terminals := by
  simp

@[simp] theorem Arg.terminals_var (i : Ident) :
    (Arg.var pos i).terminals = [⟨.identifier, i.name, i.pos⟩] := by simp

@[simp] theorem Arg.terminals_blank : (Arg.blank pos).terminals = [] := by simp

@[simp] theorem Decl.terminals_const (i : Ident) (x : Expr) :
    (Decl.const pos ty storage i x).terminals = ⟨.identifier, i.name, i.pos⟩ :: x.terminals := by
  simp

@[simp] theorem Decl.terminals_var (i j : Ident) :
    (Decl.var pos ty storage i j).terminals =
      [⟨.identifier, i.name, i.pos⟩, ⟨.identifier, j.name, j.pos⟩] := by simp

@[simp] theorem Decl.terminals_seq (ds : List Decl) :
    (Decl.seq pos ds).terminals = ds.flatMap Decl.terminals := by
  have all : (Decl.walkAll (fun _ => true) ds).filterMap Node.terminal? =
      ds.flatMap Decl.terminals := by
    induction ds with
    | nil => simp
    | cons d ds ih => simp [ih]
  simpa using all

@[simp] theorem Cmd.terminals_assign (i : Ident) (x : Expr) :
    (Cmd.assign pos i x).terminals = ⟨.identifier, i.name, i.pos⟩ :: x.terminals := by simp

@[simp] theorem Cmd.terminals_call (i : Ident) (a : Arg) :
    (Cmd.call pos i a).terminals = ⟨.identifier, i.name, i.pos⟩ :: a.terminals := by simp

@[simp] theorem Cmd.terminals_seq (cs : List Cmd) :
    (Cmd.seq pos cs).terminals = cs.flatMap Cmd.terminals := by
  have all : (Cmd.walkAll (fun _ => true) cs).filterMap Node.terminal? =
      cs.flatMap Cmd.terminals := by
    induction cs with
    | nil => simp
    | cons c cs ih => simp [ih]
  simpa using all

@[simp] theorem Cmd.terminals_block (body : Cmd) :
    (Cmd.block p body q).terminals = body.terminals := by
  simp

@[simp] theorem Cmd.terminals_ifElse (cond : Expr) (yes no : Cmd) :
    (Cmd.ifElse pos cond yes no).terminals = cond.terminals ++ yes.terminals ++ no.terminals := by
  simp

@[simp] theorem Cmd.terminals_ifEither (cond alt : Expr) (yes no : Cmd) :
    (Cmd.ifEither pos cond alt yes no).terminals =
      cond.terminals ++ alt.terminals ++ yes.terminals ++ no.terminals := by
  simp

@[simp] theorem Cmd.terminals_whileDo (cond : Expr) (body : Cmd) :
    (Cmd.whileDo pos cond body).terminals = cond.terminals ++ body.terminals := by
  simp

@[simp] theorem Cmd.terminals_letIn (d : Decl) (body : Cmd) :
    (Cmd.letIn pos d body).terminals = d.terminals ++ body.terminals := by
  simp

@[simp] theorem Cmd.terminals_skip (explicit : Bool) : (Cmd.skip pos explicit).terminals = [] := by
  simp

theorem Program.terminals_mk (c : Cmd) : (Program.mk pos c).terminals = c.terminals := by
  simp [Program.terminals, Program.nodes, Program.walk]

end Equations

end Terminals

namespace Parser

variable {cfg : Config}

section Takes

/-- From the one place to the other the parser takes tokens of which the terminals are `found`, if
none is malformed and nothing is reported. -/
structure Takes (found : List Token) (s s' : State) : Prop where
  suffix : s'.1 <:+ s.1
  quiet : (∀ t ∈ s.1, t.kind ≠ .malformed) → s'.2 = [] →
    s.2 = [] ∧ ∃ used, s.1 = used ++ s'.1 ∧ Token.terminals used = found

variable {found found' : List Token} {s s' s'' : State} {t : Token} {k : Kind} {ts : List Token}
  {log : Log}

theorem takes_here (s : State) : Takes [] s s :=
  ⟨List.suffix_rfl, fun _ quiet => ⟨quiet, [], rfl, rfl⟩⟩

/-- One step after another. -/
theorem Takes.trans (first : Takes found s s') (second : Takes found' s' s'') :
    Takes (found ++ found') s s'' where
  suffix := second.suffix.trans first.suffix
  quiet formed none := by
    obtain ⟨none, us, split, same⟩ :=
      second.quiet (fun t member => formed t (first.suffix.subset member)) none
    obtain ⟨none, vs, split', same'⟩ := first.quiet formed none
    refine ⟨none, vs ++ us, ?_, ?_⟩
    · rw [split', split, List.append_assoc]
    · rw [Token.terminals, List.filter_append, ← same, ← same']
      rfl

theorem Takes.length_le {ts' : List Token} {log' : Log}
    (takes : Takes found (ts, log) (ts', log')) : ts'.length ≤ ts.length :=
  List.IsSuffix.length_le takes.suffix

theorem takes_mark (kind : t.kind = k) (other : k.isTerminal = false)
    (rest : Takes found (ts, log) s) : Takes found (t :: ts, log) s where
  suffix := rest.suffix.trans (List.suffix_cons t ts)
  quiet formed none := by
    obtain ⟨none, us, split, same⟩ :=
      rest.quiet (fun u member => formed u (List.mem_cons_of_mem t member)) none
    refine ⟨none, t :: us, congrArg (t :: ·) split, ?_⟩
    rw [Token.terminals, List.filter_cons_of_neg (by simp [kind, other])]
    exact same

theorem takes_terminal (kind : t.kind = k) (terminal : k.isTerminal = true)
    (rest : Takes found (ts, log) s) :
    Takes (⟨k, t.spelling, t.pos⟩ :: found) (t :: ts, log) s where
  suffix := rest.suffix.trans (List.suffix_cons t ts)
  quiet formed none := by
    obtain ⟨none, us, split, same⟩ :=
      rest.quiet (fun u member => formed u (List.mem_cons_of_mem t member)) none
    refine ⟨none, t :: us, congrArg (t :: ·) split, ?_⟩
    rw [Token.terminals, List.filter_cons_of_pos (by simp [kind, terminal]), ← kind]
    exact congrArg (t :: ·) same

theorem takes_malformed (kind : t.kind = .malformed) (found : List Token) :
    Takes found (t :: ts, log) (ts, log) :=
  ⟨List.suffix_cons t ts, fun formed => absurd kind (formed t List.mem_cons_self)⟩

/-- Something is reported where no token is malformed. -/
theorem report_log_ne_nil (limit : 0 < cfg.limit) (formed : ∀ t ∈ ts, t.kind ≠ .malformed)
    (e : ParseError) (log : Log) : (report cfg e ts log).log ≠ [] := by
  by_cases muted : cfg.Muted ts log
  · rw [report_log_of_muted muted]
    rintro rfl
    obtain ⟨t, us, rfl, malformed⟩ := muted.malformed limit
    exact formed t List.mem_cons_self malformed
  · rw [report_log_of_not_muted muted]
    simp

theorem takes_report (limit : 0 < cfg.limit) (e : ParseError) (ts : List Token) (log : Log)
    (found : List Token) : Takes found (ts, log) (report cfg e ts log).state := by
  have moves : Moves cfg Inner (ts, log) (report cfg e ts log).state := moves_report e ts log
  exact ⟨moves.suffix, fun formed none => absurd none (report_log_ne_nil limit formed e log)⟩

end Takes

section Tokens

theorem reportMissing_takes (limit : 0 < cfg.limit) (kind : Kind) (ts : List Token) (log : Log) :
    Takes [] (ts, log) (reportMissing cfg kind ts log).state := by
  rw [reportMissing]
  split
  · exact takes_here _
  · exact takes_report limit _ ts log []

theorem accept_takes (limit : 0 < cfg.limit) (kind : Kind) (other : kind.isTerminal = false)
    (ts : List Token) (log : Log) :
    Takes [] (ts, log) (accept cfg kind ts log).state := by
  cases ts with
  | nil => exact reportMissing_takes limit kind [] log
  | cons t ts =>
    rw [accept]
    split
    · next found => exact takes_mark found other (takes_here _)
    · exact reportMissing_takes limit kind (t :: ts) log

theorem ident_takes (limit : 0 < cfg.limit) (ts : List Token) (log : Log) :
    Takes [⟨.identifier, (ident cfg ts log).value.name, (ident cfg ts log).value.pos⟩] (ts, log)
      (ident cfg ts log).state := by
  cases ts with
  | nil => exact takes_report limit _ [] log _
  | cons t ts =>
    rw [ident]
    split
    · next kind => exact takes_terminal kind rfl (takes_here _)
    · exact takes_report limit _ (t :: ts) log _

end Tokens

section Expressions

-- The recursion is that of the parser, with the same measures.
mutual

theorem expr_takes (limit : 0 < cfg.limit) (ts : List Token) (log : Log) :
    Takes (expr cfg ts log).value.terminals (ts, log) (expr cfg ts log).state := by
  have le := (primary cfg ts log).le
  rw [expr]
  exact exprTail_takes limit _ _ _ (primary_takes limit ts log)
termination_by 5 * ts.length + 2
decreasing_by all_goals omega

/-- What stands before the operators was taken from some place on. -/
theorem exprTail_takes (limit : 0 < cfg.limit) (x : Expr) :
    ∀ (ts : List Token) (log : Log) {s : State},
    Takes x.terminals s (ts, log) →
      Takes (exprTail cfg x ts log).value.terminals s (exprTail cfg x ts log).state
  | [], log, s, before => by
    rw [exprTail]
    exact before
  | t :: ts, log, s, before => by
    have le := (primary cfg ts log).le
    rw [exprTail]
    split
    · next kind =>
      refine exprTail_takes limit _ _ _ ?_
      rw [Expr.terminals_binary]
      exact before.trans (takes_terminal kind rfl (primary_takes limit ts log))
    · exact before
termination_by ts => 5 * ts.length + 1
decreasing_by
  all_goals
    simp only [List.length_cons]
    omega

theorem primary_takes (limit : 0 < cfg.limit) : ∀ (ts : List Token) (log : Log),
    Takes (primary cfg ts log).value.terminals (ts, log) (primary cfg ts log).state
  | [], log => by
    rw [primary]
    exact takes_report limit _ [] log _
  | t :: ts, log => by
    rw [primary]
    split
    · next kind =>
      rw [Expr.terminals_int]
      exact takes_terminal kind rfl (takes_here _)
    · next kind =>
      rw [Expr.terminals_char]
      exact takes_terminal kind rfl (takes_here _)
    · next kind => exact nameOrCall_takes limit t ts log kind
    · next kind =>
      rw [Expr.terminals_unary]
      exact takes_terminal kind rfl (primary_takes limit ts log)
    · next kind =>
      have inner := (expr_takes limit ts log).trans
        (accept_takes limit (.mark .rparen) rfl _ _)
      rw [List.append_nil] at inner
      exact takes_mark kind rfl inner
    · next kind => exact takes_malformed kind _
    · exact takes_report limit _ (t :: ts) log _
termination_by ts => 5 * ts.length
decreasing_by
  all_goals
    simp only [List.length_cons]
    omega

theorem nameOrCall_takes (limit : 0 < cfg.limit) (t : Token) :
    ∀ (ts : List Token) (log : Log), t.kind = .identifier →
    Takes (nameOrCall cfg t ts log).value.terminals (t :: ts, log) (nameOrCall cfg t ts log).state
  | [], log, kind => by
    rw [nameOrCall, Expr.terminals_name]
    exact takes_terminal kind rfl (takes_here _)
  | p :: ts, log, kind => by
    rw [nameOrCall]
    split
    · next opens =>
      rw [Expr.terminals_call]
      exact takes_terminal kind rfl (takes_mark opens rfl (argument_takes limit ts log))
    · rw [Expr.terminals_name]
      exact takes_terminal kind rfl (takes_here _)
termination_by ts => 5 * ts.length + 1
decreasing_by
  all_goals
    simp only [List.length_cons]
    omega

theorem argument_takes (limit : 0 < cfg.limit) (ts : List Token) (log : Log) :
    Takes (argument cfg ts log).value.terminals (ts, log) (argument cfg ts log).state := by
  have passed := (param_takes limit ts log).trans
    (accept_takes limit (.mark .rparen) rfl _ _)
  rw [List.append_nil] at passed
  rw [argument]
  exact passed
termination_by 5 * ts.length + 4
decreasing_by all_goals omega

theorem param_takes (limit : 0 < cfg.limit) : ∀ (ts : List Token) (log : Log),
    Takes (param cfg ts log).value.terminals (ts, log) (param cfg ts log).state
  | [], log => by
    rw [param]
    exact takes_report limit _ [] log _
  | t :: ts, log => by
    rw [param]
    split
    · rw [Arg.terminals_value]
      exact expr_takes limit (t :: ts) log
    · split
      · next kind =>
        exact takes_mark kind rfl (ident_takes limit ts log)
      · split
        · rw [Arg.terminals_blank]
          exact takes_here _
        · exact takes_report limit _ (t :: ts) log _
termination_by ts => 5 * ts.length + 3
decreasing_by all_goals omega

end

end Expressions

section Declarations

theorem constDecl_takes (limit : 0 < cfg.limit) (pos : Pos) (ts : List Token) (log : Log) :
    Takes (constDecl cfg pos ts log).value.terminals (ts, log)
      (constDecl cfg pos ts log).state := by
  have word := (ident_takes limit ts log).trans (accept_takes limit (.mark .is) rfl _ _)
  have value := word.trans (expr_takes limit _ _)
  rw [constDecl, Decl.terminals_const]
  exact value

theorem varDecl_takes (limit : 0 < cfg.limit) (pos : Pos) (ts : List Token) (log : Log) :
    Takes (varDecl cfg pos ts log).value.terminals (ts, log) (varDecl cfg pos ts log).state := by
  have word := (ident_takes limit ts log).trans (accept_takes limit (.mark .colon) rfl _ _)
  have type := word.trans (ident_takes limit _ _)
  rw [varDecl, Decl.terminals_var]
  exact type

theorem singleDecl_takes (limit : 0 < cfg.limit) (ts : List Token) (log : Log) :
    Takes (singleDecl cfg ts log).value.terminals (ts, log) (singleDecl cfg ts log).state := by
  cases ts with
  | nil => exact takes_report limit _ [] log _
  | cons t ts =>
    rw [singleDecl]
    split
    · next kind => exact takes_mark kind rfl (constDecl_takes limit t.pos ts log)
    · split
      · next kind => exact takes_mark kind rfl (varDecl_takes limit t.pos ts log)
      · exact takes_report limit _ (t :: ts) log _

theorem declTail_takes (limit : 0 < cfg.limit) : ∀ (ts : List Token) (log : Log),
    Takes ((declTail cfg ts log).value.flatMap Decl.terminals) (ts, log) (declTail cfg ts log).state
  | [], log => by
    rw [declTail]
    exact takes_here _
  | t :: ts, log => by
    have le := (singleDecl cfg ts log).le
    rw [declTail]
    split
    · next kind =>
      have both := (singleDecl_takes limit ts log).trans
        (declTail_takes limit (singleDecl cfg ts log).rest (singleDecl cfg ts log).log)
      exact takes_mark kind rfl both
    · exact takes_here _
termination_by ts => ts.length
decreasing_by
  all_goals
    simp only [List.length_cons]
    omega

theorem terminals_joinDecls (pos : Pos) (d : Decl) (ds : List Decl) :
    (joinDecls pos d ds).terminals = d.terminals ++ ds.flatMap Decl.terminals := by
  cases ds with
  | nil => simp [joinDecls]
  | cons e ds => simp [joinDecls]

theorem declaration_takes (limit : 0 < cfg.limit) (ts : List Token) (log : Log) :
    Takes (declaration cfg ts log).value.terminals (ts, log) (declaration cfg ts log).state := by
  rw [declaration, terminals_joinDecls]
  exact (singleDecl_takes limit ts log).trans (declTail_takes limit _ _)

end Declarations

section Commands

/-- What makes no command is reported, also from further back. -/
theorem badCmd_takes (limit : 0 < cfg.limit) (e : ParseError) {ts us : List Token}
    (behind : ts <:+ us) (log : Log) (found : List Token) :
    Takes found (us, log) (badCmd cfg e ts log).state where
  suffix := (badCmd_moves e ts log).suffix.trans behind
  quiet formed none := by
    have formed : ∀ t ∈ ts, t.kind ≠ .malformed :=
      fun t member => formed t (behind.subset member)
    exact absurd none (report_log_ne_nil limit formed e log)

theorem assignOrCall_takes (limit : 0 < cfg.limit) {t : Token} (kind : t.kind = .identifier)
    (ts : List Token) (log : Log) :
    Takes (assignOrCall cfg t ts log).value.terminals (t :: ts, log)
      (assignOrCall cfg t ts log).state := by
  cases ts with
  | nil => exact badCmd_takes limit _ List.nil_suffix log _
  | cons p ts =>
    rw [assignOrCall]
    split
    · next becomes =>
      rw [Cmd.terminals_assign]
      exact takes_terminal kind rfl (takes_mark becomes rfl (expr_takes limit ts log))
    · split
      · next opens =>
        rw [Cmd.terminals_call]
        exact takes_terminal kind rfl (takes_mark opens rfl (argument_takes limit ts log))
      · exact badCmd_takes limit _ (List.suffix_cons t _) log _

theorem takes_of_all {ts : List Token} {r : Parsed Cmd ts} {c : Cmd} {s s' : State}
    (all : r.all = (c, s')) (takes : Takes c.terminals s s') :
    Takes r.value.terminals s r.state := by
  obtain ⟨rfl, rfl⟩ := Prod.mk.inj all
  exact takes

theorem terminals_joinCmds (pos : Pos) (c : Cmd) (cs : List Cmd) :
    (joinCmds pos c cs).terminals = c.terminals ++ cs.flatMap Cmd.terminals := by
  cases cs with
  | nil => simp [joinCmds]
  | cons d cs => simp [joinCmds]

mutual

theorem command_takes (limit : 0 < cfg.limit) (ts : List Token) (log : Log) :
    Takes (command cfg ts log).value.terminals (ts, log) (command cfg ts log).state := by
  have le := (single cfg ts log).le
  have both := (single_takes limit ts log).trans (cmdTail_takes limit (single cfg ts log).rest
    (single cfg ts log).log)
  rw [command, terminals_joinCmds]
  exact both
termination_by 4 * ts.length + 2
decreasing_by all_goals omega

theorem cmdTail_takes (limit : 0 < cfg.limit) : ∀ (ts : List Token) (log : Log),
    Takes ((cmdTail cfg ts log).value.flatMap Cmd.terminals) (ts, log) (cmdTail cfg ts log).state
  | [], log => by
    rw [cmdTail]
    exact takes_here _
  | t :: ts, log => by
    have le := (single cfg ts log).le
    rw [cmdTail]
    split
    · next kind =>
      have both := (single_takes limit ts log).trans (cmdTail_takes limit (single cfg ts log).rest
        (single cfg ts log).log)
      exact takes_mark kind rfl both
    · exact takes_here _
termination_by ts => 4 * ts.length + 1
decreasing_by
  all_goals
    simp only [List.length_cons]
    omega

theorem single_takes (limit : 0 < cfg.limit) : ∀ (ts : List Token) (log : Log),
    Takes (single cfg ts log).value.terminals (ts, log) (single cfg ts log).state
  | [], log => by
    rw [single, Cmd.terminals_skip]
    exact takes_here _
  | t :: ts, log => by
    rw [single_cons]
    split
    · next starts => exact started_takes limit t ts log starts
    · split
      · rw [Cmd.terminals_skip]
        exact takes_here _
      · exact badCmd_takes limit _ List.suffix_rfl log _
termination_by ts => 4 * ts.length
decreasing_by
  all_goals
    simp only [List.length_cons]
    omega

theorem started_takes (limit : 0 < cfg.limit) (t : Token) (ts : List Token) (log : Log)
    (starts : t.kind.startsCmd = true) :
    Takes (started cfg t ts log).value.terminals (t :: ts, log) (started cfg t ts log).state := by
  have cond := expr_takes limit ts log
  have afterCond := cond.length_le
  rcases startsCmd_cases starts with kind | kind | kind | kind | kind | kind | kind
  · exact takes_of_all (started_of_identifier ts log kind) (assignOrCall_takes limit kind ts log)
  · have body := (command_takes limit ts log).trans
      (accept_takes limit (.mark .rbrace) rfl _ _)
    refine takes_of_all (started_of_lbrace ts log kind) (takes_mark kind rfl ?_)
    rw [List.append_nil] at body
    rw [Cmd.terminals_block]
    exact body
  · have word := (declaration_takes limit ts log).trans
      (accept_takes limit (.keyword .in_) rfl _ _)
    have le := word.length_le
    refine takes_of_all (started_of_let ts log kind) (takes_mark kind rfl ?_)
    rw [List.append_nil] at word
    rw [Cmd.terminals_letIn]
    exact word.trans (single_takes limit _ _)
  · refine takes_of_all (started_of_if ts log kind) (takes_mark kind rfl ?_)
    rw [Cmd.terminals_ifElse, List.append_assoc]
    exact cond.trans (branches_takes limit _ _)
  · have word := cond.trans (accept_takes limit (.keyword .or) rfl _ _)
    rw [List.append_nil] at word
    have alt := word.trans (expr_takes limit _ _)
    have le := alt.length_le
    refine takes_of_all (started_of_ifeither ts log kind) (takes_mark kind rfl ?_)
    rw [Cmd.terminals_ifEither, List.append_assoc]
    exact alt.trans (branches_takes limit _ _)
  · have word := cond.trans (accept_takes limit (.keyword .do_) rfl _ _)
    have le := word.length_le
    refine takes_of_all (started_of_while ts log kind) (takes_mark kind rfl ?_)
    rw [List.append_nil] at word
    rw [Cmd.terminals_whileDo]
    exact word.trans (single_takes limit _ _)
  · refine takes_of_all (started_of_pass ts log kind) ?_
    rw [Cmd.terminals_skip]
    exact takes_mark kind rfl (takes_here _)
termination_by 4 * ts.length + 3
decreasing_by all_goals omega

theorem branches_takes (limit : 0 < cfg.limit) (ts : List Token) (log : Log) :
    Takes ((branches cfg ts log).value.1.terminals ++ (branches cfg ts log).value.2.terminals)
      (ts, log) (branches cfg ts log).state := by
  have start := accept_takes limit (.keyword .then_) rfl ts log
  have le₁ := start.length_le
  have yes := start.trans (single_takes limit _ _)
  have middle := yes.trans (accept_takes limit (.keyword .else_) rfl _ _)
  have le₂ := middle.length_le
  have no := middle.trans (single_takes limit _ _)
  have close := no.trans (accept_takes limit (.keyword .endif) rfl _ _)
  rw [List.nil_append, List.append_nil, List.append_nil] at close
  rw [branches]
  exact close
termination_by 4 * ts.length + 1
decreasing_by all_goals omega

end

end Commands

section Programs

/-- What a parser keeps of the tokens if it reports nothing. A strict parser keeps them all. A
lenient one skips what is left over behind a command, up to the next semicolon, start of a command
or end of the text. -/
inductive Kept (cfg : Config) : List Token → List Token → Prop where
  | all {ts : List Token} (whole : (command cfg ts []).rest = []) : Kept cfg ts ts
  | skip {used rest kept : List Token} (lenient : cfg.lenient = true)
      (ends : (command cfg (used ++ rest) []).rest = rest)
      (later : Kept cfg (skipWhile isStray rest) kept) : Kept cfg (used ++ rest) (used ++ kept)

variable {ts kept : List Token}

theorem Kept.eq_of_strict (h : Kept cfg ts kept) (strict : cfg.lenient = false) : kept = ts := by
  cases h with
  | all whole => rfl
  | skip lenient ends later =>
    rw [strict] at lenient
    cases lenient

theorem Kept.sublist (h : Kept cfg ts kept) : kept.Sublist ts := by
  induction h with
  | all whole => exact List.Sublist.refl _
  | skip lenient ends later ih =>
    exact (List.Sublist.refl _).append (ih.trans (List.dropWhile_sublist _))

theorem filter_skipWhile (p : Kind → Bool) (ts : List Token) :
    (skipWhile p ts).filter (!p ·.kind) = ts.filter (!p ·.kind) := by
  induction ts with
  | nil => rfl
  | cons t ts ih =>
    rw [skipWhile, List.dropWhile_cons]
    split
    · next skipped =>
      rw [List.filter_cons_of_neg (by simp [skipped])]
      exact ih
    · rfl

/-- Semicolons, names and the other tokens that start a command are never skipped. -/
theorem Kept.filter_eq (h : Kept cfg ts kept) :
    kept.filter (!isStray ·.kind) = ts.filter (!isStray ·.kind) := by
  induction h with
  | all whole => rfl
  | @skip used rest kept lenient ends later ih =>
    rw [List.filter_append, List.filter_append, ih, filter_skipWhile]

theorem terminals_appendCmd (c next : Cmd) :
    (appendCmd c next).terminals = c.terminals ++ next.terminals := by
  obtain ⟨pos, cs, ds, eq, before, after⟩ := exists_appendCmd c next
  have first : c.terminals = cs.flatMap Cmd.terminals := by
    rcases before with rfl | rfl
    · simp
    · simp
  have second : next.terminals = ds.flatMap Cmd.terminals := by
    rcases after with ⟨q, rfl⟩ | rfl
    · simp
    · simp
  rw [eq, first, second, Cmd.terminals_seq, List.flatMap_append]

section Resuming

variable (cfg)

/-- A semicolon before commands adds nothing but an empty command. -/
theorem command_of_semicolon {u : Token} (semicolon : u.kind = .mark .semicolon) (us : List Token)
    (log : Log) :
    (command cfg (u :: us) log).value.terminals = (command cfg us log).value.terminals ∧
      (command cfg (u :: us) log).state = (command cfg us log).state := by
  have ends : Follows (·.endsCmd = true) (u :: us) := by rw [Follows, semicolon]; rfl
  have first : (single cfg (u :: us) log).all = _ := single_of_endsCmd ends log
  have tail : (cmdTail cfg (u :: us) log).all = _ := cmdTail_of_semicolon semicolon us log
  have behind : (command cfg (u :: us) log).all = _ := command_all (u :: us) log
  have without : (command cfg us log).all = _ := command_all us log
  obtain ⟨empty, stays, quiet⟩ := Parsed.all_eq_iff.1 first
  dsimp only at behind
  rw [empty, stays, quiet] at behind
  obtain ⟨value, rest, found⟩ := Parsed.all_eq_iff.1 behind
  obtain ⟨values, rests, founds⟩ := Parsed.all_eq_iff.1 tail
  obtain ⟨value', rest', found'⟩ := Parsed.all_eq_iff.1 without
  refine ⟨?_, ?_⟩
  · rw [value, value', values, terminals_joinCmds, terminals_joinCmds, Cmd.terminals_skip]
    rfl
  · rw [Parsed.state, rest, found, rests, founds, ← rest', ← found']

/-- Where a parser goes on it does what it does with commands, whether or not there is a semicolon
before them. -/
theorem exists_resume (c : Cmd) {u : Token} (us : List Token) (log : Log)
    (front : u.kind = .mark .semicolon ∨ u.kind.startsCmd = true) :
    ∃ next : Cmd, next.terminals = (command cfg (u :: us) log).value.terminals ∧
      (command cfg (u :: us) log).rest.length ≤ us.length ∧
      resume cfg c (u :: us) log = (leftover cfg (appendCmd c next) (command cfg (u :: us) log).rest
        (command cfg (u :: us) log).log).all := by
  by_cases semicolon : u.kind = .mark .semicolon
  · obtain ⟨same, state⟩ := command_of_semicolon cfg semicolon us log
    obtain ⟨rest, found⟩ := Prod.mk.inj state
    refine ⟨(command cfg us log).value, same.symm, ?_, ?_⟩
    · rw [rest]
      exact (command cfg us log).le
    · rw [resume, if_pos semicolon, rest, found]
  · have starts := front.resolve_left semicolon
    refine ⟨(command cfg (u :: us) log).value, rfl, ?_, ?_⟩
    · exact Nat.le_of_lt_succ (command_length_lt cfg starts us log)
    · rw [resume, if_neg semicolon, if_pos starts]

end Resuming

/-- What a parser keeps of the tokens that are left behind a command. -/
def KeptBehind (cfg : Config) (ts kept : List Token) : Prop :=
  ts = [] ∧ kept = [] ∨ cfg.lenient = true ∧ Kept cfg (skipWhile isStray ts) kept

/-- The tokens that a command takes are kept, and then some of those behind it. -/
theorem KeptBehind.command (limit : 0 < cfg.limit) (formed : ∀ t ∈ ts, t.kind ≠ .malformed)
    (quiet : (Parser.command cfg ts []).log = [])
    (behind : KeptBehind cfg (Parser.command cfg ts []).rest kept) :
    ∃ all, Kept cfg ts all ∧
      Token.terminals all = (Parser.command cfg ts []).value.terminals ++ Token.terminals kept := by
  obtain ⟨-, used, split, terminals⟩ := (command_takes limit ts []).quiet formed quiet
  have split : ts = used ++ (Parser.command cfg ts []).rest := split
  refine ⟨used ++ kept, ?_, ?_⟩
  · rcases behind with ⟨whole, rfl⟩ | ⟨lenient, later⟩
    · rw [whole] at split
      rw [← split]
      exact .all whole
    · generalize ends : (Parser.command cfg ts []).rest = rest at split later
      rw [split] at ends ⊢
      exact .skip lenient ends later
  · rw [Token.terminals, List.filter_append, ← terminals]
    rfl

/-- If nothing is reported about what is left over, its terminals are added, apart from what is
skipped. -/
theorem leftover_keeps (limit : 0 < cfg.limit) (c : Cmd) : ∀ ts : List Token,
    (∀ t ∈ ts, t.kind ≠ .malformed) → (∀ t ∈ ts, t.kind ≠ .endOfText) →
      (leftover cfg c ts []).all.2.2 = [] →
        ∃ kept, KeptBehind cfg ts kept ∧
          (leftover cfg c ts []).all.1.terminals = c.terminals ++ Token.terminals kept
  | [], _, _, _ => by
    rw [leftover]
    exact ⟨[], .inl ⟨rfl, rfl⟩, (List.append_nil _).symm⟩
  | t :: ts, formed, open_, quiet => by
    have other := open_ t List.mem_cons_self
    rw [leftover_of_not_isEnd (by simpa [Token.isEnd] using other), accept, if_neg other,
      reportMissing] at quiet ⊢
    by_cases lenient : cfg.lenient = true
    · rw [if_pos lenient] at quiet ⊢
      dsimp only at quiet ⊢
      have front := List.head?_dropWhile_not (fun t : Token => isStray t.kind) (t :: ts)
      have suffix : skipWhile isStray (t :: ts) <:+ t :: ts := List.dropWhile_suffix _
      cases skipped : skipWhile isStray (t :: ts) with
      | nil =>
        refine ⟨[], .inr ⟨lenient, ?_⟩, (List.append_nil _).symm⟩
        rw [skipped]
        exact .all (List.length_eq_zero_iff.1 (Nat.le_zero.1 (command cfg [] []).le))
      | cons u us =>
        rw [skipped] at quiet suffix
        have member := suffix.subset (List.mem_cons_self (a := u) (l := us))
        have front : u.kind = .mark .semicolon ∨ u.kind.startsCmd = true := by
          rw [show (t :: ts).dropWhile _ = u :: us from skipped] at front
          rcases isStray_eq_false_iff.1 front with semicolon | ended | starts
          · exact .inl semicolon
          · exact absurd ended (open_ u member)
          · exact .inr starts
        obtain ⟨next, same, le, goes⟩ := exists_resume cfg c us [] front
        rw [goes] at quiet ⊢
        have none : (command cfg (u :: us) []).log = [] := (leftover_moves _ _ _).log_eq_nil quiet
        have moves : Moves cfg _ (u :: us, []) _ := command_moves (u :: us) []
        have rest := moves.suffix.trans suffix
        have shorter : (command cfg (u :: us) []).rest.length < ts.length + 1 :=
          Nat.lt_of_le_of_lt le suffix.length_le
        rw [none] at quiet ⊢
        obtain ⟨kept, behind, added⟩ := leftover_keeps limit (appendCmd c next)
          (command cfg (u :: us) []).rest (fun t member => formed t (rest.subset member))
          (fun t member => open_ t (rest.subset member)) quiet
        obtain ⟨all, keeps, terminals⟩ := behind.command limit
          (fun t member => formed t (suffix.subset member)) none
        refine ⟨all, .inr ⟨lenient, ?_⟩, ?_⟩
        · rw [skipped]
          exact keeps
        · rw [added, terminals_appendCmd, terminals, same, List.append_assoc]
    · -- A strict parser reports the first token that is left over.
      rw [if_neg lenient] at quiet
      have none := (resume_moves c _ _).log_eq_nil quiet
      exact absurd none (report_log_ne_nil limit formed _ _)
termination_by ts => ts.length
decreasing_by all_goals omega

/-- If nothing is reported about a program, its terminals are those of the tokens that are kept. -/
theorem parse_keeps {ts : List Token} {e : Token} (formed : ∀ t ∈ ts, t.kind ≠ .malformed)
    (open_ : ∀ t ∈ ts, t.kind ≠ .endOfText) (last : e.kind = .endOfText) (lenient : Bool)
    (wanted : Int) (quiet : (parse (ts ++ [e]) lenient wanted).findings = []) :
    ∃ kept, Kept ⟨e.pos, lenient, limitOf wanted⟩ ts kept ∧
      (parse (ts ++ [e]) lenient wanted).program.terminals = Token.terminals kept := by
  let cfg : Config := ⟨e.pos, lenient, limitOf wanted⟩
  have limit : 0 < cfg.limit := limitOf_pos wanted
  have moves : Moves cfg _ (ts, []) _ := command_moves ts []
  have rest := moves.suffix
  rw [parse_append_end last] at quiet ⊢
  have none : (command cfg ts []).log = [] := (leftover_moves _ _ _).log_eq_nil quiet
  dsimp only at quiet ⊢
  rw [show (command ⟨e.pos, lenient, limitOf wanted⟩ ts []).log = [] from none] at quiet ⊢
  obtain ⟨kept, behind, added⟩ := leftover_keeps limit (command cfg ts []).value
    (command cfg ts []).rest (fun t member => formed t (rest.subset member))
    (fun t member => open_ t (rest.subset member)) quiet
  obtain ⟨all, keeps, terminals⟩ := behind.command limit formed none
  refine ⟨all, keeps, ?_⟩
  rw [Program.terminals_mk, terminals]
  exact added

end Programs

section Texts

/-- The last token of a text, and no other, is its end. -/
theorem exists_tokens_scan (c : Cursor) : ∃ ts e, Scanner.tokens (Scanner.scan c).1 = ts ++ [e] ∧
    e.kind = .endOfText ∧ ∀ t ∈ ts, t.kind ≠ .endOfText := by
  obtain ⟨body, last, found, -, pieces, ends, -⟩ := (Scanner.scan_layout c).exists_pieces
  refine ⟨body.map (·.token), last.token, by rw [found, List.map_append]; rfl, ends.2.2, ?_⟩
  intro t member
  obtain ⟨x, piece, rfl⟩ := List.mem_map.1 member
  exact (pieces x piece).2.2

theorem readText_eq_ok {file : String} {input : Input} {lenient : Bool} {limit : Int}
    {reading : Reading} (read : readText file input lenient limit = .ok reading) :
    let found := (Scanner.scan (Cursor.ofBytes file input.bytes)).1
    reading = ⟨Scanner.tokens found, Scanner.messages found,
      parse (Scanner.tokens found) lenient limit⟩ := by
  rw [readText, Source.ofInput] at read
  cases fault : input.readFault with
  | none =>
    rw [fault] at read
    exact (Except.ok.inj read).symm
  | some reason =>
    rw [fault] at read
    cases read

/-- What a node of a text about which nothing is reported stands for is a token of that text. -/
theorem mem_tokens_of_mem_nodes {cursor : Cursor} {lenient : Bool} {limit : Int}
    (lexical : Scanner.reports (Scanner.scan cursor).1 = [])
    (syntactic : (parse (Scanner.tokens (Scanner.scan cursor).1) lenient limit).findings = [])
    {n : Node} {t : Token}
    (member : n ∈ (parse (Scanner.tokens (Scanner.scan cursor).1) lenient limit).program.nodes)
    (stands : n.terminal? = some t) : t ∈ Scanner.tokens (Scanner.scan cursor).1 := by
  have proper := Scanner.tokens_proper_of_reports lexical
  obtain ⟨ts, e, tokens, last, open_⟩ := exists_tokens_scan cursor
  rw [tokens] at proper syntactic member ⊢
  have formed : ∀ t ∈ ts, t.kind ≠ .malformed :=
    fun t member => (proper t (List.mem_append_left _ member)).wellFormed
  obtain ⟨kept, keeps, terminals⟩ := parse_keeps formed open_ last lenient limit syntactic
  have found : t ∈ Token.terminals kept := by
    rw [← terminals]
    exact List.mem_filterMap.2 ⟨n, member, stands⟩
  exact List.mem_append_left _ (keeps.sublist.subset (List.mem_of_mem_filter found))

/-- Silence means that nothing is thrown away. If nothing is reported about a text, a strict parser
has made a node of each of its names, operators and literals and no others, in the same order, with
the same spellings and positions. A lenient parser has done so for the tokens that it keeps: it
leaves out only what is left over behind a command, and never a semicolon, a name or the start of a
command. -/
theorem readText_keeps_terminals {file : String} {input : Input} {lenient : Bool} {limit : Int}
    {reading : Reading} (read : readText file input lenient limit = .ok reading)
    (quiet : reading.reports = []) :
    (lenient = false → reading.program.terminals = Token.terminals reading.tokens) ∧
      ∃ kept,
        Kept ⟨(split reading.tokens).2, lenient, limitOf limit⟩ (split reading.tokens).1 kept ∧
        kept.Sublist reading.tokens ∧
        kept.filter (!isStray ·.kind) = (split reading.tokens).1.filter (!isStray ·.kind) ∧
        reading.program.terminals = Token.terminals kept := by
  obtain rfl := readText_eq_ok read
  obtain ⟨lexical, syntactic⟩ := List.append_eq_nil_iff.1 quiet
  have lexical : Scanner.reports (Scanner.scan (Cursor.ofBytes file input.bytes)).1 = [] := by
    simpa [Scanner.messages] using lexical
  have proper := Scanner.tokens_proper_of_reports lexical
  obtain ⟨ts, e, tokens, last, open_⟩ := exists_tokens_scan (Cursor.ofBytes file input.bytes)
  rw [tokens] at proper
  have formed : ∀ t ∈ ts, t.kind ≠ .malformed :=
    fun t member => (proper t (List.mem_append_left _ member)).wellFormed
  have halves : split (ts ++ [e]) = (ts, e.pos) := by simp [split, Token.isEnd, last]
  dsimp only [Reading.program] at syntactic ⊢
  rw [tokens, Outcome.reports_eq_nil_iff] at syntactic
  rw [tokens, halves]
  obtain ⟨kept, keeps, terminals⟩ := parse_keeps formed open_ last lenient limit syntactic
  refine ⟨fun strict => ?_, kept, keeps, keeps.sublist.trans (List.sublist_append_left _ _),
    keeps.filter_eq, terminals⟩
  have none : Token.terminals [e] = [] := by simp [Token.terminals, last, Kind.isTerminal]
  rw [terminals, keeps.eq_of_strict strict, Token.terminals, Token.terminals, List.filter_append,
    show [e].filter _ = [] from none, List.append_nil]

/-- The text `x := 1 2 ; y := 3`. -/
def strayText : Input := ⟨"x := 1 2 ; y := 3".toUTF8.toList, none, none⟩

theorem strayText_keeps :
    ∃ reading, readText "" strayText true 10 = .ok reading ∧ reading.reports = [] ∧
      reading.program.terminals.map (·.spelling) = ["x", "1", "y", "3"] ∧
      ∃ kept, Kept ⟨(split reading.tokens).2, true, limitOf 10⟩ (split reading.tokens).1 kept ∧
        kept.Sublist reading.tokens ∧
        kept.filter (!isStray ·.kind) = (split reading.tokens).1.filter (!isStray ·.kind) ∧
        reading.program.terminals = Token.terminals kept := by
  have read : readText "" strayText true 10 = .ok _ := rfl
  refine ⟨_, read, ?quiet, ?spellings, (readText_keeps_terminals read ?quiet).2⟩
  case quiet => decide +kernel
  case spellings => decide +kernel

/-- A lenient parser reports nothing about the text `x := 1 2`, and makes no node of the last
literal. -/
theorem readText_drops_leftover :
    ∃ reading, readText "" ⟨"x := 1 2".toUTF8.toList, none, none⟩ true 10 = .ok reading ∧
      reading.reports = [] ∧ reading.program.terminals ≠ Token.terminals reading.tokens := by
  refine ⟨_, rfl, ?_, ?_⟩
  · decide +kernel
  · decide +kernel

end Texts

end Parser

end TriangleTam
