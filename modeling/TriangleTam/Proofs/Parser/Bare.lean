import TriangleTam.Proofs.Check.Annotations
import TriangleTam.Proofs.Parser.Intact

/-!
# Parsed trees carry no annotations

Whatever the tokens are, the parser leaves open what checking fills in: `bare_parse`, and for the
tree of a text `Program.bare_ofText`.
-/

namespace TriangleTam

namespace Parser

variable (cfg : Config)

@[simp] theorem bare_missingIdent (ts : List Token) (log : Log) :
    (missingIdent cfg ts log).value.bare = (missingIdent cfg ts log).value := rfl

@[simp] theorem bare_ident (ts : List Token) (log : Log) :
    (ident cfg ts log).value.bare = (ident cfg ts log).value := by
  cases ts with
  | nil => simp [ident]
  | cons t ts =>
    rw [ident]
    split
    · rfl
    · exact bare_missingIdent cfg _ log

section Expressions

@[simp] theorem bare_missingExpr (ts : List Token) (log : Log) :
    (missingExpr cfg ts log).value.bare = (missingExpr cfg ts log).value := by
  simp [missingExpr, Expr.bare]

@[simp] theorem bare_missingArg (ts : List Token) (log : Log) :
    (missingArg cfg ts log).value.bare = (missingArg cfg ts log).value := by
  simp [missingArg, Arg.bare]

@[simp] theorem bare_varArg (pos : Pos) (ts : List Token) (log : Log) :
    (varArg cfg pos ts log).value.bare = (varArg cfg pos ts log).value := by
  simp [varArg, Arg.bare]

-- The recursion is that of the parser, with the same measures.
mutual

theorem bare_expr (ts : List Token) (log : Log) :
    (expr cfg ts log).value.bare = (expr cfg ts log).value := by
  have le := (primary cfg ts log).le
  rw [expr]
  exact bare_exprTail _ _ (bare_primary ts log)
termination_by 5 * ts.length + 2
decreasing_by all_goals omega

theorem bare_exprTail {x : Expr} : ∀ (ts : List Token) (log : Log), x.bare = x →
    (exprTail cfg x ts log).value.bare = (exprTail cfg x ts log).value
  | [], log, bare => by
    rw [exprTail]
    exact bare
  | t :: ts, log, bare => by
    rw [exprTail]
    split
    · have le := (primary cfg ts log).le
      refine bare_exprTail _ _ ?_
      rw [Expr.bare, bare, bare_primary ts log]
      rfl
    · exact bare
termination_by ts => 5 * ts.length + 1
decreasing_by
  all_goals
    simp only [List.length_cons]
    omega

theorem bare_primary : ∀ (ts : List Token) (log : Log),
    (primary cfg ts log).value.bare = (primary cfg ts log).value
  | [], log => by
    rw [primary]
    exact bare_missingExpr cfg [] log
  | t :: ts, log => by
    rw [primary]
    split
    · rw [Expr.bare]
    · rw [Expr.bare]
    · exact bare_nameOrCall t ts log
    · rw [Expr.bare, bare_primary ts log]
      rfl
    · exact bare_expr ts log
    · rw [Expr.bare]
    · exact bare_missingExpr cfg _ log
termination_by ts => 5 * ts.length
decreasing_by
  all_goals
    simp only [List.length_cons]
    omega

theorem bare_nameOrCall (t : Token) : ∀ (ts : List Token) (log : Log),
    (nameOrCall cfg t ts log).value.bare = (nameOrCall cfg t ts log).value
  | [], log => by
    rw [nameOrCall, Expr.bare]
    rfl
  | p :: ts, log => by
    rw [nameOrCall]
    split
    · rw [Expr.bare, bare_argument ts log]
      rfl
    · rw [Expr.bare]
      rfl
termination_by ts => 5 * ts.length + 1
decreasing_by
  all_goals
    simp only [List.length_cons]
    omega

theorem bare_argument (ts : List Token) (log : Log) :
    (argument cfg ts log).value.bare = (argument cfg ts log).value := by
  rw [argument]
  exact bare_param ts log
termination_by 5 * ts.length + 4
decreasing_by all_goals omega

theorem bare_param : ∀ (ts : List Token) (log : Log),
    (param cfg ts log).value.bare = (param cfg ts log).value
  | [], log => by
    rw [param]
    exact bare_missingArg cfg [] log
  | t :: ts, log => by
    rw [param]
    split
    · rw [Arg.bare, bare_expr (t :: ts) log]
    · split
      · exact bare_varArg cfg t.pos ts log
      · split
        · rw [Arg.bare]
        · exact bare_missingArg cfg _ log
termination_by ts => 5 * ts.length + 3
decreasing_by all_goals omega

end

end Expressions

section Declarations

theorem bare_missingDecl (ts : List Token) (log : Log) :
    (missingDecl cfg ts log).value.bare = (missingDecl cfg ts log).value := by
  simp [missingDecl, Decl.bare]

theorem bare_singleDecl (ts : List Token) (log : Log) :
    (singleDecl cfg ts log).value.bare = (singleDecl cfg ts log).value := by
  cases ts with
  | nil => exact bare_missingDecl cfg [] log
  | cons t ts =>
    rw [singleDecl]
    split
    · simp [constDecl, Decl.bare, bare_expr]
    · split
      · simp [varDecl, Decl.bare]
      · exact bare_missingDecl cfg _ log

theorem bare_declTail : ∀ (ts : List Token) (log : Log), ∀ d ∈ (declTail cfg ts log).value,
    d.bare = d
  | [], log => by simp [declTail]
  | t :: ts, log => by
    rw [declTail]
    split
    · have le := (singleDecl cfg ts log).le
      have first := bare_singleDecl cfg ts log
      have rest := bare_declTail (singleDecl cfg ts log).rest (singleDecl cfg ts log).log
      simpa using ⟨first, rest⟩
    · simp
termination_by ts => ts.length
decreasing_by
  all_goals
    simp only [List.length_cons]
    omega

theorem bare_joinDecls (pos : Pos) {d : Decl} {ds : List Decl} (first : d.bare = d)
    (rest : ∀ d ∈ ds, d.bare = d) : (joinDecls pos d ds).bare = joinDecls pos d ds := by
  cases ds with
  | nil => exact first
  | cons e ds => exact Decl.bare_seq_iff.2 (List.forall_mem_cons.2 ⟨first, rest⟩)

theorem bare_declaration (ts : List Token) (log : Log) :
    (declaration cfg ts log).value.bare = (declaration cfg ts log).value :=
  bare_joinDecls _ (bare_singleDecl cfg ts log) (bare_declTail cfg _ _)

end Declarations

section Commands

theorem bare_badCmd (e : ParseError) (ts : List Token) (log : Log) :
    (badCmd cfg e ts log).value.bare = (badCmd cfg e ts log).value := by
  simp [badCmd, Cmd.bare]

theorem bare_assignOrCall (t : Token) (ts : List Token) (log : Log) :
    (assignOrCall cfg t ts log).value.bare = (assignOrCall cfg t ts log).value := by
  cases ts with
  | nil => exact bare_badCmd cfg _ _ log
  | cons p ts =>
    rw [assignOrCall]
    split
    · rw [Cmd.bare, bare_expr]
      rfl
    · split
      · rw [Cmd.bare, bare_argument]
        rfl
      · exact bare_badCmd cfg _ _ log

theorem bare_joinCmds (pos : Pos) {c : Cmd} {cs : List Cmd} (first : c.bare = c)
    (rest : ∀ c ∈ cs, c.bare = c) : (joinCmds pos c cs).bare = joinCmds pos c cs := by
  cases cs with
  | nil => exact first
  | cons d cs => exact Cmd.bare_seq_iff.2 (List.forall_mem_cons.2 ⟨first, rest⟩)

mutual

theorem bare_command (ts : List Token) (log : Log) :
    (command cfg ts log).value.bare = (command cfg ts log).value := by
  have le := (single cfg ts log).le
  rw [command]
  exact bare_joinCmds _ (bare_single ts log) (bare_cmdTail _ _)
termination_by 4 * ts.length + 2
decreasing_by all_goals omega

theorem bare_cmdTail : ∀ (ts : List Token) (log : Log), ∀ c ∈ (cmdTail cfg ts log).value,
    c.bare = c
  | [], log => by simp [cmdTail]
  | t :: ts, log => by
    rw [cmdTail]
    split
    · have le := (single cfg ts log).le
      have first := bare_single ts log
      have rest := bare_cmdTail (single cfg ts log).rest (single cfg ts log).log
      simpa using ⟨first, rest⟩
    · simp
termination_by ts => 4 * ts.length + 1
decreasing_by
  all_goals
    simp only [List.length_cons]
    omega

theorem bare_single : ∀ (ts : List Token) (log : Log),
    (single cfg ts log).value.bare = (single cfg ts log).value
  | [], log => by rw [single, Cmd.bare]
  | t :: ts, log => by
    rw [single_cons]
    split
    · exact bare_started t ts log
    · split
      · rw [Cmd.bare]
      · exact bare_badCmd cfg _ _ log
termination_by ts => 4 * ts.length
decreasing_by
  all_goals
    simp only [List.length_cons]
    omega

theorem bare_started (t : Token) (ts : List Token) (log : Log) :
    (started cfg t ts log).value.bare = (started cfg t ts log).value := by
  have afterExpr := (expr cfg ts log).le
  have afterDecl := (declaration cfg ts log).le
  rw [started]
  split
  · exact bare_assignOrCall cfg t ts log
  · rw [blockCmd, Cmd.bare, bare_command ts log]
  · rw [letCmd]
    have afterIn := (accept cfg (.keyword .in_) (declaration cfg ts log).rest
      (declaration cfg ts log).log).le
    simp only
    rw [Cmd.bare, bare_declaration, bare_single]
  · rw [ifCmd]
    simp only
    rw [Cmd.bare, bare_expr, (bare_branches _ _).1, (bare_branches _ _).2]
  · rw [ifEitherCmd]
    have afterOr := (accept cfg (.keyword .or) (expr cfg ts log).rest (expr cfg ts log).log).le
    have afterAlt := (expr cfg (accept cfg (.keyword .or) (expr cfg ts log).rest
      (expr cfg ts log).log).rest (accept cfg (.keyword .or) (expr cfg ts log).rest
      (expr cfg ts log).log).log).le
    simp only
    rw [Cmd.bare, bare_expr, bare_expr, (bare_branches _ _).1, (bare_branches _ _).2]
  · rw [whileCmd]
    have afterDo := (accept cfg (.keyword .do_) (expr cfg ts log).rest (expr cfg ts log).log).le
    simp only
    rw [Cmd.bare, bare_expr, bare_single]
  · rw [Cmd.bare]
termination_by 4 * ts.length + 3
decreasing_by all_goals omega

theorem bare_branches (ts : List Token) (log : Log) :
    (branches cfg ts log).value.1.bare = (branches cfg ts log).value.1 ∧
      (branches cfg ts log).value.2.bare = (branches cfg ts log).value.2 := by
  have afterThen := (accept cfg (.keyword .then_) ts log).le
  have afterYes := (single cfg (accept cfg (.keyword .then_) ts log).rest
    (accept cfg (.keyword .then_) ts log).log).le
  have afterElse := (accept cfg (.keyword .else_)
    (single cfg (accept cfg (.keyword .then_) ts log).rest
      (accept cfg (.keyword .then_) ts log).log).rest
    (single cfg (accept cfg (.keyword .then_) ts log).rest
      (accept cfg (.keyword .then_) ts log).log).log).le
  rw [branches]
  exact ⟨bare_single _ _, bare_single _ _⟩
termination_by 4 * ts.length + 1
decreasing_by all_goals omega

end

end Commands

section Programs

theorem bare_appendCmd {c next : Cmd} (first : c.bare = c) (rest : next.bare = next) :
    (appendCmd c next).bare = appendCmd c next := by
  obtain ⟨pos, cs, ds, eq, before, after⟩ := exists_appendCmd c next
  rw [eq, Cmd.bare_seq_iff]
  intro d member
  rcases List.mem_append.1 member with member | member
  · rcases before with rfl | rfl
    · exact Cmd.bare_seq_iff.1 first d member
    · rw [List.mem_singleton.1 member]
      exact first
  · rcases after with ⟨q, rfl⟩ | rfl
    · exact Cmd.bare_seq_iff.1 rest d member
    · rw [List.mem_singleton.1 member]
      exact rest

theorem bare_leftover {c : Cmd} : ∀ (ts : List Token) (log : Log), c.bare = c →
    (leftover cfg c ts log).value.bare = (leftover cfg c ts log).value
  | [], log, bare => by
    rw [leftover]
    exact bare
  | t :: ts, log, bare => by
    rw [leftover]
    split
    · exact bare
    · dsimp only
      have le₁ := (accept cfg .endOfText (t :: ts) log).le
      generalize (accept cfg .endOfText (t :: ts) log).log = found
      split
      · exact bare
      · next u us skipped =>
        have le₂ := skipWhile_length_le (fun k =>
          !(k == .mark .semicolon || k == .endOfText || k.startsCmd))
          (accept cfg .endOfText (t :: ts) log).rest
        rw [skipped] at le₂
        have shorter : us.length + 1 ≤ ts.length + 1 := Nat.le_trans le₂ le₁
        split
        · have le₃ := (command cfg us found).le
          exact bare_leftover _ _ (bare_appendCmd bare (bare_command cfg us found))
        · split
          · next starts =>
            have le₃ := Nat.lt_of_lt_of_le (command_length_lt cfg starts us found) shorter
            exact bare_leftover _ _ (bare_appendCmd bare (bare_command cfg (u :: us) found))
          · exact bare
termination_by ts => ts.length
decreasing_by
  all_goals
    simp only [List.length_cons]
    omega

/-- The parser leaves open what checking fills in. -/
theorem bare_parse (tokens : List Token) (lenient : Bool) (wanted : Int) :
    (parse tokens lenient wanted).program.bare = (parse tokens lenient wanted).program := by
  simp only [parse, Program.bare]
  rw [bare_leftover _ _ _ (bare_command _ _ _)]

end Programs

end Parser

namespace Program

/-- The tree of a text, whatever is wrong with the text. -/
def ofText (file : String) (bytes : List UInt8) (lenient : Bool) (limit : Int) : Program :=
  (Parser.parse (Scanner.tokens (Scanner.scan (Cursor.ofBytes file bytes)).1) lenient limit).program

theorem bare_ofText (file : String) (bytes : List UInt8) (lenient : Bool) (limit : Int) :
    (ofText file bytes lenient limit).bare = ofText file bytes lenient limit :=
  Parser.bare_parse _ lenient limit

end Program

end TriangleTam
