import TriangleTam.Parser.Decl

/-!
# Parsing commands

Commands are separated by semicolons, with the same rule as for declarations. A command that makes
no sense is skipped up to a token that may follow a command.
-/

namespace TriangleTam.Parser

variable (cfg : Config)

/-- Reports that no command can be made of the tokens, and skips to where one may end. -/
def badCmd (e : ParseError) (ts : List Token) (log : Log) : Parsed Cmd ts :=
  let r := report cfg e ts log
  ⟨.bad (cfg.current r.rest).pos, skipWhile (!·.endsCmd) r.rest, r.log,
    Nat.le_trans (skipWhile_length_le _ _) r.le⟩

/-- Takes what follows the identifier `t` at the start of a command: an assignment, or a parameter
in parentheses. -/
def assignOrCall (t : Token) (ts : List Token) (log : Log) : Parsed Cmd ts :=
  match ts with
  | [] => badCmd cfg .noAssignOrCall [] log
  | p :: ts =>
    if p.kind = .mark .becomes then
      let x := expr cfg ts log
      ⟨.assign t.pos ⟨t.pos, t.spelling, none⟩ x.value, x.rest, x.log, Nat.le_succ_of_le x.le⟩
    else if p.kind = .mark .lparen then
      let a := argument cfg ts log
      ⟨.call t.pos ⟨t.pos, t.spelling, none⟩ a.value, a.rest, a.log, Nat.le_succ_of_le a.le⟩
    else badCmd cfg .noAssignOrCall (p :: ts) log

/-- Several commands as one; one alone stays as it is. -/
def joinCmds (pos : Pos) (c : Cmd) : List Cmd → Cmd
  | [] => c
  | cs => .seq pos (c :: cs)

mutual

/-- Takes all commands up to where no semicolon follows. -/
def command (ts : List Token) (log : Log) : Parsed Cmd ts :=
  let ⟨c, ts', log, le⟩ := single ts log
  let r := cmdTail ts' log
  ⟨joinCmds (cfg.current ts).pos c r.value, r.rest, r.log, Nat.le_trans r.le le⟩
termination_by 4 * ts.length + 2

/-- Takes semicolons with the commands behind them, as long as there are any. -/
def cmdTail : (ts : List Token) → (log : Log) → Parsed (List Cmd) ts
  | [], log => ⟨[], [], log, Nat.le_refl _⟩
  | t :: ts, log =>
    if t.kind = .mark .semicolon then
      let ⟨c, ts', log, le⟩ := single ts log
      let r := cmdTail ts' log
      ⟨c :: r.value, r.rest, r.log, Nat.le_succ_of_le (Nat.le_trans r.le le)⟩
    else ⟨[], t :: ts, log, Nat.le_refl _⟩
termination_by ts => 4 * ts.length + 1

/-- Takes one command. Before a token that may follow a command, that is the empty command. -/
def single : (ts : List Token) → (log : Log) → Parsed Cmd ts
  | [], log => ⟨.skip cfg.endPos false, [], log, Nat.le_refl _⟩
  | t :: ts, log =>
    match t.kind with
    | .identifier => (assignOrCall cfg t ts log).behind t
    | .mark .lbrace => (blockCmd t ts log).behind t
    | .keyword .let_ => (letCmd t ts log).behind t
    | .keyword .if_ => (ifCmd t ts log).behind t
    | .keyword .ifeither => (ifEitherCmd t ts log).behind t
    | .keyword .while_ => (whileCmd t ts log).behind t
    | .keyword .pass => ⟨.skip t.pos true, ts, log, Nat.le_succ _⟩
    | kind =>
      if kind.endsCmd then ⟨.skip t.pos false, t :: ts, log, Nat.le_refl _⟩
      else badCmd cfg .noCommand (t :: ts) log
termination_by ts => 4 * ts.length

/-- Takes commands up to a closing brace; `t` is the opening one before them. -/
def blockCmd (t : Token) (ts : List Token) (log : Log) : Parsed Cmd ts :=
  let body := command ts log
  let close := accept cfg (.mark .rbrace) body.rest body.log
  ⟨.block t.pos body.value (cfg.current body.rest).pos, close.rest, close.log,
    Nat.le_trans close.le body.le⟩
termination_by 4 * ts.length + 3

/-- Takes `declaration in command`; `t` is the word `let` before it. -/
def letCmd (t : Token) (ts : List Token) (log : Log) : Parsed Cmd ts :=
  let ⟨decl, ts₁, log, le₁⟩ := declaration cfg ts log
  let ⟨(), ts₂, log, le₂⟩ := accept cfg (.keyword .in_) ts₁ log
  let body := single ts₂ log
  ⟨.letIn t.pos decl body.value, body.rest, body.log,
    Nat.le_trans body.le (Nat.le_trans le₂ le₁)⟩
termination_by 4 * ts.length + 3

/-- Takes a condition with two branches; `t` is the word `if` before it. -/
def ifCmd (t : Token) (ts : List Token) (log : Log) : Parsed Cmd ts :=
  let ⟨cond, ts₁, log, le₁⟩ := expr cfg ts log
  let ⟨(yes, no), ts₂, log, le₂⟩ := branches ts₁ log
  ⟨.ifElse t.pos cond yes no, ts₂, log, Nat.le_trans le₂ le₁⟩
termination_by 4 * ts.length + 3

/-- Takes two conditions with two branches; `t` is the word `ifeither` before them. -/
def ifEitherCmd (t : Token) (ts : List Token) (log : Log) : Parsed Cmd ts :=
  let ⟨cond, ts₁, log, le₁⟩ := expr cfg ts log
  let ⟨(), ts₂, log, le₂⟩ := accept cfg (.keyword .or) ts₁ log
  let ⟨alt, ts₃, log, le₃⟩ := expr cfg ts₂ log
  let ⟨(yes, no), ts₄, log, le₄⟩ := branches ts₃ log
  ⟨.ifEither t.pos cond alt yes no, ts₄, log,
    Nat.le_trans le₄ (Nat.le_trans le₃ (Nat.le_trans le₂ le₁))⟩
termination_by 4 * ts.length + 3

/-- Takes `condition do command`; `t` is the word `while` before it. -/
def whileCmd (t : Token) (ts : List Token) (log : Log) : Parsed Cmd ts :=
  let ⟨cond, ts₁, log, le₁⟩ := expr cfg ts log
  let ⟨(), ts₂, log, le₂⟩ := accept cfg (.keyword .do_) ts₁ log
  let body := single ts₂ log
  ⟨.whileDo t.pos cond body.value, body.rest, body.log,
    Nat.le_trans body.le (Nat.le_trans le₂ le₁)⟩
termination_by 4 * ts.length + 3

/-- Takes the two branches behind a condition, up to the word `endif`. -/
def branches (ts : List Token) (log : Log) : Parsed (Cmd × Cmd) ts :=
  let ⟨(), ts₁, log, le₁⟩ := accept cfg (.keyword .then_) ts log
  let ⟨yes, ts₂, log, le₂⟩ := single ts₁ log
  let ⟨(), ts₃, log, le₃⟩ := accept cfg (.keyword .else_) ts₂ log
  let ⟨no, ts₄, log, le₄⟩ := single ts₃ log
  let endif := accept cfg (.keyword .endif) ts₄ log
  ⟨(yes, no), endif.rest, endif.log,
    Nat.le_trans endif.le (Nat.le_trans le₄ (Nat.le_trans le₃ (Nat.le_trans le₂ le₁)))⟩
termination_by 4 * ts.length + 1

end

/-- Where a command starts, at least the token it starts with is taken. -/
theorem single_length_lt {t : Token} (starts : t.kind.startsCmd = true) (ts : List Token)
    (log : Log) : (single cfg (t :: ts) log).rest.length < (t :: ts).length := by
  rw [single]
  split
  · exact Nat.lt_succ_of_le (assignOrCall cfg t ts log).le
  · exact Nat.lt_succ_of_le (blockCmd cfg t ts log).le
  · exact Nat.lt_succ_of_le (letCmd cfg t ts log).le
  · exact Nat.lt_succ_of_le (ifCmd cfg t ts log).le
  · exact Nat.lt_succ_of_le (ifEitherCmd cfg t ts log).le
  · exact Nat.lt_succ_of_le (whileCmd cfg t ts log).le
  · exact Nat.lt_succ_self _
  · -- The dispatch has a branch for each category that starts a command.
    rw [Kind.startsCmd] at starts
    · cases starts
    all_goals assumption

theorem command_length_lt {t : Token} (starts : t.kind.startsCmd = true) (ts : List Token)
    (log : Log) : (command cfg (t :: ts) log).rest.length < (t :: ts).length := by
  rw [command]
  exact Nat.lt_of_le_of_lt (cmdTail cfg _ _).le (single_length_lt cfg starts ts log)

end TriangleTam.Parser
