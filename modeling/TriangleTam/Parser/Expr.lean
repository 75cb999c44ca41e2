import TriangleTam.Parser.Basic

/-!
# Parsing expressions and parameters

An expression is a chain of primary expressions joined by operators, all of one precedence and
grouped from the left. An operator in front of a primary expression applies to that one only.
-/

namespace TriangleTam.Parser

variable (cfg : Config)

/-- Reports a missing expression and takes nothing. -/
def missingExpr (ts : List Token) (log : Log) : Parsed Expr ts :=
  let r := report cfg .noExpression ts log
  ⟨.bad (cfg.current r.rest).pos none, r.rest, r.log, r.le⟩

/-- Reports a missing parameter and takes nothing. -/
def missingArg (ts : List Token) (log : Log) : Parsed Arg ts :=
  let r := report cfg .noParameter ts log
  ⟨.bad (cfg.current ts).pos, r.rest, r.log, r.le⟩

/-- Takes a variable passed as a parameter; `pos` is the position of the word `var` before it. -/
def varArg (pos : Pos) (ts : List Token) (log : Log) : Parsed Arg ts :=
  let id := ident cfg ts log
  ⟨.var pos id.value, id.rest, id.log, id.le⟩

mutual

/-- Takes an expression. -/
def expr (ts : List Token) (log : Log) : Parsed Expr ts :=
  let ⟨x, ts', log, le⟩ := primary ts log
  let r := exprTail x ts' log
  ⟨r.value, r.rest, r.log, Nat.le_trans r.le le⟩
termination_by 5 * ts.length + 2

/-- Takes operators with the primary expressions behind them, as long as there are any; `x` is what
stands before them. -/
def exprTail (x : Expr) : (ts : List Token) → (log : Log) → Parsed Expr ts
  | [], log => ⟨x, [], log, Nat.le_refl _⟩
  | t :: ts, log =>
    if t.kind = .operator then
      let ⟨y, ts', log, le⟩ := primary ts log
      let r := exprTail (.binary x.pos none x ⟨t.pos, t.spelling, none⟩ y) ts' log
      ⟨r.value, r.rest, r.log, Nat.le_succ_of_le (Nat.le_trans r.le le)⟩
    else ⟨x, t :: ts, log, Nat.le_refl _⟩
termination_by ts => 5 * ts.length + 1

/-- Takes a literal, a name, a call, an operator with its operand, or an expression in
parentheses. A malformed token counts as one of these. -/
def primary : (ts : List Token) → (log : Log) → Parsed Expr ts
  | [], log => missingExpr cfg [] log
  | t :: ts, log =>
    match t.kind with
    | .integer => ⟨.int t.pos none ⟨t.pos, t.spelling⟩, ts, log, Nat.le_succ _⟩
    | .character => ⟨.char t.pos none ⟨t.pos, t.spelling⟩, ts, log, Nat.le_succ _⟩
    | .identifier =>
      let r := nameOrCall t ts log
      ⟨r.value, r.rest, r.log, Nat.le_succ_of_le r.le⟩
    | .operator =>
      let x := primary ts log
      ⟨.unary t.pos none ⟨t.pos, t.spelling, none⟩ x.value, x.rest, x.log,
        Nat.le_succ_of_le x.le⟩
    | .mark .lparen =>
      let x := expr ts log
      let r := accept cfg (.mark .rparen) x.rest x.log
      ⟨x.value, r.rest, r.log, Nat.le_succ_of_le (Nat.le_trans r.le x.le)⟩
    | .malformed => ⟨.bad t.pos none, ts, log, Nat.le_succ _⟩
    | _ => missingExpr cfg (t :: ts) log
termination_by ts => 5 * ts.length

/-- Takes what may follow the identifier `t`: a parameter in parentheses makes it a call. -/
def nameOrCall (t : Token) : (ts : List Token) → (log : Log) → Parsed Expr ts
  | [], log => ⟨.name t.pos none ⟨t.pos, t.spelling, none⟩, [], log, Nat.le_refl _⟩
  | p :: ts, log =>
    if p.kind = .mark .lparen then
      let a := argument ts log
      ⟨.call t.pos none ⟨t.pos, t.spelling, none⟩ a.value, a.rest, a.log, Nat.le_succ_of_le a.le⟩
    else ⟨.name t.pos none ⟨t.pos, t.spelling, none⟩, p :: ts, log, Nat.le_refl _⟩
termination_by ts => 5 * ts.length + 1

/-- Takes a parameter and the closing parenthesis behind it. -/
def argument (ts : List Token) (log : Log) : Parsed Arg ts :=
  let a := param ts log
  let r := accept cfg (.mark .rparen) a.rest a.log
  ⟨a.value, r.rest, r.log, Nat.le_trans r.le a.le⟩
termination_by 5 * ts.length + 4

/-- Takes an expression, or `var` and an identifier, or nothing before a closing parenthesis. -/
def param : (ts : List Token) → (log : Log) → Parsed Arg ts
  | [], log => missingArg cfg [] log
  | t :: ts, log =>
    if t.kind.startsExpr then
      let x := expr (t :: ts) log
      ⟨.value t.pos x.value, x.rest, x.log, x.le⟩
    else if t.kind = .keyword .var then
      let a := varArg cfg t.pos ts log
      ⟨a.value, a.rest, a.log, Nat.le_succ_of_le a.le⟩
    else if t.kind = .mark .rparen then ⟨.blank t.pos, t :: ts, log, Nat.le_refl _⟩
    else missingArg cfg (t :: ts) log
termination_by ts => 5 * ts.length + 3

end

end TriangleTam.Parser
