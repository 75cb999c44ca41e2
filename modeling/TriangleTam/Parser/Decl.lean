import TriangleTam.Parser.Expr

/-!
# Parsing declarations

Declarations are separated by semicolons. One declaration is that declaration; several are a
sequence.
-/

namespace TriangleTam.Parser

variable (cfg : Config)

/-- Reports a missing declaration and takes nothing. -/
def missingDecl (ts : List Token) (log : Log) : Parsed Decl ts :=
  let r := report cfg .noDeclaration ts log
  ⟨.bad (cfg.current r.rest).pos, r.rest, r.log, r.le⟩

/-- Takes `name ~ expression`; `pos` is the position of the word `const` before it. -/
def constDecl (pos : Pos) (ts : List Token) (log : Log) : Parsed Decl ts :=
  let name := ident cfg ts log
  let is := accept cfg (.mark .is) name.rest name.log
  let value := expr cfg is.rest is.log
  ⟨.const pos none none name.value value.value, value.rest, value.log,
    Nat.le_trans value.le (Nat.le_trans is.le name.le)⟩

/-- Takes `name : type`; `pos` is the position of the word `var` before it. -/
def varDecl (pos : Pos) (ts : List Token) (log : Log) : Parsed Decl ts :=
  let name := ident cfg ts log
  let colon := accept cfg (.mark .colon) name.rest name.log
  let typeName := ident cfg colon.rest colon.log
  ⟨.var pos none none name.value typeName.value, typeName.rest, typeName.log,
    Nat.le_trans typeName.le (Nat.le_trans colon.le name.le)⟩

/-- Takes one declaration. -/
def singleDecl : (ts : List Token) → (log : Log) → Parsed Decl ts
  | [], log => missingDecl cfg [] log
  | t :: ts, log =>
    if t.kind = .keyword .const then
      let d := constDecl cfg t.pos ts log
      ⟨d.value, d.rest, d.log, Nat.le_succ_of_le d.le⟩
    else if t.kind = .keyword .var then
      let d := varDecl cfg t.pos ts log
      ⟨d.value, d.rest, d.log, Nat.le_succ_of_le d.le⟩
    else missingDecl cfg (t :: ts) log

/-- Takes semicolons with the declarations behind them, as long as there are any. -/
def declTail : (ts : List Token) → (log : Log) → Parsed (List Decl) ts
  | [], log => ⟨[], [], log, Nat.le_refl _⟩
  | t :: ts, log =>
    if t.kind = .mark .semicolon then
      let ⟨d, ts', log, le⟩ := singleDecl cfg ts log
      let r := declTail ts' log
      ⟨d :: r.value, r.rest, r.log, Nat.le_succ_of_le (Nat.le_trans r.le le)⟩
    else ⟨[], t :: ts, log, Nat.le_refl _⟩
termination_by ts => ts.length

/-- Several declarations as one; one alone stays as it is. -/
def joinDecls (pos : Pos) (d : Decl) : List Decl → Decl
  | [] => d
  | ds => .seq pos (d :: ds)

/-- Takes all declarations up to where no semicolon follows. -/
def declaration (ts : List Token) (log : Log) : Parsed Decl ts :=
  let d := singleDecl cfg ts log
  let r := declTail cfg d.rest d.log
  ⟨joinDecls (cfg.current ts).pos d.value r.value, r.rest, r.log, Nat.le_trans r.le d.le⟩

end TriangleTam.Parser
