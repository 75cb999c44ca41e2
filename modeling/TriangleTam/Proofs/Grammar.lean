import TriangleTam.Token
import TriangleTam.Tree

/-!
# The grammar

Which lists of tokens are programs, and the tree each has. Only the categories of the tokens decide
what is derived; the spellings of names, operators and literals go into the tree, and positions do
not. Trees that differ in nothing but positions are the same for the grammar, so they are compared
without them.
-/

namespace TriangleTam

section Positions

/-- The name without its position. -/
def Ident.unplaced (id : Ident) : Ident := { id with pos := Pos.none }

/-- The operator without its position. -/
def OpName.unplaced (op : OpName) : OpName := { op with pos := Pos.none }

/-- The literal without its position. -/
def Literal.unplaced (lit : Literal) : Literal := { lit with pos := Pos.none }

mutual

/-- The expression without its positions. -/
def Expr.unplaced : Expr → Expr
  | .int _ ty lit => .int Pos.none ty lit.unplaced
  | .char _ ty lit => .char Pos.none ty lit.unplaced
  | .name _ ty id => .name Pos.none ty id.unplaced
  | .unary _ ty op x => .unary Pos.none ty op.unplaced x.unplaced
  | .binary _ ty x op y => .binary Pos.none ty x.unplaced op.unplaced y.unplaced
  | .call _ ty callee a => .call Pos.none ty callee.unplaced a.unplaced
  | .bad _ ty => .bad Pos.none ty

/-- The actual parameter without its positions. -/
def Arg.unplaced : Arg → Arg
  | .value _ x => .value Pos.none x.unplaced
  | .var _ id => .var Pos.none id.unplaced
  | .blank _ => .blank Pos.none
  | .bad _ => .bad Pos.none

end

mutual

/-- The declaration without its positions. -/
def Decl.unplaced : Decl → Decl
  | .const _ ty storage name value => .const Pos.none ty storage name.unplaced value.unplaced
  | .var _ ty storage name typeName =>
    .var Pos.none ty storage name.unplaced typeName.unplaced
  | .seq _ ds => .seq Pos.none (Decl.unplacedAll ds)
  | .bad _ => .bad Pos.none
  | .builtin b => .builtin b

/-- The declarations without their positions. -/
def Decl.unplacedAll : List Decl → List Decl
  | [] => []
  | d :: ds => d.unplaced :: Decl.unplacedAll ds

end

mutual

/-- The command without its positions. -/
def Cmd.unplaced : Cmd → Cmd
  | .assign _ target value => .assign Pos.none target.unplaced value.unplaced
  | .call _ callee a => .call Pos.none callee.unplaced a.unplaced
  | .seq _ cs => .seq Pos.none (Cmd.unplacedAll cs)
  | .block _ body _ => .block Pos.none body.unplaced Pos.none
  | .ifElse _ cond yes no => .ifElse Pos.none cond.unplaced yes.unplaced no.unplaced
  | .ifEither _ cond alt yes no =>
    .ifEither Pos.none cond.unplaced alt.unplaced yes.unplaced no.unplaced
  | .whileDo _ cond body => .whileDo Pos.none cond.unplaced body.unplaced
  | .letIn _ d body => .letIn Pos.none d.unplaced body.unplaced
  | .skip _ explicit => .skip Pos.none explicit
  | .bad _ => .bad Pos.none

/-- The commands without their positions. -/
def Cmd.unplacedAll : List Cmd → List Cmd
  | [] => []
  | c :: cs => c.unplaced :: Cmd.unplacedAll cs

end

/-- The program without its positions. -/
def Program.unplaced (p : Program) : Program := ⟨Pos.none, p.body.unplaced⟩

theorem Decl.unplacedAll_eq_map (ds : List Decl) : Decl.unplacedAll ds = ds.map Decl.unplaced := by
  induction ds with
  | nil => rfl
  | cons d ds ih => rw [Decl.unplacedAll, List.map_cons, ih]

theorem Cmd.unplacedAll_eq_map (cs : List Cmd) : Cmd.unplacedAll cs = cs.map Cmd.unplaced := by
  induction cs with
  | nil => rfl
  | cons c cs ih => rw [Cmd.unplacedAll, List.map_cons, ih]

end Positions

namespace Grammar

/-- The name a token is spelled with. -/
def name (t : Token) : Ident := ⟨Pos.none, t.spelling, none⟩

/-- The operator a token is spelled with. -/
def opName (t : Token) : OpName := ⟨Pos.none, t.spelling, none⟩

/-- The literal a token is spelled with. -/
def literal (t : Token) : Literal := ⟨Pos.none, t.spelling⟩

mutual

/-- A chain of primary expressions joined by operators, all of one precedence and grouped from the
left. -/
inductive Expression : List Token → Expr → Prop where
  | primary {ts x} (inner : PrimaryExpression ts x) : Expression ts x
  | binary {ts x t us y} (left : Expression ts x) (operator : t.kind = .operator)
      (right : PrimaryExpression us y) :
      Expression (ts ++ t :: us) (.binary Pos.none none x (opName t) y)

/-- A literal, a name, a call, an operator with the primary expression behind it, or an expression
in parentheses. -/
inductive PrimaryExpression : List Token → Expr → Prop where
  | int {t} (kind : t.kind = .integer) : PrimaryExpression [t] (.int Pos.none none (literal t))
  | char {t} (kind : t.kind = .character) :
      PrimaryExpression [t] (.char Pos.none none (literal t))
  | name {t} (kind : t.kind = .identifier) :
      PrimaryExpression [t] (.name Pos.none none (Grammar.name t))
  | call {t p ts a r} (callee : t.kind = .identifier) (opens : p.kind = .mark .lparen)
      (passed : Parameter ts a) (closes : r.kind = .mark .rparen) :
      PrimaryExpression (t :: p :: ts ++ [r]) (.call Pos.none none (Grammar.name t) a)
  | unary {t ts x} (operator : t.kind = .operator) (operand : PrimaryExpression ts x) :
      PrimaryExpression (t :: ts) (.unary Pos.none none (opName t) x)
  | parens {p ts x r} (opens : p.kind = .mark .lparen) (inner : Expression ts x)
      (closes : r.kind = .mark .rparen) : PrimaryExpression (p :: ts ++ [r]) x

/-- An expression, a variable itself, or nothing. -/
inductive Parameter : List Token → Arg → Prop where
  | value {ts x} (inner : Expression ts x) : Parameter ts (.value Pos.none x)
  | var {w t} (word : w.kind = .keyword .var) (id : t.kind = .identifier) :
      Parameter [w, t] (.var Pos.none (Grammar.name t))
  | blank : Parameter [] (.blank Pos.none)

end

theorem PrimaryExpression.starts {ts : List Token} {x : Expr} (h : PrimaryExpression ts x) :
    ∃ t us, ts = t :: us ∧ t.kind.startsExpr = true := by
  cases h with
  | int kind | char kind | name kind | call kind | unary kind | parens kind =>
    refine ⟨_, _, rfl, ?_⟩
    rw [kind]
    rfl

/-- An expression is not empty, and its first token can start one. -/
theorem Expression.starts : ∀ {ts : List Token} {x : Expr}, Expression ts x →
    ∃ t us, ts = t :: us ∧ t.kind.startsExpr = true
  | _, _, .primary inner => inner.starts
  | _, _, .binary left _ _ => by
    obtain ⟨t, us, rfl, starts⟩ := left.starts
    exact ⟨t, _, rfl, starts⟩

/-- A constant with its value, or a variable with its type. -/
inductive SingleDeclaration : List Token → Decl → Prop where
  | const {w t s ts x} (word : w.kind = .keyword .const) (id : t.kind = .identifier)
      (is : s.kind = .mark .is) (value : Expression ts x) :
      SingleDeclaration (w :: t :: s :: ts) (.const Pos.none none none (name t) x)
  | var {w t s u} (word : w.kind = .keyword .var) (id : t.kind = .identifier)
      (colon : s.kind = .mark .colon) (type : u.kind = .identifier) :
      SingleDeclaration [w, t, s, u] (.var Pos.none none none (name t) (name u))

/-- Declarations separated by semicolons. -/
inductive Declarations : List Token → List Decl → Prop where
  | one {ts d} (only : SingleDeclaration ts d) : Declarations ts [d]
  | more {ts d s us ds} (first : SingleDeclaration ts d) (semicolon : s.kind = .mark .semicolon)
      (rest : Declarations us ds) : Declarations (ts ++ s :: us) (d :: ds)

/-- Several declarations are a sequence, and one alone is itself. -/
def declSequence : List Decl → Decl
  | [d] => d
  | ds => .seq Pos.none ds

/-- Several commands are a sequence, and one alone is itself. -/
def sequence : List Cmd → Cmd
  | [c] => c
  | cs => .seq Pos.none cs

mutual

/-- A command that is no sequence. The bodies of `let` and `while` and the branches of conditional
commands are such commands, and the empty command is one. -/
inductive SingleCommand : List Token → Cmd → Prop where
  | call {t p ts a r} (callee : t.kind = .identifier) (opens : p.kind = .mark .lparen)
      (passed : Parameter ts a) (closes : r.kind = .mark .rparen) :
      SingleCommand (t :: p :: ts ++ [r]) (.call Pos.none (name t) a)
  | assign {t p ts x} (target : t.kind = .identifier) (becomes : p.kind = .mark .becomes)
      (value : Expression ts x) : SingleCommand (t :: p :: ts) (.assign Pos.none (name t) x)
  | block {p ts cs r} (opens : p.kind = .mark .lbrace) (body : Commands ts cs)
      (closes : r.kind = .mark .rbrace) :
      SingleCommand (p :: ts ++ [r]) (.block Pos.none (sequence cs) Pos.none)
  | letIn {w ts ds v us c} (word : w.kind = .keyword .let_) (decls : Declarations ts ds)
      (in_ : v.kind = .keyword .in_) (body : SingleCommand us c) :
      SingleCommand (w :: ts ++ v :: us) (.letIn Pos.none (declSequence ds) c)
  | ifElse {w ts x v us c s vs d e} (word : w.kind = .keyword .if_) (cond : Expression ts x)
      (then_ : v.kind = .keyword .then_) (yes : SingleCommand us c)
      (else_ : s.kind = .keyword .else_) (no : SingleCommand vs d)
      (endif : e.kind = .keyword .endif) :
      SingleCommand (w :: ts ++ v :: us ++ s :: vs ++ [e]) (.ifElse Pos.none x c d)
  | ifEither {w ts x o ks y v us c s vs d e} (word : w.kind = .keyword .ifeither)
      (cond : Expression ts x) (or_ : o.kind = .keyword .or) (alt : Expression ks y)
      (then_ : v.kind = .keyword .then_) (yes : SingleCommand us c)
      (else_ : s.kind = .keyword .else_) (no : SingleCommand vs d)
      (endif : e.kind = .keyword .endif) :
      SingleCommand (w :: ts ++ o :: ks ++ v :: us ++ s :: vs ++ [e])
        (.ifEither Pos.none x y c d)
  | whileDo {w ts x v us c} (word : w.kind = .keyword .while_) (cond : Expression ts x)
      (do_ : v.kind = .keyword .do_) (body : SingleCommand us c) :
      SingleCommand (w :: ts ++ v :: us) (.whileDo Pos.none x c)
  | pass {w} (word : w.kind = .keyword .pass) : SingleCommand [w] (.skip Pos.none true)
  | empty : SingleCommand [] (.skip Pos.none false)

/-- Commands separated by semicolons. -/
inductive Commands : List Token → List Cmd → Prop where
  | one {ts c} (only : SingleCommand ts c) : Commands ts [c]
  | more {ts c s us cs} (first : SingleCommand ts c) (semicolon : s.kind = .mark .semicolon)
      (rest : Commands us cs) : Commands (ts ++ s :: us) (c :: cs)

end

/-- A program is a command up to the end of the text. -/
inductive Program : List Token → TriangleTam.Program → Prop where
  | ends {ts : List Token} {cs : List Cmd} {e : Token} (body : Commands ts cs)
      (last : e.kind = .endOfText) : Program (ts ++ [e]) ⟨Pos.none, sequence cs⟩

end Grammar

end TriangleTam
