import TriangleTam.Proofs.Grammar

/-!
# Spans

The span of a node is what its rule of the grammar takes from the tokens. The families below derive
trees as the grammar does, from the tokens that start with those of the tree and up to the ones that
are left behind it, and they say of each node with these two that they have some property. Unlike
the grammar they leave the positions in the tree, so that a property can compare the position of a
node with those of its tokens. `Program.derived` says that nothing but trees of the grammar are
derived.
-/

namespace TriangleTam

namespace Spanned

variable (P : Node → List Token → List Token → Prop)

/-- An identifier. -/
structure Name (ts : List Token) (id : Ident) (rest : List Token) : Prop where
  token : ∃ t, ts = t :: rest ∧ t.kind = .identifier ∧ id.unplaced = Grammar.name t
  here : P (.ident id) ts rest

/-- An operator. -/
structure Operator (ts : List Token) (op : OpName) (rest : List Token) : Prop where
  token : ∃ t, ts = t :: rest ∧ t.kind = .operator ∧ op.unplaced = Grammar.opName t
  here : P (.op op) ts rest

mutual

/-- An expression. -/
inductive Expression : List Token → Expr → List Token → Prop where
  | primary {ts x rest} (inner : PrimaryExpression ts x rest) : Expression ts x rest
  | binary {ts us vs rest x op y pos} (left : Expression ts x us) (operator : Operator P us op vs)
      (right : PrimaryExpression vs y rest) (here : P (.expr (.binary pos none x op y)) ts rest) :
      Expression ts (.binary pos none x op y) rest

/-- A primary expression. Parentheses make no node. -/
inductive PrimaryExpression : List Token → Expr → List Token → Prop where
  | int {t rest lit pos} (kind : t.kind = .integer) (spelled : lit.unplaced = Grammar.literal t)
      (inner : P (.intLit lit) (t :: rest) rest)
      (here : P (.expr (.int pos none lit)) (t :: rest) rest) :
      PrimaryExpression (t :: rest) (.int pos none lit) rest
  | char {t rest lit pos} (kind : t.kind = .character) (spelled : lit.unplaced = Grammar.literal t)
      (inner : P (.charLit lit) (t :: rest) rest)
      (here : P (.expr (.char pos none lit)) (t :: rest) rest) :
      PrimaryExpression (t :: rest) (.char pos none lit) rest
  | name {ts rest id pos} (inner : Name P ts id rest)
      (here : P (.expr (.name pos none id)) ts rest) :
      PrimaryExpression ts (.name pos none id) rest
  | call {ts p us r rest id a pos} (callee : Name P ts id (p :: us))
      (opens : p.kind = .mark .lparen) (passed : Parameter us a (r :: rest))
      (closes : r.kind = .mark .rparen)
      (here : P (.expr (.call pos none id a)) ts rest) :
      PrimaryExpression ts (.call pos none id a) rest
  | unary {ts us rest op x pos} (operator : Operator P ts op us)
      (operand : PrimaryExpression us x rest) (here : P (.expr (.unary pos none op x)) ts rest) :
      PrimaryExpression ts (.unary pos none op x) rest
  | parens {p ts r rest x} (opens : p.kind = .mark .lparen) (inner : Expression ts x (r :: rest))
      (closes : r.kind = .mark .rparen) : PrimaryExpression (p :: ts) x rest

/-- An actual parameter. -/
inductive Parameter : List Token → Arg → List Token → Prop where
  | value {ts x rest pos} (inner : Expression ts x rest) (here : P (.arg (.value pos x)) ts rest) :
      Parameter ts (.value pos x) rest
  | var {w ts rest id pos} (word : w.kind = .keyword .var) (inner : Name P ts id rest)
      (here : P (.arg (.var pos id)) (w :: ts) rest) : Parameter (w :: ts) (.var pos id) rest
  | blank {ts pos} (here : P (.arg (.blank pos)) ts ts) : Parameter ts (.blank pos) ts

end

/-- A declaration that is no sequence. -/
inductive SingleDeclaration : List Token → Decl → List Token → Prop where
  | const {w ts s us rest id x pos} (word : w.kind = .keyword .const)
      (name : Name P ts id (s :: us)) (is : s.kind = .mark .is) (value : Expression P us x rest)
      (here : P (.decl (.const pos none none id x)) (w :: ts) rest) :
      SingleDeclaration (w :: ts) (.const pos none none id x) rest
  | var {w ts s us rest id type pos} (word : w.kind = .keyword .var) (name : Name P ts id (s :: us))
      (colon : s.kind = .mark .colon) (typeName : Name P us type rest)
      (here : P (.decl (.var pos none none id type)) (w :: ts) rest) :
      SingleDeclaration (w :: ts) (.var pos none none id type) rest

/-- Declarations, each but the first behind a semicolon. -/
inductive Declarations : List Token → List Decl → List Token → Prop where
  | one {ts d rest} (only : SingleDeclaration P ts d rest) : Declarations ts [d] rest
  | more {ts d s us ds rest} (first : SingleDeclaration P ts d (s :: us))
      (semicolon : s.kind = .mark .semicolon) (later : Declarations us ds rest) :
      Declarations ts (d :: ds) rest

/-- A declaration, which may be a sequence. -/
inductive Declaration : List Token → Decl → List Token → Prop where
  | one {ts d rest} (only : SingleDeclaration P ts d rest) : Declaration ts d rest
  | seq {ts d e ds rest pos} (all : Declarations P ts (d :: e :: ds) rest)
      (here : P (.decl (.seq pos (d :: e :: ds))) ts rest) :
      Declaration ts (.seq pos (d :: e :: ds)) rest

mutual

/-- A command that is no sequence. -/
inductive SingleCommand : List Token → Cmd → List Token → Prop where
  | call {ts p us r rest id a pos} (callee : Name P ts id (p :: us))
      (opens : p.kind = .mark .lparen) (passed : Parameter P us a (r :: rest))
      (closes : r.kind = .mark .rparen)
      (here : P (.cmd (.call pos id a)) ts rest) : SingleCommand ts (.call pos id a) rest
  | assign {ts p us rest id x pos} (target : Name P ts id (p :: us))
      (becomes : p.kind = .mark .becomes) (value : Expression P us x rest)
      (here : P (.cmd (.assign pos id x)) ts rest) : SingleCommand ts (.assign pos id x) rest
  | block {p ts c r rest pos close} (opens : p.kind = .mark .lbrace)
      (body : Command ts c (r :: rest)) (closes : r.kind = .mark .rbrace) (brace : close = r.pos)
      (here : P (.cmd (.block pos c close)) (p :: ts) rest) :
      SingleCommand (p :: ts) (.block pos c close) rest
  | letIn {w ts d v us c rest pos} (word : w.kind = .keyword .let_)
      (decl : Declaration P ts d (v :: us)) (in_ : v.kind = .keyword .in_)
      (body : SingleCommand us c rest) (here : P (.cmd (.letIn pos d c)) (w :: ts) rest) :
      SingleCommand (w :: ts) (.letIn pos d c) rest
  | ifElse {w ts x us c d rest pos} (word : w.kind = .keyword .if_) (cond : Expression P ts x us)
      (arms : Branches us c d rest) (here : P (.cmd (.ifElse pos x c d)) (w :: ts) rest) :
      SingleCommand (w :: ts) (.ifElse pos x c d) rest
  | ifEither {w ts x o us y vs c d rest pos} (word : w.kind = .keyword .ifeither)
      (cond : Expression P ts x (o :: us)) (or_ : o.kind = .keyword .or)
      (alt : Expression P us y vs) (arms : Branches vs c d rest)
      (here : P (.cmd (.ifEither pos x y c d)) (w :: ts) rest) :
      SingleCommand (w :: ts) (.ifEither pos x y c d) rest
  | whileDo {w ts x v us c rest pos} (word : w.kind = .keyword .while_)
      (cond : Expression P ts x (v :: us)) (do_ : v.kind = .keyword .do_)
      (body : SingleCommand us c rest) (here : P (.cmd (.whileDo pos x c)) (w :: ts) rest) :
      SingleCommand (w :: ts) (.whileDo pos x c) rest
  | pass {w rest pos} (word : w.kind = .keyword .pass)
      (here : P (.cmd (.skip pos true)) (w :: rest) rest) :
      SingleCommand (w :: rest) (.skip pos true) rest
  | empty {ts pos} (here : P (.cmd (.skip pos false)) ts ts) :
      SingleCommand ts (.skip pos false) ts

/-- The branches of a conditional command, from the word `then` to the word `endif`. -/
inductive Branches : List Token → Cmd → Cmd → List Token → Prop where
  | arms {v us c s vs d e rest} (then_ : v.kind = .keyword .then_)
      (yes : SingleCommand us c (s :: vs)) (else_ : s.kind = .keyword .else_)
      (no : SingleCommand vs d (e :: rest)) (endif : e.kind = .keyword .endif) :
      Branches (v :: us) c d rest

/-- Commands, each but the first behind a semicolon. -/
inductive Commands : List Token → List Cmd → List Token → Prop where
  | one {ts c rest} (only : SingleCommand ts c rest) : Commands ts [c] rest
  | more {ts c s us cs rest} (first : SingleCommand ts c (s :: us))
      (semicolon : s.kind = .mark .semicolon) (later : Commands us cs rest) :
      Commands ts (c :: cs) rest

/-- A command, which may be a sequence. -/
inductive Command : List Token → Cmd → List Token → Prop where
  | one {ts c rest} (only : SingleCommand ts c rest) : Command ts c rest
  | seq {ts c d cs rest pos} (all : Commands ts (c :: d :: cs) rest)
      (here : P (.cmd (.seq pos (c :: d :: cs))) ts rest) :
      Command ts (.seq pos (c :: d :: cs)) rest

end

/-- A whole program. -/
inductive Program : List Token → TriangleTam.Program → Prop where
  | ends {ts c e pos} (body : Command P ts c [e]) (last : e.kind = .endOfText)
      (here : P (.program ⟨pos, c⟩) ts []) : Program ts ⟨pos, c⟩

section Derived

variable {P}

mutual

/-- The span of an expression is derived by the grammar. -/
theorem Expression.derived : ∀ {ts x rest}, Expression P ts x rest →
    ∃ span, ts = span ++ rest ∧ Grammar.Expression span x.unplaced
  | _, _, _, .primary inner => by
    obtain ⟨span, split, derived⟩ := inner.derived
    exact ⟨span, split, .primary derived⟩
  | _, _, _, .binary left operator right _ => by
    obtain ⟨us, rfl, left'⟩ := left.derived
    obtain ⟨t, rfl, kind, same⟩ := operator.token
    obtain ⟨vs, rfl, right'⟩ := right.derived
    have whole := Grammar.Expression.binary left' kind right'
    rw [← same] at whole
    exact ⟨_, by simp, whole⟩

theorem PrimaryExpression.derived : ∀ {ts x rest}, PrimaryExpression P ts x rest →
    ∃ span, ts = span ++ rest ∧ Grammar.PrimaryExpression span x.unplaced
  | _, _, _, .int kind spelled _ _ => by
    have whole := Grammar.PrimaryExpression.int kind
    rw [← spelled] at whole
    exact ⟨_, rfl, whole⟩
  | _, _, _, .char kind spelled _ _ => by
    have whole := Grammar.PrimaryExpression.char kind
    rw [← spelled] at whole
    exact ⟨_, rfl, whole⟩
  | _, _, _, .name inner _ => by
    obtain ⟨t, rfl, kind, same⟩ := inner.token
    have whole := Grammar.PrimaryExpression.name kind
    rw [← same] at whole
    exact ⟨_, rfl, whole⟩
  | _, _, _, .call callee opens passed closes _ => by
    obtain ⟨t, rfl, kind, same⟩ := callee.token
    obtain ⟨us, rfl, passed'⟩ := passed.derived
    have whole := Grammar.PrimaryExpression.call kind opens passed' closes
    rw [← same] at whole
    exact ⟨_, by simp, whole⟩
  | _, _, _, .unary operator operand _ => by
    obtain ⟨t, rfl, kind, same⟩ := operator.token
    obtain ⟨us, rfl, operand'⟩ := operand.derived
    have whole := Grammar.PrimaryExpression.unary kind operand'
    rw [← same] at whole
    exact ⟨_, rfl, whole⟩
  | _, _, _, .parens opens inner closes => by
    obtain ⟨us, rfl, inner'⟩ := inner.derived
    have whole := Grammar.PrimaryExpression.parens opens inner' closes
    exact ⟨_, by simp, whole⟩

theorem Parameter.derived : ∀ {ts a rest}, Parameter P ts a rest →
    ∃ span, ts = span ++ rest ∧ Grammar.Parameter span a.unplaced
  | _, _, _, .value inner _ => by
    obtain ⟨span, split, derived⟩ := inner.derived
    exact ⟨span, split, .value derived⟩
  | _, _, _, .var word inner _ => by
    obtain ⟨t, rfl, kind, same⟩ := inner.token
    have whole := Grammar.Parameter.var word kind
    rw [← same] at whole
    exact ⟨_, rfl, whole⟩
  | _, _, _, .blank _ => ⟨[], rfl, .blank⟩

end

variable {ts rest : List Token}

theorem SingleDeclaration.derived {d : Decl} (spanned : SingleDeclaration P ts d rest) :
    ∃ span, ts = span ++ rest ∧ Grammar.SingleDeclaration span d.unplaced := by
  cases spanned with
  | const word name is value _ =>
    obtain ⟨t, rfl, kind, same⟩ := name.token
    obtain ⟨us, rfl, value'⟩ := value.derived
    have whole := Grammar.SingleDeclaration.const word kind is value'
    rw [← same] at whole
    exact ⟨_, rfl, whole⟩
  | var word name colon typeName _ =>
    obtain ⟨t, rfl, kind, same⟩ := name.token
    obtain ⟨u, rfl, kind', same'⟩ := typeName.token
    have whole := Grammar.SingleDeclaration.var word kind colon kind'
    rw [← same, ← same'] at whole
    exact ⟨_, rfl, whole⟩

theorem Declarations.derived {ds : List Decl} (spanned : Declarations P ts ds rest) :
    ∃ span, ts = span ++ rest ∧ Grammar.Declarations span (ds.map Decl.unplaced) := by
  induction spanned with
  | one only =>
    obtain ⟨span, split, derived⟩ := only.derived
    exact ⟨span, split, .one derived⟩
  | more first semicolon _ ih =>
    obtain ⟨us, rfl, first'⟩ := first.derived
    obtain ⟨vs, rfl, later'⟩ := ih
    have whole := Grammar.Declarations.more first' semicolon later'
    exact ⟨_, by simp, whole⟩

theorem Declaration.derived {d : Decl} (spanned : Declaration P ts d rest) :
    ∃ span ds, ts = span ++ rest ∧ Grammar.Declarations span ds ∧
      d.unplaced = Grammar.declSequence ds := by
  cases spanned with
  | one only =>
    obtain ⟨span, split, derived⟩ := only.derived
    exact ⟨span, _, split, .one derived, rfl⟩
  | seq all _ =>
    obtain ⟨span, split, derived⟩ := all.derived
    refine ⟨span, _, split, derived, ?_⟩
    rw [Decl.unplaced, Decl.unplacedAll_eq_map]
    rfl

mutual

theorem SingleCommand.derived : ∀ {ts c rest}, SingleCommand P ts c rest →
    ∃ span, ts = span ++ rest ∧ Grammar.SingleCommand span c.unplaced
  | _, _, _, .call callee opens passed closes _ => by
    obtain ⟨t, rfl, kind, same⟩ := callee.token
    obtain ⟨us, rfl, passed'⟩ := passed.derived
    have whole := Grammar.SingleCommand.call kind opens passed' closes
    rw [← same] at whole
    exact ⟨_, by simp, whole⟩
  | _, _, _, .assign target becomes value _ => by
    obtain ⟨t, rfl, kind, same⟩ := target.token
    obtain ⟨us, rfl, value'⟩ := value.derived
    have whole := Grammar.SingleCommand.assign kind becomes value'
    rw [← same] at whole
    exact ⟨_, rfl, whole⟩
  | _, _, _, .block opens body closes _ _ => by
    obtain ⟨us, cs, rfl, body', same⟩ := body.derived
    have whole := Grammar.SingleCommand.block opens body' closes
    rw [← same] at whole
    exact ⟨_, by simp, whole⟩
  | _, _, _, .letIn word decl in_ body _ => by
    obtain ⟨us, ds, rfl, decls, same⟩ := decl.derived
    obtain ⟨vs, rfl, body'⟩ := body.derived
    have whole := Grammar.SingleCommand.letIn word decls in_ body'
    rw [← same] at whole
    exact ⟨_, by simp, whole⟩
  | _, _, _, .ifElse word cond arms _ => by
    obtain ⟨us, rfl, cond'⟩ := cond.derived
    obtain ⟨v, vs, s, ws, e, rfl, then_, yes, else_, no, endif⟩ := arms.derived
    have whole := Grammar.SingleCommand.ifElse word cond' then_ yes else_ no endif
    exact ⟨_, by simp, whole⟩
  | _, _, _, .ifEither word cond or_ alt arms _ => by
    obtain ⟨us, rfl, cond'⟩ := cond.derived
    obtain ⟨ks, rfl, alt'⟩ := alt.derived
    obtain ⟨v, vs, s, ws, e, rfl, then_, yes, else_, no, endif⟩ := arms.derived
    have whole := Grammar.SingleCommand.ifEither word cond' or_ alt' then_ yes else_ no endif
    exact ⟨_, by simp, whole⟩
  | _, _, _, .whileDo word cond do_ body _ => by
    obtain ⟨us, rfl, cond'⟩ := cond.derived
    obtain ⟨vs, rfl, body'⟩ := body.derived
    have whole := Grammar.SingleCommand.whileDo word cond' do_ body'
    exact ⟨_, by simp, whole⟩
  | _, _, _, .pass word _ => ⟨[_], rfl, .pass word⟩
  | _, _, _, .empty _ => ⟨[], rfl, .empty⟩

theorem Branches.derived : ∀ {ts c d rest}, Branches P ts c d rest →
    ∃ v us s vs e, ts = v :: us ++ s :: vs ++ e :: rest ∧ v.kind = .keyword .then_ ∧
      Grammar.SingleCommand us c.unplaced ∧ s.kind = .keyword .else_ ∧
      Grammar.SingleCommand vs d.unplaced ∧ e.kind = .keyword .endif
  | _, _, _, _, .arms then_ yes else_ no endif => by
    obtain ⟨us, rfl, yes'⟩ := yes.derived
    obtain ⟨vs, rfl, no'⟩ := no.derived
    exact ⟨_, us, _, vs, _, by simp, then_, yes', else_, no', endif⟩

theorem Commands.derived : ∀ {ts cs rest}, Commands P ts cs rest →
    ∃ span, ts = span ++ rest ∧ Grammar.Commands span (cs.map Cmd.unplaced)
  | _, _, _, .one only => by
    obtain ⟨span, split, derived⟩ := only.derived
    exact ⟨span, split, .one derived⟩
  | _, _, _, .more first semicolon later => by
    obtain ⟨us, rfl, first'⟩ := first.derived
    obtain ⟨vs, rfl, later'⟩ := later.derived
    have whole := Grammar.Commands.more first' semicolon later'
    exact ⟨_, by simp, whole⟩

theorem Command.derived : ∀ {ts c rest}, Command P ts c rest →
    ∃ span cs, ts = span ++ rest ∧ Grammar.Commands span cs ∧ c.unplaced = Grammar.sequence cs
  | _, _, _, .one only => by
    obtain ⟨span, split, derived⟩ := only.derived
    exact ⟨span, _, split, .one derived, rfl⟩
  | _, _, _, .seq all _ => by
    obtain ⟨span, split, derived⟩ := all.derived
    refine ⟨span, _, split, derived, ?_⟩
    rw [Cmd.unplaced, Cmd.unplacedAll_eq_map]
    rfl

end

/-- The tokens of a program are derived by the grammar with its tree. -/
theorem Program.derived {program : TriangleTam.Program} (spanned : Program P ts program) :
    Grammar.Program ts program.unplaced := by
  cases spanned with
  | ends body last _ =>
    obtain ⟨span, cs, rfl, derived, same⟩ := body.derived
    rw [Program.unplaced, same]
    exact .ends derived last

end Derived

end Spanned

end TriangleTam
