import TriangleTam.Proofs.Parser.Completeness
import TriangleTam.Proofs.Parser.Moves

/-!
# Two parsers side by side

Two parsers with different settings make the same tree as long as they are at the same tokens. What
keeps them there is a relation between the states of the two, and it need only be shown for taking a
token and for reporting a problem: the statements here carry it through every part of the parser.
Where the relation ends, because one of the two gives up or goes on where the other stops, something
else has to hold from then on, whatever the two do.
-/

namespace TriangleTam.Parser

section Stops

variable {cfg : Config} {ts : List Token}

/-- The tokens are used up, or there is a semicolon at the front. -/
abbrev Stops (ts : List Token) : Prop := Follows (· = .mark .semicolon) ts

theorem accept_of_stops (stops : Stops ts) {kind : Kind} (inner : Inner kind) (log : Log) :
    accept cfg kind ts log = reportMissing cfg kind ts log := by
  cases ts with
  | nil => rfl
  | cons t ts =>
    have stops : t.kind = .mark .semicolon := stops
    rw [accept, if_neg]
    rw [stops]
    exact fun same => inner same.symm

theorem ident_of_stops (stops : Stops ts) (log : Log) :
    ident cfg ts log = missingIdent cfg ts log := by
  cases ts with
  | nil => rfl
  | cons t ts =>
    have stops : t.kind = .mark .semicolon := stops
    rw [ident, if_neg (by rw [stops]; decide)]

theorem startsExpr_cases {k : Kind} (starts : k.startsExpr = true) :
    k = .integer ∨ k = .character ∨ k = .identifier ∨ k = .operator ∨ k = .mark .lparen := by
  unfold Kind.startsExpr at starts
  split at starts
  · simp
  · simp
  · simp
  · simp
  · simp
  · cases starts

theorem primary_of_not_startsExpr {t : Token} (starts : ¬ t.kind.startsExpr = true)
    (formed : t.kind ≠ .malformed) (ts : List Token) (log : Log) :
    primary cfg (t :: ts) log = missingExpr cfg (t :: ts) log := by
  rw [primary]
  split
  · next kind => exact absurd (by rw [kind]; rfl) starts
  · next kind => exact absurd (by rw [kind]; rfl) starts
  · next kind => exact absurd (by rw [kind]; rfl) starts
  · next kind => exact absurd (by rw [kind]; rfl) starts
  · next kind => exact absurd (by rw [kind]; rfl) starts
  · next kind => exact absurd kind formed
  · rfl

theorem primary_of_stops (stops : Stops ts) (log : Log) :
    primary cfg ts log = missingExpr cfg ts log := by
  cases ts with
  | nil => rw [primary]
  | cons t ts =>
    have stops : t.kind = .mark .semicolon := stops
    exact primary_of_not_startsExpr (by rw [stops]; decide) (by rw [stops]; decide) ts log

theorem param_of_stops (stops : Stops ts) (log : Log) :
    param cfg ts log = missingArg cfg ts log := by
  cases ts with
  | nil => rw [param]
  | cons t ts =>
    have stops : t.kind = .mark .semicolon := stops
    rw [param, if_neg (by rw [stops]; decide), if_neg (by rw [stops]; decide),
      if_neg (by rw [stops]; decide)]

theorem singleDecl_of_stops (stops : Stops ts) (log : Log) :
    singleDecl cfg ts log = missingDecl cfg ts log := by
  cases ts with
  | nil => rfl
  | cons t ts =>
    have stops : t.kind = .mark .semicolon := stops
    rw [singleDecl, if_neg (by rw [stops]; decide), if_neg (by rw [stops]; decide)]

theorem assignOrCall_of_stops (stops : Stops ts) (t : Token) (log : Log) :
    assignOrCall cfg t ts log = badCmd cfg .noAssignOrCall ts log := by
  cases ts with
  | nil => rfl
  | cons p ts =>
    have stops : p.kind = .mark .semicolon := stops
    rw [assignOrCall, if_neg (by rw [stops]; decide), if_neg (by rw [stops]; decide)]

/-- Before a token that ends a command, there is the empty command. -/
theorem single_of_endsCmd (ends : Follows (·.endsCmd = true) ts) (log : Log) :
    (single cfg ts log).all = (.skip (cfg.current ts).pos false, ts, log) := by
  cases ts with
  | nil =>
    rw [single]
    rfl
  | cons t ts =>
    have ends : t.kind.endsCmd = true := ends
    rw [single_cons, if_neg (not_startsCmd_of_endsCmd ends), if_pos ends]
    rfl

end Stops

section Lists

variable {cfg : Config}

theorem declTail_of_semicolon {s : Token} (semicolon : s.kind = .mark .semicolon)
    (ts : List Token) (log : Log) :
    (declTail cfg (s :: ts) log).all =
      let d := singleDecl cfg ts log
      let r := declTail cfg d.rest d.log
      (d.value :: r.value, r.rest, r.log) := by
  rw [declTail, if_pos semicolon]
  rfl

theorem cmdTail_of_semicolon {s : Token} (semicolon : s.kind = .mark .semicolon)
    (ts : List Token) (log : Log) :
    (cmdTail cfg (s :: ts) log).all =
      let c := single cfg ts log
      let r := cmdTail cfg c.rest c.log
      (c.value :: r.value, r.rest, r.log) := by
  rw [cmdTail, if_pos semicolon]
  rfl

theorem command_all (ts : List Token) (log : Log) :
    (command cfg ts log).all =
      let c := single cfg ts log
      let r := cmdTail cfg c.rest c.log
      (joinCmds (cfg.current ts).pos c.value r.value, r.rest, r.log) := by
  rw [command]
  rfl

end Lists

/-- How two parsers stand to each other: the first token of both is the same, and they are in step
behind it too, or the second has no tokens left and the first is at a semicolon at most, behind
which the two have parted. -/
inductive Abreast (cfg₁ cfg₂ : Config) (Sync Off : State → State → Prop) (ts₁ ts₂ : List Token)
    (log₁ log₂ : Log) : Prop where
  | same {t : Token} {us₁ us₂ : List Token} (first : ts₁ = t :: us₁) (second : ts₂ = t :: us₂)
      (later : Sync (us₁, log₁) (us₂, log₂))
  | ended (none : ts₂ = []) (stops : Stops ts₁) (pos : (cfg₁.current ts₁).pos = cfg₂.endPos)
      (beyond : ∀ t us, ts₁ = t :: us → Off (us, log₁) ([], log₂))

/-- Two parsers side by side: `Sync` holds as long as they are in step, and `Off` once they are
not. -/
structure Simulation (cfg₁ cfg₂ : Config) where
  Sync : State → State → Prop
  Off : State → State → Prop
  front : ∀ {ts₁ ts₂ log₁ log₂}, Sync (ts₁, log₁) (ts₂, log₂) →
    Abreast cfg₁ cfg₂ Sync Off ts₁ ts₂ log₁ log₂
  report : ∀ {ts₁ ts₂ log₁ log₂}, Sync (ts₁, log₁) (ts₂, log₂) → ∀ e : Token → ParseError,
    let s₁ := (report cfg₁ (e (cfg₁.current ts₁)) ts₁ log₁).state
    let s₂ := (Parser.report cfg₂ (e (cfg₂.current ts₂)) ts₂ log₂).state
    Sync s₁ s₂ ∨ Off s₁ s₂
  missing : ∀ {ts₁ ts₂ log₁ log₂}, Sync (ts₁, log₁) (ts₂, log₂) → ∀ kind : Kind,
    let s₁ := (reportMissing cfg₁ kind ts₁ log₁).state
    let s₂ := (reportMissing cfg₂ kind ts₂ log₂).state
    Sync s₁ s₂ ∨ Off s₁ s₂
  off_moves : ∀ {s₁ s₁' s₂ s₂'}, Off s₁ s₂ → Moves cfg₁ (fun _ => True) s₁ s₁' →
    Moves cfg₂ (fun _ => True) s₂ s₂' → Off s₁' s₂'

namespace Simulation

variable {cfg₁ cfg₂ : Config} (sim : Simulation cfg₁ cfg₂)

/-- The values are the same and the parsers in step, or they have parted. -/
def Agree {α : Type} (r₁ r₂ : α × State) : Prop :=
  (r₁.1 = r₂.1 ∧ sim.Sync r₁.2 r₂.2) ∨ sim.Off r₁.2 r₂.2

section Combine

variable {sim} {α β : Type} {r₁ r₂ : α × State} {q₁ q₂ : β × State}

theorem agree_same (a : α) {s₁ s₂ : State} (sync : sim.Sync s₁ s₂) : sim.Agree (a, s₁) (a, s₂) :=
  .inl ⟨rfl, sync⟩

theorem agree_off (off : sim.Off r₁.2 r₂.2) : sim.Agree r₁ r₂ := .inr off

theorem Agree.map (h : sim.Agree r₁ r₂) (f : α → β) : sim.Agree (f r₁.1, r₁.2) (f r₂.1, r₂.2) :=
  h.imp_left fun both => ⟨congrArg f both.1, both.2⟩

/-- One step after another, where the second uses the value of the first. -/
theorem Agree.bind {P₁ P₂ : Kind → Prop} (first : sim.Agree r₁ r₂)
    (second : r₁.1 = r₂.1 → sim.Sync r₁.2 r₂.2 → sim.Agree q₁ q₂)
    (moves₁ : Moves cfg₁ P₁ r₁.2 q₁.2) (moves₂ : Moves cfg₂ P₂ r₂.2 q₂.2) : sim.Agree q₁ q₂ := by
  rcases first with ⟨same, sync⟩ | off
  · exact second same sync
  · exact agree_off (sim.off_moves off (moves₁.mono fun _ _ => trivial)
      (moves₂.mono fun _ _ => trivial))

/-- One step after another, with both values. -/
theorem Agree.and {P₁ P₂ : Kind → Prop} (first : sim.Agree r₁ r₂)
    (second : sim.Sync r₁.2 r₂.2 → sim.Agree q₁ q₂)
    (moves₁ : Moves cfg₁ P₁ r₁.2 q₁.2) (moves₂ : Moves cfg₂ P₂ r₂.2 q₂.2) :
    sim.Agree ((r₁.1, q₁.1), q₁.2) ((r₂.1, q₂.1), q₂.2) := by
  refine first.bind (fun same sync => ?_) moves₁ moves₂
  exact (second sync).imp_left fun both => ⟨by rw [same, both.1], both.2⟩

end Combine

section Tokens

variable {ts₁ ts₂ : List Token} {log₁ log₂ : Log}

theorem pos_eq (sync : sim.Sync (ts₁, log₁) (ts₂, log₂)) :
    (cfg₁.current ts₁).pos = (cfg₂.current ts₂).pos := by
  cases sim.front sync with
  | same first second later => rw [first, second]; rfl
  | ended none stops pos beyond => rw [none]; exact pos

theorem missing_agree (sync : sim.Sync (ts₁, log₁) (ts₂, log₂)) (kind : Kind) :
    sim.Agree (reportMissing cfg₁ kind ts₁ log₁).all (reportMissing cfg₂ kind ts₂ log₂).all :=
  (sim.missing sync kind).imp_left fun sync => ⟨rfl, sync⟩

theorem accept_agree (sync : sim.Sync (ts₁, log₁) (ts₂, log₂)) {kind : Kind} (inner : Inner kind) :
    sim.Agree (accept cfg₁ kind ts₁ log₁).all (accept cfg₂ kind ts₂ log₂).all := by
  cases sim.front sync with
  | @same t us₁ us₂ first second later =>
    rw [first, second] at sync ⊢
    by_cases found : t.kind = kind
    · rw [accept_of_kind found, accept_of_kind found]
      exact agree_same () later
    · rw [accept, if_neg found, accept, if_neg found]
      exact sim.missing_agree sync kind
  | ended none stops pos beyond =>
    rw [none] at sync ⊢
    rw [accept_of_stops stops inner]
    exact sim.missing_agree sync kind

/-- A report, and a node where the parser is after it. -/
theorem report_agree (sync : sim.Sync (ts₁, log₁) (ts₂, log₂)) (e : Token → ParseError) {α : Type}
    (f : Pos → α) :
    let r₁ := Parser.report cfg₁ (e (cfg₁.current ts₁)) ts₁ log₁
    let r₂ := Parser.report cfg₂ (e (cfg₂.current ts₂)) ts₂ log₂
    sim.Agree (f (cfg₁.current r₁.rest).pos, r₁.state) (f (cfg₂.current r₂.rest).pos, r₂.state) :=
  (sim.report sync e).imp_left fun sync => ⟨congrArg f (sim.pos_eq sync), sync⟩

/-- A report, and a node where the parser was before it. -/
theorem report_agree_before (sync : sim.Sync (ts₁, log₁) (ts₂, log₂)) (e : Token → ParseError)
    {α : Type} (f : Pos → α) :
    sim.Agree (f (cfg₁.current ts₁).pos, (Parser.report cfg₁ (e (cfg₁.current ts₁)) ts₁ log₁).state)
      (f (cfg₂.current ts₂).pos, (Parser.report cfg₂ (e (cfg₂.current ts₂)) ts₂ log₂).state) :=
  (sim.report sync e).imp_left fun after => ⟨congrArg f (sim.pos_eq sync), after⟩

theorem missingIdent_agree (sync : sim.Sync (ts₁, log₁) (ts₂, log₂)) :
    sim.Agree (missingIdent cfg₁ ts₁ log₁).all (missingIdent cfg₂ ts₂ log₂).all :=
  sim.report_agree_before sync .noIdentifier fun pos => (⟨pos, "", none⟩ : Ident)

theorem ident_agree (sync : sim.Sync (ts₁, log₁) (ts₂, log₂)) :
    sim.Agree (ident cfg₁ ts₁ log₁).all (ident cfg₂ ts₂ log₂).all := by
  cases sim.front sync with
  | @same t us₁ us₂ first second later =>
    rw [first, second] at sync ⊢
    by_cases found : t.kind = .identifier
    · rw [ident_of_kind found, ident_of_kind found]
      exact agree_same _ later
    · rw [ident, if_neg found, ident, if_neg found]
      exact sim.missingIdent_agree sync
  | ended none stops pos beyond =>
    rw [none] at sync ⊢
    rw [ident_of_stops stops]
    exact sim.missingIdent_agree sync

/-- Skipping tokens keeps two parsers in step. -/
theorem skipWhile_sync {p : Kind → Bool} (inner : ∀ k, p k = true → Inner k) (ts₁ ts₂ : List Token)
    (sync : sim.Sync (ts₁, log₁) (ts₂, log₂)) :
    sim.Sync (skipWhile p ts₁, log₁) (skipWhile p ts₂, log₂) := by
  induction ts₁ generalizing ts₂ with
  | nil =>
    cases sim.front sync with
    | same first second later => cases first
    | ended none stops pos beyond =>
      rw [none] at sync ⊢
      exact sync
  | cons t us₁ ih =>
    cases sim.front sync with
    | @same _ _ us₂ first second later =>
      obtain ⟨rfl, rfl⟩ := List.cons.inj first
      rw [second] at sync ⊢
      rw [skipWhile, skipWhile, List.dropWhile_cons, List.dropWhile_cons]
      split
      · exact ih us₂ later
      · exact sync
    | ended none stops pos beyond =>
      rw [none] at sync ⊢
      have kept : ¬ p t.kind = true := fun skipped => inner _ skipped stops
      rw [skipWhile, List.dropWhile_cons, if_neg kept]
      exact sync

end Tokens

section Expressions

variable {ts₁ ts₂ : List Token} {log₁ log₂ : Log}

theorem missingExpr_agree (sync : sim.Sync (ts₁, log₁) (ts₂, log₂)) :
    sim.Agree (missingExpr cfg₁ ts₁ log₁).all (missingExpr cfg₂ ts₂ log₂).all :=
  sim.report_agree sync (fun _ => .noExpression) fun pos => Expr.bad pos none

theorem missingArg_agree (sync : sim.Sync (ts₁, log₁) (ts₂, log₂)) :
    sim.Agree (missingArg cfg₁ ts₁ log₁).all (missingArg cfg₂ ts₂ log₂).all :=
  sim.report_agree_before sync (fun _ => .noParameter) Arg.bad

-- The recursion is that of the first parser, with the same measures.
mutual

theorem expr_agree (ts₁ : List Token) (log₁ : Log) {ts₂ : List Token} {log₂ : Log}
    (sync : sim.Sync (ts₁, log₁) (ts₂, log₂)) :
    sim.Agree (expr cfg₁ ts₁ log₁).all (expr cfg₂ ts₂ log₂).all := by
  have le := (primary cfg₁ ts₁ log₁).le
  rw [expr_all, expr_all]
  refine (primary_agree ts₁ log₁ sync).bind (fun same sync => ?_) (exprTail_moves _ _ _)
    (exprTail_moves _ _ _)
  have same : (primary cfg₁ ts₁ log₁).value = (primary cfg₂ ts₂ log₂).value := same
  rw [same]
  exact exprTail_agree _ _ _ sync
termination_by 5 * ts₁.length + 2
decreasing_by all_goals omega

theorem exprTail_agree (x : Expr) (ts₁ : List Token) (log₁ : Log) {ts₂ : List Token} {log₂ : Log}
    (sync : sim.Sync (ts₁, log₁) (ts₂, log₂)) :
    sim.Agree (exprTail cfg₁ x ts₁ log₁).all (exprTail cfg₂ x ts₂ log₂).all := by
  cases sim.front sync with
  | @same t us₁ us₂ first second later =>
    have shorter : us₁.length < ts₁.length := by simp [first]
    rw [first, second] at sync ⊢
    by_cases operator : t.kind = .operator
    · have le := (primary cfg₁ us₁ log₁).le
      rw [exprTail_of_operator operator, exprTail_of_operator operator]
      refine (primary_agree us₁ log₁ later).bind (fun same sync => ?_) (exprTail_moves _ _ _)
        (exprTail_moves _ _ _)
      have same : (primary cfg₁ us₁ log₁).value = (primary cfg₂ us₂ log₂).value := same
      rw [same]
      exact exprTail_agree _ _ _ sync
    · rw [exprTail, if_neg operator, exprTail, if_neg operator]
      exact agree_same x sync
  | ended none stops pos beyond =>
    rw [none] at sync ⊢
    have ends : Follows EndsExpr ts₁ := stops.imp fun k same => same ▸ ⟨nofun, nofun⟩
    rw [exprTail_of_follows x ends, exprTail_of_follows x (show Follows _ [] from trivial)]
    exact agree_same x sync
termination_by 5 * ts₁.length + 1
decreasing_by all_goals omega

theorem primary_agree (ts₁ : List Token) (log₁ : Log) {ts₂ : List Token} {log₂ : Log}
    (sync : sim.Sync (ts₁, log₁) (ts₂, log₂)) :
    sim.Agree (primary cfg₁ ts₁ log₁).all (primary cfg₂ ts₂ log₂).all := by
  cases sim.front sync with
  | @same t us₁ us₂ first second later =>
    have shorter : us₁.length < ts₁.length := by simp [first]
    rw [first, second] at sync ⊢
    by_cases starts : t.kind.startsExpr = true
    · rcases startsExpr_cases starts with kind | kind | kind | kind | kind
      · rw [primary, primary]
        simp only [kind]
        exact agree_same _ later
      · rw [primary, primary]
        simp only [kind]
        exact agree_same _ later
      · rw [primary_of_identifier kind, primary_of_identifier kind]
        exact nameOrCall_agree t us₁ log₁ later
      · rw [primary_of_operator kind, primary_of_operator kind]
        exact (primary_agree us₁ log₁ later).map _
      · have inner : Inner (.mark .rparen) := by decide
        rw [primary_of_lparen kind, primary_of_lparen kind]
        exact Agree.map ((expr_agree us₁ log₁ later).and (fun sync => sim.accept_agree sync inner)
          (accept_moves inner _ _) (accept_moves inner _ _)) Prod.fst
    · by_cases malformed : t.kind = .malformed
      · rw [primary, primary]
        simp only [malformed]
        exact agree_same _ later
      · rw [primary_of_not_startsExpr starts malformed, primary_of_not_startsExpr starts malformed]
        exact sim.missingExpr_agree sync
  | ended none stops pos beyond =>
    rw [none] at sync ⊢
    rw [primary_of_stops stops, primary_of_stops (show Stops [] from trivial)]
    exact sim.missingExpr_agree sync
termination_by 5 * ts₁.length
decreasing_by all_goals omega

theorem nameOrCall_agree (t : Token) (ts₁ : List Token) (log₁ : Log) {ts₂ : List Token} {log₂ : Log}
    (sync : sim.Sync (ts₁, log₁) (ts₂, log₂)) :
    sim.Agree (nameOrCall cfg₁ t ts₁ log₁).all (nameOrCall cfg₂ t ts₂ log₂).all := by
  cases sim.front sync with
  | @same p us₁ us₂ first second later =>
    have shorter : us₁.length < ts₁.length := by simp [first]
    rw [first, second] at sync ⊢
    by_cases opens : p.kind = .mark .lparen
    · rw [nameOrCall_of_lparen t opens, nameOrCall_of_lparen t opens]
      exact (argument_agree us₁ log₁ later).map _
    · rw [nameOrCall_of_follows t (show Follows _ (p :: us₁) from opens),
        nameOrCall_of_follows t (show Follows _ (p :: us₂) from opens)]
      exact agree_same _ sync
  | ended none stops pos beyond =>
    rw [none] at sync ⊢
    have ends : Follows (· ≠ .mark .lparen) ts₁ := stops.imp fun k same => same ▸ nofun
    rw [nameOrCall_of_follows t ends, nameOrCall_of_follows t (show Follows _ [] from trivial)]
    exact agree_same _ sync
termination_by 5 * ts₁.length + 1
decreasing_by all_goals omega

theorem argument_agree (ts₁ : List Token) (log₁ : Log) {ts₂ : List Token} {log₂ : Log}
    (sync : sim.Sync (ts₁, log₁) (ts₂, log₂)) :
    sim.Agree (argument cfg₁ ts₁ log₁).all (argument cfg₂ ts₂ log₂).all := by
  have inner : Inner (.mark .rparen) := by decide
  rw [argument_all, argument_all]
  exact Agree.map ((param_agree ts₁ log₁ sync).and (fun sync => sim.accept_agree sync inner)
    (accept_moves inner _ _) (accept_moves inner _ _)) Prod.fst
termination_by 5 * ts₁.length + 4
decreasing_by all_goals omega

theorem param_agree (ts₁ : List Token) (log₁ : Log) {ts₂ : List Token} {log₂ : Log}
    (sync : sim.Sync (ts₁, log₁) (ts₂, log₂)) :
    sim.Agree (param cfg₁ ts₁ log₁).all (param cfg₂ ts₂ log₂).all := by
  cases sim.front sync with
  | @same t us₁ us₂ first second later =>
    have shorter : us₁.length < ts₁.length := by simp [first]
    rw [first, second] at sync ⊢
    by_cases starts : t.kind.startsExpr = true
    · rw [param, if_pos starts, param, if_pos starts]
      exact (expr_agree (t :: us₁) log₁ sync).map (Arg.value t.pos)
    · by_cases word : t.kind = .keyword .var
      · rw [param_of_var word, param_of_var word]
        exact (sim.ident_agree later).map (Arg.var t.pos)
      · by_cases closes : t.kind = .mark .rparen
        · rw [param, if_neg starts, if_neg word, if_pos closes, param, if_neg starts, if_neg word,
            if_pos closes]
          exact agree_same _ sync
        · rw [param, if_neg starts, if_neg word, if_neg closes, param, if_neg starts, if_neg word,
            if_neg closes]
          exact sim.missingArg_agree sync
  | ended none stops pos beyond =>
    rw [none] at sync ⊢
    rw [param_of_stops stops, param_of_stops (show Stops [] from trivial)]
    exact sim.missingArg_agree sync
termination_by 5 * ts₁.length + 3
decreasing_by
  all_goals
    simp only [List.length_cons]
    omega

end

end Expressions

section Declarations

variable {ts₁ ts₂ : List Token} {log₁ log₂ : Log}

theorem missingDecl_agree (sync : sim.Sync (ts₁, log₁) (ts₂, log₂)) :
    sim.Agree (missingDecl cfg₁ ts₁ log₁).all (missingDecl cfg₂ ts₂ log₂).all :=
  sim.report_agree sync (fun _ => .noDeclaration) Decl.bad

theorem constDecl_agree (pos : Pos) (sync : sim.Sync (ts₁, log₁) (ts₂, log₂)) :
    sim.Agree (constDecl cfg₁ pos ts₁ log₁).all (constDecl cfg₂ pos ts₂ log₂).all := by
  have inner : Inner (.mark .is) := by decide
  have is := (sim.ident_agree sync).and (fun sync => sim.accept_agree sync inner)
    (accept_moves inner _ _) (accept_moves inner _ _)
  have value := is.and (fun sync => sim.expr_agree _ _ sync) (expr_moves _ _) (expr_moves _ _)
  exact value.map fun v => Decl.const pos none none v.1.1 v.2

theorem varDecl_agree (pos : Pos) (sync : sim.Sync (ts₁, log₁) (ts₂, log₂)) :
    sim.Agree (varDecl cfg₁ pos ts₁ log₁).all (varDecl cfg₂ pos ts₂ log₂).all := by
  have inner : Inner (.mark .colon) := by decide
  have colon := (sim.ident_agree sync).and (fun sync => sim.accept_agree sync inner)
    (accept_moves inner _ _) (accept_moves inner _ _)
  have typeName := colon.and (fun sync => sim.ident_agree sync) (ident_moves _ _) (ident_moves _ _)
  exact typeName.map fun v => Decl.var pos none none v.1.1 v.2

theorem singleDecl_agree (sync : sim.Sync (ts₁, log₁) (ts₂, log₂)) :
    sim.Agree (singleDecl cfg₁ ts₁ log₁).all (singleDecl cfg₂ ts₂ log₂).all := by
  cases sim.front sync with
  | @same t us₁ us₂ first second later =>
    rw [first, second] at sync ⊢
    by_cases const : t.kind = .keyword .const
    · rw [singleDecl_of_const const, singleDecl_of_const const]
      exact sim.constDecl_agree t.pos later
    · by_cases var : t.kind = .keyword .var
      · rw [singleDecl_of_var var, singleDecl_of_var var]
        exact sim.varDecl_agree t.pos later
      · rw [singleDecl, if_neg const, if_neg var, singleDecl, if_neg const, if_neg var]
        exact sim.missingDecl_agree sync
  | ended none stops pos beyond =>
    rw [none] at sync ⊢
    rw [singleDecl_of_stops stops]
    exact sim.missingDecl_agree sync

theorem declTail_agree (ts₁ : List Token) (log₁ : Log) {ts₂ : List Token} {log₂ : Log}
    (sync : sim.Sync (ts₁, log₁) (ts₂, log₂)) :
    sim.Agree (declTail cfg₁ ts₁ log₁).all (declTail cfg₂ ts₂ log₂).all := by
  cases sim.front sync with
  | @same t us₁ us₂ first second later =>
    have le := (singleDecl cfg₁ us₁ log₁).le
    have shorter : us₁.length < ts₁.length := by simp [first]
    rw [first, second] at sync ⊢
    by_cases semicolon : t.kind = .mark .semicolon
    · rw [declTail_of_semicolon semicolon, declTail_of_semicolon semicolon]
      have both := (sim.singleDecl_agree later).and (fun sync => declTail_agree _ _ sync)
        (declTail_moves _ _) (declTail_moves _ _)
      exact both.map fun v => v.1 :: v.2
    · rw [declTail, if_neg semicolon, declTail, if_neg semicolon]
      exact agree_same [] sync
  | ended none stops pos beyond =>
    rw [none] at sync ⊢
    cases front : ts₁ with
    | nil =>
      rw [front] at sync
      rw [declTail, declTail]
      exact agree_same [] sync
    | cons s us₁ =>
      -- The first parser takes the semicolon, and the two have parted.
      rw [front] at stops
      rw [declTail_of_semicolon stops]
      have moves : Moves cfg₁ (fun _ => True) (us₁, log₁) _ :=
        ((singleDecl_moves us₁ log₁).mono fun _ _ => trivial).trans (declTail_moves _ _)
      exact agree_off (sim.off_moves (beyond s us₁ front) moves (declTail_moves [] log₂))
termination_by ts₁.length
decreasing_by all_goals omega

theorem declaration_agree (sync : sim.Sync (ts₁, log₁) (ts₂, log₂)) :
    sim.Agree (declaration cfg₁ ts₁ log₁).all (declaration cfg₂ ts₂ log₂).all := by
  have both := (sim.singleDecl_agree sync).and (fun sync => sim.declTail_agree _ _ sync)
    (declTail_moves _ _) (declTail_moves _ _)
  have joined := both.map fun v => joinDecls (cfg₁.current ts₁).pos v.1 v.2
  rw [declaration, declaration, ← sim.pos_eq sync]
  exact joined

end Declarations

section Commands

variable {ts₁ ts₂ : List Token} {log₁ log₂ : Log}

theorem badCmd_agree (e : ParseError) (sync : sim.Sync (ts₁, log₁) (ts₂, log₂)) :
    sim.Agree (badCmd cfg₁ e ts₁ log₁).all (badCmd cfg₂ e ts₂ log₂).all := by
  have inner : ∀ k : Kind, (!k.endsCmd) = true → Inner k := by
    rintro _ open_ rfl
    cases open_
  refine (sim.report_agree sync (fun _ => e) Cmd.bad).bind (fun same sync => ?_)
    (moves_skipWhile inner _ _) (moves_skipWhile inner _ _)
  exact .inl ⟨same, sim.skipWhile_sync inner _ _ sync⟩

theorem assignOrCall_agree (t : Token) (sync : sim.Sync (ts₁, log₁) (ts₂, log₂)) :
    sim.Agree (assignOrCall cfg₁ t ts₁ log₁).all (assignOrCall cfg₂ t ts₂ log₂).all := by
  cases sim.front sync with
  | @same p us₁ us₂ first second later =>
    rw [first, second] at sync ⊢
    by_cases becomes : p.kind = .mark .becomes
    · rw [assignOrCall_of_becomes t becomes, assignOrCall_of_becomes t becomes]
      exact (sim.expr_agree us₁ log₁ later).map _
    · by_cases opens : p.kind = .mark .lparen
      · rw [assignOrCall_of_lparen t opens, assignOrCall_of_lparen t opens]
        exact (sim.argument_agree us₁ log₁ later).map _
      · rw [assignOrCall, if_neg becomes, if_neg opens, assignOrCall, if_neg becomes, if_neg opens]
        exact sim.badCmd_agree _ sync
  | ended none stops pos beyond =>
    rw [none] at sync ⊢
    rw [assignOrCall_of_stops stops]
    exact sim.badCmd_agree _ sync

mutual

theorem command_agree (ts₁ : List Token) (log₁ : Log) {ts₂ : List Token} {log₂ : Log}
    (sync : sim.Sync (ts₁, log₁) (ts₂, log₂)) :
    sim.Agree (command cfg₁ ts₁ log₁).all (command cfg₂ ts₂ log₂).all := by
  have le := (single cfg₁ ts₁ log₁).le
  have both := (single_agree ts₁ log₁ sync).and (fun sync => cmdTail_agree _ _ sync)
    (cmdTail_moves _ _) (cmdTail_moves _ _)
  have joined := both.map fun v => joinCmds (cfg₁.current ts₁).pos v.1 v.2
  rw [command_all, command_all, ← sim.pos_eq sync]
  exact joined
termination_by 4 * ts₁.length + 2
decreasing_by all_goals omega

theorem cmdTail_agree (ts₁ : List Token) (log₁ : Log) {ts₂ : List Token} {log₂ : Log}
    (sync : sim.Sync (ts₁, log₁) (ts₂, log₂)) :
    sim.Agree (cmdTail cfg₁ ts₁ log₁).all (cmdTail cfg₂ ts₂ log₂).all := by
  cases sim.front sync with
  | @same t us₁ us₂ first second later =>
    have le := (single cfg₁ us₁ log₁).le
    have shorter : us₁.length < ts₁.length := by simp [first]
    rw [first, second] at sync ⊢
    by_cases semicolon : t.kind = .mark .semicolon
    · rw [cmdTail_of_semicolon semicolon, cmdTail_of_semicolon semicolon]
      have both := (single_agree us₁ log₁ later).and (fun sync => cmdTail_agree _ _ sync)
        (cmdTail_moves _ _) (cmdTail_moves _ _)
      exact both.map fun v => v.1 :: v.2
    · rw [cmdTail, if_neg semicolon, cmdTail, if_neg semicolon]
      exact agree_same [] sync
  | ended none stops pos beyond =>
    rw [none] at sync ⊢
    cases front : ts₁ with
    | nil =>
      rw [front] at sync
      rw [cmdTail, cmdTail]
      exact agree_same [] sync
    | cons s us₁ =>
      rw [front] at stops
      rw [cmdTail_of_semicolon stops]
      have moves : Moves cfg₁ (fun _ => True) (us₁, log₁) _ :=
        (single_moves us₁ log₁).trans (cmdTail_moves _ _)
      exact agree_off (sim.off_moves (beyond s us₁ front) moves (cmdTail_moves [] log₂))
termination_by 4 * ts₁.length + 1
decreasing_by all_goals omega

theorem single_agree (ts₁ : List Token) (log₁ : Log) {ts₂ : List Token} {log₂ : Log}
    (sync : sim.Sync (ts₁, log₁) (ts₂, log₂)) :
    sim.Agree (single cfg₁ ts₁ log₁).all (single cfg₂ ts₂ log₂).all := by
  cases sim.front sync with
  | @same t us₁ us₂ first second later =>
    have shorter : us₁.length < ts₁.length := by simp [first]
    rw [first, second] at sync ⊢
    by_cases starts : t.kind.startsCmd = true
    · rw [single_of_starts rfl starts, single_of_starts rfl starts]
      exact started_agree t us₁ log₁ starts later
    · by_cases ends : t.kind.endsCmd = true
      · rw [single_of_endsCmd (show Follows _ (t :: us₁) from ends),
          single_of_endsCmd (show Follows _ (t :: us₂) from ends)]
        exact agree_same _ sync
      · rw [single_cons, if_neg starts, if_neg ends, single_cons, if_neg starts, if_neg ends]
        exact sim.badCmd_agree _ sync
  | ended none stops pos beyond =>
    have ends : Follows (·.endsCmd = true) ts₁ := stops.imp fun k same => same ▸ rfl
    rw [none] at sync ⊢
    rw [single_of_endsCmd ends, single_of_endsCmd (show Follows _ [] from trivial), pos]
    exact agree_same _ sync
termination_by 4 * ts₁.length
decreasing_by all_goals omega

theorem started_agree (t : Token) (ts₁ : List Token) (log₁ : Log) {ts₂ : List Token} {log₂ : Log}
    (starts : t.kind.startsCmd = true) (sync : sim.Sync (ts₁, log₁) (ts₂, log₂)) :
    sim.Agree (started cfg₁ t ts₁ log₁).all (started cfg₂ t ts₂ log₂).all := by
  have afterExpr := (expr cfg₁ ts₁ log₁).le
  rcases startsCmd_cases starts with kind | kind | kind | kind | kind | kind | kind
  · rw [started_of_identifier _ _ kind, started_of_identifier _ _ kind]
    exact sim.assignOrCall_agree t sync
  · have inner : Inner (.mark .rbrace) := by decide
    rw [started_of_lbrace _ _ kind, started_of_lbrace _ _ kind]
    refine (command_agree ts₁ log₁ sync).bind (fun same sync => ?_) (accept_moves inner _ _)
      (accept_moves inner _ _)
    have same : (command cfg₁ ts₁ log₁).value = (command cfg₂ ts₂ log₂).value := same
    have close := (sim.accept_agree sync inner).map fun _ =>
      Cmd.block t.pos (command cfg₁ ts₁ log₁).value
        (cfg₁.current (command cfg₁ ts₁ log₁).rest).pos
    dsimp only
    rw [← same, ← sim.pos_eq sync]
    exact close
  · have inner : Inner (.keyword .in_) := by decide
    rw [started_of_let _ _ kind, started_of_let _ _ kind]
    have word := (sim.declaration_agree sync).and (fun sync => sim.accept_agree sync inner)
      (accept_moves inner _ _) (accept_moves inner _ _)
    have moves : Moves cfg₁ (fun _ => True) (ts₁, log₁) _ :=
      (declaration_moves ts₁ log₁).trans (accept_moves_any (.keyword .in_) _ _)
    have le := moves.length_le
    have body := word.and (fun sync => single_agree _ _ sync) (single_moves _ _) (single_moves _ _)
    exact body.map fun v => Cmd.letIn t.pos v.1.1 v.2
  · rw [started_of_if _ _ kind, started_of_if _ _ kind]
    have arms := (sim.expr_agree ts₁ log₁ sync).and (fun sync => branches_agree _ _ sync)
      (branches_moves _ _) (branches_moves _ _)
    exact arms.map fun v => Cmd.ifElse t.pos v.1 v.2.1 v.2.2
  · have inner : Inner (.keyword .or) := by decide
    rw [started_of_ifeither _ _ kind, started_of_ifeither _ _ kind]
    have word := (sim.expr_agree ts₁ log₁ sync).and (fun sync => sim.accept_agree sync inner)
      (accept_moves inner _ _) (accept_moves inner _ _)
    have alt := word.and (fun sync => sim.expr_agree _ _ sync) (expr_moves _ _) (expr_moves _ _)
    have moves : Moves cfg₁ Inner (ts₁, log₁) _ :=
      ((expr_moves ts₁ log₁).trans (accept_moves inner _ _)).trans (expr_moves _ _)
    have le := moves.length_le
    have arms := alt.and (fun sync => branches_agree _ _ sync) (branches_moves _ _)
      (branches_moves _ _)
    exact arms.map fun v => Cmd.ifEither t.pos v.1.1.1 v.1.2 v.2.1 v.2.2
  · have inner : Inner (.keyword .do_) := by decide
    rw [started_of_while _ _ kind, started_of_while _ _ kind]
    have word := (sim.expr_agree ts₁ log₁ sync).and (fun sync => sim.accept_agree sync inner)
      (accept_moves inner _ _) (accept_moves inner _ _)
    have moves : Moves cfg₁ Inner (ts₁, log₁) _ :=
      (expr_moves ts₁ log₁).trans (accept_moves inner _ _)
    have le := moves.length_le
    have body := word.and (fun sync => single_agree _ _ sync) (single_moves _ _) (single_moves _ _)
    exact body.map fun v => Cmd.whileDo t.pos v.1.1 v.2
  · rw [started_of_pass _ _ kind, started_of_pass _ _ kind]
    exact agree_same _ sync
termination_by 4 * ts₁.length + 3
decreasing_by all_goals omega

theorem branches_agree (ts₁ : List Token) (log₁ : Log) {ts₂ : List Token} {log₂ : Log}
    (sync : sim.Sync (ts₁, log₁) (ts₂, log₂)) :
    sim.Agree (branches cfg₁ ts₁ log₁).all (branches cfg₂ ts₂ log₂).all := by
  have then_ : Inner (.keyword .then_) := by decide
  have else_ : Inner (.keyword .else_) := by decide
  have endif : Inner (.keyword .endif) := by decide
  have moves₁ : Moves cfg₁ (fun _ => True) (ts₁, log₁) _ :=
    accept_moves_any (.keyword .then_) ts₁ log₁
  have le₁ := moves₁.length_le
  have moves₂ := (moves₁.trans (single_moves _ _)).trans
    (accept_moves_any (.keyword .else_) _ _)
  have le₂ := moves₂.length_le
  have yes := (sim.accept_agree sync then_).and (fun sync => single_agree _ _ sync)
    (single_moves _ _) (single_moves _ _)
  have middle := yes.and (fun sync => sim.accept_agree sync else_) (accept_moves else_ _ _)
    (accept_moves else_ _ _)
  have no := middle.and (fun sync => single_agree _ _ sync) (single_moves _ _) (single_moves _ _)
  have close := no.and (fun sync => sim.accept_agree sync endif) (accept_moves endif _ _)
    (accept_moves endif _ _)
  rw [branches_all, branches_all]
  exact close.map fun v => (v.1.1.1.2, v.1.2)
termination_by 4 * ts₁.length + 1
decreasing_by all_goals omega

end

end Commands

section Programs

variable {ts₁ ts₂ : List Token} {log₁ log₂ : Log}

/-- Two parsers that come to the end of their tokens together agree on what is left over. -/
theorem leftover_agree (together : ∀ {ts₁ log₁ log₂}, sim.Sync (ts₁, log₁) ([], log₂) → ts₁ = [])
    (c : Cmd) (ts₁ : List Token) (log₁ : Log) {ts₂ : List Token} {log₂ : Log}
    (sync : sim.Sync (ts₁, log₁) (ts₂, log₂)) :
    sim.Agree (leftover cfg₁ c ts₁ log₁).all (leftover cfg₂ c ts₂ log₂).all := by
  cases sim.front sync with
  | @same t us₁ us₂ first second later =>
    have length : ts₁.length = us₁.length + 1 := by simp [first]
    rw [first, second] at sync ⊢
    by_cases end_ : t.isEnd = true
    · rw [leftover_of_isEnd end_, leftover_of_isEnd end_]
      exact agree_same c sync
    · have inner : Inner .endOfText := by decide
      have stray : ∀ k, isStray k = true → Inner k := fun _ => inner_of_isStray
      rw [leftover_of_not_isEnd end_, leftover_of_not_isEnd end_]
      dsimp only
      have skip : Moves cfg₁ Inner (t :: us₁, log₁) _ :=
        (accept_moves inner (t :: us₁) log₁).trans (moves_skipWhile stray _ _)
      have le := skip.length_le
      refine (sim.accept_agree sync inner).bind (fun _ sync => ?_)
        (((moves_skipWhile stray _ _).mono fun _ _ => trivial).trans (resume_moves c _ _))
        (((moves_skipWhile stray _ _).mono fun _ _ => trivial).trans (resume_moves c _ _))
      have sync := sim.skipWhile_sync stray _ _ sync
      generalize (accept cfg₁ .endOfText (t :: us₁) log₁).log = found₁ at sync ⊢
      generalize (accept cfg₂ .endOfText (t :: us₂) log₂).log = found₂ at sync ⊢
      generalize skipWhile isStray (accept cfg₁ .endOfText (t :: us₁) log₁).rest = vs₁ at sync le ⊢
      generalize skipWhile isStray (accept cfg₂ .endOfText (t :: us₂) log₂).rest = vs₂ at sync ⊢
      cases sim.front sync with
      | @same u ws₁ ws₂ first second later =>
        have bound : ws₁.length < ts₁.length := by
          rw [first, List.length_cons] at le
          rw [length]
          exact le
        rw [first, second] at sync ⊢
        rw [resume, resume]
        by_cases semicolon : u.kind = .mark .semicolon
        · have shorter := Nat.lt_of_le_of_lt (command cfg₁ ws₁ found₁).le bound
          rw [if_pos semicolon, if_pos semicolon]
          refine (sim.command_agree ws₁ found₁ later).bind (fun same sync => ?_)
            (leftover_moves _ _ _) (leftover_moves _ _ _)
          have same : (command cfg₁ ws₁ found₁).value = (command cfg₂ ws₂ found₂).value := same
          dsimp only
          rw [same]
          exact leftover_agree together _ _ _ sync
        · rw [if_neg semicolon, if_neg semicolon]
          by_cases starts : u.kind.startsCmd = true
          · have shorter :=
              Nat.lt_of_lt_of_le (command_length_lt cfg₁ starts ws₁ found₁) (Nat.succ_le_of_lt bound)
            rw [if_pos starts, if_pos starts]
            refine (sim.command_agree (u :: ws₁) found₁ sync).bind (fun same sync => ?_)
              (leftover_moves _ _ _) (leftover_moves _ _ _)
            have same : (command cfg₁ (u :: ws₁) found₁).value =
              (command cfg₂ (u :: ws₂) found₂).value := same
            dsimp only
            rw [same]
            exact leftover_agree together _ _ _ sync
          · rw [if_neg starts, if_neg starts]
            exact agree_same c sync
      | ended none stops pos beyond =>
        rw [none] at sync ⊢
        have none₁ := together sync
        rw [none₁] at sync ⊢
        exact agree_same c sync
  | ended none stops pos beyond =>
    rw [none] at sync ⊢
    have none₁ := together sync
    rw [none₁] at sync ⊢
    rw [leftover, leftover]
    exact agree_same c sync
termination_by ts₁.length
decreasing_by all_goals omega

/-- Two parsers that start in step agree on the whole program. -/
theorem program_agree (together : ∀ {ts₁ log₁ log₂}, sim.Sync (ts₁, log₁) ([], log₂) → ts₁ = [])
    (sync : sim.Sync (ts₁, log₁) (ts₂, log₂)) :
    let first₁ := command cfg₁ ts₁ log₁
    let first₂ := command cfg₂ ts₂ log₂
    sim.Agree (leftover cfg₁ first₁.value first₁.rest first₁.log).all
      (leftover cfg₂ first₂.value first₂.rest first₂.log).all := by
  refine (sim.command_agree ts₁ log₁ sync).bind (fun same sync => ?_) (leftover_moves _ _ _)
    (leftover_moves _ _ _)
  have same : (command cfg₁ ts₁ log₁).value = (command cfg₂ ts₂ log₂).value := same
  rw [same]
  exact sim.leftover_agree together _ _ _ sync

end Programs

end Simulation

end TriangleTam.Parser
