import Mathlib.Data.List.Chain
import Mathlib.Logic.Relation
import TriangleTam.Proofs.Parser.Completeness

/-!
# Moves of the parser

Whatever part of the parser is at work, it does two things only: it takes the token at the front, or
it reports a problem there. So what holds of every place a parser comes to follows from these two
moves: no report is lost, a parser that has given up reports nothing more, there is at most one
report for each token, and the reports follow the order of the tokens. Inside an expression or a
declaration no semicolon is taken.
-/

namespace TriangleTam.Parser

/-- Where a parser is: the tokens that are left and the problems found so far. -/
abbrev State := List Token × Log

/-- Where a step of the parser ends. -/
abbrev Parsed.state {α : Type} {ts : List Token} (r : Parsed α ts) : State := (r.rest, r.log)

/-- The parser takes a token of a category with the property `P`, or reports a problem. -/
inductive Move (cfg : Config) (P : Kind → Prop) : State → State → Prop where
  | take {t : Token} {ts : List Token} {log : Log} (allowed : P t.kind) :
      Move cfg P (t :: ts, log) (ts, log)
  | report (e : ParseError) (ts : List Token) (log : Log) :
      Move cfg P (ts, log) (report cfg e ts log).state

/-- Any number of moves. -/
def Moves (cfg : Config) (P : Kind → Prop) (s s' : State) : Prop :=
  Relation.ReflTransGen (Move cfg P) s s'

/-- What a parser takes without leaving a declaration, an expression or a simple command. -/
def Inner (k : Kind) : Prop := k ≠ .mark .semicolon

instance : DecidablePred Inner := fun k => inferInstanceAs (Decidable (k ≠ .mark .semicolon))

/-- Nothing is reported at the front of the tokens: the parser has given up, the last report is
there already, or the token is malformed. -/
def Config.Muted (cfg : Config) (ts : List Token) (log : Log) : Prop :=
  cfg.isFull log = true ∨ log.getLast?.any (·.left == ts.length) = true ∨
    (cfg.current ts).kind = .malformed

variable {cfg : Config} {P Q : Kind → Prop}

theorem current_eq {cfg₁ cfg₂ : Config} (endPos : cfg₁.endPos = cfg₂.endPos) (ts : List Token) :
    cfg₁.current ts = cfg₂.current ts := by
  cases ts with
  | nil => rw [Config.current, Config.current, endPos]
  | cons t ts => rfl

theorem report_of_muted {ts : List Token} {log : Log} (muted : cfg.Muted ts log)
    (e : ParseError) : (report cfg e ts log).state = (ts, log) := by
  rw [report, if_pos (by simpa [Config.Muted, or_assoc] using muted)]

theorem report_of_not_muted {ts : List Token} {log : Log} (loud : ¬ cfg.Muted ts log)
    (e : ParseError) :
    (report cfg e ts log).state =
      let log' := log ++ [⟨ts.length, (cfg.current ts).pos, e⟩]
      (if cfg.isFull log' then [] else ts, log') := by
  rw [report, if_neg (by simpa [Config.Muted, or_assoc] using loud)]
  dsimp only
  split
  · rfl
  · rfl

theorem report_log_of_muted {ts : List Token} {log : Log} (muted : cfg.Muted ts log)
    (e : ParseError) : (report cfg e ts log).log = log :=
  congrArg Prod.snd (report_of_muted muted e)

theorem report_log_of_not_muted {ts : List Token} {log : Log} (loud : ¬ cfg.Muted ts log)
    (e : ParseError) :
    (report cfg e ts log).log = log ++ [⟨ts.length, (cfg.current ts).pos, e⟩] :=
  congrArg Prod.snd (report_of_not_muted loud e)

/-- A report takes no token unless the parser gives up. -/
theorem report_rest_of_not_isFull {e : ParseError} {ts : List Token} {log : Log}
    (open_ : ¬ cfg.isFull (report cfg e ts log).log = true) : (report cfg e ts log).rest = ts := by
  by_cases muted : cfg.Muted ts log
  · exact congrArg Prod.fst (report_of_muted muted e)
  · rw [report_log_of_not_muted muted] at open_
    exact (congrArg Prod.fst (report_of_not_muted muted e)).trans (if_neg open_)

section Runs

variable {s s' s'' : State}

theorem moves_refl (s : State) : Moves cfg P s s := Relation.ReflTransGen.refl

theorem Moves.trans (first : Moves cfg P s s') (second : Moves cfg P s' s'') : Moves cfg P s s'' :=
  Relation.ReflTransGen.trans first second

theorem moves_take {t : Token} (allowed : P t.kind) {ts : List Token} {log : Log}
    (rest : Moves cfg P (ts, log) s) : Moves cfg P (t :: ts, log) s :=
  Relation.ReflTransGen.head (.take allowed) rest

theorem moves_report (e : ParseError) (ts : List Token) (log : Log) :
    Moves cfg P (ts, log) (report cfg e ts log).state :=
  Relation.ReflTransGen.single (.report e ts log)

/-- What every move keeps is kept by all of them. -/
theorem Moves.keeps {I : State → Prop} (moves : Moves cfg P s s')
    (step : ∀ u u', Move cfg P u u' → I u → I u') (start : I s) : I s' := by
  induction moves with
  | refl => exact start
  | tail _ move ih => exact step _ _ move ih

theorem Moves.mono (moves : Moves cfg P s s') (imp : ∀ k, P k → Q k) : Moves cfg Q s s' := by
  refine moves.keeps (I := Moves cfg Q s) ?_ (moves_refl s)
  rintro _ _ (allowed | ⟨e, ts, log⟩) before
  · exact before.trans (moves_take (imp _ allowed) (moves_refl _))
  · exact before.trans (moves_report e ts log)

theorem Move.suffix (move : Move cfg P s s') : s'.1 <:+ s.1 := by
  cases move with
  | take _ => exact List.suffix_cons _ _
  | report e ts log =>
    by_cases muted : cfg.Muted ts log
    · have stays : (Parser.report cfg e ts log).state = (ts, log) := report_of_muted muted e
      exact ⟨[], congrArg Prod.fst stays⟩
    · rw [report_of_not_muted muted]
      dsimp only
      split
      · exact List.nil_suffix
      · exact List.suffix_rfl

/-- The tokens that are left are the last of those that were there. -/
theorem Moves.suffix (moves : Moves cfg P s s') : s'.1 <:+ s.1 :=
  moves.keeps (fun _ _ move before => move.suffix.trans before) List.suffix_rfl

theorem Moves.length_le {ts ts' : List Token} {log log' : Log}
    (moves : Moves cfg P (ts, log) (ts', log')) : ts'.length ≤ ts.length :=
  moves.suffix.length_le

theorem report_log_grows (e : ParseError) (ts : List Token) (log : Log) :
    log <+: (report cfg e ts log).log := by
  by_cases muted : cfg.Muted ts log
  · simp [report_log_of_muted muted]
  · rw [report_log_of_not_muted muted]
    exact List.prefix_append _ _

theorem Move.log_grows (move : Move cfg P s s') : s.2 <+: s'.2 := by
  cases move with
  | take _ => exact List.prefix_rfl
  | report e ts log => exact report_log_grows e ts log

/-- No report is lost. -/
theorem Moves.log_grows (moves : Moves cfg P s s') : s.2 <+: s'.2 :=
  moves.keeps (I := fun u => s.2 <+: u.2) (fun _ _ move before => before.trans move.log_grows)
    List.prefix_rfl

theorem Moves.log_eq_nil (moves : Moves cfg P s s') (quiet : s'.2 = []) : s.2 = [] :=
  List.prefix_nil.1 (quiet ▸ moves.log_grows)

/-- A parser that has given up reports nothing more. -/
theorem Moves.log_eq_of_isFull (moves : Moves cfg P s s') (full : cfg.isFull s.2 = true) :
    s'.2 = s.2 := by
  refine moves.keeps (I := fun u => u.2 = s.2) ?_ rfl
  rintro _ _ (_ | ⟨e, ts, log⟩) same
  · exact same
  · have muted : cfg.Muted ts log := .inl (by rw [show log = s.2 from same, full])
    rw [report_of_muted muted]
    exact same

/-- A parser that has given up stays so. -/
theorem Moves.isFull (moves : Moves cfg P s s') (full : cfg.isFull s.2 = true) :
    cfg.isFull s'.2 = true := by
  rw [moves.log_eq_of_isFull full]
  exact full

theorem isFull_iff {log : Log} : cfg.isFull log = true ↔ cfg.limit ≤ log.length := by
  simp [Config.isFull]

theorem not_isFull_nil (limit : 0 < cfg.limit) : ¬ cfg.isFull [] = true := by
  rw [isFull_iff]
  exact Nat.not_le.2 limit

/-- Where nothing was reported before, only a malformed token is passed over. -/
theorem Config.Muted.malformed (limit : 0 < cfg.limit) {ts : List Token} (muted : cfg.Muted ts []) :
    ∃ t us, ts = t :: us ∧ t.kind = .malformed := by
  obtain full | last | malformed := muted
  · exact absurd full (not_isFull_nil limit)
  · cases last
  · cases ts with
    | nil => cases malformed
    | cons t us => exact ⟨t, us, rfl, malformed⟩

/-- There are never more reports than the limit allows. -/
theorem Moves.length_log_le (moves : Moves cfg P s s') (le : s.2.length ≤ cfg.limit) :
    s'.2.length ≤ cfg.limit := by
  refine moves.keeps (I := fun u => u.2.length ≤ cfg.limit) ?_ le
  rintro _ _ (_ | ⟨e, ts, log⟩) le
  · exact le
  · by_cases muted : cfg.Muted ts log
    · rw [report_of_muted muted]
      exact le
    · have room : ¬ cfg.limit ≤ log.length := fun full => muted (.inl (isFull_iff.2 full))
      rw [report_of_not_muted muted]
      simp only [List.length_append, List.length_singleton]
      omega

end Runs

section Order

/-- The reports of a parser that started with `n` tokens are in the order of the tokens, with at
most one for each of them and one for the end of the text; the last is not behind the front. -/
structure Ordered (n : Nat) (s : State) : Prop where
  le : s.1.length ≤ n
  descending : s.2.IsChain fun f g => g.left < f.left
  last : ∀ f ∈ s.2.getLast?, s.1.length ≤ f.left ∧ s.2.length + f.left ≤ n + 1

variable {n : Nat} {s s' : State} {ts : List Token} {log : Log}

theorem ordered_start (ts : List Token) : Ordered ts.length (ts, []) :=
  ⟨Nat.le_refl _, .nil, by simp⟩

theorem Ordered.suffix {ts' : List Token} (ordered : Ordered n (ts, log)) (suffix : ts' <:+ ts) :
    Ordered n (ts', log) :=
  ⟨suffix.length_le.trans ordered.le, ordered.descending,
    fun f member => ⟨suffix.length_le.trans (ordered.last f member).1, (ordered.last f member).2⟩⟩

/-- Where something is reported, all reports so far are at earlier tokens. -/
theorem Ordered.lt_last_of_not_muted (ordered : Ordered n (ts, log)) (loud : ¬ cfg.Muted ts log)
    {f : Finding} (last : f ∈ log.getLast?) : ts.length < f.left := by
  refine Nat.lt_of_le_of_ne (ordered.last f last).1 fun same => loud (.inr (.inl ?_))
  rw [Option.mem_def.1 last, Option.any_some, beq_iff_eq]
  exact same.symm

theorem Ordered.append (ordered : Ordered n (ts, log)) {pos : Pos} {e : ParseError}
    (later : ∀ f ∈ log.getLast?, ts.length < f.left) :
    Ordered n (ts, log ++ [⟨ts.length, pos, e⟩]) := by
  refine ⟨ordered.le, ?_, ?_⟩
  · refine List.isChain_append.2 ⟨ordered.descending, .singleton _, ?_⟩
    rintro f last g first
    obtain rfl : ⟨ts.length, pos, e⟩ = g := by simpa using first
    exact later f last
  · rintro g last
    obtain rfl : ⟨ts.length, pos, e⟩ = g := by simpa using last
    have le : ts.length ≤ n := ordered.le
    refine ⟨Nat.le_refl _, ?_⟩
    cases prior : log.getLast? with
    | none =>
      rw [List.getLast?_eq_none_iff.1 prior]
      simpa [Nat.add_comm] using le
    | some f =>
      have bound : log.length + f.left ≤ n + 1 := (ordered.last f prior).2
      have lt := later f prior
      simp only [List.length_append, List.length_singleton]
      omega

theorem Move.ordered (move : Move cfg P s s') (ordered : Ordered n s) : Ordered n s' := by
  cases move with
  | take _ => exact ordered.suffix (List.suffix_cons _ _)
  | report e ts log =>
    by_cases muted : cfg.Muted ts log
    · rw [report_of_muted muted]
      exact ordered
    · have appended : Ordered n (ts, log ++ [⟨ts.length, (cfg.current ts).pos, e⟩]) :=
        ordered.append fun f => ordered.lt_last_of_not_muted muted
      rw [report_of_not_muted muted]
      dsimp only
      split
      · exact appended.suffix List.nil_suffix
      · exact appended

theorem Moves.ordered (moves : Moves cfg P s s') (ordered : Ordered n s) : Ordered n s' :=
  moves.keeps (fun _ _ move => move.ordered) ordered

/-- There is at most one report for each token and one for the end of the text. -/
theorem Ordered.length_le (ordered : Ordered n s) : s.2.length ≤ n + 1 := by
  cases last : s.2.getLast? with
  | none => simp [List.getLast?_eq_none_iff.1 last]
  | some f =>
    have bound := (ordered.last f last).2
    omega

/-- A token at which something is reported has no report yet. -/
theorem Ordered.left_notMem (ordered : Ordered n (ts, log)) (loud : ¬ cfg.Muted ts log) :
    ts.length ∉ log.map Finding.left := by
  rcases log.eq_nil_or_concat' with rfl | ⟨before, g, rfl⟩
  · simp
  · have later := ordered.lt_last_of_not_muted loud (f := g) (by simp)
    have chain : (before ++ [g]).Pairwise fun f g => g.left < f.left :=
      List.isChain_iff_pairwise.1 ordered.descending
    rw [List.mem_map]
    rintro ⟨f, member, same⟩
    rcases List.mem_append.1 member with member | member
    · have lt := (List.pairwise_append.1 chain).2.2 f member g (by simp)
      omega
    · rw [List.mem_singleton.1 member] at same
      omega

end Order

section Tokens

theorem moves_skipWhile {p : Kind → Bool} (allowed : ∀ k, p k = true → P k) (ts : List Token)
    (log : Log) : Moves cfg P (ts, log) (skipWhile p ts, log) := by
  induction ts with
  | nil => exact (moves_refl _)
  | cons t ts ih =>
    rw [skipWhile, List.dropWhile_cons]
    split
    · next skipped => exact moves_take (allowed _ skipped) ih
    · exact (moves_refl _)

theorem reportMissing_moves (kind : Kind) (ts : List Token) (log : Log) :
    Moves cfg P (ts, log) (reportMissing cfg kind ts log).state := by
  rw [reportMissing]
  split
  · exact (moves_refl _)
  · exact moves_report _ ts log

theorem accept_moves {kind : Kind} (allowed : P kind) (ts : List Token) (log : Log) :
    Moves cfg P (ts, log) (accept cfg kind ts log).state := by
  cases ts with
  | nil => exact reportMissing_moves kind [] log
  | cons t ts =>
    rw [accept]
    split
    · next found => exact moves_take (found ▸ allowed) (moves_refl _)
    · exact reportMissing_moves kind (t :: ts) log

theorem accept_moves_any (kind : Kind) (ts : List Token) (log : Log) :
    Moves cfg (fun _ => True) (ts, log) (accept cfg kind ts log).state :=
  accept_moves trivial ts log

theorem ident_moves (ts : List Token) (log : Log) :
    Moves cfg Inner (ts, log) (ident cfg ts log).state := by
  cases ts with
  | nil => exact moves_report _ [] log
  | cons t ts =>
    rw [ident]
    split
    · next kind => exact moves_take (by rw [kind]; decide) (moves_refl _)
    · exact moves_report _ (t :: ts) log

end Tokens

section Expressions

-- The recursion is that of the parser, with the same measures.
mutual

theorem expr_moves (ts : List Token) (log : Log) :
    Moves cfg Inner (ts, log) (expr cfg ts log).state := by
  have le := (primary cfg ts log).le
  rw [expr]
  exact (primary_moves ts log).trans (exprTail_moves _ _ _)
termination_by 5 * ts.length + 2
decreasing_by all_goals omega

theorem exprTail_moves (x : Expr) : ∀ (ts : List Token) (log : Log),
    Moves cfg Inner (ts, log) (exprTail cfg x ts log).state
  | [], log => by
    rw [exprTail]
    exact moves_refl _
  | t :: ts, log => by
    have le := (primary cfg ts log).le
    rw [exprTail]
    split
    · next kind =>
      refine moves_take (by rw [kind]; decide) ?_
      exact (primary_moves ts log).trans (exprTail_moves _ _ _)
    · exact (moves_refl _)
termination_by ts => 5 * ts.length + 1
decreasing_by
  all_goals
    simp only [List.length_cons]
    omega

theorem primary_moves : ∀ (ts : List Token) (log : Log),
    Moves cfg Inner (ts, log) (primary cfg ts log).state
  | [], log => by
    rw [primary]
    exact moves_report _ [] log
  | t :: ts, log => by
    rw [primary]
    split
    · next kind => exact moves_take (by rw [kind]; decide) (moves_refl _)
    · next kind => exact moves_take (by rw [kind]; decide) (moves_refl _)
    · next kind =>
      exact moves_take (by rw [kind]; decide) (nameOrCall_moves t ts log)
    · next kind => exact moves_take (by rw [kind]; decide) (primary_moves ts log)
    · next kind =>
      refine moves_take (by rw [kind]; decide) ?_
      exact (expr_moves ts log).trans (accept_moves (by decide) _ _)
    · next kind => exact moves_take (by rw [kind]; decide) (moves_refl _)
    · exact moves_report _ (t :: ts) log
termination_by ts => 5 * ts.length
decreasing_by
  all_goals
    simp only [List.length_cons]
    omega

theorem nameOrCall_moves (t : Token) : ∀ (ts : List Token) (log : Log),
    Moves cfg Inner (ts, log) (nameOrCall cfg t ts log).state
  | [], log => by
    rw [nameOrCall]
    exact moves_refl _
  | p :: ts, log => by
    rw [nameOrCall]
    split
    · next kind => exact moves_take (by rw [kind]; decide) (argument_moves ts log)
    · exact (moves_refl _)
termination_by ts => 5 * ts.length + 1
decreasing_by
  all_goals
    simp only [List.length_cons]
    omega

theorem argument_moves (ts : List Token) (log : Log) :
    Moves cfg Inner (ts, log) (argument cfg ts log).state := by
  rw [argument]
  exact (param_moves ts log).trans (accept_moves (by decide) _ _)
termination_by 5 * ts.length + 4
decreasing_by all_goals omega

theorem param_moves : ∀ (ts : List Token) (log : Log),
    Moves cfg Inner (ts, log) (param cfg ts log).state
  | [], log => by
    rw [param]
    exact moves_report _ [] log
  | t :: ts, log => by
    rw [param]
    split
    · exact expr_moves (t :: ts) log
    · split
      · next kind => exact moves_take (by rw [kind]; decide) (ident_moves ts log)
      · split
        · exact (moves_refl _)
        · exact moves_report _ (t :: ts) log
termination_by ts => 5 * ts.length + 3
decreasing_by all_goals omega

end

end Expressions

section Declarations

theorem constDecl_moves (pos : Pos) (ts : List Token) (log : Log) :
    Moves cfg Inner (ts, log) (constDecl cfg pos ts log).state := by
  have is : Inner (.mark .is) := by decide
  exact ((ident_moves ts log).trans (accept_moves is _ _)).trans (expr_moves _ _)

theorem varDecl_moves (pos : Pos) (ts : List Token) (log : Log) :
    Moves cfg Inner (ts, log) (varDecl cfg pos ts log).state := by
  have colon : Inner (.mark .colon) := by decide
  exact ((ident_moves ts log).trans (accept_moves colon _ _)).trans (ident_moves _ _)

theorem singleDecl_moves (ts : List Token) (log : Log) :
    Moves cfg Inner (ts, log) (singleDecl cfg ts log).state := by
  cases ts with
  | nil => exact moves_report _ [] log
  | cons t ts =>
    rw [singleDecl]
    split
    · next kind =>
      exact moves_take (by rw [kind]; decide) (constDecl_moves t.pos ts log)
    · split
      · next kind =>
        exact moves_take (by rw [kind]; decide) (varDecl_moves t.pos ts log)
      · exact moves_report _ (t :: ts) log

theorem declTail_moves : ∀ (ts : List Token) (log : Log),
    Moves cfg (fun _ => True) (ts, log) (declTail cfg ts log).state
  | [], log => by
    rw [declTail]
    exact moves_refl _
  | t :: ts, log => by
    have le := (singleDecl cfg ts log).le
    rw [declTail]
    split
    · have first : Moves cfg (fun _ => True) (ts, log) (singleDecl cfg ts log).state :=
        (singleDecl_moves ts log).mono fun _ _ => trivial
      exact moves_take trivial (first.trans (declTail_moves _ _))
    · exact (moves_refl _)
termination_by ts => ts.length
decreasing_by
  all_goals
    simp only [List.length_cons]
    omega

theorem declaration_moves (ts : List Token) (log : Log) :
    Moves cfg (fun _ => True) (ts, log) (declaration cfg ts log).state :=
  ((singleDecl_moves ts log).mono fun _ _ => trivial).trans (declTail_moves _ _)

end Declarations

section Commands

theorem badCmd_moves (e : ParseError) (ts : List Token) (log : Log) :
    Moves cfg Inner (ts, log) (badCmd cfg e ts log).state := by
  have inner : ∀ k : Kind, (!k.endsCmd) = true → Inner k := by
    rintro _ open_ rfl
    cases open_
  exact (moves_report e ts log).trans (moves_skipWhile inner _ _)

theorem assignOrCall_moves (t : Token) (ts : List Token) (log : Log) :
    Moves cfg Inner (ts, log) (assignOrCall cfg t ts log).state := by
  cases ts with
  | nil => exact badCmd_moves _ [] log
  | cons p ts =>
    rw [assignOrCall]
    split
    · next kind => exact moves_take (by rw [kind]; decide) (expr_moves ts log)
    · split
      · next kind => exact moves_take (by rw [kind]; decide) (argument_moves ts log)
      · exact badCmd_moves _ (p :: ts) log

mutual

theorem command_moves (ts : List Token) (log : Log) :
    Moves cfg (fun _ => True) (ts, log) (command cfg ts log).state := by
  have le := (single cfg ts log).le
  rw [command]
  exact (single_moves ts log).trans (cmdTail_moves _ _)
termination_by 4 * ts.length + 2
decreasing_by all_goals omega

theorem cmdTail_moves : ∀ (ts : List Token) (log : Log),
    Moves cfg (fun _ => True) (ts, log) (cmdTail cfg ts log).state
  | [], log => by
    rw [cmdTail]
    exact moves_refl _
  | t :: ts, log => by
    have le := (single cfg ts log).le
    rw [cmdTail]
    split
    · exact moves_take trivial ((single_moves ts log).trans (cmdTail_moves _ _))
    · exact (moves_refl _)
termination_by ts => 4 * ts.length + 1
decreasing_by
  all_goals
    simp only [List.length_cons]
    omega

theorem single_moves : ∀ (ts : List Token) (log : Log),
    Moves cfg (fun _ => True) (ts, log) (single cfg ts log).state
  | [], log => by
    rw [single]
    exact moves_refl _
  | t :: ts, log => by
    rw [single_cons]
    split
    · exact moves_take trivial (started_moves t ts log)
    · split
      · exact (moves_refl _)
      · exact (badCmd_moves _ (t :: ts) log).mono fun _ _ => trivial
termination_by ts => 4 * ts.length
decreasing_by
  all_goals
    simp only [List.length_cons]
    omega

theorem started_moves (t : Token) (ts : List Token) (log : Log) :
    Moves cfg (fun _ => True) (ts, log) (started cfg t ts log).state := by
  have cond : Moves cfg (fun _ => True) (ts, log) (expr cfg ts log).state :=
    (expr_moves ts log).mono fun _ _ => trivial
  rw [started]
  split
  · exact (assignOrCall_moves t ts log).mono fun _ _ => trivial
  · rw [blockCmd]
    exact (command_moves ts log).trans (accept_moves_any _ _ _)
  · rw [letCmd]
    have word : Moves cfg (fun _ => True) (ts, log) _ :=
      (declaration_moves ts log).trans (accept_moves_any (.keyword .in_) _ _)
    have le := word.length_le
    exact word.trans (single_moves _ _)
  · rw [ifCmd]
    have le := cond.length_le
    exact cond.trans (branches_moves _ _)
  · rw [ifEitherCmd]
    have word := cond.trans (accept_moves_any (.keyword .or) _ _)
    have alt := word.trans ((expr_moves _ _).mono fun _ _ => trivial)
    have le := alt.length_le
    exact alt.trans (branches_moves _ _)
  · rw [whileCmd]
    have word := cond.trans (accept_moves_any (.keyword .do_) _ _)
    have le := word.length_le
    exact word.trans (single_moves _ _)
  · exact (moves_refl _)
termination_by 4 * ts.length + 3
decreasing_by all_goals omega

theorem branches_moves (ts : List Token) (log : Log) :
    Moves cfg (fun _ => True) (ts, log) (branches cfg ts log).state := by
  have start : Moves cfg (fun _ => True) (ts, log) _ := accept_moves_any (.keyword .then_) ts log
  have le₁ := start.length_le
  have yes := start.trans (single_moves _ _)
  have middle := yes.trans (accept_moves_any (.keyword .else_) _ _)
  have le₂ := middle.length_le
  have no := middle.trans (single_moves _ _)
  rw [branches]
  exact no.trans (accept_moves_any _ _ _)
termination_by 4 * ts.length + 1
decreasing_by all_goals omega

end

end Commands

section Programs

/-- Whether a token of the category is skipped where something is left over after a command. -/
def isStray (k : Kind) : Bool :=
  !(k == .mark .semicolon || k == .endOfText || k.startsCmd)

theorem isStray_eq_false_iff {k : Kind} :
    isStray k = false ↔ k = .mark .semicolon ∨ k = .endOfText ∨ k.startsCmd = true := by
  simp only [isStray, Bool.not_eq_false', Bool.or_eq_true, beq_iff_eq, or_assoc]

theorem inner_of_isStray {k : Kind} (stray : isStray k = true) : Inner k := by
  rintro rfl
  cases stray

/-- Goes on behind the command `c`, where nothing is left to skip. -/
def resume (cfg : Config) (c : Cmd) : List Token → Log → Cmd × State
  | [], log => (c, [], log)
  | u :: us, log =>
    if u.kind = .mark .semicolon then
      let next := command cfg us log
      (leftover cfg (appendCmd c next.value) next.rest next.log).all
    else if u.kind.startsCmd then
      let next := command cfg (u :: us) log
      (leftover cfg (appendCmd c next.value) next.rest next.log).all
    else (c, u :: us, log)

theorem leftover_of_isEnd {t : Token} (end_ : t.isEnd = true) (c : Cmd) (ts : List Token)
    (log : Log) : (leftover cfg c (t :: ts) log).all = (c, t :: ts, log) := by
  rw [leftover, if_pos end_]
  rfl

theorem leftover_of_not_isEnd {t : Token} (open_ : ¬ t.isEnd = true) (c : Cmd) (ts : List Token)
    (log : Log) :
    (leftover cfg c (t :: ts) log).all =
      let stop := accept cfg .endOfText (t :: ts) log
      resume cfg c (skipWhile isStray stop.rest) stop.log := by
  rw [leftover, if_neg open_]
  dsimp only
  split
  · next skipped =>
    rw [show skipWhile isStray _ = [] from skipped]
    rfl
  · next u us skipped =>
    rw [show skipWhile isStray _ = u :: us from skipped, resume]
    split
    · rfl
    · split
      · rfl
      · rfl

theorem leftover_moves (c : Cmd) : ∀ (ts : List Token) (log : Log),
    Moves cfg (fun _ => True) (ts, log) (leftover cfg c ts log).all.2
  | [], log => by
    rw [leftover]
    exact moves_refl _
  | t :: ts, log => by
    by_cases end_ : t.isEnd = true
    · rw [leftover_of_isEnd end_]
      exact moves_refl _
    · rw [leftover_of_not_isEnd end_]
      have stop : Moves cfg (fun _ => True) (t :: ts, log) _ :=
        accept_moves_any .endOfText (t :: ts) log
      have skip := stop.trans (moves_skipWhile (p := isStray) (fun _ _ => trivial) _ _)
      dsimp only
      cases skipped : skipWhile isStray (accept cfg .endOfText (t :: ts) log).rest with
      | nil =>
        rw [skipped] at skip
        exact skip
      | cons u us =>
        rw [skipped] at skip
        have le := skip.length_le
        have behind := skip.trans (moves_take trivial (moves_refl (us, _)))
        rw [resume]
        split
        · have shorter := (command cfg us (accept cfg .endOfText (t :: ts) log).log).le
          exact (behind.trans (command_moves us _)).trans (leftover_moves _ _ _)
        · split
          · next starts =>
            have shorter := Nat.lt_of_lt_of_le
              (command_length_lt cfg starts us (accept cfg .endOfText (t :: ts) log).log) le
            exact (skip.trans (command_moves (u :: us) _)).trans (leftover_moves _ _ _)
          · exact skip
termination_by ts => ts.length
decreasing_by
  all_goals
    simp only [List.length_cons] at le ⊢
    omega

theorem resume_moves (c : Cmd) (ts : List Token) (log : Log) :
    Moves cfg (fun _ => True) (ts, log) (resume cfg c ts log).2 := by
  cases ts with
  | nil => exact moves_refl _
  | cons u us =>
    rw [resume]
    split
    · exact moves_take trivial ((command_moves us log).trans (leftover_moves _ _ _))
    · split
      · exact (command_moves (u :: us) log).trans (leftover_moves _ _ _)
      · exact moves_refl _

/-- Everything that is found in a program is found by moves from its first token on. -/
theorem parse_moves (tokens : List Token) (lenient : Bool) (wanted : Int) :
    ∃ rest, Moves ⟨(split tokens).2, lenient, limitOf wanted⟩ (fun _ => True)
      ((split tokens).1, []) (rest, (parse tokens lenient wanted).findings) :=
  ⟨_, (command_moves _ _).trans (leftover_moves _ _ _)⟩

end Programs

end TriangleTam.Parser
