import TriangleTam.Proofs.Parser.Sequences

/-!
# Termination

Every production of the parser calls others, and some of these call it again. `course` says what
each production does up to its next call, and `run_course` that the parser does just this. A call is
made farther on in the tokens than where its caller started, or it is a call of a production of a
lower level of the grammar (`calls_below`). So calls are never nested more deeply than `rank` says,
and a parser that is allowed so many of them always comes to the end of the text.
-/

namespace TriangleTam.Parser

section Productions

/-- The productions, with what they are told by their callers. The loops over operators,
declarations, commands and what is left over are productions of their own, which call themselves
once for each round. -/
inductive Production where
  | expr | exprTail (x : Expr) | primary | nameOrCall (t : Token) | argument | param
  | constDecl (pos : Pos) | varDecl (pos : Pos) | singleDecl | declTail | declaration
  | assignOrCall (t : Token) | command | cmdTail | single | blockCmd (t : Token)
  | letCmd (t : Token) | ifCmd (t : Token) | ifEitherCmd (t : Token) | whileCmd (t : Token)
  | branches | leftover (c : Cmd) | program

namespace Production

/-- What a production makes. -/
abbrev Value : Production → Type
  | expr | exprTail _ | primary | nameOrCall _ => Expr
  | argument | param => Arg
  | constDecl _ | varDecl _ | singleDecl | declaration => Decl
  | declTail => List Decl
  | cmdTail => List Cmd
  | branches => Cmd × Cmd
  | assignOrCall _ | command | single | blockCmd _ | letCmd _ | ifCmd _ | ifEitherCmd _
  | whileCmd _ | leftover _ | program => Cmd

/-- The level of a production in the grammar. -/
@[simp] def level : Production → Nat
  | nameOrCall _ | argument => 0
  | primary | exprTail _ => 1
  | expr => 2
  | param => 3
  | constDecl _ | varDecl _ => 4
  | singleDecl | declTail => 5
  | declaration => 6
  | assignOrCall _ => 7
  | blockCmd _ | letCmd _ | ifCmd _ | ifEitherCmd _ | whileCmd _ => 8
  | single => 9
  | branches | cmdTail => 10
  | command => 11
  | leftover _ => 12
  | program => 13

theorem level_lt (p : Production) : p.level < 14 := by
  cases p <;> simp

/-- How many tokens are left from where a production starts. The first token of some productions is
taken by their callers. -/
@[simp] def left : Production → State → Nat
  | nameOrCall _, s | argument, s | constDecl _, s | varDecl _, s | assignOrCall _, s
  | blockCmd _, s | letCmd _, s | ifCmd _, s | ifEitherCmd _, s | whileCmd _, s => s.1.length + 1
  | _, s => s.1.length

/-- A bound for how deeply calls are nested in a call. -/
def rank (p : Production) (s : State) : Nat := 14 * p.left s + p.level

end Production

/-- What a production comes to. -/
abbrev Answer (p : Production) : Type := p.Value × State

/-- What a production does: it calls another one and goes on with what that comes to, until it is
done. -/
inductive Course (α : Type) where
  | done (a : α)
  | call (p : Production) (s : State) (next : Answer p → Course α)

namespace Course

variable {α : Type}

/-- What comes of it if every call is answered. -/
def run (answer : (p : Production) → State → Answer p) : Course α → α
  | done a => a
  | call p s next => (next (answer p s)).run answer

/-- The calls that are made, in their order. -/
def calls (answer : (p : Production) → State → Answer p) : Course α → List (Production × State)
  | done _ => []
  | call p s next => (p, s) :: (next (answer p s)).calls answer

/-- What comes of it if some calls may have no answer. -/
def attempt (answer? : (p : Production) → State → Option (Answer p)) : Course α → Option α
  | done a => some a
  | call p s next => do
    let a ← answer? p s
    (next a).attempt answer?

section Calls

variable {answer : (p : Production) → State → Answer p} {P : Production × State → Prop}

theorem forall_calls_done (a : α) : ∀ c ∈ (done a).calls answer, P c :=
  List.forall_mem_nil _

theorem forall_calls_call {p : Production} {s : State} {next : Answer p → Course α}
    (here : P (p, s)) (later : ∀ c ∈ (next (answer p s)).calls answer, P c) :
    ∀ c ∈ (call p s next).calls answer, P c :=
  List.forall_mem_cons.2 ⟨here, later⟩

end Calls

/-- If all calls that are made are answered, it does not matter whether others would be. -/
theorem attempt_eq_some {answer? : (p : Production) → State → Option (Answer p)}
    {answer : (p : Production) → State → Answer p} {c : Course α}
    (answered : ∀ p s, (p, s) ∈ c.calls answer → answer? p s = some (answer p s)) :
    c.attempt answer? = some (c.run answer) := by
  induction c with
  | done a => rfl
  | call p s next ih =>
    have first : answer? p s = some (answer p s) := answered p s List.mem_cons_self
    rw [attempt, first]
    exact ih _ fun q u member => answered q u (List.mem_cons_of_mem _ member)

end Course

variable (cfg : Config)

/-- What the parser makes of the tokens that are left, for each of its productions. -/
def answer : (p : Production) → State → Answer p
  | .expr, s => (expr cfg s.1 s.2).all
  | .exprTail x, s => (exprTail cfg x s.1 s.2).all
  | .primary, s => (primary cfg s.1 s.2).all
  | .nameOrCall t, s => (nameOrCall cfg t s.1 s.2).all
  | .argument, s => (argument cfg s.1 s.2).all
  | .param, s => (param cfg s.1 s.2).all
  | .constDecl pos, s => (constDecl cfg pos s.1 s.2).all
  | .varDecl pos, s => (varDecl cfg pos s.1 s.2).all
  | .singleDecl, s => (singleDecl cfg s.1 s.2).all
  | .declTail, s => (declTail cfg s.1 s.2).all
  | .declaration, s => (declaration cfg s.1 s.2).all
  | .assignOrCall t, s => (assignOrCall cfg t s.1 s.2).all
  | .command, s => (command cfg s.1 s.2).all
  | .cmdTail, s => (cmdTail cfg s.1 s.2).all
  | .single, s => (single cfg s.1 s.2).all
  | .blockCmd t, s => (blockCmd cfg t s.1 s.2).all
  | .letCmd t, s => (letCmd cfg t s.1 s.2).all
  | .ifCmd t, s => (ifCmd cfg t s.1 s.2).all
  | .ifEitherCmd t, s => (ifEitherCmd cfg t s.1 s.2).all
  | .whileCmd t, s => (whileCmd cfg t s.1 s.2).all
  | .branches, s => (branches cfg s.1 s.2).all
  | .leftover c, s => (leftover cfg c s.1 s.2).all
  | .program, s =>
    let first := command cfg s.1 s.2
    (leftover cfg first.value first.rest first.log).all

/-- What the parser does for each of its productions, up to the next call. -/
def course : (p : Production) → State → Course (Answer p)
  | .expr, s => .call .primary s fun x => .call (.exprTail x.1) x.2 .done
  | .exprTail x, s =>
    match s with
    | ([], log) => .done (x, [], log)
    | (t :: ts, log) =>
      if t.kind = .operator then
        .call .primary (ts, log) fun y =>
          .call (.exprTail (.binary x.pos none x ⟨t.pos, t.spelling, none⟩ y.1)) y.2 .done
      else .done (x, t :: ts, log)
  | .primary, s =>
    match s with
    | ([], log) => .done (missingExpr cfg [] log).all
    | (t :: ts, log) =>
      match t.kind with
      | .integer => .done (.int t.pos none ⟨t.pos, t.spelling⟩, ts, log)
      | .character => .done (.char t.pos none ⟨t.pos, t.spelling⟩, ts, log)
      | .identifier => .call (.nameOrCall t) (ts, log) .done
      | .operator =>
        .call .primary (ts, log) fun x =>
          .done (.unary t.pos none ⟨t.pos, t.spelling, none⟩ x.1, x.2)
      | .mark .lparen =>
        .call .expr (ts, log) fun x => .done (x.1, (accept cfg (.mark .rparen) x.2.1 x.2.2).state)
      | .malformed => .done (.bad t.pos none, ts, log)
      | _ => .done (missingExpr cfg (t :: ts) log).all
  | .nameOrCall t, s =>
    match s with
    | ([], log) => .done (.name t.pos none ⟨t.pos, t.spelling, none⟩, [], log)
    | (p :: ts, log) =>
      if p.kind = .mark .lparen then
        .call .argument (ts, log) fun a =>
          .done (.call t.pos none ⟨t.pos, t.spelling, none⟩ a.1, a.2)
      else .done (.name t.pos none ⟨t.pos, t.spelling, none⟩, p :: ts, log)
  | .argument, s =>
    .call .param s fun a => .done (a.1, (accept cfg (.mark .rparen) a.2.1 a.2.2).state)
  | .param, s =>
    match s with
    | ([], log) => .done (missingArg cfg [] log).all
    | (t :: ts, log) =>
      if t.kind.startsExpr then
        .call .expr (t :: ts, log) fun x => .done (.value t.pos x.1, x.2)
      else if t.kind = .keyword .var then .done (varArg cfg t.pos ts log).all
      else if t.kind = .mark .rparen then .done (.blank t.pos, t :: ts, log)
      else .done (missingArg cfg (t :: ts) log).all
  | .constDecl pos, s =>
    let name := ident cfg s.1 s.2
    let is := accept cfg (.mark .is) name.rest name.log
    .call .expr is.state fun x => .done (.const pos none none name.value x.1, x.2)
  | .varDecl pos, s => .done (varDecl cfg pos s.1 s.2).all
  | .singleDecl, s =>
    match s with
    | ([], log) => .done (missingDecl cfg [] log).all
    | (t :: ts, log) =>
      if t.kind = .keyword .const then .call (.constDecl t.pos) (ts, log) .done
      else if t.kind = .keyword .var then .call (.varDecl t.pos) (ts, log) .done
      else .done (missingDecl cfg (t :: ts) log).all
  | .declTail, s =>
    match s with
    | ([], log) => .done ([], [], log)
    | (t :: ts, log) =>
      if t.kind = .mark .semicolon then
        .call .singleDecl (ts, log) fun d =>
          .call .declTail d.2 fun ds => .done (d.1 :: ds.1, ds.2)
      else .done ([], t :: ts, log)
  | .declaration, s =>
    .call .singleDecl s fun d =>
      .call .declTail d.2 fun ds => .done (joinDecls (cfg.current s.1).pos d.1 ds.1, ds.2)
  | .assignOrCall t, s =>
    match s with
    | ([], log) => .done (badCmd cfg .noAssignOrCall [] log).all
    | (p :: ts, log) =>
      if p.kind = .mark .becomes then
        .call .expr (ts, log) fun x =>
          .done (.assign t.pos ⟨t.pos, t.spelling, none⟩ x.1, x.2)
      else if p.kind = .mark .lparen then
        .call .argument (ts, log) fun a =>
          .done (.call t.pos ⟨t.pos, t.spelling, none⟩ a.1, a.2)
      else .done (badCmd cfg .noAssignOrCall (p :: ts) log).all
  | .command, s =>
    .call .single s fun c =>
      .call .cmdTail c.2 fun cs => .done (joinCmds (cfg.current s.1).pos c.1 cs.1, cs.2)
  | .cmdTail, s =>
    match s with
    | ([], log) => .done ([], [], log)
    | (t :: ts, log) =>
      if t.kind = .mark .semicolon then
        .call .single (ts, log) fun c => .call .cmdTail c.2 fun cs => .done (c.1 :: cs.1, cs.2)
      else .done ([], t :: ts, log)
  | .single, s =>
    match s with
    | ([], log) => .done (.skip cfg.endPos false, [], log)
    | (t :: ts, log) =>
      match t.kind with
      | .identifier => .call (.assignOrCall t) (ts, log) .done
      | .mark .lbrace => .call (.blockCmd t) (ts, log) .done
      | .keyword .let_ => .call (.letCmd t) (ts, log) .done
      | .keyword .if_ => .call (.ifCmd t) (ts, log) .done
      | .keyword .ifeither => .call (.ifEitherCmd t) (ts, log) .done
      | .keyword .while_ => .call (.whileCmd t) (ts, log) .done
      | .keyword .pass => .done (.skip t.pos true, ts, log)
      | kind =>
        if kind.endsCmd then .done (.skip t.pos false, t :: ts, log)
        else .done (badCmd cfg .noCommand (t :: ts) log).all
  | .blockCmd t, s =>
    .call .command s fun body =>
      .done (.block t.pos body.1 (cfg.current body.2.1).pos,
        (accept cfg (.mark .rbrace) body.2.1 body.2.2).state)
  | .letCmd t, s =>
    .call .declaration s fun d =>
      .call .single (accept cfg (.keyword .in_) d.2.1 d.2.2).state fun body =>
        .done (.letIn t.pos d.1 body.1, body.2)
  | .ifCmd t, s =>
    .call .expr s fun x =>
      .call .branches x.2 fun arms => .done (.ifElse t.pos x.1 arms.1.1 arms.1.2, arms.2)
  | .ifEitherCmd t, s =>
    .call .expr s fun x =>
      .call .expr (accept cfg (.keyword .or) x.2.1 x.2.2).state fun y =>
        .call .branches y.2 fun arms =>
          .done (.ifEither t.pos x.1 y.1 arms.1.1 arms.1.2, arms.2)
  | .whileCmd t, s =>
    .call .expr s fun x =>
      .call .single (accept cfg (.keyword .do_) x.2.1 x.2.2).state fun body =>
        .done (.whileDo t.pos x.1 body.1, body.2)
  | .branches, s =>
    .call .single (accept cfg (.keyword .then_) s.1 s.2).state fun yes =>
      .call .single (accept cfg (.keyword .else_) yes.2.1 yes.2.2).state fun no =>
        .done ((yes.1, no.1), (accept cfg (.keyword .endif) no.2.1 no.2.2).state)
  | .leftover c, s =>
    if (cfg.current s.1).isEnd then .done (c, s)
    else match resync cfg s with
      | ([], log) => .done (c, [], log)
      | (u :: us, log) =>
        if u.kind = .mark .semicolon then
          .call .command (us, log) fun next => .call (.leftover (appendCmd c next.1)) next.2 .done
        else if u.kind.startsCmd then
          .call .command (u :: us, log) fun next =>
            .call (.leftover (appendCmd c next.1)) next.2 .done
        else .done (c, u :: us, log)
  | .program, s => .call .command s fun first => .call (.leftover first.1) first.2 .done

end Productions

section Agreement

variable {cfg : Config}

/-- The parser does what `course` says. -/
theorem run_course (p : Production) (s : State) :
    (course cfg p s).run (answer cfg) = answer cfg p s := by
  obtain ⟨ts, log⟩ := s
  cases p with
  | expr => exact (expr_all ts log).symm
  | exprTail x =>
    cases ts with
    | nil => rw [answer, exprTail]; rfl
    | cons t ts =>
      rw [answer, exprTail, course]
      dsimp only
      split
      · rfl
      · rfl
  | primary =>
    cases ts with
    | nil => rw [answer, primary]; rfl
    | cons t ts =>
      rw [answer, primary, course]
      generalize t.kind = k
      cases k with
      | mark m => cases m <;> rfl
      | _ => rfl
  | nameOrCall t =>
    cases ts with
    | nil => rw [answer, nameOrCall]; rfl
    | cons p ts =>
      rw [answer, nameOrCall, course]
      dsimp only
      split
      · rfl
      · rfl
  | argument => exact (argument_all ts log).symm
  | param =>
    cases ts with
    | nil => rw [answer, param]; rfl
    | cons t ts =>
      rw [answer, param, course]
      dsimp only
      repeat' split
      all_goals rfl
  | constDecl pos => rfl
  | varDecl pos => rfl
  | singleDecl =>
    cases ts with
    | nil => rfl
    | cons t ts =>
      rw [answer, singleDecl, course]
      dsimp only
      repeat' split
      all_goals rfl
  | declTail =>
    cases ts with
    | nil => rw [answer, declTail]; rfl
    | cons t ts =>
      rw [answer, declTail, course]
      dsimp only
      split
      · rfl
      · rfl
  | declaration => rfl
  | assignOrCall t =>
    cases ts with
    | nil => rfl
    | cons p ts =>
      rw [answer, assignOrCall, course]
      dsimp only
      repeat' split
      all_goals rfl
  | command => exact (command_all ts log).symm
  | cmdTail =>
    cases ts with
    | nil => rw [answer, cmdTail]; rfl
    | cons t ts =>
      rw [answer, cmdTail, course]
      dsimp only
      split
      · rfl
      · rfl
  | single =>
    cases ts with
    | nil => rw [answer, single]; rfl
    | cons t ts =>
      rw [answer, single, course]
      generalize t.kind = k
      cases k with
      | mark m => cases m <;> rfl
      | keyword w => cases w <;> rfl
      | _ => rfl
  | blockCmd t =>
    rw [answer, blockCmd]
    rfl
  | letCmd t =>
    rw [answer, letCmd]
    rfl
  | ifCmd t =>
    rw [answer, ifCmd]
    rfl
  | ifEitherCmd t =>
    rw [answer, ifEitherCmd]
    rfl
  | whileCmd t =>
    rw [answer, whileCmd]
    rfl
  | branches => exact (branches_all ts log).symm
  | leftover c =>
    rw [course]
    split
    · next end_ => exact (leftover_of_current_isEnd end_ c).symm
    · next open_ =>
      refine Eq.trans ?_ (leftover_of_current_not_isEnd open_ c).symm
      generalize resync cfg (ts, log) = here
      obtain ⟨us, found⟩ := here
      cases us with
      | nil => rfl
      | cons u us =>
        rw [resume]
        dsimp only
        repeat' split
        all_goals rfl
  | program => rfl

end Agreement

section Descent

variable {cfg : Config}

/-- The call `c` is made farther on in the tokens than where the call `d` started, or not before
that and of a production of a lower level. -/
def Below (c d : Production × State) : Prop :=
  c.1.left c.2 < d.1.left d.2 ∨ c.1.left c.2 ≤ d.1.left d.2 ∧ c.1.level < d.1.level

/-- A loop calls itself at its own level, so it gets on with every round. -/
theorem Below.farther {p q : Production} {s u : State} (below : Below (q, u) (p, s))
    (same : q.level = p.level) : q.left u < p.left s := by
  rcases below with farther | ⟨-, lower⟩
  · exact farther
  · exact absurd lower (Nat.not_lt_of_ge (Nat.le_of_eq same.symm))

theorem Below.rank_lt {p q : Production} {s u : State} (below : Below (q, u) (p, s)) :
    q.rank u < p.rank s := by
  have bound := q.level_lt
  rw [Production.rank, Production.rank]
  rcases below with farther | ⟨le, lower⟩
  · dsimp only at farther
    omega
  · dsimp only at le lower
    omega

theorem answer_length_le (p : Production) (s : State) :
    (answer cfg p s).2.1.length ≤ s.1.length := by
  cases p with
  | program => exact Nat.le_trans (leftover cfg _ _ _).le (command cfg s.1 s.2).le
  | _ => exact Parsed.le _

open Course

theorem accept_answer_length_le (kind : Kind) (p : Production) (s : State) :
    let a := answer cfg p s
    (accept cfg kind a.2.1 a.2.2).rest.length ≤ s.1.length :=
  Nat.le_trans (accept cfg kind _ _).le (answer_length_le p s)

theorem primary_calls_below (s : State) :
    ∀ c ∈ (course cfg .primary s).calls (answer cfg), Below c (.primary, s) := by
  obtain ⟨_ | ⟨t, ts⟩, log⟩ := s
  · exact forall_calls_done _
  · rw [course]
    split
    · exact forall_calls_done _
    · exact forall_calls_done _
    · exact forall_calls_call (.inr ⟨Nat.le_refl _, by simp⟩) (forall_calls_done _)
    · exact forall_calls_call (.inl (Nat.lt_succ_self _)) (forall_calls_done _)
    · exact forall_calls_call (.inl (Nat.lt_succ_self _)) (forall_calls_done _)
    · exact forall_calls_done _
    · exact forall_calls_done _

/-- A command starts behind the token that the dispatch takes. -/
theorem single_calls_below (s : State) :
    ∀ c ∈ (course cfg .single s).calls (answer cfg), Below c (.single, s) := by
  obtain ⟨_ | ⟨t, ts⟩, log⟩ := s
  · exact forall_calls_done _
  · rw [course]
    split
    case h_7 => exact forall_calls_done _
    case h_8 =>
      split
      · exact forall_calls_done _
      · exact forall_calls_done _
    all_goals exact forall_calls_call (.inr ⟨Nat.le_refl _, by simp⟩) (forall_calls_done _)

theorem branches_calls_below (s : State) :
    ∀ c ∈ (course cfg .branches s).calls (answer cfg), Below c (.branches, s) := by
  have yes := (accept cfg (.keyword .then_) s.1 s.2).le
  refine forall_calls_call (.inr ⟨yes, by simp⟩) (forall_calls_call (.inr ⟨?_, by simp⟩)
    (forall_calls_done _))
  exact Nat.le_trans (accept_answer_length_le _ _ _) yes

theorem leftover_calls_below (c : Cmd) (s : State) :
    ∀ d ∈ (course cfg (.leftover c) s).calls (answer cfg), Below d (.leftover c, s) := by
  have moves : Moves cfg (fun _ => True) s (resync cfg s) := resync_moves s
  have le : (resync cfg s).1.length ≤ s.1.length := moves.length_le
  rw [course]
  split
  · exact forall_calls_done _
  · generalize resync cfg s = here at le
    obtain ⟨_ | ⟨u, us⟩, log⟩ := here
    · exact forall_calls_done _
    · dsimp only
      split
      · refine forall_calls_call (.inl le) (forall_calls_call (.inl ?_) (forall_calls_done _))
        exact Nat.lt_of_le_of_lt (answer_length_le _ _) le
      · split
        · next starts =>
          -- The round gets on since a command is read where `startsCmd` says that one starts.
          refine forall_calls_call (.inr ⟨le, by simp⟩) (forall_calls_call (.inl ?_)
            (forall_calls_done _))
          exact Nat.lt_of_lt_of_le (command_length_lt cfg starts us log) le
        · exact forall_calls_done _

/-- What a production calls is below it. -/
theorem calls_below (p : Production) (s : State) :
    ∀ c ∈ (course cfg p s).calls (answer cfg), Below c (p, s) := by
  cases p with
  | primary => exact primary_calls_below s
  | single => exact single_calls_below s
  | branches => exact branches_calls_below s
  | leftover c => exact leftover_calls_below c s
  | varDecl pos => exact forall_calls_done _
  | expr | declaration | command | program =>
    -- The loop behind the first item may start where that does, so it has to be of a lower level.
    refine forall_calls_call (.inr ⟨Nat.le_refl _, by simp⟩) (forall_calls_call
      (.inr ⟨?_, by simp⟩) (forall_calls_done _))
    exact answer_length_le _ s
  | blockCmd t => exact forall_calls_call (.inl (Nat.lt_succ_self _)) (forall_calls_done _)
  | letCmd t | whileCmd t =>
    refine forall_calls_call (.inl (Nat.lt_succ_self _)) (forall_calls_call (.inl ?_)
      (forall_calls_done _))
    exact Nat.lt_succ_of_le (accept_answer_length_le _ _ s)
  | ifCmd t =>
    refine forall_calls_call (.inl (Nat.lt_succ_self _)) (forall_calls_call (.inl ?_)
      (forall_calls_done _))
    exact Nat.lt_succ_of_le (answer_length_le _ s)
  | ifEitherCmd t =>
    refine forall_calls_call (.inl (Nat.lt_succ_self _)) (forall_calls_call (.inl ?_)
      (forall_calls_call (.inl ?_) (forall_calls_done _)))
    · exact Nat.lt_succ_of_le (accept_answer_length_le _ _ s)
    · apply Nat.lt_succ_of_le
      exact Nat.le_trans (answer_length_le _ _) (accept_answer_length_le _ _ s)
  | argument => exact forall_calls_call (.inl (Nat.lt_succ_self _)) (forall_calls_done _)
  | constDecl pos =>
    refine forall_calls_call (.inl (Nat.lt_succ_of_le ?_)) (forall_calls_done _)
    exact Nat.le_trans (accept cfg (.mark .is) _ _).le (ident cfg s.1 s.2).le
  | exprTail _ | declTail | cmdTail =>
    -- The next round starts behind the token that is taken here.
    obtain ⟨_ | ⟨t, ts⟩, log⟩ := s
    · exact forall_calls_done _
    · rw [course]
      split
      · refine forall_calls_call (.inl (Nat.lt_succ_self _)) (forall_calls_call (.inl ?_)
          (forall_calls_done _))
        exact Nat.lt_succ_of_le (answer_length_le _ (ts, log))
      · exact forall_calls_done _
  | nameOrCall _ =>
    obtain ⟨_ | ⟨t, ts⟩, log⟩ := s
    · exact forall_calls_done _
    · rw [course]
      split
      · exact forall_calls_call (.inl (Nat.lt_succ_self _)) (forall_calls_done _)
      · exact forall_calls_done _
  | param =>
    obtain ⟨_ | ⟨t, ts⟩, log⟩ := s
    · exact forall_calls_done _
    · rw [course]
      split
      · exact forall_calls_call (.inr ⟨Nat.le_refl _, by simp⟩) (forall_calls_done _)
      · repeat' split
        all_goals exact forall_calls_done _
  | singleDecl =>
    obtain ⟨_ | ⟨t, ts⟩, log⟩ := s
    · exact forall_calls_done _
    · rw [course]
      split
      · exact forall_calls_call (.inr ⟨Nat.le_refl _, by simp⟩) (forall_calls_done _)
      · split
        · exact forall_calls_call (.inr ⟨Nat.le_refl _, by simp⟩) (forall_calls_done _)
        · exact forall_calls_done _
  | assignOrCall _ =>
    obtain ⟨_ | ⟨t, ts⟩, log⟩ := s
    · exact forall_calls_done _
    · rw [course]
      split
      · exact forall_calls_call (.inl (Nat.lt_add_of_pos_right Nat.two_pos)) (forall_calls_done _)
      · split
        · exact forall_calls_call (.inl (Nat.lt_succ_self _)) (forall_calls_done _)
        · exact forall_calls_done _

end Descent

section Programs

variable {cfg : Config}

/-- A parser that may nest its calls only so deep. -/
def tries (cfg : Config) : Nat → (p : Production) → State → Option (Answer p)
  | 0, _, _ => none
  | depth + 1, p, s => (course cfg p s).attempt (tries cfg depth)

theorem tries_eq_some {depth : Nat} {p : Production} {s : State} (enough : p.rank s < depth) :
    tries cfg depth p s = some (answer cfg p s) := by
  induction depth generalizing p s with
  | zero => exact absurd enough (Nat.not_lt_zero _)
  | succ depth ih =>
    have answered : ∀ q u, (q, u) ∈ (course cfg p s).calls (answer cfg) →
        tries cfg depth q u = some (answer cfg q u) := by
      intro q u called
      have lt := (calls_below p s (q, u) called).rank_lt
      exact ih (by omega)
    rw [tries, Course.attempt_eq_some answered, run_course]

theorem isStray_of_resync {s : State} {u : Token} {us : List Token} {log : Log}
    (here : resync cfg s = (u :: us, log)) : isStray u.kind = false := by
  have front := List.head?_dropWhile_not (fun t : Token => isStray t.kind)
    (accept cfg .endOfText s.1 s.2).rest
  rw [show List.dropWhile _ _ = u :: us from congrArg Prod.fst here] at front
  simpa using front

/-- A parser that finds no more commands is at the end of the text. -/
theorem isEnd_stopsAt {s : State} (none : nextPiece cfg s = none) :
    (cfg.current (stopsAt cfg s).1).isEnd = true := by
  rw [stopsAt]
  split
  · assumption
  · next open_ =>
    rw [nextPiece, if_neg open_] at none
    cases here : resync cfg s with
    | mk us log =>
      rw [here] at none
      cases us with
      | nil => rfl
      | cons u us =>
        rcases isStray_eq_false_iff.1 (isStray_of_resync here) with semicolon | end_ | starts
        · simp [semicolon] at none
        · simpa [Config.current, Token.isEnd] using end_
        · dsimp only at none
          split at none
          · cases none
          · cases none

/-- Whatever is left over, the parser gets to the end of the text. -/
theorem isEnd_leftover (c : Cmd) (s : State) :
    (cfg.current (answer cfg (.leftover c) s).2.1).isEnd = true := by
  have goesOn : ∀ (_ : Cmd) (s p : State), nextPiece cfg s = some p → True → True :=
    fun _ _ _ _ _ => trivial
  obtain ⟨d, s', -, stops, all⟩ := leftover_run (I := fun _ _ => True) goesOn c s trivial
  have at_ : (answer cfg (.leftover c) s).2 = stopsAt cfg s' := congrArg Prod.snd all
  rw [at_]
  exact isEnd_stopsAt stops

theorem length_split_le (tokens : List Token) : (split tokens).1.length ≤ tokens.length := by
  unfold split
  split
  · exact Nat.zero_le _
  · split
    · simp
    · exact Nat.le_refl _

/-- Parsing comes to an end with any tokens, and that is at the end of the text. Calls are nested
less deeply than fourteen times the number of tokens, the end of the text included, since each of
them is made farther on in the tokens than its caller started or is of a lower level of the grammar;
a loop calls itself at its own level, so every round of it gets on. What is left over behind a
command is looked at up to the end of the text. -/
theorem parse_terminates (tokens : List Token) (lenient : Bool) (limit : Int) :
    let cfg : Config := ⟨(split tokens).2, lenient, limitOf limit⟩
    let start : State := ((split tokens).1, [])
    (∃ c s, tries cfg (14 * (tokens.length + 1)) .program start = some (c, s) ∧
      (cfg.current s.1).isEnd = true ∧
      parse tokens lenient limit = ⟨⟨(cfg.current start.1).pos, c⟩, s.2, cfg.isFull s.2⟩) ∧
    (∀ p s, (course cfg p s).run (answer cfg) = answer cfg p s ∧
      ∀ q u, (q, u) ∈ (course cfg p s).calls (answer cfg) →
        Below (q, u) (p, s) ∧ (q.level = p.level → q.left u < p.left s)) ∧
    ∀ c s, (cfg.current (answer cfg (.leftover c) s).2.1).isEnd = true := by
  intro cfg start
  let first := command cfg start.1 start.2
  -- The last thing that is called is the loop over what is left over.
  refine ⟨⟨_, _, tries_eq_some ?_, isEnd_leftover first.value first.state, rfl⟩,
    fun p s => ⟨run_course p s, fun q u called => ?_⟩, isEnd_leftover⟩
  · have le : start.1.length ≤ tokens.length := length_split_le tokens
    simp only [Production.rank, Production.left, Production.level]
    omega
  · have below := calls_below p s (q, u) called
    exact ⟨below, below.farther⟩

end Programs

end TriangleTam.Parser
