import TriangleTam.Proofs.Parser.ReportOrder
import TriangleTam.Proofs.Parser.Sequences
import TriangleTam.Proofs.Tree.Trail

/-!
# The order of nodes

A parser goes through the tokens once and never back, and every node it makes has the position of a
token at the front of what is left while the node is made. So the nodes of a tree come in the order
of the text, each one before what is inside it, and the closing brace of a block is behind the body.
That also holds where something is missing, where a parser gives up, and where commands that are
left over are appended to those before them.
-/

namespace TriangleTam

theorem Pos.not_before_self (p : Pos) : ¬ p.before p = true := by
  rw [Pos.before_iff]
  omega

theorem Pos.not_before_of_before {p q : Pos} (behind : p.before q = true) :
    ¬ q.before p = true := by
  rw [Pos.before_iff] at *
  omega

theorem Pos.not_before_trans {p q r : Pos} (first : ¬ q.before p = true)
    (second : ¬ r.before q = true) : ¬ r.before p = true := by
  rw [Pos.before_iff] at *
  omega

namespace Parser

/-- The positions follow the tokens from `ts` to `rest`: each one is that of the token at the front
of what is left at some place between, and these places come in order. -/
inductive Along (cfg : Config) : List Token → List Pos → List Token → Prop where
  | stop {ts rest} (suffix : rest <:+ ts) : Along cfg ts [] rest
  | step {ts us ps rest} (suffix : us <:+ ts) (more : Along cfg us ps rest) :
      Along cfg ts ((cfg.current us).pos :: ps) rest

variable {cfg : Config}

section Along

variable {ts us rest : List Token} {ps qs : List Pos} {p : Pos} {t : Token}

theorem Along.after (along : Along cfg us ps rest) (suffix : us <:+ ts) :
    Along cfg ts ps rest := by
  cases along with
  | stop left => exact .stop (left.trans suffix)
  | step left more => exact .step (left.trans suffix) more

theorem Along.length_le (along : Along cfg ts ps rest) : rest.length ≤ ts.length := by
  induction along with
  | stop suffix => exact suffix.length_le
  | step suffix _ ih => exact Nat.le_trans ih suffix.length_le

theorem Along.append (first : Along cfg ts ps us) (second : Along cfg us qs rest) :
    Along cfg ts (ps ++ qs) rest := by
  induction first with
  | stop suffix => exact second.after suffix
  | step suffix _ ih => exact .step suffix (ih second)

theorem Along.until (along : Along cfg ts ps us) (suffix : rest <:+ us) :
    Along cfg ts ps rest := by
  have whole := along.append (.stop suffix)
  rwa [List.append_nil] at whole

/-- What comes at the front comes before everything else there. -/
theorem Along.current (along : Along cfg ts ps rest) :
    Along cfg ts ((cfg.current ts).pos :: ps) rest :=
  .step List.suffix_rfl along

/-- The position of a token and then those behind it. -/
theorem Along.cons (along : Along cfg ts ps rest) : Along cfg (t :: ts) (t.pos :: ps) rest :=
  (along.after (List.suffix_cons t ts)).current

/-- A node may start where the first thing in it does. -/
theorem Along.twice (along : Along cfg ts (p :: ps) rest) : Along cfg ts (p :: p :: ps) rest := by
  cases along with
  | step suffix more => exact .step suffix (.step List.suffix_rfl more)

theorem Along.tail (along : Along cfg ts (p :: ps) rest) : Along cfg ts ps rest := by
  cases along with
  | step suffix more => exact more.after suffix

end Along

section Tokens

theorem report_suffix (e : ParseError) (ts : List Token) (log : Log) :
    (report cfg e ts log).rest <:+ ts :=
  (Move.report (P := fun _ => True) e ts log).suffix

theorem accept_suffix (kind : Kind) (ts : List Token) (log : Log) :
    (accept cfg kind ts log).rest <:+ ts :=
  (accept_moves_any kind ts log).suffix

theorem accept_along (kind : Kind) (ts : List Token) (log : Log) :
    Along cfg ts [] (accept cfg kind ts log).rest :=
  .stop (accept_suffix kind ts log)

/-- A token that is taken behind a node has no position of its own in the trail. -/
theorem Along.accept {α : Type} {ts us : List Token} {ps : List Pos} {r : Parsed α us}
    (along : Along cfg ts ps r.rest) (kind : Kind) :
    Along cfg ts ps (accept cfg kind r.rest r.log).rest :=
  along.until (accept_suffix kind r.rest r.log)

/-- An error node that is made where a report left off. -/
theorem reported_along (e : ParseError) (ts : List Token) (log : Log) :
    Along cfg ts [(cfg.current (report cfg e ts log).rest).pos] (report cfg e ts log).rest :=
  .step (report_suffix e ts log) (.stop List.suffix_rfl)

theorem ident_along (ts : List Token) (log : Log) :
    Along cfg ts [(ident cfg ts log).value.pos] (ident cfg ts log).rest := by
  have missing : ∀ ts : List Token,
      Along cfg ts [(missingIdent cfg ts log).value.pos] (missingIdent cfg ts log).rest :=
    fun ts => .current (.stop (report_suffix _ ts log))
  cases ts with
  | nil => exact missing []
  | cons t ts =>
    rw [ident]
    split
    · exact .cons (.stop List.suffix_rfl)
    · exact missing (t :: ts)

end Tokens

section Expressions

theorem missingExpr_along (ts : List Token) (log : Log) :
    Along cfg ts (missingExpr cfg ts log).value.trail (missingExpr cfg ts log).rest := by
  rw [missingExpr, Expr.trail_bad]
  exact reported_along _ ts log

theorem missingArg_along (ts : List Token) (log : Log) :
    Along cfg ts (missingArg cfg ts log).value.trail (missingArg cfg ts log).rest := by
  rw [missingArg, Arg.trail_bad]
  exact .current (.stop (report_suffix _ ts log))

theorem varArg_along (t : Token) (ts : List Token) (log : Log) :
    Along cfg (t :: ts) (varArg cfg t.pos ts log).value.trail (varArg cfg t.pos ts log).rest := by
  rw [varArg, Arg.trail_var]
  exact (ident_along ts log).cons

mutual

theorem expr_along (ts : List Token) (log : Log) :
    Along cfg ts (expr cfg ts log).value.trail (expr cfg ts log).rest := by
  have le := (primary cfg ts log).le
  rw [expr]
  exact exprTail_along _ _ _ (primary_along ts log)
termination_by 5 * ts.length + 2
decreasing_by all_goals omega

theorem exprTail_along (x : Expr) : ∀ (ts : List Token) (log : Log) {ts₀ : List Token},
    Along cfg ts₀ x.trail ts →
      Along cfg ts₀ (exprTail cfg x ts log).value.trail (exprTail cfg x ts log).rest
  | [], log, _, before => by
    rw [exprTail]
    exact before
  | t :: ts, log, ts₀, before => by
    rw [exprTail]
    split
    · have le := (primary cfg ts log).le
      have joined := before.append (primary_along ts log).cons
      refine exprTail_along _ _ _ ?_
      -- The new node starts where its left operand does.
      obtain ⟨ps, start⟩ := x.exists_trail
      rw [Expr.trail_binary]
      rw [start, List.cons_append] at joined ⊢
      exact joined.twice
    · exact before
termination_by ts => 5 * ts.length + 1
decreasing_by
  all_goals
    simp only [List.length_cons]
    omega

theorem primary_along : ∀ (ts : List Token) (log : Log),
    Along cfg ts (primary cfg ts log).value.trail (primary cfg ts log).rest
  | [], log => by
    rw [primary]
    exact missingExpr_along [] log
  | t :: ts, log => by
    rw [primary]
    split
    · rw [Expr.trail_int]
      exact (Along.stop List.suffix_rfl).cons.twice
    · rw [Expr.trail_char]
      exact (Along.stop List.suffix_rfl).cons.twice
    · exact nameOrCall_along t ts log
    · rw [Expr.trail_unary]
      exact (primary_along ts log).cons.twice
    · exact ((expr_along ts log).accept _).after (List.suffix_cons _ _)
    · rw [Expr.trail_bad]
      exact (Along.stop List.suffix_rfl).cons
    · exact missingExpr_along (t :: ts) log
termination_by ts => 5 * ts.length
decreasing_by
  all_goals
    simp only [List.length_cons]
    omega

theorem nameOrCall_along (t : Token) : ∀ (ts : List Token) (log : Log),
    Along cfg (t :: ts) (nameOrCall cfg t ts log).value.trail (nameOrCall cfg t ts log).rest
  | [], log => by
    rw [nameOrCall, Expr.trail_name]
    exact (Along.stop List.suffix_rfl).cons.twice
  | p :: ts, log => by
    rw [nameOrCall]
    split
    · rw [Expr.trail_call]
      exact ((argument_along ts log).after (List.suffix_cons _ _)).cons.twice
    · rw [Expr.trail_name]
      exact (Along.stop List.suffix_rfl).cons.twice
termination_by ts => 5 * ts.length + 1
decreasing_by
  all_goals
    simp only [List.length_cons]
    omega

theorem argument_along (ts : List Token) (log : Log) :
    Along cfg ts (argument cfg ts log).value.trail (argument cfg ts log).rest := by
  rw [argument]
  exact (param_along ts log).accept _
termination_by 5 * ts.length + 4
decreasing_by all_goals omega

theorem param_along : ∀ (ts : List Token) (log : Log),
    Along cfg ts (param cfg ts log).value.trail (param cfg ts log).rest
  | [], log => by
    rw [param]
    exact missingArg_along [] log
  | t :: ts, log => by
    rw [param]
    split
    · rw [Arg.trail_value]
      exact (expr_along (t :: ts) log).current
    · split
      · exact varArg_along t ts log
      · split
        · rw [Arg.trail_blank]
          exact (Along.stop List.suffix_rfl).current
        · exact missingArg_along (t :: ts) log
termination_by ts => 5 * ts.length + 3
decreasing_by
  all_goals
    simp only [List.length_cons]
    omega

end

theorem Along.expr {α : Type} {ts us : List Token} {ps : List Pos} {r : Parsed α us}
    (along : Along cfg ts ps r.rest) :
    Along cfg ts (ps ++ (expr cfg r.rest r.log).value.trail) (expr cfg r.rest r.log).rest :=
  along.append (expr_along r.rest r.log)

end Expressions

section Declarations

theorem missingDecl_along (ts : List Token) (log : Log) :
    Along cfg ts (missingDecl cfg ts log).value.trail (missingDecl cfg ts log).rest := by
  rw [missingDecl, Decl.trail_bad]
  exact reported_along _ ts log

theorem constDecl_along (t : Token) (ts : List Token) (log : Log) :
    Along cfg (t :: ts) (constDecl cfg t.pos ts log).value.trail
      (constDecl cfg t.pos ts log).rest := by
  rw [constDecl, Decl.trail_const]
  exact ((ident_along ts log).accept _).expr.cons

theorem varDecl_along (t : Token) (ts : List Token) (log : Log) :
    Along cfg (t :: ts) (varDecl cfg t.pos ts log).value.trail
      (varDecl cfg t.pos ts log).rest := by
  rw [varDecl, Decl.trail_var]
  exact (((ident_along ts log).accept _).append (ident_along _ _)).cons

theorem singleDecl_along (ts : List Token) (log : Log) :
    Along cfg ts (singleDecl cfg ts log).value.trail (singleDecl cfg ts log).rest := by
  cases ts with
  | nil => exact missingDecl_along [] log
  | cons t ts =>
    rw [singleDecl]
    split
    · exact constDecl_along t ts log
    · split
      · exact varDecl_along t ts log
      · exact missingDecl_along (t :: ts) log

theorem declTail_along : ∀ (ts : List Token) (log : Log),
    Along cfg ts ((declTail cfg ts log).value.flatMap Decl.trail) (declTail cfg ts log).rest
  | [], log => by
    rw [declTail]
    exact .stop List.suffix_rfl
  | t :: ts, log => by
    rw [declTail]
    split
    · have le := (singleDecl cfg ts log).le
      rw [List.flatMap_cons]
      exact ((singleDecl_along ts log).append (declTail_along _ _)).after (List.suffix_cons _ _)
    · exact .stop List.suffix_rfl
termination_by ts => ts.length
decreasing_by
  all_goals
    simp only [List.length_cons]
    omega

theorem joinDecls_along {ts rest : List Token} {d : Decl} {ds : List Decl}
    (all : Along cfg ts (d.trail ++ ds.flatMap Decl.trail) rest) :
    Along cfg ts (joinDecls (cfg.current ts).pos d ds).trail rest := by
  cases ds with
  | nil =>
    rw [List.flatMap_nil, List.append_nil] at all
    exact all
  | cons e ds =>
    rw [joinDecls, Decl.trail_seq, List.flatMap_cons]
    · exact all.current
    · simp

theorem declaration_along (ts : List Token) (log : Log) :
    Along cfg ts (declaration cfg ts log).value.trail (declaration cfg ts log).rest :=
  joinDecls_along ((singleDecl_along ts log).append (declTail_along _ _))

end Declarations

section Commands

theorem badCmd_along (e : ParseError) (ts : List Token) (log : Log) :
    Along cfg ts (badCmd cfg e ts log).value.trail (badCmd cfg e ts log).rest := by
  rw [badCmd, Cmd.trail]
  exact (reported_along e ts log).until (List.dropWhile_suffix _)

theorem assignOrCall_along (t : Token) (ts : List Token) (log : Log) :
    Along cfg (t :: ts) (assignOrCall cfg t ts log).value.trail
      (assignOrCall cfg t ts log).rest := by
  cases ts with
  | nil => exact (badCmd_along _ [] log).after (List.suffix_cons _ _)
  | cons p ts =>
    rw [assignOrCall]
    split
    · rw [Cmd.trail]
      exact ((expr_along ts log).after (List.suffix_cons _ _)).cons.twice
    · split
      · rw [Cmd.trail]
        exact ((argument_along ts log).after (List.suffix_cons _ _)).cons.twice
      · exact (badCmd_along _ (p :: ts) log).after (List.suffix_cons _ _)

theorem joinCmds_along {ts rest : List Token} {c : Cmd} {cs : List Cmd}
    (all : Along cfg ts (c.trail ++ Cmd.trailAll cs) rest) :
    Along cfg ts (joinCmds (cfg.current ts).pos c cs).trail rest := by
  cases cs with
  | nil =>
    rw [Cmd.trailAll, List.append_nil] at all
    exact all
  | cons d cs =>
    rw [joinCmds, Cmd.trail, Cmd.trailAll]
    · exact all.current
    · simp

mutual

theorem command_along (ts : List Token) (log : Log) :
    Along cfg ts (command cfg ts log).value.trail (command cfg ts log).rest := by
  have le := (single cfg ts log).le
  rw [command]
  exact joinCmds_along ((single_along ts log).append (cmdTail_along _ _))
termination_by 4 * ts.length + 2
decreasing_by all_goals omega

theorem cmdTail_along : ∀ (ts : List Token) (log : Log),
    Along cfg ts (Cmd.trailAll (cmdTail cfg ts log).value) (cmdTail cfg ts log).rest
  | [], log => by
    rw [cmdTail]
    exact .stop List.suffix_rfl
  | t :: ts, log => by
    rw [cmdTail]
    split
    · have le := (single cfg ts log).le
      rw [Cmd.trailAll]
      exact ((single_along ts log).append (cmdTail_along _ _)).after (List.suffix_cons _ _)
    · exact .stop List.suffix_rfl
termination_by ts => 4 * ts.length + 1
decreasing_by
  all_goals
    simp only [List.length_cons]
    omega

theorem single_along : ∀ (ts : List Token) (log : Log),
    Along cfg ts (single cfg ts log).value.trail (single cfg ts log).rest
  | [], log => by
    rw [single, Cmd.trail]
    exact (Along.stop List.suffix_rfl).current
  | t :: ts, log => by
    rw [single_cons]
    split
    · exact started_along t ts log
    · split
      · rw [Cmd.trail]
        exact (Along.stop List.suffix_rfl).current
      · exact badCmd_along _ (t :: ts) log
termination_by ts => 4 * ts.length
decreasing_by
  all_goals
    simp only [List.length_cons]
    omega

theorem started_along (t : Token) (ts : List Token) (log : Log) :
    Along cfg (t :: ts) (started cfg t ts log).value.trail (started cfg t ts log).rest := by
  have cond : Along cfg ts _ _ := expr_along ts log
  rw [started]
  split
  · exact assignOrCall_along t ts log
  · -- The position of the closing brace is that of the token at which the body ends.
    rw [blockCmd, Cmd.trail]
    exact ((command_along ts log).append (accept_along _ _ _).current).cons
  · rw [letCmd]
    have decl : Along cfg ts _ _ := (declaration_along ts log).accept (.keyword .in_)
    have le := decl.length_le
    rw [Cmd.trail]
    exact (decl.append (single_along _ _)).cons
  · rw [ifCmd]
    have le := cond.length_le
    rw [Cmd.trail, List.append_assoc]
    exact (cond.append (branches_along _ _)).cons
  · rw [ifEitherCmd]
    have alt := (cond.accept (.keyword .or)).expr
    have le := alt.length_le
    rw [Cmd.trail, List.append_assoc]
    exact (alt.append (branches_along _ _)).cons
  · rw [whileCmd]
    have do_ := cond.accept (.keyword .do_)
    have le := do_.length_le
    rw [Cmd.trail]
    exact (do_.append (single_along _ _)).cons
  · rw [Cmd.trail]
    exact (Along.stop List.suffix_rfl).cons
termination_by 4 * ts.length + 3
decreasing_by all_goals omega

theorem branches_along (ts : List Token) (log : Log) :
    Along cfg ts ((branches cfg ts log).value.1.trail ++ (branches cfg ts log).value.2.trail)
      (branches cfg ts log).rest := by
  have then_ : Along cfg ts [] _ := accept_along (.keyword .then_) ts log
  have le₁ := then_.length_le
  have yes := then_.append (single_along _ (accept cfg (.keyword .then_) ts log).log)
  have else_ := yes.accept (.keyword .else_)
  have le₂ := else_.length_le
  rw [branches]
  exact (else_.append (single_along _ _)).accept _
termination_by 4 * ts.length + 1
decreasing_by all_goals omega

end

end Commands

section Programs

theorem appendCmd_eq (c next : Cmd) : appendCmd c next = .seq c.pos (c.parts ++ next.parts) := by
  cases c <;> cases next <;> rfl

/-- A sequence comes before its parts, and any other command is the only part of itself. -/
theorem trailAll_parts (c : Cmd) :
    c.trail = c.pos :: Cmd.trailAll c.parts ∨ Cmd.trailAll c.parts = c.trail := by
  cases c with
  | seq pos cs => exact .inl (by rw [Cmd.trail]; rfl)
  | _ => exact .inr (List.append_nil _)

theorem appendCmd_along {ts us rest : List Token} {c next : Cmd} (first : Along cfg ts c.trail us)
    (second : Along cfg us next.trail rest) : Along cfg ts (appendCmd c next).trail rest := by
  have start : Along cfg ts (c.pos :: Cmd.trailAll c.parts) us := by
    rcases trailAll_parts c with eq | eq
    · rw [← eq]
      exact first
    · obtain ⟨ps, start⟩ := c.exists_trail
      rw [start] at first
      rw [eq, start]
      exact first.twice
  have more : Along cfg us (Cmd.trailAll next.parts) rest := by
    rcases trailAll_parts next with eq | eq
    · rw [eq] at second
      exact second.tail
    · rw [eq]
      exact second
  rw [appendCmd_eq, Cmd.trail, Cmd.trailAll_append, ← List.cons_append]
  exact start.append more

theorem leftover_along (c : Cmd) : ∀ (ts : List Token) (log : Log) {ts₀ : List Token},
    Along cfg ts₀ c.trail ts →
      Along cfg ts₀ (leftover cfg c ts log).all.1.trail (leftover cfg c ts log).all.2.1
  | [], log, _, before => by
    rw [leftover]
    exact before
  | t :: ts, log, ts₀, before => by
    by_cases end_ : t.isEnd = true
    · rw [leftover_of_isEnd end_]
      exact before
    · rw [leftover_of_not_isEnd end_]
      have skip : skipWhile isStray (accept cfg .endOfText (t :: ts) log).rest <:+ t :: ts :=
        (List.dropWhile_suffix _).trans (accept_suffix _ _ _)
      have there := before.until skip
      have le := skip.length_le
      dsimp only
      generalize skipWhile isStray (accept cfg .endOfText (t :: ts) log).rest = us at there le ⊢
      cases us with
      | nil => exact there
      | cons u us =>
        rw [resume]
        split
        · have shorter := (command cfg us (accept cfg .endOfText (t :: ts) log).log).le
          exact leftover_along _ _ _ (appendCmd_along there
            ((command_along us _).after (List.suffix_cons u us)))
        · split
          · next starts =>
            have shorter := Nat.lt_of_lt_of_le
              (command_length_lt cfg starts us (accept cfg .endOfText (t :: ts) log).log) le
            exact leftover_along _ _ _ (appendCmd_along there (command_along (u :: us) _))
          · exact there
termination_by ts => ts.length
decreasing_by
  all_goals
    simp only [List.length_cons] at le ⊢
    omega

/-- The trail of a program follows the tokens before the end of the text. -/
theorem parse_along {e : Token} (last : e.kind = .endOfText) (ts : List Token) (lenient : Bool)
    (limit : Int) :
    let program := (parse (ts ++ [e]) lenient limit).program
    ∃ rest, Along ⟨e.pos, lenient, limitOf limit⟩ ts (program.pos :: program.body.trail) rest := by
  rw [parse_append_end last]
  exact ⟨_, (leftover_along _ _ _ (command_along ts [])).current⟩

end Programs

section Order

variable {ts us rest : List Token} {ps : List Pos}

/-- Each token is behind those before it, and the end of the text is behind all of them. -/
def Climbs (cfg : Config) (ts : List Token) : Prop :=
  (ts.map (·.pos) ++ [cfg.endPos]).Pairwise fun p q => p.before q = true

theorem Climbs.suffix (climbs : Climbs cfg ts) (suffix : us <:+ ts) : Climbs cfg us :=
  climbs.sublist ((suffix.sublist.map _).append_right _)

theorem current_mem (ts : List Token) :
    (cfg.current ts).pos ∈ ts.map (·.pos) ++ [cfg.endPos] := by
  cases ts with
  | nil => exact List.mem_singleton_self _
  | cons t ts => exact List.mem_cons_self

/-- What comes up later is not before what was at the front. -/
theorem Climbs.not_before (climbs : Climbs cfg ts) (suffix : us <:+ ts) :
    ¬ (cfg.current us).pos.before (cfg.current ts).pos = true := by
  cases ts with
  | nil =>
    rw [List.suffix_nil.1 suffix]
    exact Pos.not_before_self _
  | cons t ts =>
    rcases List.suffix_cons_iff.1 suffix with rfl | suffix
    · exact Pos.not_before_self _
    · have member := ((suffix.sublist.map (·.pos)).append_right [cfg.endPos]).subset
        (current_mem us)
      exact Pos.not_before_of_before ((List.pairwise_cons.1 climbs).1 _ member)

/-- Positions that follow the tokens are in order if the tokens are, and none is before the token
at the front. -/
theorem Along.in_order (along : Along cfg ts ps rest) (climbs : Climbs cfg ts) :
    ps.Pairwise (fun p q => ¬ q.before p = true) ∧
      ∀ p ∈ ps, ¬ p.before (cfg.current ts).pos = true := by
  induction along with
  | stop => simp
  | step suffix _ ih =>
    obtain ⟨ordered, behind⟩ := ih (climbs.suffix suffix)
    have here := climbs.not_before suffix
    refine ⟨List.pairwise_cons.2 ⟨behind, ordered⟩, List.forall_mem_cons.2 ⟨here, ?_⟩⟩
    exact fun p member => Pos.not_before_trans here (behind p member)

theorem climbs_scan {c : Cursor} {e : Token} {lenient : Bool} {limit : Nat}
    (tokens : Scanner.tokens (Scanner.scan c).1 = ts ++ [e]) :
    Climbs ⟨e.pos, lenient, limit⟩ ts := by
  have all : ts.map (·.pos) ++ [e.pos] = (ts ++ [e]).map (·.pos) := by simp
  rw [Climbs, all, ← tokens, List.pairwise_map]
  exact (Scanner.scan_layout c).pairwise_before

/-- Whatever the text, a walk of its program visits the nodes in the order of the text: no node is
before one that was visited earlier. The closing brace of a block is not before any node of the
body. -/
theorem walk_in_order (c : Cursor) (lenient : Bool) (limit : Int) :
    let program := (parse (Scanner.tokens (Scanner.scan c).1) lenient limit).program
    (∀ enter : Node → Bool,
      (program.walk enter).Pairwise fun m n => ¬ n.pos.before m.pos = true) ∧
    ∀ pos body close, .cmd (.block pos body close) ∈ program.nodes →
      ∀ n ∈ body.walk fun _ => true, ¬ close.before n.pos = true := by
  obtain ⟨ts, e, tokens, last, -⟩ := exists_tokens_scan c
  obtain ⟨rest, along⟩ := parse_along last ts lenient limit
  have ordered := (along.in_order (climbs_scan tokens)).1
  rw [tokens]
  intro program
  refine ⟨fun enter => ?_, ?_⟩
  · have visited :
        ((program.walk enter).map Node.pos).Sublist (program.pos :: program.body.trail) :=
      (program.walk_sublist.map Node.pos).trans (program.body.map_pos_walk_sublist.cons_cons _)
    exact List.pairwise_map.1 (ordered.sublist visited)
  · intro pos body close member n inside
    have block : .cmd (.block pos body close) ∈ program.body.walk fun _ => true := by
      simpa [Program.nodes, Program.walk] using member
    have closed := (List.pairwise_cons.1 ordered).2.sublist (Cmd.block_sublist _ block)
    have visited := body.map_pos_walk_sublist.subset (List.mem_map_of_mem inside)
    exact (List.pairwise_append.1 closed).2.2 n.pos visited close (List.mem_singleton_self _)

end Order

end Parser

end TriangleTam
