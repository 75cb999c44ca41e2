import TriangleTam.Proofs.Parser.Intact
import TriangleTam.Proofs.Parser.Quiet

/-!
# Going on after a mistake

Whatever is wrong with the tokens before a semicolon, the commands behind it are read as if they
stood alone. Wherever the parser is when it comes to that semicolon, it unwinds: nothing but a list
of commands or of declarations takes a semicolon. A list of commands reads the command behind it. A
list of declarations finds no declaration there, takes nothing, and ends, and then the body of its
`let` is that command. Either way the command gets into the tree, and the parser is at the next
semicolon.
-/

namespace TriangleTam

section Items

/-- Whether the node is a sequence of commands. -/
def Node.isSeq : Node → Bool
  | .cmd (.seq ..) => true
  | _ => false

/-- The nodes of a command. -/
def Cmd.nodes (c : Cmd) : List Node := c.walk fun _ => true

/-- The commands that a command is made of: those of a sequence, or the command itself. -/
def Cmd.parts : Cmd → List Cmd
  | .seq _ cs => cs
  | c => [c]

/-- The nodes of a command, without the sequence at its top, which comes and goes where commands are
joined. -/
def Cmd.inside (c : Cmd) : List Node := c.parts.flatMap Cmd.nodes

theorem Cmd.walkAll_eq_flatMap (cs : List Cmd) :
    Cmd.walkAll (fun _ => true) cs = cs.flatMap Cmd.nodes := by
  induction cs with
  | nil => rfl
  | cons c cs ih => rw [Cmd.walkAll, ih, List.flatMap_cons, Cmd.nodes]

theorem Cmd.inside_of_isSeq {c : Cmd} (plain : (Node.cmd c).isSeq = false) :
    c.inside = c.nodes := by
  cases c with
  | seq pos cs => cases plain
  | _ => simp [Cmd.inside, Cmd.parts]

theorem Cmd.inside_sublist (c : Cmd) : c.inside.Sublist c.nodes := by
  by_cases plain : (Node.cmd c).isSeq = false
  · rw [Cmd.inside_of_isSeq plain]
  · cases c with
    | seq pos cs =>
      rw [Cmd.nodes, Cmd.walk, Cmd.walkAll_eq_flatMap]
      exact List.sublist_cons_self _ _
    | _ => exact absurd rfl plain

theorem Cmd.inside_block_sublist (p q : Pos) (body : Cmd) :
    body.inside.Sublist (Cmd.block p body q).inside := by
  rw [Cmd.inside_of_isSeq (c := .block _ _ _) rfl, Cmd.nodes, Cmd.walk]
  exact body.inside_sublist.cons _

theorem Cmd.inside_letIn_sublist (pos : Pos) (d : Decl) (body : Cmd) :
    body.inside.Sublist (Cmd.letIn pos d body).inside := by
  rw [Cmd.inside_of_isSeq (c := .letIn _ _ _) rfl, Cmd.nodes, Cmd.walk]
  exact (body.inside_sublist.trans (List.sublist_append_right _ _)).cons _

theorem Cmd.inside_whileDo_sublist (pos : Pos) (cond : Expr) (body : Cmd) :
    body.inside.Sublist (Cmd.whileDo pos cond body).inside := by
  rw [Cmd.inside_of_isSeq (c := .whileDo _ _ _) rfl, Cmd.nodes, Cmd.walk]
  exact (body.inside_sublist.trans (List.sublist_append_right _ _)).cons _

theorem Cmd.inside_ifElse_sublist (pos : Pos) (cond : Expr) (yes no : Cmd) :
    (yes.inside ++ no.inside).Sublist (Cmd.ifElse pos cond yes no).inside := by
  have arms := yes.inside_sublist.append no.inside_sublist
  rw [Cmd.inside_of_isSeq (c := .ifElse _ _ _ _) rfl, Cmd.nodes, Cmd.walk, List.append_assoc]
  exact (arms.trans (List.sublist_append_right _ _)).cons _

theorem Cmd.inside_ifEither_sublist (pos : Pos) (cond alt : Expr) (yes no : Cmd) :
    (yes.inside ++ no.inside).Sublist (Cmd.ifEither pos cond alt yes no).inside := by
  have arms := yes.inside_sublist.append no.inside_sublist
  rw [Cmd.inside_of_isSeq (c := .ifEither _ _ _ _ _) rfl, Cmd.nodes, Cmd.walk, List.append_assoc]
  exact (arms.trans (List.sublist_append_right _ _)).cons _

theorem Grammar.SingleCommand.cases_front {ts : List Token} {c : Cmd}
    (h : Grammar.SingleCommand ts c) :
    ts = [] ∨ (∃ t us, ts = t :: us ∧ t.kind.startsCmd = true) ∧ (Node.cmd c).isSeq = false := by
  cases h with
  | empty => exact .inl rfl
  | call kind | assign kind | block kind | letIn kind | ifElse kind | ifEither kind | whileDo kind
  | pass kind =>
    refine .inr ⟨⟨_, _, rfl, ?_⟩, rfl⟩
    rw [kind]
    rfl

@[simp] theorem Node.isSeq_unplaced (c : Cmd) :
    (Node.cmd c.unplaced).isSeq = (Node.cmd c).isSeq := by
  cases c <;> rfl

end Items

namespace Parser

variable {cfg : Config}

theorem inside_joinCmds_sublist (pos : Pos) (c : Cmd) (cs : List Cmd) :
    (c.inside ++ cs.flatMap Cmd.nodes).Sublist (joinCmds pos c cs).inside := by
  cases cs with
  | nil => simp [joinCmds]
  | cons d ds => exact c.inside_sublist.append (List.Sublist.refl _)

theorem inside_appendCmd (c next : Cmd) : (appendCmd c next).inside = c.inside ++ next.inside := by
  have parts : (appendCmd c next).parts = c.parts ++ next.parts := by
    cases c <;> cases next <;> rfl
  rw [Cmd.inside, parts, List.flatMap_append]
  rfl

section Expected

/-- At the front of `ts` there is the command `c`, and it is read up to the tokens `rest` without a
report. -/
structure Readable (cfg : Config) (ts : List Token) (c : Cmd) (rest : List Token) : Prop where
  front : ∃ t us, ts = t :: us ∧ t.kind.startsCmd = true
  plain : (Node.cmd c).isSeq = false
  read : ∀ log, (single cfg ts log).all = (c, rest, log)

/-- The tokens are the commands `cs`, each behind a semicolon, with empty commands anywhere between
them. -/
inductive Ahead (cfg : Config) : List Token → List Cmd → Prop where
  | none : Ahead cfg [] []
  | empty {s : Token} {ts : List Token} {cs : List Cmd} (semicolon : s.kind = .mark .semicolon)
      (later : Ahead cfg ts cs) : Ahead cfg (s :: ts) cs
  | next {s : Token} {ts : List Token} {c : Cmd} {rest : List Token} {cs : List Cmd}
      (semicolon : s.kind = .mark .semicolon) (first : Readable cfg ts c rest)
      (later : Ahead cfg rest cs) : Ahead cfg (s :: ts) (c :: cs)

/-- The commands `cs` are still to come, behind tokens of any kind. -/
def Awaits (cfg : Config) (ts : List Token) (cs : List Cmd) : Prop :=
  ∃ before ahead, ts = before ++ ahead ∧ (∀ t ∈ before, t.kind ≠ .endOfText) ∧ Ahead cfg ahead cs

/-- The commands `cs` are still to come, or the parser is at the first of them. -/
inductive Due (cfg : Config) : List Token → List Cmd → Prop where
  | later {ts : List Token} {cs : List Cmd} (awaits : Awaits cfg ts cs) : Due cfg ts cs
  | now {ts : List Token} {c : Cmd} {rest : List Token} {cs : List Cmd}
      (first : Readable cfg ts c rest) (ahead : Ahead cfg rest cs) : Due cfg ts (c :: cs)

variable {t : Token} {ts : List Token} {cs : List Cmd}

theorem ne_of_startsCmd {k k' : Kind} (starts : k.startsCmd = true) (other : k'.startsCmd = false) :
    k ≠ k' := by
  rintro rfl
  rw [starts] at other
  cases other

theorem Ahead.awaits (ahead : Ahead cfg ts cs) : Awaits cfg ts cs :=
  ⟨[], ts, rfl, by simp, ahead⟩

theorem Awaits.eq_nil (awaits : Awaits cfg [] cs) : cs = [] := by
  obtain ⟨before, ahead, split, -, rest⟩ := awaits
  obtain ⟨rfl, rfl⟩ := List.append_eq_nil_iff.1 split.symm
  cases rest
  rfl

/-- The first token is the last before the commands that are still to come, and so a semicolon, or
it stands before that one. -/
theorem Awaits.cases_front (awaits : Awaits cfg (t :: ts) cs) :
    (t.kind = .mark .semicolon ∧ Due cfg ts cs) ∨ (t.kind ≠ .endOfText ∧ Awaits cfg ts cs) := by
  obtain ⟨before, ahead, split, open_, rest⟩ := awaits
  cases before with
  | nil =>
    obtain rfl : t :: ts = ahead := split
    cases rest with
    | empty semicolon later => exact .inl ⟨semicolon, .later later.awaits⟩
    | next semicolon first later => exact .inl ⟨semicolon, .now first later⟩
  | cons u before =>
    obtain ⟨rfl, rfl⟩ := List.cons.inj split
    exact .inr ⟨open_ t (by simp), before, ahead, rfl,
      fun t member => open_ t (by simp [member]), rest⟩

/-- Where commands are still to come the text does not end. -/
theorem Awaits.kind_ne (awaits : Awaits cfg (t :: ts) cs) : t.kind ≠ .endOfText := by
  rcases awaits.cases_front with ⟨semicolon, -⟩ | ⟨open_, -⟩
  · rw [semicolon]
    decide
  · exact open_

theorem Awaits.tail (awaits : Awaits cfg (t :: ts) cs) (inner : Inner t.kind) :
    Awaits cfg ts cs :=
  (awaits.cases_front.resolve_left fun found => inner found.1).2

theorem Awaits.due (awaits : Awaits cfg (t :: ts) cs) : Due cfg ts cs := by
  rcases awaits.cases_front with ⟨-, due⟩ | ⟨-, later⟩
  · exact due
  · exact .later later

end Expected

section Keeps

/-- Of the commands `cs` those that are not still to come, in the sense of `At`, are among `nodes`,
unless the parser has given up. -/
def Keeps (cfg : Config) (At : List Token → List Cmd → Prop) (cs : List Cmd) (nodes : List Node)
    (s : State) : Prop :=
  cfg.isFull s.2 = true ∨
    ∃ taken later, cs = taken ++ later ∧ At s.1 later ∧ (taken.flatMap Cmd.nodes).Sublist nodes

variable {At At' : List Token → List Cmd → Prop} {cs : List Cmd} {nodes nodes' : List Node}
  {s s' : State} {P : Kind → Prop}

theorem keeps_here {ts : List Token} (log : Log) (at_ : At ts cs) :
    Keeps cfg At cs nodes (ts, log) :=
  .inr ⟨[], cs, rfl, at_, List.nil_sublist _⟩

theorem Keeps.mono (keeps : Keeps cfg At cs nodes s) (le : nodes.Sublist nodes') :
    Keeps cfg At cs nodes' s := by
  refine keeps.imp_right ?_
  rintro ⟨taken, later, split, at_, among⟩
  exact ⟨taken, later, split, at_, among.trans le⟩

/-- One step after another: what the first does not take is left for the second. -/
theorem Keeps.and (first : Keeps cfg At cs nodes s)
    (second : ∀ ds, At s.1 ds → Keeps cfg At' ds nodes' s') (moves : Moves cfg P s s') :
    Keeps cfg At' cs (nodes ++ nodes') s' := by
  rcases first with full | ⟨taken, later, rfl, at_, among⟩
  · exact .inl (moves.isFull full)
  · refine (second later at_).imp_right ?_
    rintro ⟨taken', later', rfl, at_', among'⟩
    refine ⟨taken ++ taken', later', (List.append_assoc _ _ _).symm, at_', ?_⟩
    rw [List.flatMap_append]
    exact among.append among'

/-- A report takes nothing. -/
theorem keeps_report {ts : List Token} (log : Log) (e : ParseError) (at_ : At ts cs) :
    Keeps cfg At cs nodes (report cfg e ts log).state := by
  by_cases full : cfg.isFull (report cfg e ts log).log = true
  · exact .inl full
  · rw [Parsed.state, report_rest_of_not_isFull full]
    exact keeps_here _ at_

/-- Where no semicolon is taken, all commands are still to come. -/
theorem Awaits.of_moves {ts : List Token} {log : Log} (awaits : Awaits cfg ts cs)
    (moves : Moves cfg Inner (ts, log) s) : cfg.isFull s.2 = true ∨ Awaits cfg s.1 cs := by
  refine moves.keeps (I := fun u => cfg.isFull u.2 = true ∨ Awaits cfg u.1 cs) ?_ (.inr awaits)
  rintro _ _ (inner | ⟨e, ts, log⟩) (full | awaits)
  · exact .inl full
  · exact .inr (awaits.tail inner)
  · exact .inl ((moves_report (P := Inner) e ts log).isFull full)
  · by_cases full : cfg.isFull (report cfg e ts log).log = true
    · exact .inl full
    · rw [Parsed.state, report_rest_of_not_isFull full]
      exact .inr awaits

theorem keeps_of_moves {ts : List Token} {log : Log} (awaits : Awaits cfg ts cs)
    (moves : Moves cfg Inner (ts, log) s) : Keeps cfg (Awaits cfg) cs nodes s :=
  (awaits.of_moves moves).imp_right fun awaits => ⟨[], cs, rfl, awaits, List.nil_sublist _⟩

end Keeps

section Declarations

variable {ts rest : List Token} {c : Cmd} {cs : List Cmd}

/-- Where a command is, there is no declaration. -/
theorem Readable.singleDecl (first : Readable cfg ts c rest) (log : Log) :
    Parser.singleDecl cfg ts log = missingDecl cfg ts log := by
  obtain ⟨t, us, rfl, starts⟩ := first.front
  rw [Parser.singleDecl, if_neg (ne_of_startsCmd starts rfl), if_neg (ne_of_startsCmd starts rfl)]

theorem singleDecl_keeps (log : Log) (due : Due cfg ts cs) :
    Keeps cfg (Due cfg) cs [] (singleDecl cfg ts log).state := by
  cases due with
  | later awaits =>
    exact (awaits.of_moves (singleDecl_moves ts log)).imp_right fun awaits =>
      ⟨[], cs, rfl, .later awaits, List.nil_sublist _⟩
  | now first ahead =>
    rw [first.singleDecl]
    exact keeps_report log .noDeclaration (.now first ahead)

/-- A list of declarations that takes the semicolon before a command ends at that command. -/
theorem declTail_keeps : ∀ (ts : List Token) (log : Log) {cs : List Cmd}, Due cfg ts cs →
    Keeps cfg (Due cfg) cs [] (declTail cfg ts log).all.2
  | [], log, cs, due => by
    rw [declTail]
    exact keeps_here log due
  | t :: ts, log, cs, due => by
    have le := (singleDecl cfg ts log).le
    by_cases semicolon : t.kind = .mark .semicolon
    · have behind : Due cfg ts cs := by
        cases due with
        | later awaits => exact awaits.due
        | now first ahead =>
          obtain ⟨_, _, ⟨⟩, starts⟩ := first.front
          exact absurd semicolon (ne_of_startsCmd starts rfl)
      rw [declTail_of_semicolon semicolon]
      exact (singleDecl_keeps log behind).and (fun ds due => declTail_keeps _ _ due)
        (declTail_moves _ _)
    · rw [declTail, if_neg semicolon]
      exact keeps_here log due
termination_by ts => ts.length
decreasing_by
  all_goals
    simp only [List.length_cons]
    omega

theorem declaration_keeps (log : Log) (due : Due cfg ts cs) :
    Keeps cfg (Due cfg) cs [] (declaration cfg ts log).state :=
  (singleDecl_keeps log due).and (fun _ due => declTail_keeps _ _ due) (declTail_moves _ _)

theorem reportMissing_keeps {At : List Token → List Cmd → Prop} (kind : Kind) (log : Log)
    (at_ : At ts cs) : Keeps cfg At cs [] (reportMissing cfg kind ts log).state := by
  rw [reportMissing]
  split
  · exact keeps_here log at_
  · exact keeps_report log _ at_

/-- The word before the body of a `let` may be missing. -/
theorem accept_in_keeps (log : Log) (due : Due cfg ts cs) :
    Keeps cfg (Due cfg) cs [] (accept cfg (.keyword .in_) ts log).state := by
  cases due with
  | later awaits =>
    exact (awaits.of_moves (accept_moves (by decide) ts log)).imp_right fun awaits =>
      ⟨[], cs, rfl, .later awaits, List.nil_sublist _⟩
  | now first ahead =>
    obtain ⟨t, us, rfl, starts⟩ := first.front
    rw [accept, if_neg (ne_of_startsCmd starts rfl)]
    exact reportMissing_keeps _ log (.now first ahead)

end Declarations

section Commands

/-- Of the commands `cs` those that are not still to come are in the tree of a command. -/
def Recovers (cfg : Config) (cs : List Cmd) {ts : List Token} (r : Parsed Cmd ts) : Prop :=
  Keeps cfg (Awaits cfg) cs r.value.inside r.state

variable {cs : List Cmd}

theorem recovers_of_all {ts : List Token} {r : Parsed Cmd ts} {c : Cmd} {s : State}
    (all : r.all = (c, s)) (keeps : Keeps cfg (Awaits cfg) cs c.inside s) : Recovers cfg cs r := by
  obtain ⟨rfl, rfl⟩ := Prod.mk.inj all
  exact keeps

theorem accept_keeps {ts : List Token} {kind : Kind} (inner : Inner kind) (log : Log)
    (awaits : Awaits cfg ts cs) :
    Keeps cfg (Awaits cfg) cs [] (accept cfg kind ts log).state :=
  keeps_of_moves awaits (accept_moves inner ts log)

theorem expr_keeps {ts : List Token} (log : Log) (awaits : Awaits cfg ts cs) :
    Keeps cfg (Awaits cfg) cs [] (expr cfg ts log).state :=
  keeps_of_moves awaits (expr_moves ts log)

-- The recursion is that of the parser, with the same measures.
mutual

theorem command_recovers (ts : List Token) (log : Log) {cs : List Cmd} (due : Due cfg ts cs) :
    Recovers cfg cs (command cfg ts log) := by
  have le := (single cfg ts log).le
  have both := (single_recovers ts log due).and (fun _ awaits => cmdTail_recovers _ _ awaits)
    (cmdTail_moves _ _)
  exact recovers_of_all (command_all ts log) (both.mono (inside_joinCmds_sublist _ _ _))
termination_by 4 * ts.length + 2
decreasing_by all_goals omega

theorem cmdTail_recovers : ∀ (ts : List Token) (log : Log) {cs : List Cmd}, Awaits cfg ts cs →
    Keeps cfg (Awaits cfg) cs ((cmdTail cfg ts log).all.1.flatMap Cmd.nodes)
      (cmdTail cfg ts log).all.2
  | [], log, cs, awaits => by
    rw [cmdTail]
    exact keeps_here log awaits
  | t :: ts, log, cs, awaits => by
    have le := (single cfg ts log).le
    by_cases semicolon : t.kind = .mark .semicolon
    · have both := (single_recovers ts log awaits.due).and
        (fun _ awaits => cmdTail_recovers _ _ awaits) (cmdTail_moves _ _)
      rw [cmdTail_of_semicolon semicolon]
      exact both.mono ((Cmd.inside_sublist _).append (List.Sublist.refl _))
    · rw [cmdTail, if_neg semicolon]
      exact keeps_here log awaits
termination_by ts => 4 * ts.length + 1
decreasing_by
  all_goals
    simp only [List.length_cons]
    omega

theorem single_recovers (ts : List Token) (log : Log) {cs : List Cmd} (due : Due cfg ts cs) :
    Recovers cfg cs (single cfg ts log) := by
  cases due with
  | @now c rest cs first ahead =>
    -- A production that was still open has come to the command itself.
    refine recovers_of_all (first.read log) (.inr ⟨[c], cs, rfl, ahead.awaits, ?_⟩)
    rw [List.flatMap_singleton, Cmd.inside_of_isSeq first.plain]
  | later awaits =>
    cases ts with
    | nil =>
      rw [single]
      exact keeps_here log awaits
    | cons t ts =>
      by_cases starts : t.kind.startsCmd = true
      · have inner : Inner t.kind := ne_of_startsCmd starts rfl
        exact recovers_of_all (single_of_starts rfl starts ts log)
          (started_recovers t ts log starts (awaits.tail inner))
      · rw [single_cons, if_neg starts]
        split
        · exact keeps_here log awaits
        · exact keeps_of_moves awaits (badCmd_moves _ (t :: ts) log)
termination_by 4 * ts.length

theorem started_recovers (t : Token) (ts : List Token) (log : Log) {cs : List Cmd}
    (starts : t.kind.startsCmd = true) (awaits : Awaits cfg ts cs) :
    Recovers cfg cs (started cfg t ts log) := by
  have afterExpr := (expr cfg ts log).le
  rcases startsCmd_cases starts with kind | kind | kind | kind | kind | kind | kind
  · refine recovers_of_all (started_of_identifier ts log kind) ?_
    exact keeps_of_moves awaits (assignOrCall_moves t ts log)
  · have inner : Inner (.mark .rbrace) := by decide
    refine recovers_of_all (started_of_lbrace ts log kind) ?_
    have block := (command_recovers ts log (.later awaits)).and
      (fun _ awaits => accept_keeps inner _ awaits) (accept_moves inner _ _)
    rw [List.append_nil] at block
    exact block.mono (Cmd.inside_block_sublist _ _ _)
  · -- The declarations may take the semicolon, and then the command is the body.
    refine recovers_of_all (started_of_let ts log kind) ?_
    have word := (declaration_keeps log (.later awaits)).and
      (fun _ due => accept_in_keeps _ due) (accept_moves_any _ _ _)
    have moves : Moves cfg (fun _ => True) (ts, log) _ :=
      (declaration_moves ts log).trans (accept_moves_any (.keyword .in_) _ _)
    have le := moves.length_le
    have body := word.and (fun _ due => single_recovers _ _ due) (single_moves _ _)
    exact body.mono (Cmd.inside_letIn_sublist _ _ _)
  · refine recovers_of_all (started_of_if ts log kind) ?_
    have arms := (expr_keeps log awaits).and (fun _ awaits => branches_recovers _ _ awaits)
      (branches_moves _ _)
    exact arms.mono (Cmd.inside_ifElse_sublist _ _ _ _)
  · have inner : Inner (.keyword .or) := by decide
    refine recovers_of_all (started_of_ifeither ts log kind) ?_
    have word := (expr_keeps log awaits).and (fun _ awaits => accept_keeps inner _ awaits)
      (accept_moves inner _ _)
    have alt := word.and (fun _ awaits => expr_keeps _ awaits) (expr_moves _ _)
    have moves : Moves cfg Inner (ts, log) _ :=
      ((expr_moves ts log).trans (accept_moves inner _ _)).trans (expr_moves _ _)
    have le := moves.length_le
    have arms := alt.and (fun _ awaits => branches_recovers _ _ awaits) (branches_moves _ _)
    exact arms.mono (Cmd.inside_ifEither_sublist _ _ _ _ _)
  · have inner : Inner (.keyword .do_) := by decide
    refine recovers_of_all (started_of_while ts log kind) ?_
    have word := (expr_keeps log awaits).and (fun _ awaits => accept_keeps inner _ awaits)
      (accept_moves inner _ _)
    have moves : Moves cfg Inner (ts, log) _ := (expr_moves ts log).trans (accept_moves inner _ _)
    have le := moves.length_le
    have body := word.and (fun _ awaits => single_recovers _ _ (.later awaits)) (single_moves _ _)
    exact body.mono (Cmd.inside_whileDo_sublist _ _ _)
  · refine recovers_of_all (started_of_pass ts log kind) ?_
    exact keeps_here log awaits
termination_by 4 * ts.length + 3
decreasing_by all_goals omega

theorem branches_recovers (ts : List Token) (log : Log) {cs : List Cmd}
    (awaits : Awaits cfg ts cs) :
    Keeps cfg (Awaits cfg) cs
      ((branches cfg ts log).value.1.inside ++ (branches cfg ts log).value.2.inside)
      (branches cfg ts log).state := by
  have then_ : Inner (.keyword .then_) := by decide
  have else_ : Inner (.keyword .else_) := by decide
  have endif : Inner (.keyword .endif) := by decide
  have start : Moves cfg (fun _ => True) (ts, log) _ := accept_moves_any (.keyword .then_) ts log
  have le₁ := start.length_le
  have middle := (start.trans (single_moves _ _)).trans
    (accept_moves_any (.keyword .else_) _ _)
  have le₂ := middle.length_le
  have yes := (accept_keeps then_ log awaits).and
    (fun _ awaits => single_recovers _ _ (.later awaits)) (single_moves _ _)
  have word := yes.and (fun _ awaits => accept_keeps else_ _ awaits) (accept_moves else_ _ _)
  have no := word.and (fun _ awaits => single_recovers _ _ (.later awaits)) (single_moves _ _)
  have close := no.and (fun _ awaits => accept_keeps endif _ awaits) (accept_moves endif _ _)
  rw [branches]
  refine close.mono ?_
  rw [List.append_nil, List.append_nil]
  exact List.Sublist.refl _
termination_by 4 * ts.length + 1
decreasing_by all_goals omega

end

end Commands

section Programs

variable {cs : List Cmd}

/-- What is left over is added behind the command `c`, and all of the commands `cs` are in it,
unless the parser gives up. -/
def Completes (cfg : Config) (c : Cmd) (cs : List Cmd) (r : Cmd × State) : Prop :=
  cfg.isFull r.2.2 = true ∨
    ∃ nodes, r.1.inside = c.inside ++ nodes ∧ (cs.flatMap Cmd.nodes).Sublist nodes

theorem completes_here {c : Cmd} {ts : List Token} (log : Log) (none : cs = []) :
    Completes cfg c cs (c, ts, log) :=
  .inr ⟨[], by simp, by simp [none]⟩

/-- A further command takes some of the commands, and what is left over behind it the others. -/
theorem Recovers.completes {ts : List Token} {next : Parsed Cmd ts} {c : Cmd} {r : Cmd × State}
    (recovers : Recovers cfg cs next)
    (later : ∀ ds, Awaits cfg next.rest ds → Completes cfg (appendCmd c next.value) ds r)
    (moves : Moves cfg P next.state r.2) : Completes cfg c cs r := by
  rcases recovers with full | ⟨taken, ds, rfl, awaits, among⟩
  · exact .inl (moves.isFull full)
  · refine (later ds awaits).imp_right ?_
    rintro ⟨nodes, added, rest⟩
    refine ⟨next.value.inside ++ nodes, ?_, ?_⟩
    · rw [added, inside_appendCmd, List.append_assoc]
    · rw [List.flatMap_append]
      exact among.append rest

theorem leftover_completes (c : Cmd) : ∀ (ts : List Token) (log : Log) {cs : List Cmd},
    Awaits cfg ts cs → Completes cfg c cs (leftover cfg c ts log).all
  | [], log, cs, awaits => by
    rw [leftover]
    exact completes_here log awaits.eq_nil
  | t :: ts, log, cs, awaits => by
    have open_ : ¬ t.isEnd = true := by simpa [Token.isEnd] using awaits.kind_ne
    have inner : Inner .endOfText := by decide
    have skip : Moves cfg Inner (t :: ts, log) _ := (accept_moves inner (t :: ts) log).trans
      (moves_skipWhile (p := isStray) (fun _ => inner_of_isStray) _ _)
    have le := skip.length_le
    rw [leftover_of_not_isEnd open_]
    dsimp only
    rcases awaits.of_moves skip with full | awaits
    · exact .inl ((resume_moves c _ _).isFull full)
    · have front := List.head?_dropWhile_not (fun t : Token => isStray t.kind)
        (accept cfg .endOfText (t :: ts) log).rest
      generalize (accept cfg .endOfText (t :: ts) log).log = found at awaits ⊢
      cases skipped : skipWhile isStray (accept cfg .endOfText (t :: ts) log).rest with
      | nil =>
        rw [skipped] at awaits
        exact completes_here found awaits.eq_nil
      | cons u us =>
        rw [skipped] at awaits
        have behind : us.length < (t :: ts).length := by
          rw [skipped] at le
          exact le
        rw [skipWhile] at skipped
        rw [skipped] at front
        rw [resume]
        split
        · have shorter := Nat.lt_of_le_of_lt (command cfg us found).le behind
          exact (command_recovers us found awaits.due).completes
            (fun _ awaits => leftover_completes _ _ _ awaits) (leftover_moves _ _ _)
        · next other =>
          split
          · next starts =>
            have shorter :=
              Nat.lt_of_lt_of_le (command_length_lt cfg starts us found) (Nat.succ_le_of_lt behind)
            exact (command_recovers (u :: us) found (.later awaits)).completes
              (fun _ awaits => leftover_completes _ _ _ awaits) (leftover_moves _ _ _)
          · next starts =>
            -- The tokens are skipped up to one of the three.
            rcases isStray_eq_false_iff.1 front with semicolon | ended | starts'
            · exact absurd semicolon other
            · exact absurd ended awaits.kind_ne
            · exact absurd starts' starts
termination_by ts => ts.length
decreasing_by
  · exact shorter
  · exact shorter

/-- The commands that are still to come where a program starts are all in its tree, unless the
parser gives up. -/
theorem program_recovers {ts : List Token} (awaits : Awaits cfg ts cs) :
    let first := command cfg ts []
    let all := leftover cfg first.value first.rest first.log
    cfg.isFull all.log = true ∨ (cs.flatMap Cmd.nodes).Sublist all.value.inside := by
  rcases command_recovers ts [] (.later awaits) with full | ⟨taken, later, rfl, awaits, among⟩
  · exact .inl ((leftover_moves _ _ _).isFull full)
  · refine (leftover_completes _ _ _ awaits).imp_right ?_
    rintro ⟨nodes, added, rest⟩
    rw [show (leftover _ _ _ _).value.inside = _ from added, List.flatMap_append]
    exact among.append rest

end Programs

section Sequences

open Grammar

/-- A command of a sequence. -/
structure Part where
  tokens : List Token
  /-- The token behind the command. -/
  behind : Token
  /-- The tree that the grammar gives the tokens. -/
  tree : Cmd

/-- Commands with a semicolon behind each of them, and the end of the text behind the last. -/
inductive CommandParts : List Part → Prop where
  | last {p} (only : SingleCommand p.tokens p.tree) (end_ : p.behind.kind = .endOfText) :
      CommandParts [p]
  | more {p parts} (first : SingleCommand p.tokens p.tree)
      (semicolon : p.behind.kind = .mark .semicolon) (others : CommandParts parts) :
      CommandParts (p :: parts)

/-- The tree of a command that stands alone, up to where the token behind it is. -/
def alone (lenient : Bool) (limit : Int) (p : Part) : Cmd :=
  (parse (p.tokens ++ [⟨.endOfText, "", p.behind.pos⟩]) lenient limit).program.body

variable {lenient : Bool} {limit : Int} {rest : List Token} {p : Part}

/-- A command that is read without a report up to the token behind it is the tree of that command
alone. -/
theorem Continues.alone {c : Cmd} (goes : Continues cfg ⟨p.behind.pos, lenient, limitOf limit⟩ rest)
    (read : (Parser.single cfg (p.tokens ++ rest) []).all = (c, rest, [])) :
    Parser.alone lenient limit p = c := by
  obtain ⟨value, none, quiet⟩ := Parsed.all_eq_iff.1 (goes.single read [])
  have all : (command ⟨p.behind.pos, lenient, limitOf limit⟩ p.tokens []).all = _ :=
    command_all p.tokens []
  dsimp only at all
  rw [value, none, quiet, cmdTail] at all
  obtain ⟨value, none, quiet⟩ := Parsed.all_eq_iff.1 all
  rw [Parser.alone, parse_append_end rfl]
  dsimp only
  rw [value, none, quiet, leftover]
  rfl

theorem Continues.exists_single (goes : Continues cfg ⟨p.behind.pos, lenient, limitOf limit⟩ rest)
    (derived : SingleCommand p.tokens p.tree) :
    (Parser.single cfg (p.tokens ++ rest) []).all = (Parser.alone lenient limit p, rest, []) ∧
      (Parser.alone lenient limit p).unplaced = p.tree := by
  have ends : Follows (·.endsCmd = true) rest := goes.stops.imp fun k same => same ▸ rfl
  have reads := single_complete cfg derived rest ends
  have read : (Parser.single cfg (p.tokens ++ rest) []).all =
      ((Parser.single cfg (p.tokens ++ rest) []).value, rest, []) :=
    Parsed.all_eq_iff.2 ⟨rfl, reads.rest, reads.log⟩
  rw [goes.alone read]
  exact ⟨read, reads.value⟩

/-- Parsing a command alone gives the tree that the grammar does. -/
theorem unplaced_alone (derived : SingleCommand p.tokens p.tree) (lenient : Bool) (limit : Int) :
    (alone lenient limit p).unplaced = p.tree := by
  have goes : Continues ⟨p.behind.pos, lenient, limitOf limit⟩
      ⟨p.behind.pos, lenient, limitOf limit⟩ [] := ⟨limitOf_pos limit, rfl, trivial, rfl⟩
  exact (goes.exists_single derived).2

/-- The tokens of commands with the tokens behind them. -/
def partTokens (parts : List Part) : List Token :=
  parts.flatMap fun p => p.tokens ++ [p.behind]

/-- The commands other than empty ones, each as it stands alone. -/
def partTrees (lenient : Bool) (limit : Int) (parts : List Part) : List Cmd :=
  (parts.filter (·.tokens ≠ [])).map (alone lenient limit)

/-- A command behind a semicolon, with further commands behind it. -/
theorem Ahead.cons {parts : List Part} (ahead : Ahead cfg rest (partTrees lenient limit parts))
    {s : Token} (semicolon : s.kind = .mark .semicolon) (derived : SingleCommand p.tokens p.tree)
    (goes : Continues cfg ⟨p.behind.pos, lenient, limitOf limit⟩ rest) :
    Ahead cfg (s :: (p.tokens ++ rest)) (partTrees lenient limit (p :: parts)) := by
  rcases derived.cases_front with empty | ⟨⟨t, us, tokens, starts⟩, plain⟩
  · rw [partTrees, List.filter_cons_of_neg (by simp [empty]), empty]
    exact .empty semicolon ahead
  · obtain ⟨read, same⟩ := goes.exists_single derived
    rw [partTrees, List.filter_cons_of_pos (by simp [tokens]), List.map_cons]
    refine .next semicolon ⟨⟨t, us ++ rest, by simp [tokens], starts⟩, ?_, ?_⟩ ahead
    · rw [← Node.isSeq_unplaced, same, plain]
    · exact single_of_quiet goes.limit read

theorem CommandParts.ahead {parts : List Part} (derived : CommandParts parts) (lenient : Bool)
    (limit : Int) {s : Token} (semicolon : s.kind = .mark .semicolon) :
    ∃ us e, partTokens parts = us ++ [e] ∧ e.kind = .endOfText ∧
      Ahead ⟨e.pos, lenient, limitOf limit⟩ (s :: us) (partTrees lenient limit parts) := by
  induction derived generalizing s with
  | @last p only end_ =>
    have goes : Continues ⟨p.behind.pos, lenient, limitOf limit⟩
        ⟨p.behind.pos, lenient, limitOf limit⟩ [] := ⟨limitOf_pos limit, rfl, trivial, rfl⟩
    refine ⟨p.tokens, p.behind, by simp [partTokens], end_, ?_⟩
    have ahead : Ahead _ (s :: (p.tokens ++ [])) (partTrees lenient limit [p]) :=
      Ahead.cons .none semicolon only goes
    rwa [List.append_nil] at ahead
  | @more p parts first semicolon' others ih =>
    obtain ⟨us, e, tokens, end_, later⟩ := ih semicolon'
    have goes : Continues ⟨e.pos, lenient, limitOf limit⟩ ⟨p.behind.pos, lenient, limitOf limit⟩
        (p.behind :: us) := ⟨limitOf_pos limit, rfl, semicolon', rfl⟩
    refine ⟨p.tokens ++ p.behind :: us, e, ?_, end_, later.cons semicolon first goes⟩
    simp only [partTokens, List.flatMap_cons] at tokens ⊢
    simp [tokens]

theorem CommandParts.derived {parts : List Part} (derived : CommandParts parts) :
    ∀ p ∈ parts, SingleCommand p.tokens p.tree := by
  induction derived with
  | last only _ => simpa using only
  | more first _ _ ih => exact List.forall_mem_cons.2 ⟨first, ih⟩

/-- No command behind a mistake is lost: whatever the tokens before a semicolon are, the commands
behind it are in the tree as they are where they stand alone, in their order and none inside
another, unless the parser gives up. A command that stands alone has the tree that the grammar gives
it. -/
theorem parse_recovers {before : List Token} (open_ : ∀ t ∈ before, t.kind ≠ .endOfText) {s : Token}
    (semicolon : s.kind = .mark .semicolon) {parts : List Part}
    (derived : CommandParts parts) (lenient : Bool) (limit : Int)
    (goes : (parse (before ++ s :: partTokens parts) lenient limit).aborted = false) :
    (∀ p ∈ parts, (alone lenient limit p).unplaced = p.tree) ∧
      (((parts.filter (·.tokens ≠ [])).map (alone lenient limit)).flatMap Cmd.nodes).Sublist
        (parse (before ++ s :: partTokens parts) lenient limit).program.nodes := by
  refine ⟨fun p member => unplaced_alone (derived.derived p member) lenient limit, ?_⟩
  obtain ⟨us, e, tokens, end_, ahead⟩ := derived.ahead lenient limit semicolon
  have split : before ++ s :: partTokens parts = (before ++ s :: us) ++ [e] := by simp [tokens]
  rw [split, parse_append_end end_] at goes ⊢
  have awaits : Awaits ⟨e.pos, lenient, limitOf limit⟩ (before ++ s :: us)
    (partTrees lenient limit parts) := ⟨before, s :: us, rfl, open_, ahead⟩
  rcases program_recovers awaits with full | among
  · exact absurd goes (by simp [full])
  · exact (among.trans (Cmd.inside_sublist _)).trans (List.sublist_cons_self _ _)

/-- The tokens of `if x { let const y`, with no end to any of it. -/
def openTokens : List Token :=
  [⟨.keyword .if_, "if", ⟨"", 1, 1⟩⟩, ⟨.identifier, "x", ⟨"", 1, 4⟩⟩,
    ⟨.mark .lbrace, "\x7b", ⟨"", 1, 6⟩⟩, ⟨.keyword .let_, "let", ⟨"", 1, 8⟩⟩,
    ⟨.keyword .const, "const", ⟨"", 1, 12⟩⟩, ⟨.identifier, "y", ⟨"", 1, 18⟩⟩]

/-- The command `y := 1`. -/
def assignPart : Part where
  tokens := [⟨.identifier, "y", ⟨"", 2, 1⟩⟩, ⟨.mark .becomes, ":=", ⟨"", 2, 3⟩⟩,
    ⟨.integer, "1", ⟨"", 2, 6⟩⟩]
  behind := ⟨.mark .semicolon, ";", ⟨"", 2, 7⟩⟩
  tree := .assign Pos.none ⟨Pos.none, "y", none⟩ (.int Pos.none none ⟨Pos.none, "1"⟩)

/-- The command `while z do`, with an empty body. -/
def whilePart : Part where
  tokens := [⟨.keyword .while_, "while", ⟨"", 3, 1⟩⟩, ⟨.identifier, "z", ⟨"", 3, 7⟩⟩,
    ⟨.keyword .do_, "do", ⟨"", 3, 9⟩⟩]
  behind := ⟨.endOfText, "", ⟨"", 4, 1⟩⟩
  tree := .whileDo Pos.none (.name Pos.none none ⟨Pos.none, "z", none⟩) (.skip Pos.none false)

/-- The two commands with an empty one between them. -/
def laterParts : List Part :=
  [assignPart, ⟨[], ⟨.mark .semicolon, ";", ⟨"", 2, 8⟩⟩, .skip Pos.none false⟩, whilePart]

theorem laterParts_derived : CommandParts laterParts :=
  .more (.assign rfl rfl (.primary (.int rfl))) rfl
    (.more .empty rfl (.last (.whileDo rfl (.primary (.name rfl)) rfl .empty) rfl))

/-- Behind what was left open, the assignment and the loop are in the tree, where they stand in the
text. -/
theorem openTokens_recovers :
    (∀ t ∈ openTokens, t.kind ≠ .endOfText) ∧ CommandParts laterParts ∧
      (parse (openTokens ++ ⟨.mark .semicolon, ";", ⟨"", 1, 19⟩⟩ :: partTokens laterParts) false
        10).aborted = false ∧
      ∃ assignment loop : Cmd, assignment.unplaced = assignPart.tree ∧
        assignment.pos = ⟨"", 2, 1⟩ ∧ loop.unplaced = whilePart.tree ∧ loop.pos = ⟨"", 3, 1⟩ ∧
        (assignment.nodes ++ loop.nodes).Sublist
          (parse (openTokens ++ ⟨.mark .semicolon, ";", ⟨"", 1, 19⟩⟩ :: partTokens laterParts) false
            10).program.nodes := by
  have open_ : ∀ t ∈ openTokens, t.kind ≠ .endOfText := by decide
  have goes : (parse (openTokens ++ ⟨.mark .semicolon, ";", ⟨"", 1, 19⟩⟩ :: partTokens laterParts)
    false 10).aborted = false := by decide +kernel
  obtain ⟨trees, among⟩ := parse_recovers open_ rfl laterParts_derived false 10 goes
  have written : laterParts.filter (·.tokens ≠ []) = [assignPart, whilePart] := rfl
  rw [written] at among
  refine ⟨open_, laterParts_derived, goes, alone false 10 assignPart, alone false 10 whilePart,
    trees assignPart (by simp [laterParts]), by decide +kernel,
    trees whilePart (by simp [laterParts]), by decide +kernel, ?_⟩
  simpa using among

end Sequences

end Parser

end TriangleTam
